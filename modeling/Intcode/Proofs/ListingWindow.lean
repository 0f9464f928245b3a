import Intcode.Proofs.LinearSweep
import Intcode.Session

/-!
# The current instruction is always on view

A front end shows a few lines of the listing, chosen so that the line at the program counter is one
of them.  A listing from the start of memory may have no line there, after a jump into the middle of
an instruction; then it is replaced by the listing from the program counter on.

* `slice_add`: a slice of a given length;
* `Session.centred`: the lines around one of them, and its index among them;
  `listingWindow_of_found`, `listingWindow_of_skipped` and `listingWindow_of_outside` say which
  lines are shown;
* `Shows`, `shows_centred`: a line in the window, and no other line with its address;
* `window_shows_current_line`: this for every state of the machine and every height.
-/

namespace Intcode

/-- A slice of a given length: so many elements after the first ones are dropped. -/
theorem slice_add {α : Type} (xs : List α) (start height : Nat) :
    slice xs start ((start : Int) + height) = (xs.drop start).take height := by
  have hstop : ¬ (start : Int) + height < 0 := by omega
  have hnat : ((start : Int) + height).toNat = start + height := by omega
  rw [slice, if_neg hstop, hnat, List.drop_take, Nat.add_sub_cancel_left]

/-- Two lines of a listing with the same address are the same line. -/
theorem eq_of_address_eq {lines : List Line} {l l' : Line} {i j : Nat}
    (h : lines.Pairwise fun l next => l.address < next.address) (hi : lines[i]? = some l)
    (hj : lines[j]? = some l') (heq : l.address = l'.address) : i = j := by
  obtain ⟨hilt, rfl⟩ := List.getElem?_eq_some_iff.1 hi
  obtain ⟨hjlt, rfl⟩ := List.getElem?_eq_some_iff.1 hj
  rw [List.pairwise_iff_getElem] at h
  rcases Nat.lt_trichotomy i j with hij | hij | hij
  · have := h i j hilt hjlt hij
    omega
  · exact hij
  · have := h j i hjlt hilt hij
    omega

/-- Of at most `height` lines, the one at index `k` starts at an address, and no other does. -/
structure Shows (window : List Line) (k : Int) (height : Int) (address : Int) : Prop where
  index : 0 ≤ k ∧ k < window.length
  fits : (window.length : Int) ≤ height
  only : ∀ i : Nat, (∃ l, window[i]? = some l ∧ l.address = address) ↔ (i : Int) = k

namespace Session

variable {s : Session} {lines : List Line} {height : Int} {c : Nat}

/-- The lines around the one at index `c`, and its index among them.  Half of them stand before it,
unless there are fewer. -/
def centred (lines : List Line) (c : Nat) (height : Int) : List Line × Int :=
  let start := ((c : Int) - height / 2).toNat
  (slice lines start (start + height), c - start)

theorem listingWindow_of_found (hlist : disassemble s.machine.memory 0 = .ok lines)
    (hpc : s.machine.memory.Valid s.machine.pc)
    (hfind : lines.findIdx? (·.address == s.machine.pc) = some c) :
    s.listingWindow height = .ok (centred lines c height) := by
  simp [listingWindow, hlist, hpc, hfind, bind, Except.bind, pure, Except.pure, centred]

theorem listingWindow_of_skipped {anew : List Line}
    (hlist : disassemble s.machine.memory 0 = .ok lines)
    (hpc : s.machine.memory.Valid s.machine.pc)
    (hfind : lines.findIdx? (·.address == s.machine.pc) = none)
    (hanew : disassemble s.machine.memory s.machine.pc = .ok anew) :
    s.listingWindow height = .ok (centred anew 0 height) := by
  simp [listingWindow, hlist, hpc, hfind, hanew, bind, Except.bind, pure, Except.pure, centred]

theorem listingWindow_of_outside (hlist : disassemble s.machine.memory 0 = .ok lines)
    (hpc : ¬ s.machine.memory.Valid s.machine.pc) :
    s.listingWindow height = .ok (slice lines 0 height, -1) := by
  simp [listingWindow, hlist, hpc, bind, Except.bind, pure, Except.pure]

/-- The lines that are shown, without integers. -/
theorem centred_natCast (lines : List Line) (c n : Nat) :
    centred lines c n = ((lines.drop (c - n / 2)).take n, ((min c (n / 2) : Nat) : Int)) := by
  have hstart : ((c : Int) - (n : Int) / 2).toNat = c - n / 2 := by omega
  have hindex : (c : Int) - (c - n / 2 : Nat) = (min c (n / 2) : Nat) := by omega
  rw [centred, hstart, slice_add, hindex]

/-- The lines around one of them are consecutive. -/
theorem centred_infix (lines : List Line) (c n : Nat) : (centred lines c n).1 <:+: lines := by
  rw [centred_natCast]
  exact (List.take_prefix _ _).isInfix.trans (List.drop_suffix _ _).isInfix

/-- The lines around the first one are the first lines. -/
theorem centred_zero (lines : List Line) (n : Nat) : (centred lines 0 n).1 = lines.take n := by
  rw [centred_natCast, Nat.zero_sub, List.drop_zero]

/-- The lines around one of them show it, if there is room for one line. -/
theorem shows_centred {l : Line} {n : Nat}
    (hlines : lines.Pairwise fun l next => l.address < next.address) (hl : lines[c]? = some l)
    (hn : 1 ≤ n) : Shows (centred lines c n).1 (centred lines c n).2 n l.address := by
  have hc : c < lines.length := (List.getElem?_eq_some_iff.1 hl).1
  rw [centred_natCast]
  constructor
  · simp only [List.length_take, List.length_drop]
    omega
  · simp only [List.length_take]
    omega
  · intro i
    dsimp only
    rw [List.getElem?_take, List.getElem?_drop, Int.natCast_inj]
    constructor
    · rintro ⟨l', hl', haddress⟩
      split_ifs at hl' with hi
      have := eq_of_address_eq hlines hl' hl haddress
      omega
    · rintro rfl
      have hindex : c - n / 2 + min c (n / 2) = c := by omega
      exact ⟨l, by rw [if_pos (by omega), hindex, hl], rfl⟩

/-- A line that is found in a listing is shown by the lines around it. -/
theorem shows_of_findIdx? {m : Memory} {a n : Nat} {pc : Int}
    (hfind : (sweep m a).findIdx? (·.address == pc) = some c) (hn : 1 ≤ n) :
    Shows (centred (sweep m a) c n).1 (centred (sweep m a) c n).2 n pc := by
  obtain ⟨hc, haddress, -⟩ := List.findIdx?_eq_some_iff_getElem.1 hfind
  have hshows := shows_centred (pairwise_sweep m a) (List.getElem?_eq_getElem hc) hn
  rwa [beq_iff_eq.1 haddress] at hshows

/-- The listing from an address on starts with a line for it. -/
theorem shows_of_valid {m : Memory} {n : Nat} {pc : Int} (hpc : m.Valid pc) (hn : 1 ≤ n) :
    Shows (centred (sweep m pc.toNat) 0 n).1 (centred (sweep m pc.toNat) 0 n).2 n pc := by
  have hline : (sweep m pc.toNat)[0]? = some (lineAt m pc.toNat) := by
    rw [sweep_of_lt hpc.toNat_lt]
    rfl
  have hshows := shows_centred (pairwise_sweep m pc.toNat) hline hn
  rwa [address_lineAt, Int.toNat_of_nonneg hpc.1] at hshows

/-- **The current instruction is always on view.**  Take a session on a machine with a memory whose
words can be written and which is not empty, as no loaded program is, and any height of at least one
line.  If the program counter is inside memory, then the window has at most that many lines, of
which exactly one starts at the program counter, the one at the reported index.  The window is a
block of the listing from the start of memory, if that has a line for the program counter, and else
consists of the first lines of the listing from the program counter on.  If the program counter is
outside memory, then the index is -1 and the window consists of the first lines of the listing from
the start. -/
theorem window_shows_current_line (hm : 0 < s.machine.memory.size)
    (hshort : ∀ v ∈ s.machine.memory.toList, Numeral.Short v) (hheight : 1 ≤ height) :
    ∃ lines window k, disassemble s.machine.memory 0 = .ok lines ∧
      s.listingWindow height = .ok (window, k) ∧
      (s.machine.memory.Valid s.machine.pc →
        Shows window k height s.machine.pc ∧
        ((∃ l ∈ lines, l.address = s.machine.pc) → window <:+: lines) ∧
        ((∀ l ∈ lines, l.address ≠ s.machine.pc) →
          ∃ anew, disassemble s.machine.memory s.machine.pc = .ok anew ∧
            window = anew.take height.toNat)) ∧
      (¬ s.machine.memory.Valid s.machine.pc → k = -1 ∧ window = lines.take height.toNat) := by
  obtain ⟨n, rfl⟩ := Int.eq_ofNat_of_zero_le (show 0 ≤ height by omega)
  have hn : 1 ≤ n := by omega
  have hstart : s.machine.memory.Valid 0 := ⟨le_refl 0, by exact_mod_cast hm⟩
  have hzero := disassemble_of_short hshort hstart
  by_cases hpc : s.machine.memory.Valid s.machine.pc
  · cases hfind : (sweep s.machine.memory 0).findIdx? (·.address == s.machine.pc) with
    | some c =>
      obtain ⟨hc, haddress, -⟩ := List.findIdx?_eq_some_iff_getElem.1 hfind
      refine ⟨_, _, _, hzero, listingWindow_of_found hzero hpc hfind,
        fun _ => ⟨shows_of_findIdx? hfind hn, fun _ => centred_infix _ _ _, fun hnone => ?_⟩,
        fun h => absurd hpc h⟩
      exact absurd (beq_iff_eq.1 haddress) (hnone _ (List.getElem_mem hc))
    | none =>
      have hanew := disassemble_of_short hshort hpc
      refine ⟨_, _, _, hzero, listingWindow_of_skipped hzero hpc hfind hanew,
        fun _ => ⟨shows_of_valid hpc hn, ?_, fun _ => ⟨_, hanew, centred_zero _ _⟩⟩,
        fun h => absurd hpc h⟩
      rintro ⟨l, hl, haddress⟩
      exact absurd haddress (beq_eq_false_iff_ne.1 (List.findIdx?_eq_none_iff.1 hfind l hl))
  · exact ⟨_, _, _, hzero, listingWindow_of_outside hzero hpc, fun h => absurd h hpc,
      fun _ => ⟨rfl, slice_zero_natCast _ _⟩⟩

/-- A session on a program that jumps to the second word of an addition, after the jump. -/
def intoAddition : Session :=
  ((start (.ofProgram ⟨"1105,1,4,1101,99,0,0", #[1105, 1, 4, 1101, 99, 0, 0], by rfl⟩ false)
    none).advance false).1

/-- A session on a program that jumps out of memory, after the jump. -/
def outOfMemory : Session :=
  ((start (.ofProgram ⟨"1105,1,-1", #[1105, 1, -1], by rfl⟩ false) none).advance false).1

/-- After the jump into the addition the listing starts there, though the listing from the start has
no such line; after the jump out of memory no line is current. -/
theorem intoAddition_shown :
    ((∀ v ∈ intoAddition.machine.memory.toList, Numeral.Short v) ∧ intoAddition.machine.pc = 4 ∧
      (disassemble intoAddition.machine.memory 0).map (List.map Line.address) = .ok [0, 3] ∧
      ∃ window, intoAddition.listingWindow 2 = .ok (window, 0) ∧ Shows window 0 2 4 ∧
        window.map Line.mnemonic = ["HALT", "DATA"]) ∧
    ((∀ v ∈ outOfMemory.machine.memory.toList, Numeral.Short v) ∧ outOfMemory.machine.pc = -1 ∧
      ∃ window, outOfMemory.listingWindow 2 = .ok (window, -1)) := by
  have hinto : ∀ v ∈ intoAddition.machine.memory.toList, Numeral.Short v := by decide +kernel
  have hout : ∀ v ∈ outOfMemory.machine.memory.toList, Numeral.Short v := by decide +kernel
  have hpc : intoAddition.machine.pc = 4 := by decide +kernel
  refine ⟨⟨hinto, hpc, by decide +kernel, ?_⟩, hout, by decide +kernel, ?_⟩
  · obtain ⟨lines, window, k, -, hwindow, hshows, -⟩ :=
      window_shows_current_line (by decide +kernel) hinto (show (1 : Int) ≤ 2 by decide)
    have hlines : intoAddition.listingWindow 2 =
        .ok ([⟨4, [99], "HALT", []⟩, ⟨5, [0], "DATA", ["0"]⟩], 0) := by decide +kernel
    cases hwindow.symm.trans hlines
    rw [hpc] at hshows
    exact ⟨_, hlines, (hshows (by decide +kernel)).1, rfl⟩
  · obtain ⟨lines, window, k, -, hwindow, -, houtside⟩ :=
      window_shows_current_line (by decide +kernel) hout (show (1 : Int) ≤ 2 by decide)
    obtain ⟨rfl, -⟩ := houtside (by decide +kernel)
    exact ⟨window, hwindow⟩

end Session

end Intcode

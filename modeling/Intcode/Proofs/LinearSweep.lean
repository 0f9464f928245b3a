import Intcode.Proofs.ListingMeaning
import Mathlib.Data.List.Chain

/-!
# A listing divides memory

The lines of a listing take memory apart without a gap and without an overlap: each line starts
where the one before it ends.  How far a line goes depends on the word it starts with, so that the
end of a line is known only when the line is.

* `Memory.words_eq_take`, `words_append_drop`: consecutive cells as a piece of the whole memory;
* `words_lineAt`, `add_spanAt_le`, `length_words_lineAt`: the extent of a single line;
* `Memory.IsData`, `Line.Describes`, `describes_lineAt`: which words are listed as data, and what
  any other line holds;
* `flatMap_words_sweep`, `isChain_sweep`, `pairwise_sweep`, `sweep_of_sweep_eq_append`: what a sweep
  from any address has in common with its remainder, by induction over its lines;
* `listing_divides_memory`: all this for the listing from any address.
-/

namespace Intcode

variable {m : Memory} {a b : Nat} {l : Line}

/-! ### Consecutive cells -/

theorem Memory.words_eq_take (m : Memory) (a n : Nat) : m.words a n = (m.toList.drop a).take n := by
  apply List.ext_getElem?
  intro k
  rw [getElem?_words, List.getElem?_take, List.getElem?_drop, Array.getElem?_toList]

theorem Memory.words_append_drop (m : Memory) (a n : Nat) :
    m.words a n ++ m.toList.drop (a + n) = m.toList.drop a := by
  rw [words_eq_take, ← List.drop_drop, List.take_append_drop]

theorem Memory.length_words {n : Nat} (h : a + n ≤ m.size) : (m.words a n).length = n := by
  rw [words_eq_take, List.length_take, List.length_drop, Array.length_toList]
  omega

/-! ### A single line -/

theorem words_lineAt (m : Memory) (a : Nat) : (lineAt m a).words = m.words a (spanAt m a) := by
  unfold lineAt spanAt
  split <;> rfl

/-- An instruction is listed exactly if its word decodes and its parameters lie inside memory. -/
theorem instructionAt?_eq_some_iff {i : Instruction} :
    instructionAt? m a = some i ↔
      ∃ word, m[a]? = some word ∧ Instruction.decode word a = .ok i ∧
        a + i.opcode.width ≤ m.size := by
  unfold instructionAt?
  simp only [bind, Option.bind_eq_some_iff]
  refine exists_congr fun word => and_congr_right fun _ => ?_
  cases Instruction.decode word a with
  | error f => simp
  | ok j =>
    simp only [Except.ok.injEq]
    constructor
    · intro h
      split_ifs at h with hfits
      cases h
      exact ⟨rfl, hfits⟩
    · rintro ⟨rfl, hfits⟩
      exact if_pos hfits

/-- No line passes the end of memory. -/
theorem add_spanAt_le (h : a < m.size) : a + spanAt m a ≤ m.size := by
  unfold spanAt
  split
  · rename_i i hi
    obtain ⟨-, -, -, hfits⟩ := instructionAt?_eq_some_iff.1 hi
    exact hfits
  · exact h

theorem length_words_lineAt (h : a < m.size) : (lineAt m a).words.length = spanAt m a := by
  rw [words_lineAt, Memory.length_words (add_spanAt_le h)]

/-- The word at an address stands for itself: it does not decode, or its instruction would pass the
end of memory. -/
def Memory.IsData (m : Memory) (a word : Int) : Prop :=
  match Instruction.decode word a with
  | .ok i => (m.size : Int) < a + i.opcode.width
  | .error _ => True

/-- What a line holds, by the word at its address: that word alone if the word is data, and else
the whole of the instruction that it decodes to. -/
structure Line.Describes (l : Line) (m : Memory) (word : Int) : Prop where
  starts : m.read? l.address = some word ∧ l.words.head? = some word
  data : l.mnemonic = "DATA" ∧ l.words = [word] ↔ m.IsData l.address word
  instruction : ∀ i, Instruction.decode word l.address = .ok i → ¬ m.IsData l.address word →
    l.words.length = i.opcode.width ∧ l.mnemonic = i.opcode.mnemonic

theorem Opcode.mnemonic_ne_data (o : Opcode) : o.mnemonic ≠ "DATA" := by
  cases o <;> decide

theorem isData_iff {word : Int} (hword : m[a]? = some word) :
    m.IsData a word ↔ instructionAt? m a = none := by
  rw [Option.eq_none_iff_forall_ne_some]
  simp only [ne_eq, instructionAt?_eq_some_iff, hword, Option.some.injEq, exists_eq_left', not_and,
    not_le]
  unfold Memory.IsData
  cases Instruction.decode word a with
  | error f => simp
  | ok i =>
    simp only [Except.ok.injEq, forall_eq']
    omega

/-- Every line describes the word at its address. -/
theorem describes_lineAt (h : a < m.size) : ∃ word, (lineAt m a).Describes m word := by
  obtain ⟨word, hword⟩ : ∃ word, m[a]? = some word := ⟨m[a], Array.getElem?_eq_getElem h⟩
  have hdata := isData_iff hword
  have hspan : ∃ n, spanAt m a = n + 1 := Nat.exists_eq_add_one.2 (spanAt_pos m a)
  refine ⟨word, ⟨?_, ?_⟩, ?_, ?_⟩
  · rw [address_lineAt]
    exact hword
  · obtain ⟨n, hn⟩ := hspan
    rw [words_lineAt, hn, Memory.words_succ hword]
    rfl
  · rw [address_lineAt, hdata]
    cases hi : instructionAt? m a with
    | none => simp [lineAt, hi, Line.data, Memory.words_one hword]
    | some i => simp [lineAt, hi, i.opcode.mnemonic_ne_data]
  · intro i hi hnot
    rw [address_lineAt, hdata] at hnot
    rw [address_lineAt] at hi
    obtain ⟨j, hj⟩ := Option.ne_none_iff_exists'.1 hnot
    obtain ⟨word', hword', hdecode, -⟩ := instructionAt?_eq_some_iff.1 hj
    cases hword.symm.trans hword'
    cases hi.symm.trans hdecode
    rw [length_words_lineAt h]
    simp [spanAt, lineAt, hj]

/-! ### All lines from an address on -/

/-- A line ends where the next one starts. -/
def Line.Precedes (l next : Line) : Prop :=
  next.address = l.address + l.words.length

theorem sweep_of_lt (h : a < m.size) : sweep m a = lineAt m a :: sweep m (a + spanAt m a) := by
  rw [sweep, if_pos h]

theorem sweep_of_ge (h : ¬ a < m.size) : sweep m a = [] := by
  rw [sweep, if_neg h]

/-- The words on the lines are the cells from the start on. -/
theorem flatMap_words_sweep (m : Memory) (a : Nat) :
    (sweep m a).flatMap Line.words = m.toList.drop a := by
  fun_induction sweep m a with
  | case1 a ha ih => rw [List.flatMap_cons, ih, words_lineAt, Memory.words_append_drop]
  | case2 a ha =>
    rw [List.flatMap_nil, List.drop_eq_nil_of_le]
    rw [Array.length_toList]
    omega

/-- Every line starts where the one before it ends. -/
theorem isChain_sweep (m : Memory) (a : Nat) : (sweep m a).IsChain Line.Precedes := by
  fun_induction sweep m a with
  | case1 a ha ih =>
    refine List.isChain_cons.2 ⟨fun next hnext => ?_, ih⟩
    by_cases hb : a + spanAt m a < m.size
    · rw [sweep_of_lt hb] at hnext
      cases hnext
      rw [Line.Precedes, address_lineAt, address_lineAt, length_words_lineAt ha, Int.natCast_add]
    · rw [sweep_of_ge hb] at hnext
      cases hnext
  | case2 a ha => exact .nil

theorem le_address_of_mem_sweep (h : l ∈ sweep m a) : (a : Int) ≤ l.address := by
  fun_induction sweep m a with
  | case1 a ha ih =>
    rcases List.mem_cons.1 h with rfl | h
    · rw [address_lineAt]
    · have := ih h
      omega
  | case2 a ha => cases h

/-- The addresses of the lines increase, so that no two lines have the same one. -/
theorem pairwise_sweep (m : Memory) (a : Nat) :
    (sweep m a).Pairwise fun l next => l.address < next.address := by
  fun_induction sweep m a with
  | case1 a ha ih =>
    refine List.pairwise_cons.2 ⟨fun next hnext => ?_, ih⟩
    have hspan := spanAt_pos m a
    have hle := le_address_of_mem_sweep hnext
    rw [address_lineAt]
    omega
  | case2 a ha => exact .nil

/-- A sweep that is started again at one of its lines gives that line and all that follow it. -/
theorem sweep_of_sweep_eq_append {before after : List Line}
    (h : sweep m a = before ++ l :: after) :
    ∃ b < m.size, l = lineAt m b ∧ sweep m b = l :: after := by
  fun_induction sweep m a generalizing before with
  | case1 a ha ih =>
    cases before with
    | nil =>
      obtain ⟨rfl, hrest⟩ := List.cons.inj h
      exact ⟨a, ha, rfl, by rw [sweep_of_lt ha, hrest]⟩
    | cons first before => exact ih (List.cons.inj h).2
  | case2 a ha => simp at h

/-- **A listing divides memory.**  Every memory whose words can be written has a listing from each
of its addresses.  The words on its lines are the cells from that address on.  Its first line starts
at the address, and every other line where the one before it ends.  A line is a single word of data
exactly if its word does not decode or the instruction would pass the end of memory; otherwise it
holds as many words as the instruction has, under its mnemonic.  And the listing from the address of
any line is the remainder of the listing, from that line on. -/
theorem listing_divides_memory {start : Int} (hm : ∀ v ∈ m.toList, Numeral.Short v)
    (hstart : m.Valid start) :
    ∃ lines, disassemble m start = .ok lines ∧
      lines.flatMap Line.words = m.toList.drop start.toNat ∧
      lines.head?.map Line.address = some start ∧
      lines.IsChain Line.Precedes ∧
      (∀ l ∈ lines, ∃ word, l.Describes m word) ∧
      ∀ before l after, lines = before ++ l :: after →
        disassemble m l.address = .ok (l :: after) := by
  refine ⟨_, disassemble_of_short hm hstart, flatMap_words_sweep _ _, ?_, isChain_sweep _ _, ?_, ?_⟩
  · rw [sweep_of_lt hstart.toNat_lt, List.head?_cons, Option.map_some, address_lineAt,
      Int.toNat_of_nonneg hstart.1]
  · intro l hl
    obtain ⟨b, hb, rfl⟩ := exists_lineAt_of_mem_sweep hl
    exact describes_lineAt hb
  · intro before l after hlines
    obtain ⟨b, hb, rfl, hsweep⟩ := sweep_of_sweep_eq_append hlines
    rw [address_lineAt, disassemble_of_short hm (Memory.valid_natCast.2 hb), Int.toNat_natCast,
      hsweep]

/-- An addition, a halt, a zero, and at the end two instructions without room for their
parameters. -/
def cutShort : Memory :=
  #[1101, 5, -3, 3, 99, 0, 1002, 4]

/-- The zero and the two words at the end are data, and the listing from the halt on shows the same
lines for them. -/
theorem cutShort_divided :
    (∀ v ∈ cutShort.toList, Numeral.Short v) ∧ cutShort.Valid 0 ∧
      ∃ lines, disassemble cutShort 0 = .ok lines ∧ lines.flatMap Line.words = cutShort.toList ∧
        lines.map Line.address = [0, 4, 5, 6, 7] ∧
        lines.map Line.mnemonic = ["ADD", "HALT", "DATA", "DATA", "DATA"] ∧
        disassemble cutShort 4 = .ok (lines.drop 1) := by
  have hshort : ∀ v ∈ cutShort.toList, Numeral.Short v := by decide +kernel
  have hvalid : cutShort.Valid 0 := by decide
  obtain ⟨lines, hlist, hwords, -, -, -, hrest⟩ := listing_divides_memory hshort hvalid
  obtain rfl : lines =
      [⟨0, [1101, 5, -3, 3], "ADD", ["#5", "#-3", "[3]"]⟩, ⟨4, [99], "HALT", []⟩,
        ⟨5, [0], "DATA", ["0"]⟩, ⟨6, [1002], "DATA", ["1002"]⟩, ⟨7, [4], "DATA", ["4"]⟩] :=
    Except.ok.inj (hlist.symm.trans (by decide +kernel))
  exact ⟨hshort, hvalid, _, hlist, hwords, rfl, rfl, hrest [_] _ _ rfl⟩

end Intcode

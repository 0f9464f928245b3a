import Intcode.Proofs.ListingMeaning
import Intcode.Proofs.SessionOperations

/-!
# What escapes from a session

A session keeps the faults of its program to itself: a fault becomes the error of the session, and
the call that has met it succeeds.  What is not kept is the failure to write a long integer.  Here
the calls that fail are listed, with the integers that make them fail.

* `Session.Breaks`: an operation has to write an integer that is too long; `perform_eq_error_iff`;
* `listingWindow_eq_error_iff`, `statusLine_eq_error_iff`: the same for what a front end shows;
* `error_of_fault`: a fault becomes the error of the session;
* `nonempty_after`: the memory of a session is never empty, so that it can be listed;
* `only_long_integers_escape`: all this for every session that can be reached;
* `squaring_escapes`: a program with which a call fails and the session has no error.
-/

namespace Intcode

namespace Session

variable {s s' : Session} {auto : Bool} {op : Operation} {f : Failure}

/-! ### Operations that fail -/

/-- The operation has to write an integer that is too long. -/
inductive Breaks (s : Session) : Operation → Prop
  /-- The instruction has a fault, and its message would name the integer. -/
  | naming {auto : Bool} (h : s.held = false) (hn : s.machine.config.next = .error .overlong) :
      Breaks s (.advance auto)
  /-- After the instruction there is a recorded event with the integer. -/
  | logging {auto : Bool} {x : Event} (h : s.held = false)
      (hx : x ∈ s.stepped.machine.events.toList) (hl : ¬ x.Legible) : Breaks s (.advance auto)
  /-- There is a recorded event with the integer. -/
  | consuming {x : Event} (hx : x ∈ s.machine.events.toList) (hl : ¬ x.Legible) : Breaks s .consume

theorem consume_eq_error_iff :
    s.consume.2 = .error f ↔ f = .overlong ∧ ∃ x ∈ s.machine.events.toList, ¬ x.Legible := by
  rcases consume_cases s with ⟨hx, h⟩ | ⟨hx, log, h⟩
  · rw [h]
    constructor
    · intro hf
      cases hf
    · rintro ⟨-, x, hmem, hl⟩
      exact absurd (hx x hmem) hl
  · rw [h]
    constructor
    · intro hf
      cases hf
      exact ⟨rfl, hx⟩
    · rintro ⟨rfl, -⟩
      rfl

theorem advance_eq_error_iff :
    (s.advance auto).2 = .error f ↔ f = .overlong ∧ s.Breaks (.advance auto) := by
  rcases hadvance : s.advance auto with ⟨s', reply⟩
  constructor
  · intro hf
    obtain rfl : reply = .error f := hf
    cases calls_of_advance hadvance with
    | unnamed h hn => exact ⟨rfl, .naming h hn⟩
    | faultUnshown h hn hx log =>
      obtain ⟨x, hmem, hl⟩ := hx
      exact ⟨rfl, .logging h hmem hl⟩
    | doneUnshown h hs hx log =>
      obtain ⟨x, hmem, hl⟩ := hx
      exact ⟨rfl, .logging h hmem hl⟩
  · rintro ⟨rfl, hbreaks⟩
    cases calls_of_advance hadvance with
    | held h message =>
      cases hbreaks with
      | naming h' => simp [h] at h'
      | logging h' => simp [h] at h'
    | fault h hn hx =>
      cases hbreaks with
      | naming h' hn' => simp [hn] at hn'
      | logging h' hmem hl => exact absurd (hx _ hmem) hl
    | done h hs hx =>
      cases hbreaks with
      | naming h' hn' => simp [Machine.step_of_error hn'] at hs
      | logging h' hmem hl => exact absurd (hx _ hmem) hl
    | _ => rfl

/-- An operation fails exactly if it has to write an integer that is too long. -/
theorem perform_eq_error_iff : (s.perform op).2 = .error f ↔ f = .overlong ∧ s.Breaks op := by
  cases op with
  | advance auto => exact map_eq_error_iff.trans advance_eq_error_iff
  | consume =>
    refine (map_eq_error_iff.trans consume_eq_error_iff).trans (and_congr_right fun _ => ?_)
    constructor
    · rintro ⟨x, hmem, hl⟩
      exact .consuming hmem hl
    · rintro (_ | _ | ⟨hmem, hl⟩)
      exact ⟨_, hmem, hl⟩
  | _ =>
    constructor
    · intro hf
      cases hf
    · rintro ⟨-, hbreaks⟩
      cases hbreaks

/-- A fault becomes the error of the session. -/
theorem error_of_fault {fault : Fault} (h : s.held = false)
    (hn : s.machine.config.next = .error (.fault fault)) :
    (s.next (.advance auto)).error = some fault.message := by
  have hnext : s.next (.advance auto) = (s.faulted fault).consume.1 :=
    congrArg Prod.fst (advance_of_step_fault h hn)
  rw [hnext]
  rcases consume_cases (s.faulted fault) with ⟨-, hconsume⟩ | ⟨-, log, hconsume⟩ <;>
    rw [hconsume] <;> rfl

/-! ### What a front end shows -/

/-- The listing shows an operand that is too long: the one from the start of memory, or the one that
replaces it if it has no line for the program counter. -/
def Unlistable (s : Session) : Prop :=
  ¬ s.machine.memory.Listable 0 ∨
    s.machine.memory.Valid s.machine.pc ∧
      (∀ l ∈ sweep s.machine.memory 0, l.address ≠ s.machine.pc) ∧
      ¬ s.machine.memory.Listable s.machine.pc.toNat

theorem listingWindow_eq_error_iff {height : Int} (hm : 0 < s.machine.memory.size) :
    s.listingWindow height = .error f ↔ f = .overlong ∧ s.Unlistable := by
  have hzero : s.machine.memory.Valid 0 := ⟨le_refl 0, by exact_mod_cast hm⟩
  have hskips : (∀ l ∈ sweep s.machine.memory 0, l.address ≠ s.machine.pc) ↔
      (sweep s.machine.memory 0).findIdx? (·.address == s.machine.pc) = none := by
    simp [List.findIdx?_eq_none_iff]
  rw [Unlistable, hskips]
  by_cases h0 : s.machine.memory.Listable 0
  · have hstart : disassemble s.machine.memory 0 = .ok (sweep s.machine.memory 0) :=
      disassemble_of_listable hzero h0
    by_cases hpc : s.machine.memory.Valid s.machine.pc
    · cases hfind : (sweep s.machine.memory 0).findIdx? (·.address == s.machine.pc) with
      | some cursor =>
        simp [listingWindow, hstart, hpc, hfind, h0, bind, Except.bind, pure, Except.pure]
      | none =>
        by_cases hlist : s.machine.memory.Listable s.machine.pc.toNat
        · simp [listingWindow, hstart, hpc, hfind, h0, hlist, disassemble_of_listable hpc hlist,
            bind, Except.bind, pure, Except.pure]
        · simp [listingWindow, hstart, hpc, hfind, h0, hlist, disassemble_of_not_listable hpc hlist,
            bind, Except.bind, eq_comm]
    · simp [listingWindow, hstart, hpc, h0, bind, Except.bind, pure, Except.pure]
  · have hstart : disassemble s.machine.memory 0 = .error .overlong :=
      disassemble_of_not_listable hzero h0
    simp [listingWindow, hstart, h0, bind, Except.bind, eq_comm]

theorem statusLine_eq_error_iff :
    s.statusLine = .error f ↔ f = .overlong ∧ ¬ Numeral.Short s.machine.pc := by
  unfold statusLine
  split_ifs with h
  · simp [h]
  · simp [h, eq_comm]

/-! ### Sessions that can be reached -/

theorem size_foldl_apply (es : List Effect) (c : Config) :
    (es.foldl Config.apply c).memory.size = c.memory.size := by
  induction es generalizing c with
  | nil => rfl
  | cons e es ih => exact (ih (c.apply e)).trans (c.size_apply e)

/-- The memory of a session is never empty: an operation keeps its size or loads a program. -/
theorem nonempty_next (h : 0 < s.machine.memory.size) (op : Operation) :
    0 < (s.next op).machine.memory.size := by
  by_cases hop : op = .reset
  · have himage : s.machine.program.image ≠ #[] :=
      Memory.parse_ne_empty s.machine.program.parse_text
    rw [hop, Machine.memory, config_next_reset]
    exact Array.size_pos_iff.2 himage
  · rw [Machine.memory, config_next hop, size_foldl_apply]
    exact h

theorem nonempty_after (h : 0 < s.machine.memory.size) (ops : List Operation) :
    0 < (s.after ops).machine.memory.size := by
  induction ops generalizing s with
  | nil => exact h
  | cons op ops ih => exact ih (nonempty_next h op)

/-- **Only long integers escape from a session.**  Take any session that can be reached on a machine
with a memory.  An operation fails exactly if it has to write an integer that is too long: the one
that the message of a fault would name, or one on the line of a recorded event.  A listing cannot be
made exactly if one of its operands is too long, and the status line exactly if the program counter
is.  There is no other failure; a fault of the program becomes the error of the session. -/
theorem only_long_integers_escape {m : Machine} {maxSteps : Option Int} {ops : List Operation}
    (hm : 0 < m.memory.size) (hs : (start m maxSteps).after ops = s) :
    (∀ op f, (s.perform op).2 = .error f ↔ f = .overlong ∧ s.Breaks op) ∧
    (∀ height f, s.listingWindow height = .error f ↔ f = .overlong ∧ s.Unlistable) ∧
    (∀ f, s.statusLine = .error f ↔ f = .overlong ∧ ¬ Numeral.Short s.machine.pc) ∧
    (∀ auto f, s.held = false → s.machine.config.next = .error (.fault f) →
      (s.next (.advance auto)).error = some f.message) := by
  have hmemory : 0 < s.machine.memory.size := hs ▸ nonempty_after (s := start m maxSteps) hm ops
  exact ⟨fun _ _ => perform_eq_error_iff, fun _ _ => listingWindow_eq_error_iff hmemory,
    fun _ => statusLine_eq_error_iff, fun _ _ => error_of_fault⟩

/-- A program that squares a cell again and again. -/
def squaring : Program :=
  ⟨"2,7,7,7,1105,1,0,10", #[2, 7, 7, 7, 1105, 1, 0, 10], by rfl⟩

/-- A session on this program after twelve squarings, in which the cell has 4097 digits. -/
def twelveSquarings : Session :=
  (start (.ofProgram squaring false) none).after (.replicate 24 (.advance true))

/-- The thirteenth squaring cannot be logged. -/
theorem twelveSquarings_breaks :
    twelveSquarings.Breaks (.advance true) ∧
      twelveSquarings.machine.config.memory.read? 7 = some (10 ^ 4096) := by
  have hmemory : 0 < (Machine.ofProgram squaring false).memory.size := by decide +kernel
  have hfails : (twelveSquarings.perform (.advance true)).2 = .error .overlong := by decide +kernel
  have hreached : (start (.ofProgram squaring false) none).after (.replicate 24 (.advance true)) =
      twelveSquarings := rfl
  obtain ⟨hiff, -⟩ := only_long_integers_escape hmemory hreached
  exact ⟨((hiff (.advance true) .overlong).1 hfails).2, by decide +kernel⟩

/-- No instruction of the program has a fault, and still the next call fails; the session has no
error then, and cannot be listed any more. -/
theorem squaring_escapes :
    (twelveSquarings.advance true).2 = .error .overlong ∧
      (twelveSquarings.next (.advance true)).error = none ∧
      (twelveSquarings.next (.advance true)).listingWindow 1 = .error .overlong := by
  refine ⟨?_, ?_, ?_⟩ <;> decide +kernel

end Session

end Intcode

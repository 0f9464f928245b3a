import Intcode.Proofs.SessionOperations

/-!
# The books of a session

A session counts the instructions that it has executed, stops running by itself when its program has
stopped, and refuses to go on at its limit.  These pieces of state are changed by every operation,
and agree after any number of them.

* `Session.tally`: the instructions executed since the start or the last reset, written down beside
  the operations;
* `Session.Orderly`: the step count is their number and within the limit, and a stopped session does
  not run by itself; `Orderly.next` and `Orderly.after` carry this through the operations;
* `Session.Untouched`: nothing but typed values has reached the machine; `untouched_next` and
  `untouched_after` say this of a session that does not go on, up to the next reset;
* `books_stay_in_order`: both for every session that can be reached.
-/

namespace Intcode

namespace Session

variable {s s' s'' : Session} {op : Operation} {done : List Effect} {vs ws : List Int}

/-! ### The books -/

/-- The instructions executed since the start or the last reset, if those of `done` were executed
before. -/
def tally : Session → List Effect → List Operation → List Effect
  | _, done, [] => done
  | s, done, op :: ops =>
    tally (s.next op) (if op = .reset then [] else done ++ s.completed op) ops

/-- The step count is the number of executed instructions and within the limit, and a stopped
session does not run by itself. -/
structure Orderly (s : Session) (done : List Effect) : Prop where
  auto : s.stopped = true → s.auto = false
  steps : s.steps = done.length
  limit : ∀ n, s.maxSteps = some n → 0 ≤ n → (s.steps : Int) ≤ n

/-- A change that concerns neither the count nor the limit nor whether the program has stopped. -/
theorem Orderly.congr (h : s.Orderly done) (hauto : s'.auto = s.auto ∨ s'.auto = false)
    (hstopped : s'.stopped = s.stopped) (hsteps : s'.steps = s.steps)
    (hmax : s'.maxSteps = s.maxSteps) : s'.Orderly done := by
  refine ⟨fun hs => ?_, hsteps.trans h.steps, fun n hn h0 => ?_⟩
  · rcases hauto with hauto | hauto
    · rw [hauto]
      exact h.auto (hstopped ▸ hs)
    · exact hauto
  · rw [hsteps]
    exact h.limit n (hmax ▸ hn) h0

/-- A session that goes on has room for one more instruction. -/
theorem succ_le_of_held {n : Int} (h : s.held = false) (hn : s.maxSteps = some n) :
    (s.steps : Int) + 1 ≤ n := by
  have hexhausted := (stopped_of_held h).2
  simp only [exhausted, hn, Option.any_some, decide_eq_false_iff_not] at hexhausted
  omega

/-- A session that goes on has no error. -/
theorem error_of_held (h : s.held = false) : s.error = none := by
  have hstopped := (stopped_of_held h).1
  simp only [stopped, Bool.or_eq_false_iff, Option.isSome_eq_false_iff, Option.isNone_iff_eq_none]
    at hstopped
  exact hstopped.2

theorem steps_settle (s : Session) (auto : Bool) (status : Status) :
    (s.settle auto status).steps = s.steps + if status = .blocked then 0 else 1 := by
  cases status <;> rfl

/-- A step that succeeds executes an instruction unless it waits. -/
theorem length_effects_one {m : Machine} {status : Status} (h : m.step.2 = .ok status) :
    (m.effects 1).length = if status = .blocked then 0 else 1 := by
  rcases m.step_cases with ⟨f, hn, hs⟩ | ⟨hn, hs⟩ | ⟨e, hn, hs⟩ <;> rw [hs] at h <;> cases h
  · rw [Machine.effects_of_wait hn]
    rfl
  · rw [Machine.effects_of_effect hn, if_neg (Machine.statusAfter_ne_blocked e)]
    simp [Machine.effects]

/-- An executed instruction is counted, and ends the session's running by itself if it is a halt. -/
theorem Orderly.count {status : Status} (h : s.Orderly done) (hheld : s.held = false)
    (hs : s.machine.step.2 = .ok status) (auto : Bool) :
    (s.stepped.consumed.settle auto status).Orderly (done ++ s.machine.effects 1) := by
  have hcount : (s.stepped.consumed.settle auto status).steps =
      s.steps + if status = .blocked then 0 else 1 := steps_settle _ auto status
  have hstatus : s.machine.step.1.status = status := Machine.status_step (Prod.ext rfl hs)
  refine ⟨fun hstopped => ?_, ?_, fun n hn h0 => ?_⟩
  · have hhalted : status = .halted := by
      simpa [stopped, halted, consumed, stepped, Machine.collect, hstatus, error_of_held hheld]
        using hstopped
    rw [hhalted]
    rfl
  · rw [hcount, List.length_append, length_effects_one hs, h.steps]
  · have hroom := succ_le_of_held hheld (n := n) (by simpa [consumed, stepped] using hn)
    rw [hcount]
    split_ifs <;> push_cast <;> omega

theorem completed_of_error {f : Failure} {auto : Bool} (hn : s.machine.config.next = .error f) :
    s.completed (.advance auto) = [] := by
  rw [completed, Machine.effects_of_error hn, ite_self]

theorem Orderly.advance (h : s.Orderly done) (auto : Bool) (hlegible : s.Legible)
    (hlegible' : (s.next (.advance auto)).Legible) :
    (s.next (.advance auto)).Orderly (done ++ s.completed (.advance auto)) := by
  rcases hadvance : s.advance auto with ⟨s', reply⟩
  have hnext : s.next (.advance auto) = s' := congrArg Prod.fst hadvance
  rw [hnext] at hlegible' ⊢
  cases calls_of_advance hadvance with
  | held hheld message =>
    rw [completed_of_held hheld, List.append_nil]
    exact h.congr (.inr rfl) rfl rfl rfl
  | fault hheld hn hx =>
    rw [completed_of_error hn, List.append_nil]
    exact ⟨fun _ => rfl, h.steps, h.limit⟩
  | faultUnshown hheld hn hx log =>
    rw [completed_of_error hn, List.append_nil]
    exact ⟨fun _ => rfl, h.steps, h.limit⟩
  | unnamed hheld hn =>
    -- the fault cannot be written down, so the session has no error and has not stopped
    rw [completed_of_error hn, List.append_nil]
    refine ⟨fun hstopped => ?_, h.steps, h.limit⟩
    simp [stopped, halted, stepped, Machine.step_of_error hn, error_of_held hheld] at hstopped
  | done hheld hs hx =>
    simp only [completed, hheld]
    exact h.count hheld hs auto
  | doneUnshown hheld hs hx log =>
    -- the one way in which an executed instruction would not be counted
    obtain ⟨x, hmem, hl⟩ := hx
    exact absurd (legible_stepped hlegible hlegible'.1 x hmem) hl

/-- One operation keeps the books in order. -/
theorem Orderly.next (h : s.Orderly done) (op : Operation) (hlegible : s.Legible)
    (hlegible' : (s.next op).Legible) :
    (s.next op).Orderly (if op = .reset then [] else done ++ s.completed op) := by
  cases op with
  | advance auto => exact h.advance auto hlegible hlegible'
  | input text =>
    have hcompleted : s.completed (.input text) = [] := rfl
    rw [if_neg (by simp), hcompleted, List.append_nil]
    obtain ⟨message, hnext⟩ := s.next_input text
    rw [hnext]
    exact h.congr (.inl rfl) rfl rfl rfl
  | toggle =>
    have hcompleted : s.completed (.toggle) = [] := rfl
    rw [if_neg (by simp), hcompleted, List.append_nil]
    show s.toggleAuto.Orderly done
    rcases s.toggleAuto_cases with ⟨-, message, htoggle⟩ | ⟨hstopped, auto, message, htoggle⟩
    · rw [htoggle]
      exact h.congr (.inl rfl) rfl rfl rfl
    · rw [htoggle]
      exact ⟨fun hs => absurd (hstopped.symm.trans hs) (by decide), h.steps, h.limit⟩
  | reset =>
    rw [if_pos rfl]
    refine ⟨fun _ => rfl, rfl, fun n _ h0 => h0⟩
  | consume =>
    have hcompleted : s.completed (.consume) = [] := rfl
    rw [if_neg (by simp), hcompleted, List.append_nil]
    show s.consume.1.Orderly done
    rcases consume_cases s with ⟨-, hconsume⟩ | ⟨-, log, hconsume⟩ <;> rw [hconsume] <;>
      exact h.congr (.inl rfl) rfl rfl rfl

/-- So do any number of operations. -/
theorem Orderly.after {ops : List Operation} (h : s.Orderly done)
    (hlegible : ∀ s' ∈ s.passes ops, s'.Legible) : (s.after ops).Orderly (s.tally done ops) := by
  induction ops generalizing s done with
  | nil => exact h
  | cons op ops ih =>
    rw [passes_cons, List.forall_mem_cons] at hlegible
    have hnext := hlegible.2 _ (self_mem_passes _ ops)
    exact ih (h.next op hlegible.1 hnext) hlegible.2

/-! ### Sessions that do not go on -/

/-- Nothing but the given values has reached the machine, and the books are the same. -/
structure Untouched (s s' : Session) (vs : List Int) : Prop where
  config : s'.machine.config = (s.machine.feedAll vs).config
  status : s'.machine.status = s.machine.status
  steps : s'.steps = s.steps
  error : s'.error = s.error
  maxSteps : s'.maxSteps = s.maxSteps

namespace Untouched

theorem stopped (h : Untouched s s' vs) : s'.stopped = s.stopped := by
  simp [Session.stopped, halted, h.status, h.error]

theorem held (h : Untouched s s' vs) : s'.held = s.held := by
  simp [Session.held, h.stopped, exhausted, h.steps, h.maxSteps]

theorem refl (s : Session) : Untouched s s [] :=
  ⟨by simp, rfl, rfl, rfl, rfl⟩

theorem trans (h : Untouched s s' vs) (h' : Untouched s' s'' ws) : Untouched s s'' (vs ++ ws) := by
  refine ⟨?_, h'.status.trans h.status, h'.steps.trans h.steps, h'.error.trans h.error,
    h'.maxSteps.trans h.maxSteps⟩
  rw [h'.config, ← Machine.feedAll_feedAll]
  simp only [Machine.feedAll, h.config]

end Untouched

/-- A session that does not go on lets nothing but typed values reach its machine. -/
theorem untouched_next (h : s.held = true) (hop : op ≠ .reset) :
    Untouched s (s.next op) op.typed := by
  have hconfig : (s.next op).machine.config = (s.machine.feedAll op.typed).config := by
    rw [config_next hop, completed_of_held h]
    rfl
  cases op with
  | advance auto =>
    obtain ⟨message, hadvance⟩ := advance_of_held h auto
    have hnext : s.next (.advance auto) = { s with auto := false, message } :=
      congrArg Prod.fst hadvance
    rw [hnext] at hconfig ⊢
    exact ⟨hconfig, rfl, rfl, rfl, rfl⟩
  | input text =>
    obtain ⟨message, hnext⟩ := s.next_input text
    rw [hnext] at hconfig ⊢
    exact ⟨hconfig, rfl, rfl, rfl, rfl⟩
  | toggle =>
    obtain ⟨auto, message, hnext⟩ := s.next_toggle
    rw [hnext] at hconfig ⊢
    exact ⟨hconfig, rfl, rfl, rfl, rfl⟩
  | reset => exact absurd rfl hop
  | consume =>
    have hnext : s.next .consume = s.consume.1 := rfl
    rw [hnext] at hconfig ⊢
    rcases consume_cases s with ⟨-, hconsume⟩ | ⟨-, log, hconsume⟩ <;>
      rw [hconsume] at hconfig ⊢ <;> exact ⟨hconfig, rfl, rfl, rfl, rfl⟩

/-- So do any number of operations, up to the next reset. -/
theorem untouched_after {ops : List Operation} (h : s.held = true)
    (hops : ∀ op ∈ ops, op ≠ .reset) :
    Untouched s (s.after ops) (ops.flatMap Operation.typed) := by
  induction ops generalizing s with
  | nil => exact .refl s
  | cons op ops ih =>
    rw [List.forall_mem_cons] at hops
    have hnext := untouched_next h hops.1
    exact hnext.trans (ih (hnext.held.trans h) hops.2)

/-- An operation does not change the limit. -/
theorem maxSteps_next (s : Session) (op : Operation) : (s.next op).maxSteps = s.maxSteps := by
  cases op with
  | advance auto =>
    rcases hadvance : s.advance auto with ⟨s', reply⟩
    have hnext : s.next (.advance auto) = s' := congrArg Prod.fst hadvance
    rw [hnext]
    cases calls_of_advance hadvance with
    | @done status h hs hx => cases status <;> rfl
    | _ => rfl
  | input text =>
    obtain ⟨message, hnext⟩ := s.next_input text
    rw [hnext]
  | toggle =>
    obtain ⟨auto, message, hnext⟩ := s.next_toggle
    rw [hnext]
  | reset => rfl
  | consume =>
    show s.consume.1.maxSteps = _
    rcases consume_cases s with ⟨-, h⟩ | ⟨-, log, h⟩ <;> rw [h] <;> rfl

theorem maxSteps_after (s : Session) (ops : List Operation) :
    (s.after ops).maxSteps = s.maxSteps := by
  induction ops generalizing s with
  | nil => rfl
  | cons op ops ih => exact (ih (s.next op)).trans (s.maxSteps_next op)

theorem orderly_start (m : Machine) (maxSteps : Option Int) : (start m maxSteps).Orderly [] :=
  ⟨fun _ => rfl, rfl, fun _ _ h0 => h0⟩

/-- A session that does not go on leaves its machine alone when it is asked to. -/
theorem machine_advance_of_held (h : s.held = true) (auto : Bool) :
    (s.advance auto).1.machine = s.machine := by
  obtain ⟨message, hadvance⟩ := advance_of_held h auto
  rw [hadvance]

/-- **The books of a session are in order.**  Take any session that can be reached, by operations on
the way of which nothing gets too long to be written.  If its program has stopped, the session does
not run by itself.  The step count is the number of the instructions executed since the start or the
last reset, where an instruction that an operation executes is all that the operation does to the
configuration besides queueing what is typed.  The count stays within a limit, and at the limit no
call changes the machine before the next reset; in a stopped session nothing but what is typed
reaches the machine before the next reset. -/
theorem books_stay_in_order {m : Machine} {maxSteps : Option Int} {ops : List Operation}
    (hlegible : ∀ s' ∈ (start m maxSteps).passes ops, s'.Legible)
    (hs : (start m maxSteps).after ops = s) :
    (s.stopped = true → s.auto = false) ∧
    s.steps = ((start m maxSteps).tally [] ops).length ∧
    (∀ op, op ≠ .reset → (s.next op).machine.config =
      (s.completed op).foldl Config.apply (s.machine.feedAll op.typed).config) ∧
    (∀ n, maxSteps = some n → 0 ≤ n → (s.steps : Int) ≤ n ∧
      ((s.steps : Int) = n → ∀ more, (∀ op ∈ more, op ≠ .reset) →
        ∀ auto, ((s.after more).advance auto).1.machine = (s.after more).machine)) ∧
    (s.stopped = true → ∀ more, (∀ op ∈ more, op ≠ .reset) →
      (s.after more).stopped = true ∧
        Untouched s (s.after more) (more.flatMap Operation.typed)) := by
  have horderly : s.Orderly ((start m maxSteps).tally [] ops) :=
    hs ▸ (orderly_start m maxSteps).after hlegible
  have hmax : s.maxSteps = maxSteps := hs ▸ maxSteps_after (start m maxSteps) ops
  refine ⟨horderly.auto, horderly.steps, fun _ => config_next, fun n hn h0 => ⟨?_, ?_⟩, ?_⟩
  · exact horderly.limit n (hmax.trans hn) h0
  · intro hfull more hmore auto
    have hheld : s.held = true := by simp [held, exhausted, hmax, hn, hfull]
    exact machine_advance_of_held ((untouched_after hheld hmore).held.trans hheld) auto
  · intro hstopped more hmore
    have hheld : s.held = true := by simp [held, hstopped]
    have huntouched := untouched_after hheld hmore
    exact ⟨huntouched.stopped.trans hstopped, huntouched⟩

/-- A program that reads a value and halts. -/
def reading : Program :=
  ⟨"3,0,99", #[3, 0, 99], by rfl⟩

/-- What a user does with it: wait for a value and reset, then type the value and let the session
run to the end, which is also its limit. -/
def reads : List Operation :=
  [.advance false, .reset, .input "7", .toggle, .advance true, .advance true]

/-- The session that the user is left with. -/
def readThrough : Session :=
  (start (.ofProgram reading false) (some 2)).after reads

/-- It has counted two instructions, does not run by itself, and stays so until the next reset. -/
theorem readThrough_in_order :
    readThrough.steps = 2 ∧ readThrough.auto = false ∧
      (∀ auto, (readThrough.advance auto).1.machine = readThrough.machine) ∧
      ∀ auto, Untouched readThrough (readThrough.after [.advance auto, .toggle, .consume]) [] := by
  have hlegible : ∀ s' ∈ (start (.ofProgram reading false) (some 2)).passes reads, s'.Legible := by
    decide +kernel
  have hcount : ((start (.ofProgram reading false) (some 2)).tally [] reads).length = 2 := by
    decide +kernel
  have hstopped : readThrough.stopped = true := by decide +kernel
  have hreached : (start (.ofProgram reading false) (some 2)).after reads = readThrough := rfl
  obtain ⟨hauto, hsteps, -, hlimit, hrest⟩ := books_stay_in_order hlegible hreached
  have hfull : (readThrough.steps : Int) = 2 := by rw [hsteps, hcount]; rfl
  refine ⟨hsteps.trans hcount, hauto hstopped, fun auto => ?_, fun auto => ?_⟩
  · have hasked := (hlimit 2 rfl (by decide)).2 hfull [] (by simp) auto
    rwa [after, List.foldl_nil] at hasked
  · exact (hrest hstopped [.advance auto, .toggle, .consume] (by simp)).2

end Session

end Intcode

import Intcode.Proofs.FailingSteps
import Intcode.Proofs.ProgramText
import Intcode.Proofs.Stepping

/-!
# What the operations of a session do

A session is driven by operations, of which only two can meet an integer that is too long to be
written: a call that executes an instruction, and bringing the log up to date.  Everything that such
a call can do is listed here once, for sessions in any state.

* `Session.next`, `Session.after`, `Session.passes`: the session after an operation, after several,
  and all sessions on the way, whatever the operations report;
* `Session.Legible`: nothing in the machine of a session is too long to be written;
* `consume_cases`: the recorded events are moved into the log, up to one that cannot be shown;
* `Session.held`, `Session.Calls`, `calls_of_advance`: the ways in which a call to execute an
  instruction can end;
* `provideInput_cases`, `toggleAuto_cases`, `next_input`, `next_toggle`: what the operations change
  that execute nothing;
* `Operation.typed`, `Session.completed`: the value that an operation queues and the instruction
  that it executes; `config_next` says that it does nothing else to the configuration.
-/

namespace Intcode

namespace Session

variable {s s' : Session} {auto : Bool} {op : Operation} {f : Failure}

/-- The session after an operation, whatever the operation reports. -/
def next (s : Session) (op : Operation) : Session :=
  (s.perform op).1

/-- The session after some operations, whatever they report. -/
def after (s : Session) (ops : List Operation) : Session :=
  ops.foldl next s

/-- The sessions through which some operations lead, the first and the last one included. -/
def passes : Session → List Operation → List Session
  | s, [] => [s]
  | s, op :: ops => s :: passes (s.next op) ops

theorem passes_cons (s : Session) (op : Operation) (ops : List Operation) :
    s.passes (op :: ops) = s :: (s.next op).passes ops := rfl

theorem self_mem_passes (s : Session) (ops : List Operation) : s ∈ s.passes ops := by
  cases ops <;> simp [passes]

/-- No cell, the counter, no queued output value and no recorded event of the machine is too long to
be written. -/
def Legible (s : Session) : Prop :=
  s.machine.config.Legible ∧ ∀ x ∈ s.machine.events.toList, x.Legible

instance (s : Session) : Decidable s.Legible :=
  inferInstanceAs (Decidable (_ ∧ _))

/-! ### The log -/

/-- The session with another log, and with nothing recorded. -/
def collected (s : Session) (log : List String) : Session :=
  { s with machine := s.machine.collect.2, log }

/-- The recorded events are moved into the log; one that cannot be shown ends this. -/
theorem consume_cases (s : Session) :
    ((∀ x ∈ s.machine.events.toList, x.Legible) ∧ s.consume = (s.consumed, .ok ())) ∨
    ((∃ x ∈ s.machine.events.toList, ¬ x.Legible) ∧
      ∃ log, s.consume = (s.collected log, .error .overlong)) := by
  by_cases h : ∀ x ∈ s.machine.events.toList, x.Legible
  · exact .inl ⟨h, consume_of_legible h⟩
  · have hfailure : (untilFailure (s.machine.events.toList.map Event.render)).2 = some .overlong :=
      untilFailure_map_of_error (fun _ => Event.render_of_legible)
        (fun _ => Event.render_of_not_legible) h
    refine .inr ⟨by simpa using h,
      s.log ++ (untilFailure (s.machine.events.toList.map Event.render)).1, ?_⟩
    simp only [consume, Machine.collect, hfailure, collected]

/-! ### Executing an instruction -/

/-- The session does not go on: its program has stopped, or the limit is reached. -/
def held (s : Session) : Bool :=
  s.stopped || s.exhausted

/-- The session after one step of its machine. -/
def stepped (s : Session) : Session :=
  { s with machine := s.machine.step.1 }

/-- An event that cannot be shown is recorded only if an integer gets too long. -/
theorem legible_stepped (h : s.Legible) (h' : s.stepped.machine.config.Legible) :
    ∀ x ∈ s.stepped.machine.events.toList, x.Legible :=
  Machine.legible_events_step h.2 h.1 h'

/-- The session after a step that has found a fault. -/
def faulted (s : Session) (f : Fault) : Session :=
  { s.stepped with error := some f.message, auto := false, message := "Error: " ++ f.message }

/-- The ways in which a call to execute an instruction can end. -/
inductive Calls (s : Session) (auto : Bool) : Session → Except Failure Unit → Prop
  /-- The session does not go on. -/
  | held (h : s.held = true) (message : String) :
      Calls s auto { s with auto := false, message } (.ok ())
  /-- The instruction has a fault, which becomes the error of the session. -/
  | fault {f : Fault} (h : s.held = false) (hn : s.machine.config.next = .error (.fault f))
      (hx : ∀ x ∈ s.stepped.machine.events.toList, x.Legible) :
      Calls s auto (s.faulted f).consumed (.ok ())
  /-- The same, but an event recorded before cannot be shown. -/
  | faultUnshown {f : Fault} (h : s.held = false)
      (hn : s.machine.config.next = .error (.fault f))
      (hx : ∃ x ∈ s.stepped.machine.events.toList, ¬ x.Legible) (log : List String) :
      Calls s auto ((s.faulted f).collected log) (.error .overlong)
  /-- The instruction has a fault that would name too long an integer. -/
  | unnamed (h : s.held = false) (hn : s.machine.config.next = .error .overlong) :
      Calls s auto s.stepped (.error .overlong)
  /-- The instruction is executed, or waits. -/
  | done {status : Status} (h : s.held = false) (hs : s.machine.step.2 = .ok status)
      (hx : ∀ x ∈ s.stepped.machine.events.toList, x.Legible) :
      Calls s auto (s.stepped.consumed.settle auto status) (.ok ())
  /-- The same, but a recorded event cannot be shown. -/
  | doneUnshown {status : Status} (h : s.held = false) (hs : s.machine.step.2 = .ok status)
      (hx : ∃ x ∈ s.stepped.machine.events.toList, ¬ x.Legible) (log : List String) :
      Calls s auto (s.stepped.collected log) (.error .overlong)

theorem stopped_of_held (h : s.held = false) : s.stopped = false ∧ s.exhausted = false := by
  simpa [Session.held] using h

/-- A session that does not go on only tells the user. -/
theorem advance_of_held (h : s.held = true) (auto : Bool) :
    ∃ message, s.advance auto = ({ s with auto := false, message }, .ok ()) := by
  unfold advance
  by_cases hstopped : s.stopped = true
  · exact ⟨_, if_pos hstopped⟩
  · have hexhausted : s.exhausted = true := by simpa [Session.held, hstopped] using h
    rw [if_neg hstopped]
    exact ⟨_, if_pos hexhausted⟩

theorem advance_of_step_fault {f : Fault} (h : s.held = false)
    (hn : s.machine.config.next = .error (.fault f)) : s.advance auto = (s.faulted f).consume := by
  obtain ⟨hstopped, hexhausted⟩ := stopped_of_held h
  simp only [advance, hstopped, hexhausted, Machine.step_of_error hn, faulted, stepped,
    Bool.false_eq_true, if_false]

theorem advance_of_unnamed (h : s.held = false)
    (hn : s.machine.config.next = .error .overlong) :
    s.advance auto = (s.stepped, .error .overlong) := by
  obtain ⟨hstopped, hexhausted⟩ := stopped_of_held h
  simp only [advance, hstopped, hexhausted, Machine.step_of_error hn, stepped, Bool.false_eq_true,
    if_false]

theorem advance_of_unshown {status : Status} {log : List String} (h : s.held = false)
    (hs : s.machine.step.2 = .ok status)
    (hconsume : s.stepped.consume = (s.stepped.collected log, .error .overlong)) :
    s.advance auto = (s.stepped.collected log, .error .overlong) := by
  obtain ⟨hstopped, hexhausted⟩ := stopped_of_held h
  rcases hstep : s.machine.step with ⟨m, reply⟩
  obtain rfl : reply = .ok status := by rw [hstep] at hs; exact hs
  have hsession : ({ s with machine := m } : Session) = s.stepped := by rw [stepped, hstep]
  simp only [advance, hstopped, hexhausted, hstep, hsession, hconsume, Bool.false_eq_true, if_false]

/-- A call to execute an instruction ends in one of these ways. -/
theorem calls_of_advance {reply : Except Failure Unit} (h : s.advance auto = (s', reply)) :
    s.Calls auto s' reply := by
  cases hheld : s.held with
  | true =>
    obtain ⟨message, hadvance⟩ := advance_of_held hheld auto
    cases hadvance.symm.trans h
    exact .held hheld message
  | false =>
    cases hreply : s.machine.step.2 with
    | error f =>
      have hn := Machine.next_of_step_error hreply
      rcases Config.failure_of_next hn with ⟨fault, rfl⟩ | rfl
      · have hadvance : s.advance auto = (s.faulted fault).consume :=
          advance_of_step_fault hheld hn
        rcases consume_cases (s.faulted fault) with ⟨hx, hconsume⟩ | ⟨hx, log, hconsume⟩
        · cases (hadvance.trans hconsume).symm.trans h
          exact .fault hheld hn hx
        · cases (hadvance.trans hconsume).symm.trans h
          exact .faultUnshown hheld hn hx log
      · cases (advance_of_unnamed hheld hn).symm.trans h
        exact .unnamed hheld hn
    | ok status =>
      obtain ⟨hstopped, hexhausted⟩ := stopped_of_held hheld
      have hstep : s.machine.step = (s.stepped.machine, .ok status) := Prod.ext rfl hreply
      rcases consume_cases s.stepped with ⟨hx, -⟩ | ⟨hx, log, hconsume⟩
      · cases (advance_of_ok hstopped hexhausted hstep hx).symm.trans h
        exact .done hheld hreply hx
      · cases (advance_of_unshown hheld hreply hconsume).symm.trans h
        exact .doneUnshown hheld hreply hx log

/-! ### Typing and starting to run -/

/-- What was typed is queued if it is an integer; otherwise only the message changes. -/
theorem provideInput_cases (s : Session) (text : String) :
    ∃ message,
      (Numeral.readTyped? text = none ∧ s.provideInput text = ({ s with message }, false)) ∨
      ∃ v, Numeral.readTyped? text = some v ∧
        s.provideInput text = ({ s with machine := s.machine.feed v, message }, true) := by
  unfold provideInput
  cases htext : Numeral.readTyped? text with
  | none => exact ⟨_, .inl ⟨rfl, rfl⟩⟩
  | some v => exact ⟨_, .inr ⟨v, rfl, rfl⟩⟩

/-- A program that has stopped is not started; otherwise running is started or paused. -/
theorem toggleAuto_cases (s : Session) :
    (s.stopped = true ∧ ∃ message, s.toggleAuto = { s with message }) ∨
      (s.stopped = false ∧ ∃ auto message, s.toggleAuto = { s with auto, message }) := by
  unfold toggleAuto
  cases hstopped : s.stopped with
  | true => exact .inl ⟨rfl, _, rfl⟩
  | false => exact .inr ⟨rfl, _, _, rfl⟩

/-- Typing touches nothing but the input queue and the message. -/
theorem next_input (s : Session) (text : String) :
    ∃ message, s.next (.input text) =
      { s with machine := s.machine.feedAll (Numeral.readTyped? text).toList, message } := by
  show ∃ message, (s.provideInput text).1 = _
  obtain ⟨message, ⟨hnone, h⟩ | ⟨v, hv, h⟩⟩ := s.provideInput_cases text
  · exact ⟨message, by rw [h, hnone, Option.toList_none, Machine.feedAll_nil]⟩
  · exact ⟨message, by rw [h, hv, Option.toList_some, Machine.feed_eq_feedAll]⟩

/-- Starting or pausing touches no machine, count or log. -/
theorem next_toggle (s : Session) :
    ∃ auto message, s.next .toggle = { s with auto, message } := by
  rcases s.toggleAuto_cases with ⟨-, message, h⟩ | ⟨-, auto, message, h⟩
  · exact ⟨s.auto, message, h⟩
  · exact ⟨auto, message, h⟩

/-! ### The machine under an operation -/

/-- The value that an operation queues as input. -/
def Operation.typed : Operation → List Int
  | .input text => (Numeral.readTyped? text).toList
  | _ => []

/-- The instruction that an operation executes, if there is one. -/
def completed (s : Session) : Operation → List Effect
  | .advance _ => if s.held then [] else s.machine.effects 1
  | _ => []

theorem completed_of_held (h : s.held = true) (op : Operation) : s.completed op = [] := by
  cases op with
  | advance auto => exact if_pos h
  | _ => rfl

@[simp] theorem config_collected (log : List String) :
    (s.collected log).machine.config = s.machine.config := rfl

@[simp] theorem config_consumed : s.consumed.machine.config = s.machine.config := rfl

@[simp] theorem config_stepped : s.stepped.machine.config = s.machine.step.1.config := rfl

@[simp] theorem config_faulted (f : Fault) :
    (s.faulted f).machine.config = s.machine.step.1.config := rfl

/-- A step executes at most one instruction, and changes the configuration only by that. -/
theorem config_step (m : Machine) :
    m.step.1.config = (m.effects 1).foldl Config.apply m.config := by
  rcases m.step_cases with ⟨f, hn, hs⟩ | ⟨hn, hs⟩ | ⟨e, hn, hs⟩
  · rw [hs, Machine.effects_of_error hn]
    rfl
  · rw [hs, Machine.effects_of_wait hn]
    exact m.config_await
  · rw [hs, Machine.effects_of_effect hn]
    simp [Machine.effects]

/-- An operation other than a reset does nothing to the configuration but to queue what is typed and
to execute an instruction. -/
theorem config_next (hop : op ≠ .reset) :
    (s.next op).machine.config =
      (s.completed op).foldl Config.apply (s.machine.feedAll op.typed).config := by
  cases op with
  | advance auto =>
    rcases hadvance : s.advance auto with ⟨s', reply⟩
    have hnext : s.next (.advance auto) = s' := congrArg Prod.fst hadvance
    rw [hnext]
    cases calls_of_advance hadvance with
    | held h message => simp [completed, h, Operation.typed]
    | _ h => simp [completed, h, Operation.typed, config_step]
  | input text =>
    obtain ⟨message, hnext⟩ := s.next_input text
    rw [hnext]
    rfl
  | toggle =>
    obtain ⟨auto, message, hnext⟩ := s.next_toggle
    simp [hnext, completed, Operation.typed]
  | reset => exact absurd rfl hop
  | consume =>
    show s.consume.1.machine.config = _
    rcases consume_cases s with ⟨-, h⟩ | ⟨-, log, h⟩ <;> simp [h, completed, Operation.typed]

/-- A reset loads the program again. -/
theorem config_next_reset (s : Session) :
    (s.next .reset).machine.config = .ofProgram s.machine.program := by
  show s.reset.machine.config = _
  simp [reset, Machine.collect, Machine.reboot]

end Session

end Intcode

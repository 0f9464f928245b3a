import Intcode.Proofs.Forwarding
import Intcode.Proofs.Transparency
import Intcode.Session

/-!
# Stepping by hand comes to the same as running

A user who steps through a program until it halts, waits or fails arrives where a run of the machine
would have arrived.  The session in between counts the instructions, moves the recorded events into
its log and keeps a fault to itself.

* `Legible.account`, `legible_events_step`: the events of a step between legible configurations can
  be shown;
* `consume_of_legible`, `advance_of_ok`, `advance_of_fault`: what one call does to a session;
* `Session.Follows`: a session that can go on like a machine; `Follows.advance` and `Follows.fail`
  take one instruction, `Follows.play` a whole run;
* `Session.play`: calls until the session has stopped or waits;
* `stepping_agrees_with_running`: such calls against one run.
-/

namespace Intcode

/-! ### The events of a step -/

namespace Config

variable {c : Config} {e : Effect}

/-- What is recorded for an instruction can be shown if what it starts from and what it leaves
behind can. -/
theorem Legible.account (h : c.Legible) (h' : (c.apply e).Legible) (hn : c.next = .ok (some e)) :
    ∀ x ∈ c.account e, x.Legible := by
  obtain ⟨i, hi, hp⟩ := next_eq_ok_iff.1 hn
  obtain rfl := hp.instruction_eq
  have haddress : Numeral.Short e.instruction.address := by
    rw [address_of_instruction hi]
    exact h.2.1
  have houtput : ∀ v, e.emits = some v → Numeral.Short v := by
    intro v hv
    exact h'.2.2 v (by rw [output_apply, hv]; simp)
  have hexecuted : (c.executed e).Legible := by
    have hparams := Numeral.allShort_eq_true.1 (h.announced hi)
    have hwritten := Numeral.allShort_eq_true.1 (h.written h' hp)
    intro v hv
    simp only [executed, Event.integers, List.cons_append, List.mem_cons, List.mem_append] at hv
    rcases hv with rfl | rfl | hv | hv
    · exact haddress
    · exact h'.2.1
    · exact hparams v (List.mem_cons_of_mem _ hv)
    · exact hwritten v hv
  intro x hx
  unfold Config.account at hx
  rw [List.mem_append, List.mem_append, List.mem_map, List.mem_singleton] at hx
  rcases hx with (⟨v, hv, rfl⟩ | rfl) | hx
  · simpa [Event.Legible, Event.integers] using ⟨haddress, houtput v (by simpa using hv)⟩
  · exact hexecuted
  · split at hx
    · obtain rfl := List.mem_singleton.1 hx
      simpa [Event.Legible, Event.integers] using haddress
    · cases hx

end Config

namespace Machine

variable {m m' : Machine} {e : Effect}

theorem statusAfter_eq_halted (h : statusAfter e ≠ .running) : statusAfter e = .halted := by
  unfold statusAfter at h ⊢
  split
  · rfl
  · rename_i ho
    rw [if_neg ho] at h
    exact absurd rfl h

/-- The events of a step between legible configurations can be shown. -/
theorem legible_events_step (hevents : ∀ x ∈ m.events.toList, x.Legible) (h : m.config.Legible)
    (h' : m.step.1.config.Legible) : ∀ x ∈ m.step.1.events.toList, x.Legible := by
  rcases m.step_cases with ⟨f, -, hs⟩ | ⟨-, hs⟩ | ⟨e, hn, hs⟩
  · rw [hs]
    exact hevents
  · rw [hs]
    intro x hx
    unfold await note at hx
    split at hx
    · rw [Array.toList_push, List.mem_append, List.mem_singleton] at hx
      rcases hx with hx | rfl
      · exact hevents x hx
      · simpa [Event.Legible, Event.integers, pc] using h.2.1
    · exact hevents x hx
  · rw [hs] at h' ⊢
    rw [config_perform] at h'
    intro x hx
    cases hrecording : m.recording with
    | true =>
      rw [events_perform hrecording, List.mem_append] at hx
      rcases hx with hx | hx
      · exact hevents x hx
      · exact h.account h' hn x hx
    | false =>
      rw [events_perform_of_not_recording hrecording] at hx
      exact hevents x hx

end Machine

/-! ### One call -/

namespace Session

variable {s : Session} {m m' : Machine} {status : Status} {auto : Bool} {fuel : Nat}

@[simp] theorem machine_settle : (s.settle auto status).machine = s.machine := by
  cases status <;> rfl

@[simp] theorem maxSteps_settle : (s.settle auto status).maxSteps = s.maxSteps := by
  cases status <;> rfl

@[simp] theorem error_settle : (s.settle auto status).error = s.error := by
  cases status <;> rfl

/-- The session after the recorded events have been moved into the log. -/
def consumed (s : Session) : Session :=
  { s with
    machine := s.machine.collect.2
    log := latest logLimit (s.log ++ s.machine.events.toList.map Event.line) }

/-- Events that can be shown are moved into the log. -/
theorem consume_of_legible (h : ∀ x ∈ s.machine.events.toList, x.Legible) :
    s.consume = (s.consumed, .ok ()) := by
  have hlines : untilFailure (s.machine.events.toList.map Event.render) =
      (s.machine.events.toList.map Event.line, none) :=
    untilFailure_map_of_ok fun x hx => Event.render_of_legible (h x hx)
  simp only [consume, Machine.collect, hlines, consumed]

/-- A call on a session that has neither stopped nor reached its limit executes an instruction. -/
theorem advance_of_ok (hstopped : s.stopped = false) (hexhausted : s.exhausted = false)
    (hstep : s.machine.step = (m', .ok status)) (hevents : ∀ x ∈ m'.events.toList, x.Legible) :
    s.advance auto =
      (({ s with machine := m' } : Session).consumed.settle auto status, .ok ()) := by
  have hconsume : consume { s with machine := m' } = _ := consume_of_legible hevents
  simp only [advance, hstopped, hexhausted, hstep, hconsume, Bool.false_eq_true, if_false]

/-- A fault becomes the error of the session. -/
theorem advance_of_fault {f : Fault} (hstopped : s.stopped = false)
    (hexhausted : s.exhausted = false) (hstep : s.machine.step = (m', .error (.fault f)))
    (hevents : ∀ x ∈ m'.events.toList, x.Legible) :
    s.advance auto =
      (({ s with machine := m', error := some f.message, auto := false
                 message := "Error: " ++ f.message } : Session).consumed, .ok ()) := by
  simp only [advance, hstopped, hexhausted, hstep, Bool.false_eq_true, if_false]
  exact consume_of_legible hevents

/-- The session can go on like the machine `m`: it is in the same configuration, nothing holds it
back, and what it has recorded can be shown. -/
structure Follows (s : Session) (m : Machine) : Prop where
  config : s.machine.config = m.config
  maxSteps : s.maxSteps = none
  error : s.error = none
  status : s.machine.status ≠ .halted
  legible : ∀ x ∈ s.machine.events.toList, x.Legible

namespace Follows

theorem stopped (h : s.Follows m) : s.stopped = false := by
  simp [Session.stopped, halted, h.error, h.status]

theorem exhausted (h : s.Follows m) : s.exhausted = false := by
  simp [Session.exhausted, h.maxSteps]

/-- A call executes the next instruction, and counts it unless it waits. -/
theorem advance (h : s.Follows m) (auto : Bool) (hstart : m.config.Legible)
    (hnext : m'.config.Legible) (hstep : m.step = (m', .ok status)) :
    ∃ s', s.advance auto = (s', .ok ()) ∧ s'.machine.snapshot = m'.snapshot ∧
      s'.machine.events = #[] ∧ s'.maxSteps = none ∧ s'.error = none ∧
      s'.steps = s.steps + if status = .blocked then 0 else 1 := by
  obtain ⟨hreply, hconfig, hstatus⟩ := Machine.step_congr h.config
  rw [hstep] at hreply hconfig hstatus
  have hown : s.machine.step = (s.machine.step.1, .ok status) := Prod.ext rfl hreply
  have hevents := Machine.legible_events_step h.legible (h.config ▸ hstart) (hconfig ▸ hnext)
  refine ⟨_, advance_of_ok h.stopped h.exhausted hown hevents, ?_, ?_, ?_, ?_, ?_⟩
  · simp [consumed, Machine.collect, Machine.snapshot, hconfig, hstatus]
  · simp [consumed, Machine.collect]
  · simpa [consumed] using h.maxSteps
  · simpa [consumed] using h.error
  · cases status <;> rfl

/-- A fault becomes the error of the session, and is not counted. -/
theorem fail {f : Fault} (h : s.Follows m) (auto : Bool)
    (hstep : m.step = (m', .error (.fault f))) :
    ∃ s', s.advance auto = (s', .ok ()) ∧ s'.machine.snapshot = m'.snapshot ∧
      s'.error = some f.message ∧ s'.steps = s.steps := by
  have hn : s.machine.config.next = .error (.fault f) := by
    rw [h.config]
    exact Machine.next_of_step_error (by rw [hstep])
  have hm' : m' = { m with status := .running } := by
    rw [Machine.step_of_error (h.config ▸ hn)] at hstep
    exact (congrArg Prod.fst hstep).symm
  refine ⟨_, advance_of_fault h.stopped h.exhausted (Machine.step_of_error hn) h.legible, ?_, rfl,
    rfl⟩
  simp [consumed, Machine.collect, Machine.snapshot, hm', h.config]

end Follows

/-! ### Calls until the session stops or waits -/

/-- Step by hand, once and again until the session has stopped or waits.  There is no answer if that
takes more than the given number of calls. -/
def play : Nat → Session → Option (Session × Except Failure Unit)
  | 0, _ => none
  | calls + 1, s =>
    match s.advance false with
    | (s, .ok ()) => if s.stopped || s.blocked then some (s, .ok ()) else play calls s
    | failed => some failed

theorem play_of_stopped {s' : Session} (h : s.advance false = (s', .ok ()))
    (hs : (s'.stopped || s'.blocked) = true) : s.play (fuel + 1) = some (s', .ok ()) := by
  simp only [play, h, hs, if_true]

theorem play_of_going {s' : Session} (h : s.advance false = (s', .ok ()))
    (hs : (s'.stopped || s'.blocked) = false) : s.play (fuel + 1) = s'.play fuel := by
  simp only [play, h, hs, Bool.false_eq_true, if_false]

/-- The message of the fault with which a run ends. -/
def faultMessage? : Except Failure Status → Option String
  | .error (.fault f) => some f.message
  | _ => none

/-- As many calls as a run takes steps lead where the run leads. -/
theorem Follows.play {reply : Except Failure Status} (h : s.Follows m)
    (hcourse : ∀ c ∈ m.course fuel, c.Legible) (hrun : m.run fuel = some (m', reply))
    (hreply : ∀ f, reply = .error f → ∃ fault, f = .fault fault) :
    ∃ s', s.play fuel = some (s', .ok ()) ∧ s'.machine.snapshot = m'.snapshot ∧
      s'.error = faultMessage? reply ∧ s'.steps = s.steps + (m.effects fuel).length := by
  induction fuel generalizing s m with
  | zero => cases hrun
  | succ fuel ih =>
    have hstart : m.config.Legible := hcourse _ (Machine.config_mem_course _ m)
    have hnext : m.step.1.config.Legible := hcourse _ (Machine.config_step_mem_course _ m)
    rcases m.step_cases with ⟨f, hn, hs⟩ | ⟨hn, hs⟩ | ⟨e, hn, hs⟩
    · rw [Machine.run_succ_of_stopped (by rw [hs]; simp), hs] at hrun
      cases hrun
      obtain ⟨fault, rfl⟩ := hreply f rfl
      obtain ⟨s', hadvance, hshown, herror, hsteps⟩ := h.fail false hs
      have hstopped : (s'.stopped || s'.blocked) = true := by simp [Session.stopped, herror]
      refine ⟨s', play_of_stopped hadvance hstopped, hshown, herror, ?_⟩
      rw [hsteps, Machine.effects_of_error hn, List.length_nil, Nat.add_zero]
    · rw [Machine.run_succ_of_stopped (by rw [hs]; simp), hs] at hrun
      cases hrun
      rw [hs] at hnext
      obtain ⟨s', hadvance, hshown, -, -, herror, hsteps⟩ :=
        h.advance false hstart hnext hs
      have hstatus : s'.machine.status = m.await.status := congrArg Machine.Snapshot.status hshown
      have hblocked : (s'.stopped || s'.blocked) = true := by simp [blocked, hstatus]
      refine ⟨s', play_of_stopped hadvance hblocked, hshown, herror, ?_⟩
      rw [hsteps, Machine.effects_of_wait hn]
      rfl
    · rw [hs] at hnext
      obtain ⟨s', hadvance, hshown, hevents, hmax, herror, hsteps⟩ :=
        h.advance false hstart hnext hs
      have hstatus : s'.machine.status = Machine.statusAfter e :=
        (congrArg Machine.Snapshot.status hshown).trans (m.status_perform e)
      rw [if_neg (Machine.statusAfter_ne_blocked e)] at hsteps
      rw [Machine.effects_of_effect hn]
      by_cases hr : Machine.statusAfter e = .running
      · rw [hr] at hs hstatus
        rw [Machine.run_succ_of_running hs] at hrun
        rw [Machine.course_succ_of_running hs] at hcourse
        -- the session goes on with an empty record
        have hfollows : s'.Follows (m.perform e) := {
          config := congrArg Machine.Snapshot.config hshown
          maxSteps := hmax
          error := herror
          status := by rw [hstatus]; simp
          legible := by rw [hevents]; simp }
        have hgoing : (s'.stopped || s'.blocked) = false := by
          rw [hfollows.stopped, Bool.false_or, blocked, hstatus]
          rfl
        obtain ⟨s'', hplay, hshown', herror', hsteps'⟩ :=
          ih hfollows (fun c hc => hcourse c (List.mem_cons_of_mem _ hc)) hrun
        refine ⟨s'', (play_of_going hadvance hgoing).trans hplay, hshown', herror', ?_⟩
        rw [if_pos hr, hsteps', hsteps, List.length_cons]
        omega
      · rw [Machine.run_succ_of_stopped (by rw [hs]; simpa using hr), hs] at hrun
        cases hrun
        have hhalted : (s'.stopped || s'.blocked) = true := by
          rw [Session.stopped, halted, hstatus, Machine.statusAfter_eq_halted hr]
          rfl
        refine ⟨s', play_of_stopped hadvance hhalted, hshown, herror, ?_⟩
        rw [if_neg hr, hsteps]
        rfl

/-- **Stepping agrees with running.**  Take a session without a limit and without an error, on a
machine that has not halted, and let a run of this machine halt, wait or end with a fault, with
every cell, counter and queued output on the way, and every event recorded before, short enough to
be written.  Then stepping by hand, once and again until the session has stopped or waits, comes to
an end without failure; configuration and status are those that the run leaves, the error is the
message of the fault if there is one, and the steps have grown by the number of executed
instructions. -/
theorem stepping_agrees_with_running {reply : Except Failure Status} (hmax : s.maxSteps = none)
    (herror : s.error = none) (hstatus : s.machine.status ≠ .halted)
    (hevents : ∀ x ∈ s.machine.events.toList, x.Legible)
    (hcourse : ∀ c ∈ s.machine.course fuel, c.Legible)
    (hrun : s.machine.run fuel = some (m', reply))
    (hreply : (∃ status, reply = .ok status) ∨ ∃ f, reply = .error (.fault f)) :
    ∃ s', s.play fuel = some (s', .ok ()) ∧ s'.machine.snapshot = m'.snapshot ∧
      s'.error = faultMessage? reply ∧
      s'.steps = s.steps + (s.machine.effects fuel).length := by
  have hfollows : s.Follows s.machine := ⟨rfl, hmax, herror, hstatus, hevents⟩
  refine hfollows.play hcourse hrun ?_
  rintro f rfl
  rcases hreply with ⟨status, h⟩ | ⟨fault, h⟩
  · cases h
  · exact ⟨fault, Except.error.inj h⟩

/-- A session on a program that takes a value, puts out another one and then has no instruction. -/
def brokenEcho : Session :=
  start ((Machine.ofProgram
    ⟨"3,6,104,7,42,0,0", #[3, 6, 104, 7, 42, 0, 0], by rfl⟩ false).feedAll [5]) none

/-- Two instructions are counted, and the third call finds the fault. -/
theorem brokenEcho_stepped :
    ∃ s', play 3 brokenEcho = some (s', .ok ()) ∧
      s'.machine.snapshot = ⟨⟨#[3, 6, 104, 7, 42, 0, 5], 4, [], [7]⟩, .running⟩ ∧
      s'.error = some "unknown opcode 42 in instruction word 42 (pc=4)" ∧ s'.steps = 2 := by
  have hcourse : ∀ c ∈ brokenEcho.machine.course 3, c.Legible := by decide +kernel
  have hevents : ∀ x ∈ brokenEcho.machine.events.toList, x.Legible := by decide +kernel
  have hfault : Failure.unknownOpcode 42 42 (some 4) = .fault (.unknownOpcode 42 42 (some 4)) :=
    if_pos (by decide +kernel)
  have hrun : brokenEcho.machine.run 3 = some (_, .error (.unknownOpcode 42 42 (some 4))) := rfl
  obtain ⟨s', hplay, hshown, herror, hsteps⟩ := stepping_agrees_with_running rfl rfl (by decide)
    hevents hcourse hrun (.inr ⟨_, congrArg Except.error hfault⟩)
  rw [hfault] at herror
  exact ⟨s', hplay, hshown, herror, hsteps⟩

end Session

end Intcode

import Intcode.Proofs.Forwarding
import Intcode.Proofs.Replay

/-!
# The queues of a machine keep every value

Values enter a machine through its input queue and leave it through its output queue.  Over any
history of requests the values that were queued are the values that the input instructions have
stored and those still waiting, and the values that the output instructions have put out are the
values that were taken and those still waiting.

* `Request.queued`: the values that a request puts on the input queue;
* `Request.keepsQueues`: the requests that empty no queue behind the program's back;
* `Machine.executes`, `Machine.executed`: the instructions that a request and a history execute;
* `handle_queues`: what one request does to the queues;
* `queues_conserve_values`: the same for a history.
-/

namespace Intcode

namespace Request

/-- The values that a request puts on the input queue. -/
def queued : Request → List Int
  | feed v => [v]
  | feedAll vs => vs
  | _ => []

/-- The requests that do not load the program again and do not print an account. -/
def keepsQueues : Request → Bool
  | run shown => !shown
  | step shown => !shown
  | reboot => false
  | _ => true

end Request

namespace Machine

variable {m m' : Machine} {fuel : Nat} {r : Request} {rs : List Request} {log : List Exchange}
  {printed : String} {reply : Except Failure Reply}

/-- The effects of the instructions that a request executes. -/
def executes (fuel : Nat) (m : Machine) : Request → List Effect
  | .run _ => m.effects fuel
  | .step _ => m.effects 1
  | _ => []

/-- The effects of the instructions that a history executes. -/
def executed (fuel : Nat) : Machine → List Request → List Effect
  | _, [] => []
  | m, r :: rs =>
    m.executes fuel r ++
      match m.handle fuel r with
      | none => []
      | some (m', _, _) => executed fuel m' rs

theorem executed_cons_of_some (h : m.handle fuel r = some (m', printed, reply)) :
    m.executed fuel (r :: rs) = m.executes fuel r ++ m'.executed fuel rs := by
  simp only [executed, h]

/-- A single step, seen as a run that may execute one instruction. -/
theorem step_queues (m : Machine) :
    m.config.input = consumed (m.effects 1) ++ m.step.1.config.input ∧
      m.step.1.config.output = m.config.output ++ emitted (m.effects 1) := by
  rcases m.step_cases with ⟨f, hn, hs⟩ | ⟨hn, hs⟩ | ⟨e, hn, hs⟩
  · rw [hs, effects_of_error hn]
    simp
  · rw [hs, effects_of_wait hn]
    simp
  · have heffects : m.effects 1 = [e] := by
      rw [effects_of_effect hn]
      simp [effects]
    rw [hs, heffects, consumed_cons, emitted_cons, config_perform]
    simpa using ⟨Config.input_of_next hn, Config.output_apply m.config e⟩

/-- A request takes from the input queue what its input instructions store, after adding what it
queues, and it adds to the output queue what its output instructions put out, before removing what
it returns. -/
theorem handle_queues (hr : r.keepsQueues = true)
    (h : m.handle fuel r = some (m', printed, reply)) :
    m.config.input ++ r.queued = consumed (m.executes fuel r) ++ m'.config.input ∧
      m.config.output ++ emitted (m.executes fuel r) =
        (m.exchange m' r printed reply).delivered ++ m'.config.output := by
  cases r with
  | run shown =>
    cases shown with
    | true => cases hr
    | false =>
      obtain ⟨⟨m₁, reply₁⟩, hrun, heq⟩ := Option.map_eq_some_iff.1 h
      cases heq
      obtain ⟨hin, hout⟩ := run_queues hrun
      exact ⟨(List.append_nil _).trans hin, hout.symm⟩
  | step shown =>
    cases shown with
    | true => cases hr
    | false =>
      cases h
      obtain ⟨hin, hout⟩ := m.step_queues
      exact ⟨(List.append_nil _).trans hin, hout.symm⟩
  | reboot => cases hr
  | feed v =>
    cases h
    exact ⟨rfl, List.append_nil _⟩
  | feedAll vs =>
    cases h
    exact ⟨rfl, List.append_nil _⟩
  | take =>
    cases hout : m.config.output with
    | nil =>
      have htake : m.take = .error .noOutput := by simp only [take, hout, Queue.pop?]
      simp only [handle, htake] at h
      cases h
      exact ⟨List.append_nil _, hout.symm⟩
    | cons v rest =>
      have htake : m.take = .ok (v, { m with config.output := rest }) := by
        simp only [take, hout, Queue.pop?]
      simp only [handle, htake] at h
      cases h
      exact ⟨List.append_nil _, List.append_nil _⟩
  | drain =>
    cases h
    exact ⟨List.append_nil _, rfl⟩
  | write a v =>
    rw [handle_write] at h
    split at h
    · cases h
      exact ⟨List.append_nil _, List.append_nil _⟩
    · cases h
      exact ⟨List.append_nil _, List.append_nil _⟩
  | _ =>
    cases h
    exact ⟨List.append_nil _, List.append_nil _⟩

/-- **The queues keep every value.**  Let a machine, in whatever state, serve requests other than a
reboot or a printed execution; some of them may fail.  Then the values that the executed input
instructions have stored, followed by the pending input, are the values that were pending at the
start followed by all those queued since, and the values that were returned, followed by the pending
output, are the values that were pending at the start followed by all those that the executed output
instructions have put out: each value once and in order. -/
theorem queues_conserve_values (hrs : ∀ r ∈ rs, r.keepsQueues = true)
    (hserve : m.serve fuel rs = some (log, m')) :
    consumed (m.executed fuel rs) ++ m'.config.input =
        m.config.input ++ rs.flatMap Request.queued ∧
      log.flatMap Exchange.delivered ++ m'.config.output =
        m.config.output ++ emitted (m.executed fuel rs) := by
  induction rs generalizing m log with
  | nil =>
    cases hserve
    simp [executed]
  | cons r rs ih =>
    cases hr : m.handle fuel r with
    | none =>
      rw [serve_cons_of_none hr] at hserve
      cases hserve
    | some x =>
      obtain ⟨m₁, printed, reply⟩ := x
      rw [serve_cons_of_some hr] at hserve
      obtain ⟨⟨log₁, m₂⟩, htail, heq⟩ := Option.map_eq_some_iff.1 hserve
      cases heq
      obtain ⟨hin, hout⟩ := handle_queues (hrs r (by simp)) hr
      obtain ⟨ihin, ihout⟩ := ih (fun x hx => hrs x (by simp [hx])) htail
      rw [executed_cons_of_some hr]
      simp only [consumed_append, emitted_append, List.flatMap_cons, List.append_assoc]
      constructor
      · rw [ihin, ← List.append_assoc, ← hin, List.append_assoc]
      · rw [ihout, ← List.append_assoc, ← hout, List.append_assoc]

/-- A program that echoes a value and then stores another one outside memory. -/
def strayEcho : Program :=
  ⟨"3,7,4,7,3,40,99,0", #[3, 7, 4, 7, 3, 40, 99, 0], by rfl⟩

/-- Its queues after an output that was not there, a wait, a store that fails and keeps its value,
and a run to the end once the destination has been changed. -/
theorem strayEcho_conserves :
    ∃ log m', (ofProgram strayEcho false).serve 4
        [.take, .step false, .feedAll [5, 6], .run false, .peek, .feed 8, .write 5 7, .run false,
          .take, .snapshot] = some (log, m') ∧
      m'.status = .halted ∧ m'.config.input = [8] ∧ log.flatMap Exchange.delivered = [5] ∧
      consumed ((ofProgram strayEcho false).executed 4
        [.take, .step false, .feedAll [5, 6], .run false, .peek, .feed 8, .write 5 7, .run false,
          .take, .snapshot]) ++ m'.config.input = [5, 6, 8] ∧
      log.flatMap Exchange.delivered ++ m'.config.output =
        emitted ((ofProgram strayEcho false).executed 4
          [.take, .step false, .feedAll [5, 6], .run false, .peek, .feed 8, .write 5 7, .run false,
            .take, .snapshot]) := by
  have hserve : (ofProgram strayEcho false).serve 4
      [.take, .step false, .feedAll [5, 6], .run false, .peek, .feed 8, .write 5 7, .run false,
        .take, .snapshot] = some (_, _) := rfl
  obtain ⟨hin, hout⟩ := queues_conserve_values (by decide) hserve
  exact ⟨_, _, hserve, rfl, rfl, rfl, hin, hout⟩

end Machine

end Intcode

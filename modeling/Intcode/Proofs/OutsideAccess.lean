import Intcode.Proofs.Reboot

/-!
# Reading and changing cells that do not exist

A cell can be read and changed from outside, between two runs of the machine.  An address outside
memory is reported then, and nothing changes.  The report names the program counter if the machine
is in the middle of a run by its status, which is so not only during a run: a single step that does
not stop the machine leaves it there, and so does an instruction with a fault.

* `Machine.LeftBy`: the status in which steps and runs leave a machine, by what they reply;
  `leftBy_step`, `leftBy_run`, `leftBy_stepShown`, `leftBy_runShown`;
* `Status.after`, `Exchange.statusLeft`: the status after an exchange and after a history;
  `handle_status` for one request, and from it `serve_status` for all histories;
* `handle_read_outside`, `handle_write_outside`: what is reported;
* `outside_access_reported`: both together, after any history;
* `counter_named_between_steps`: a report with a program counter that nothing was executing at.
-/

namespace Intcode

namespace Machine

variable {m m' : Machine} {fuel : Nat} {text : String}

/-! ### The status after execution -/

/-- The machine that steps and runs with a given reply leave, with or without a printed account. -/
inductive LeftBy (m : Machine) (shown : Bool) : Except Failure Status → Prop
  /-- The status of the machine is replied. -/
  | replied {s : Status} (h : m.status = s) : LeftBy m shown (.ok s)
  /-- After a failure the machine is in the middle of a run. -/
  | failed {f : Failure} (h : m.status = .running) : LeftBy m shown (.error f)
  /-- A printed account has broken off, which may be after the end of the run. -/
  | unfinished (h : shown = true) : LeftBy m shown (.error .overlong)

theorem leftBy_step (m : Machine) : m.step.1.LeftBy false m.step.2 := by
  rcases m.step_cases with ⟨f, -, hs⟩ | ⟨-, hs⟩ | ⟨e, -, hs⟩ <;> rw [hs]
  · exact .failed rfl
  · exact .replied m.status_await
  · exact .replied (m.status_perform e)

theorem leftBy_run {reply : Except Failure Status} (h : m.run fuel = some (m', reply)) :
    m'.LeftBy false reply := by
  induction fuel generalizing m with
  | zero => cases h
  | succ fuel ih =>
    have hstep := m.leftBy_step
    by_cases hs : m.step.2 = .ok .running
    · rw [run_succ_of_running (advances_of_running hs)] at h
      exact ih h
    · rw [run_succ_of_stopped hs] at h
      rwa [Option.some.inj h] at hstep

theorem leftBy_performShown (m : Machine) (e : Effect) :
    (m.performShown e).1.LeftBy true (m.performShown e).2.2 := by
  unfold performShown
  dsimp only
  split
  · exact .unfinished rfl
  · split
    · exact .unfinished rfl
    · exact .replied (status_log _ _ _)

theorem leftBy_stepShown (m : Machine) : m.stepShown.1.LeftBy true m.stepShown.2.2 := by
  unfold stepShown
  split
  · exact .failed rfl
  · dsimp only
    split
    · exact .replied m.status_await
    · split <;> exact .failed rfl
    · split
      · exact m.leftBy_performShown _
      · exact .failed rfl

theorem leftBy_runShown {before : String} {reply : Except Failure Status}
    (h : m.runShown fuel before = some (m', text, reply)) : m'.LeftBy true reply := by
  induction fuel generalizing m before with
  | zero => cases h
  | succ fuel ih =>
    have hstep := m.leftBy_stepShown
    unfold runShown at h
    split at h
    · exact ih h
    · rename_i hs
      rw [hs] at hstep
      split at h
      · cases h
        exact hstep
      · cases h
        exact .unfinished rfl
    · rename_i hs
      rw [hs] at hstep
      cases h
      exact hstep

end Machine

/-! ### The status after a history -/

/-- The status after execution that was replied to, if `shown` is the one that can be seen.  It
needs to be looked at only where a printed account has broken off. -/
def Status.replied (account : Bool) (shown : Status) : Except Failure Reply → Status
  | .ok (.status s) => s
  | .error .overlong => if account then shown else running
  | .error _ => running
  | .ok _ => shown

/-- The status after an exchange: a reboot starts again, a step or a run leaves the status that it
replies or the middle of a run, and nothing else changes it. -/
def Status.after (before : Status) (x : Exchange) : Status :=
  match x.request with
  | .reboot => initialized
  | .run account => replied account x.shown.status x.reply
  | .step account => replied account x.shown.status x.reply
  | _ => before

/-- The status in which a history leaves a machine that was loaded before. -/
def Exchange.statusLeft (log : List Exchange) : Status :=
  log.foldl Status.after .initialized

namespace Machine

variable {m m' : Machine} {fuel : Nat} {r : Request} {rs : List Request} {log : List Exchange}
  {printed : String} {reply : Except Failure Reply}

theorem LeftBy.status_eq {account : Bool} {reply : Except Failure Status}
    (h : m.LeftBy account reply) :
    m.status = Status.replied account m.status (reply.map .status) := by
  cases h with
  | replied h => exact h
  | @failed f h => cases f <;> simp [Except.map, Status.replied, h]
  | unfinished h =>
    cases h
    rfl

/-- A request leaves the status that its exchange tells. -/
theorem handle_status (h : m.handle fuel r = some (m', printed, reply)) :
    m'.status = m.status.after (m.exchange m' r printed reply) := by
  cases r with
  | run shown =>
    cases shown with
    | true =>
      obtain ⟨⟨m₁, text, reply₁⟩, hrun, heq⟩ := Option.map_eq_some_iff.1 h
      cases heq
      exact (leftBy_runShown hrun).status_eq
    | false =>
      obtain ⟨⟨m₁, reply₁⟩, hrun, heq⟩ := Option.map_eq_some_iff.1 h
      cases heq
      exact (leftBy_run hrun).status_eq
  | step shown =>
    cases shown with
    | true =>
      cases h
      exact m.leftBy_stepShown.status_eq
    | false =>
      cases h
      exact m.leftBy_step.status_eq
  | reboot =>
    cases h
    exact status_note _ _
  | take =>
    cases htake : m.take with
    | error f =>
      simp only [handle, htake] at h
      cases h
      rfl
    | ok x =>
      simp only [handle, htake] at h
      cases h
      unfold take at htake
      split at htake
      · cases htake
      · cases htake
        rfl
  | write a v =>
    rw [handle_write] at h
    split at h <;> cases h <;> rfl
  | _ =>
    cases h
    rfl

/-- The status of a machine is the one that its history tells. -/
theorem serve_status (hm : m.status = .initialized) (h : m.serve fuel rs = some (log, m')) :
    m'.status = Exchange.statusLeft log := by
  refine serve_induction (P := fun log m => m.status = Exchange.statusLeft log) h hm ?_
  intro log r m₁ m₂ printed reply _ hstatus hr
  have hlog : Exchange.statusLeft (log ++ [m₁.exchange m₂ r printed reply]) =
      (Exchange.statusLeft log).after (m₁.exchange m₂ r printed reply) :=
    List.foldl_append
  rw [hlog, ← hstatus]
  exact handle_status hr

/-! ### Accesses outside memory -/

variable {a : Int}

theorem outside_of_short (h : Numeral.Short a) :
    m.outside a =
      .fault (.outOfBounds a m.memory.size (if m.status = .running then some m.pc else none)) := by
  rw [outside, Failure.outOfBounds, if_pos h]

theorem handle_read_outside (ha : ¬ m.memory.Valid a) :
    m.handle fuel (.read a) = some (m, "", .error (m.outside a)) := by
  have hnone : m.memory.read? a = none := Memory.read?_eq_none.2 ha
  simp only [handle, read, hnone, Except.map]

theorem handle_write_outside (ha : ¬ m.memory.Valid a) (v : Int) :
    m.handle fuel (.write a v) = some (m, "", .error (m.outside a)) := by
  rw [handle_write]
  exact if_neg ha

/-- **What an access outside memory reports.**  Let a machine be loaded from a text and serve any
requests, some of which may fail.  Reading or changing a cell at an address outside its memory then
reports the address and the size of the memory, and changes nothing.  The program counter is
reported exactly if the history leaves the machine in the middle of a run: if the last request that
executed instructions or loaded the program was a step after which the program would go on, or one
that met a fault.  A printed account that breaks off leaves the status reached by then. -/
theorem outside_access_reported {text : String} {recording : Bool} {m₀ : Machine}
    (hload : load text recording = .ok m₀) (hserve : m₀.serve fuel rs = some (log, m))
    (ha : ¬ m.memory.Valid a) (hshort : Numeral.Short a) :
    ∃ counter,
      (∀ n, m.handle n (.read a) =
        some (m, "", .error (.fault (.outOfBounds a m.memory.size counter)))) ∧
      (∀ n v, m.handle n (.write a v) =
        some (m, "", .error (.fault (.outOfBounds a m.memory.size counter)))) ∧
      (Exchange.statusLeft log ≠ .running → counter = none) ∧
      (Exchange.statusLeft log = .running → counter = some m.pc) := by
  obtain ⟨p, -, rfl⟩ := load_eq_ok_iff.1 hload
  have hstatus := serve_status (status_note _ _) hserve
  rw [← hstatus]
  refine ⟨if m.status = .running then some m.pc else none, fun n => ?_, fun n v => ?_,
    fun h => if_neg h, fun h => if_pos h⟩
  · rw [handle_read_outside ha, outside_of_short hshort]
  · rw [handle_write_outside ha, outside_of_short hshort]

/-- A program that adds and halts. -/
def addAndHalt : Program :=
  ⟨"1101,1,1,0,99", #[1101, 1, 1, 0, 99], by rfl⟩

/-- When it has halted, after a step and a run, no program counter is reported; after a fault at the
end of its memory one is. -/
theorem addAndHalt_reported :
    ∃ m₀ log m log' m', load addAndHalt.text false = .ok m₀ ∧
      m₀.serve 1 [.step false, .run false] = some (log, m) ∧
      m.handle 0 (.read 100) = some (m, "", .error (.fault (.outOfBounds 100 5 none))) ∧
      m₀.serve 1 [.step false, .run false, .step false] = some (log', m') ∧
      m'.handle 0 (.write (-1) 7) =
        some (m', "", .error (.fault (.outOfBounds (-1) 5 (some 5)))) := by
  have hload : load addAndHalt.text false = .ok (ofProgram addAndHalt false) := by rfl
  have hhalts : ∃ log m, (ofProgram addAndHalt false).serve 1 [.step false, .run false] =
      some (log, m) ∧ m.memory.size = 5 ∧ Exchange.statusLeft log ≠ .running :=
    ⟨_, _, rfl, by decide +kernel, by decide +kernel⟩
  have hfails : ∃ log m, (ofProgram addAndHalt false).serve 1
      [.step false, .run false, .step false] = some (log, m) ∧ m.memory.size = 5 ∧ m.pc = 5 ∧
      Exchange.statusLeft log = .running :=
    ⟨_, _, rfl, by decide +kernel, by decide +kernel, by decide +kernel⟩
  obtain ⟨log, m, hserve, hsize, hstatus⟩ := hhalts
  obtain ⟨log', m', hserve', hsize', hpc, hstatus'⟩ := hfails
  obtain ⟨counter, hread, -, hnone, -⟩ := outside_access_reported (a := 100) hload hserve
    (by rw [Memory.Valid, hsize]; decide) (by decide +kernel)
  obtain ⟨counter', -, hwrite, -, hsome⟩ := outside_access_reported (a := -1) hload hserve'
    (by rw [Memory.Valid, hsize']; decide) (by decide +kernel)
  obtain rfl := hnone hstatus
  obtain rfl := hsome hstatus'
  rw [hsize] at hread
  rw [hsize', hpc] at hwrite
  exact ⟨_, _, _, _, _, hload, hserve, hread 0, hserve', hwrite 0 7⟩

/-- After a single step no instruction is executing, and still the report names the program
counter. -/
theorem counter_named_between_steps :
    ∃ m₀ log m, load addAndHalt.text false = .ok m₀ ∧
      m₀.serve 1 [.step false] = some (log, m) ∧
      m.handle 0 (.read 100) = some (m, "", .error (.fault (.outOfBounds 100 5 (some 4)))) := by
  have hsteps : ∃ log m, (ofProgram addAndHalt false).serve 1 [.step false] = some (log, m) ∧
      m.memory.size = 5 ∧ m.pc = 4 ∧ m.status = .running :=
    ⟨_, _, rfl, by decide +kernel, by decide +kernel, by decide +kernel⟩
  obtain ⟨log, m, hserve, hsize, hpc, hstatus⟩ := hsteps
  refine ⟨_, log, m, by rfl, hserve, ?_⟩
  rw [handle_read_outside (by rw [Memory.Valid, hsize]; decide),
    outside_of_short (by decide +kernel), hsize, hpc, if_pos hstatus]
  rfl

end Machine

end Intcode

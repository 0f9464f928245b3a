import Intcode.Proofs.Observers
import Intcode.Proofs.Replay

/-!
# Watching a machine does not disturb it

A machine can be watched in two ways: it can record events, and it can print an account of what it
executes.  Neither has an influence on what it does, except that an account stops at an integer that
is too long to be written.

* `Request.switches`, `serve_unswitched`: a history without the requests that switch recording;
* `Config.Legible`: nothing in a configuration is too long to be written;
* `Machine.course`, `Machine.passes`, `Machine.passed`: the configurations through which a run, a
  request and a history go;
* `Request.silent`, `Exchange.silent`: the same without printed accounts;
* `stepShown_eq_step`, `runShown_eq_run`, `handle_silent`, `serve_silent`: an account changes
  nothing on a legible course;
* `step_of_stepShown`, `run_of_runShown`: nor does one that does not stop at a long integer;
* `watching_changes_nothing`: both ways of watching, for histories.
-/

namespace Intcode

/-! ### Recording -/

/-- The request starts or stops the recording of events. -/
def Request.switches : Request → Bool
  | .record _ => true
  | _ => false

namespace Machine

variable {m m' : Machine} {fuel : Nat}

/-- What is seen of a history apart from events and from the requests that switch recording. -/
def seen (s : List Exchange × Machine) : List Exchange :=
  (s.1.filter fun x => !x.request.switches).map Exchange.visible

theorem map_seen_cons_of_switches {x : Exchange} (hx : x.request.switches = true)
    (rest : Option (List Exchange × Machine)) :
    (rest.map fun s => (x :: s.1, s.2)).map seen = rest.map seen := by
  cases rest with
  | none => rfl
  | some s => simp [seen, hx]

theorem map_seen_cons {x : Exchange} (hx : x.request.switches = false)
    (rest : Option (List Exchange × Machine)) :
    (rest.map fun s => (x :: s.1, s.2)).map seen = (rest.map seen).map (x.visible :: ·) := by
  cases rest with
  | none => rfl
  | some s => simp [seen, hx]

/-- Requests that switch recording can be left out. -/
theorem serve_unswitched (m : Machine) (rs : List Request) :
    (m.serve fuel rs).map seen =
      (m.serve fuel (rs.filter fun r => !r.switches)).map fun s => s.1.map Exchange.visible := by
  induction rs generalizing m with
  | nil => rfl
  | cons r rs ih =>
    cases hr : r.switches with
    | true =>
      cases r with
      | record on =>
        have halike : Alike { m with recording := on } m := ⟨rfl, rfl, rfl⟩
        have hhandle : m.handle fuel (.record on) =
          some ({ m with recording := on }, "", .ok .done) := rfl
        rw [List.filter_cons_of_neg (by rw [hr]; simp), serve_cons_of_some hhandle,
          map_seen_cons_of_switches rfl, ih, halike.serve]
      | _ => cases hr
    | false =>
      rw [List.filter_cons_of_pos (by rw [hr]; simp)]
      cases hhandle : m.handle fuel r with
      | none => rw [serve_cons_of_none hhandle, serve_cons_of_none hhandle]; rfl
      | some x =>
        obtain ⟨m', printed, reply⟩ := x
        have hx : (m.exchange m' r printed reply).request.switches = false := hr
        rw [serve_cons_of_some hhandle, serve_cons_of_some hhandle, map_seen_cons hx,
          map_visible_cons, ih]

end Machine

/-! ### Legible courses -/

/-- No cell, the counter and no queued output value is too long to be written. -/
def Config.Legible (c : Config) : Prop :=
  (∀ v ∈ c.memory.toList, Numeral.Short v) ∧ Numeral.Short c.pc ∧ ∀ v ∈ c.output, Numeral.Short v

instance (c : Config) : Decidable c.Legible :=
  inferInstanceAs (Decidable (_ ∧ _ ∧ _))

/-- A value that can be read stands in memory. -/
theorem Memory.mem_of_read? {memory : Memory} {a v : Int} (h : memory.read? a = some v) :
    v ∈ memory.toList := by
  cases a with
  | ofNat n =>
    have hn : memory[n]? = some v := h
    exact Array.mem_toList_iff.2 (Array.mem_of_getElem? hn)
  | negSucc n => cases h

namespace Config

variable {c : Config} {i : Instruction} {e : Effect}

/-- The instruction at the counter can be announced. -/
theorem Legible.announced (h : c.Legible) (hi : c.instruction = .ok i) :
    Numeral.allShort (i.address :: c.params i) = true := by
  rw [Numeral.allShort_eq_true]
  intro v hv
  rcases List.mem_cons.1 hv with rfl | hv
  · rw [address_of_instruction hi]
    exact h.2.1
  · rw [params_eq_take] at hv
    exact h.1 v (List.mem_of_mem_drop (List.mem_of_mem_take hv))

/-- The address that an instruction writes is a parameter of it. -/
theorem Performs.exists_read? (h : c.Performs i e) {a v : Int} (hw : e.write = some (a, v)) :
    ∃ x, c.memory.read? x = some a := by
  cases h with
  | store ho ha hb hd hv =>
    cases hw
    exact ⟨_, hd⟩
  | input ho hq hd hv =>
    cases hw
    exact ⟨_, hd⟩
  | _ => cases hw

/-- What an instruction writes can be reported. -/
theorem Legible.written (h : c.Legible) (h' : (c.apply e).Legible) (hp : c.Performs i e) :
    Numeral.allShort (e.write.toList.flatMap fun w => [w.1, w.2]) = true := by
  cases hw : e.write with
  | none => rfl
  | some w =>
    obtain ⟨a, v⟩ := w
    have ha : Numeral.Short a := by
      obtain ⟨x, hx⟩ := hp.exists_read? hw
      exact h.1 a (Memory.mem_of_read? hx)
    have hv : Numeral.Short v := by
      have hmemory : (c.apply e).memory = c.memory.write a v := by simp [apply, hw]
      refine h'.1 v (Memory.mem_of_read? (a := a) ?_)
      rw [hmemory]
      exact Memory.read?_write_self (hp.write_valid hw)
    simp [Numeral.allShort, ha, hv]

end Config

namespace Machine

variable {m m' : Machine} {fuel : Nat} {e : Effect} {i : Instruction}

/-- The configurations through which a run goes, the first and the last included. -/
def course : Nat → Machine → List Config
  | 0, m => [m.config]
  | fuel + 1, m =>
    m.config ::
      match m.step with
      | (m, .ok .running) => course fuel m
      | (m, _) => [m.config]

/-- The configurations through which a request makes the machine go. -/
def passes (fuel : Nat) (m : Machine) : Request → List Config
  | .run _ => m.course fuel
  | .step _ => [m.config, m.step.1.config]
  | _ => []

theorem course_succ_of_running (h : m.step = (m', .ok .running)) :
    m.course (fuel + 1) = m.config :: m'.course fuel := by
  simp only [course, h]

theorem course_succ_of_stopped (h : m.step.2 ≠ .ok .running) :
    m.course (fuel + 1) = [m.config, m.step.1.config] := by
  rw [course]
  split
  · rename_i m' hm
    exact absurd (by rw [hm]) h
  · rename_i m' reply _ hm
    rw [hm]

theorem config_mem_course (fuel : Nat) (m : Machine) : m.config ∈ m.course fuel := by
  cases fuel with
  | zero => exact List.mem_singleton_self _
  | succ fuel => exact List.mem_cons_self

theorem config_step_mem_course (fuel : Nat) (m : Machine) :
    m.step.1.config ∈ m.course (fuel + 1) := by
  by_cases hs : m.step.2 = .ok .running
  · rw [course_succ_of_running (Prod.ext rfl hs)]
    exact List.mem_cons_of_mem _ (config_mem_course fuel _)
  · rw [course_succ_of_stopped hs]
    simp

end Machine

/-- The same request without a printed account. -/
def Request.silent : Request → Request
  | .run _ => .run false
  | .step _ => .step false
  | r => r

/-- The same exchange without a printed account. -/
def Exchange.silent (x : Exchange) : Exchange :=
  { x with request := x.request.silent, printed := "" }

namespace Machine

variable {m m' : Machine} {fuel : Nat} {e : Effect} {i : Instruction} {r : Request}
  {rs : List Request}

/-- The configurations through which the instructions executed in a history lead. -/
def passed (fuel : Nat) : Machine → List Request → List Config
  | _, [] => []
  | m, r :: rs =>
    m.passes fuel r ++
      match m.handle fuel r.silent with
      | none => []
      | some (m', _, _) => passed fuel m' rs

/-! ### Printed accounts -/

theorem performShown_eq_perform (h : m.config.Legible) (h' : (m.config.apply e).Legible)
    (hp : m.config.Performs i e) :
    ∃ text, m.performShown e = (m.perform e, text, .ok (statusAfter e)) := by
  have hwritten := h.written h' hp
  have houtput : Numeral.allShort (m.commit e).config.output = true := by
    rw [Numeral.allShort_eq_true]
    exact h'.2.2
  unfold performShown
  simp only [hwritten, houtput, Bool.not_true, Bool.false_eq_true, if_false, ← perform_eq_log]
  exact ⟨_, rfl⟩

/-- An account of one instruction changes nothing if what it names can be written before and after
the instruction. -/
theorem stepShown_eq_step (h : m.config.Legible) (h' : m.step.1.config.Legible) :
    ∃ text, m.stepShown = (m.step.1, text, m.step.2) := by
  unfold stepShown
  cases hi : m.config.instruction with
  | error f =>
    have hn : m.config.next = .error f := Config.next_eq_error_iff.2 (.inl hi)
    rw [step_of_error hn]
    exact ⟨_, rfl⟩
  | ok i =>
    have hnext : m.config.next = m.config.effect i := by
      rw [Config.next, hi]
      rfl
    simp only [h.announced hi, if_true]
    cases he : m.config.effect i with
    | error f =>
      rw [step_of_error (hnext.trans he)]
      exact ⟨_, rfl⟩
    | ok o =>
      cases o with
      | none =>
        rw [step_of_wait (hnext.trans he)]
        exact ⟨_, rfl⟩
      | some e =>
        rw [step_of_effect (hnext.trans he)] at h' ⊢
        rw [config_perform] at h'
        exact performShown_eq_perform h h' (Config.effect_eq_ok_iff.1 he)

/-- An account of a run changes nothing if what it names can be written all along. -/
theorem runShown_eq_run (h : ∀ c ∈ m.course fuel, c.Legible) (printed : String) :
    (m.runShown fuel printed).map (fun r => (r.1, r.2.2)) = m.run fuel := by
  induction fuel generalizing m printed with
  | zero => rfl
  | succ fuel ih =>
    have hstart : m.config.Legible := h _ (config_mem_course _ m)
    by_cases hs : m.step.2 = .ok .running
    · have hadvances := advances_of_running hs
      rw [course_succ_of_running hadvances] at h
      have hcourse : ∀ c ∈ m.step.1.course fuel, c.Legible := fun c hc =>
        h c (List.mem_cons_of_mem _ hc)
      obtain ⟨text, htext⟩ := stepShown_eq_step hstart (hcourse _ (config_mem_course _ _))
      rw [run_succ_of_running hadvances, ← ih hcourse (printed ++ text), runShown]
      simp only [htext, hs]
    · rw [course_succ_of_stopped hs] at h
      have hnext : m.step.1.config.Legible := h _ (by simp)
      obtain ⟨text, htext⟩ := stepShown_eq_step hstart hnext
      have hshort : Numeral.Short m.step.1.pc := hnext.2.1
      rw [run_succ_of_stopped hs, runShown]
      generalize m.step = stopped at hs htext hshort ⊢
      obtain ⟨m', reply⟩ := stopped
      cases reply with
      | error f =>
        simp only [htext]
        rfl
      | ok s =>
        cases s with
        | running => exact absurd rfl hs
        | _ =>
          simp only [htext, if_pos hshort]
          rfl

theorem perform_of_performShown {text : String} {reply : Except Failure Status}
    (h : m.performShown e = (m', text, reply)) (hr : reply ≠ .error .overlong) :
    (m.perform e, .ok (statusAfter e)) = (m', reply) := by
  unfold performShown at h
  dsimp only at h
  split at h
  · cases h
    exact absurd rfl hr
  · split at h <;> cases h
    · exact absurd rfl hr
    · rw [perform_eq_log]

/-- An account of one instruction that does not stop at a long integer changes nothing. -/
theorem step_of_stepShown {text : String} {reply : Except Failure Status}
    (h : m.stepShown = (m', text, reply)) (hr : reply ≠ .error .overlong) :
    m.step = (m', reply) := by
  unfold stepShown at h
  cases hi : m.config.instruction with
  | error f =>
    simp only [hi] at h
    cases h
    exact step_of_error (Config.next_eq_error_iff.2 (.inl hi))
  | ok i =>
    have hnext : m.config.next = m.config.effect i := by
      rw [Config.next, hi]
      rfl
    cases he : m.config.effect i with
    | error f =>
      simp only [hi, he] at h
      split at h <;> cases h
      · exact step_of_error (hnext.trans he)
      · exact absurd rfl hr
    | ok o =>
      cases o with
      | none =>
        simp only [hi, he] at h
        cases h
        exact step_of_wait (hnext.trans he)
      | some e =>
        simp only [hi, he] at h
        split at h
        · rw [step_of_effect (hnext.trans he)]
          exact perform_of_performShown h hr
        · cases h
          exact absurd rfl hr

/-- An account of a run that does not stop at a long integer changes nothing. -/
theorem run_of_runShown {before text : String} {reply : Except Failure Status}
    (h : m.runShown fuel before = some (m', text, reply)) (hr : reply ≠ .error .overlong) :
    m.run fuel = some (m', reply) := by
  induction fuel generalizing m before with
  | zero => cases h
  | succ fuel ih =>
    unfold runShown at h
    split at h
    · rename_i m₁ text₁ hs
      rw [run_succ_of_running (step_of_stepShown hs (by simp))]
      exact ih h
    · rename_i m₁ text₁ s hne hs
      have hstep := step_of_stepShown hs (by simp)
      have hstopped : m.step.2 ≠ .ok .running := by
        rw [hstep]
        intro hrunning
        cases hrunning
        exact hne rfl
      split at h <;> cases h
      · rw [run_succ_of_stopped hstopped, hstep]
      · exact absurd rfl hr
    · rename_i m₁ text₁ f hs
      cases h
      have hstep := step_of_stepShown hs hr
      rw [run_succ_of_stopped (by rw [hstep]; simp), hstep]

/-! ### Requests and histories -/

/-- An account of what a request executes changes nothing on a legible course. -/
theorem handle_silent (h : ∀ c ∈ m.passes fuel r, c.Legible) :
    (m.handle fuel r).map (fun x => (x.1, "", x.2.2)) = m.handle fuel r.silent := by
  cases r with
  | run shown =>
    cases shown with
    | true =>
      have hrun := runShown_eq_run h ""
      simp only [handle, Request.silent, ← hrun, Option.map_map]
      rfl
    | false =>
      simp only [handle, Request.silent, Option.map_map]
      rfl
  | step shown =>
    cases shown with
    | true =>
      obtain ⟨text, htext⟩ := stepShown_eq_step (h m.config (by simp [passes]))
        (h m.step.1.config (by simp [passes]))
      simp only [handle, Request.silent, htext]
      rfl
    | false => rfl
  | take =>
    simp only [handle, Request.silent]
    split <;> rfl
  | write a v =>
    simp only [handle, Request.silent]
    split <;> rfl
  | _ => simp only [handle, Request.silent, Option.map_some]

theorem passed_cons_of_some {printed : String} {reply : Except Failure Reply}
    (h : m.handle fuel r.silent = some (m', printed, reply)) :
    m.passed fuel (r :: rs) = m.passes fuel r ++ m'.passed fuel rs := by
  simp only [passed, h]

/-- Printed accounts change nothing in a history whose course is legible. -/
theorem serve_silent (h : ∀ c ∈ m.passed fuel rs, c.Legible) :
    (m.serve fuel rs).map (fun s => (s.1.map Exchange.silent, s.2)) =
      m.serve fuel (rs.map Request.silent) := by
  induction rs generalizing m with
  | nil => rfl
  | cons r rs ih =>
    have hfirst : (m.handle fuel r).map (fun x => (x.1, "", x.2.2)) = m.handle fuel r.silent :=
      handle_silent fun c hc => h c (List.mem_append_left _ hc)
    rw [List.map_cons]
    cases hr : m.handle fuel r with
    | none =>
      rw [hr] at hfirst
      rw [serve_cons_of_none hr, serve_cons_of_none hfirst.symm]
      rfl
    | some x =>
      obtain ⟨m', printed, reply⟩ := x
      rw [hr] at hfirst
      have hsilent : m.handle fuel r.silent = some (m', "", reply) := hfirst.symm
      have hrest : ∀ c ∈ m'.passed fuel rs, c.Legible := fun c hc => by
        rw [passed_cons_of_some hsilent] at h
        exact h c (List.mem_append_right _ hc)
      rw [serve_cons_of_some hr, serve_cons_of_some hsilent, ← ih hrest, Option.map_map,
        Option.map_map]
      rfl

/-- **Watching changes nothing.**  Let a machine, in whatever state, serve any requests.

* Switch recording on or off at the start, and leave out the requests that switch it later: printed
  accounts, replies and failures, and configuration and status after each request, stay the same;
  only the events are different.
* Ask for printed accounts, or do not: as long as no cell, no counter and no queued output value on
  the way is too long to be written, replies and failures, recorded events, configuration and status
  after each request, and the machine at the end stay the same. -/
theorem watching_changes_nothing (m : Machine) (fuel : Nat) (rs : List Request) :
    (∀ on, (m.serve fuel rs).map seen =
      (Machine.serve fuel { m with recording := on } (rs.filter fun r => !r.switches)).map
        fun s => s.1.map Exchange.visible) ∧
    ((∀ c ∈ m.passed fuel rs, c.Legible) →
      (m.serve fuel rs).map (fun s => (s.1.map Exchange.silent, s.2)) =
        m.serve fuel (rs.map Request.silent)) := by
  refine ⟨fun on => ?_, serve_silent⟩
  have halike : Alike m { m with recording := on } := ⟨rfl, rfl, rfl⟩
  rw [serve_unswitched, halike.serve]

/-- A program that ends with a jump whose target is cut off. -/
def cutJump : Program :=
  ⟨"104,5,1106,1", #[104, 5, 1106, 1], by rfl⟩

/-- The jump is not taken, and the run fails behind the end of memory, watched or not. -/
theorem cutJump_watched :
    (∀ c ∈ (ofProgram cutJump false).passed 3 [.record true, .run true, .take, .events],
      c.Legible) ∧
    ∃ log m', (ofProgram cutJump false).serve 3 [.record true, .run false, .take, .events] =
        some (log, m') ∧ m'.pc = 5 ∧ m'.status = .running ∧
      ((ofProgram cutJump false).serve 3 [.record true, .run true, .take, .events]).map
        (fun s => (s.1.map Exchange.silent, s.2)) = some (log, m') ∧
      ((ofProgram cutJump false).serve 3 [.record true, .run true, .take, .events]).map seen =
        ((ofProgram cutJump false).serve 3 [.run true, .take, .events]).map
          fun s => s.1.map Exchange.visible := by
  have hlegible : ∀ c ∈ (ofProgram cutJump false).passed 3
      [.record true, .run true, .take, .events], c.Legible := by decide +kernel
  have hserve : (ofProgram cutJump false).serve 3 [.record true, .run false, .take, .events] =
    some (_, _) := rfl
  obtain ⟨hrecorded, hshown⟩ := watching_changes_nothing (ofProgram cutJump false) 3
    [.record true, .run true, .take, .events]
  exact ⟨hlegible, _, _, hserve, rfl, rfl, (hshown hlegible).trans hserve, hrecorded false⟩

end Machine

end Intcode

import Intcode.Proofs.Forwarding

/-!
# Stalled chains

A round of a chain reports progress by comparing each machine before and after its turn: it looks
at the output, the counter and the number of queued values, and at nothing else.  This module shows
that no work escapes this comparison, so that a round without progress has found a ring in which no
machine can do anything any more.

* `Machine.AtInput`, `Machine.Idle`: a machine stands at an input instruction; it has halted, or
  waits with nothing queued;
* `Machine.Poised`: the machines between two turns; one that has not run yet still has its phase
  setting queued, and one that waits stands at an input instruction.  `Poised.visit`,
  `Poised.visitAll` and `Pumped.poised` carry this through turns and rounds;
* `visit_of_progressed_false`, `pump_of_progressed_false`: a turn or a round without progress has
  changed nothing, and has found idle machines only;
* `visit_of_idle`, `pump_of_idle`: and the other way round;
* `Machine.Stuck`, `Ring.eq_of_moves`: machines that have halted or wait make no move;
* `rounds_stalled`: a chain that reports a stall has found such a round;
* `stall_report_genuine`: what a stall report says of all further schedules.
-/

namespace Intcode

namespace Machine

variable {m m' : Machine} {s : Status} {fuel : Nat}

/-- The instruction at the program counter reads input. -/
def AtInput (m : Machine) : Prop :=
  ∃ i, m.config.instruction = .ok i ∧ i.opcode = .input

/-- The machine has halted, or it waits at an input instruction with nothing queued. -/
def Idle (m : Machine) : Prop :=
  m.status = .halted ∨ m.status = .blocked ∧ m.config.input = [] ∧ m.AtInput

/-- The machine has halted, or has stopped at an input instruction, or has not run yet and has
input queued. -/
def Poised (m : Machine) : Prop :=
  m.status = .halted ∨ m.status = .blocked ∧ m.AtInput ∨
    m.status = .initialized ∧ m.config.input ≠ []

/-- The machine has halted, or its next instruction waits. -/
def Stuck (m : Machine) : Prop :=
  m.status = .halted ∨ m.config.next = .ok none

theorem next_eq_wait_iff_atInput : m.config.next = .ok none ↔ m.config.input = [] ∧ m.AtInput := by
  rw [Config.next_eq_wait_iff]
  constructor
  · rintro ⟨i, hi, ho, hq⟩
    exact ⟨hq, i, hi, ho⟩
  · rintro ⟨hq, i, hi, ho⟩
    exact ⟨i, hi, ho, hq⟩

theorem Idle.stuck (h : m.Idle) : m.Stuck := by
  rcases h with h | ⟨-, h⟩
  · exact .inl h
  · exact .inr (next_eq_wait_iff_atInput.2 h)

theorem Stuck.settle (h : m.Stuck) : m.settle.Stuck := by
  rcases h with h | h
  · exact .inl (status_settle.2 h)
  · unfold Machine.settle
    split
    · exact .inr h
    · exact .inr h

/-! ### How a run ends -/

/-- A run that does not fail ends in a halt, or before an input instruction with nothing queued. -/
theorem Ends.stuck (h : m.Ends (m', .ok s)) :
    m'.status = s ∧ (s = .halted ∨ s = .blocked ∧ m'.config.next = .ok none) := by
  obtain ⟨m₀, -, hlast, hr⟩ := ends_iff.1 h
  refine ⟨status_step hlast, ?_⟩
  rcases m₀.step_cases with ⟨f, -, hs⟩ | ⟨hn, hs⟩ | ⟨e, -, hs⟩
  · rw [hlast] at hs
    cases hs
  · rw [hlast] at hs
    cases hs
    exact .inr ⟨rfl, by rwa [config_await]⟩
  · rw [hlast] at hs
    cases hs
    unfold statusAfter at hr ⊢
    split at hr
    · exact .inl (if_pos ‹_›)
    · exact absurd rfl hr

theorem Ends.poised (h : m.Ends (m', .ok s)) : m'.drain.2.Poised := by
  obtain ⟨hstatus, rfl | ⟨rfl, hn⟩⟩ := h.stuck
  · exact .inl hstatus
  · exact .inr (.inl ⟨hstatus, (next_eq_wait_iff_atInput.1 hn).2⟩)

theorem Poised.feedAll (h : m.Poised) (vs : List Int) : (m.feedAll vs).Poised := by
  rcases h with h | h | ⟨hs, hq⟩
  · exact .inl h
  · exact .inr (.inl h)
  · exact .inr (.inr ⟨hs, by simp [Machine.feedAll, Queue.pushAll, hq]⟩)

/-- A run of a machine that waits with nothing queued changes nothing. -/
theorem run_of_wait (hr : m.recording = false) (hs : m.status = .blocked)
    (hn : m.config.next = .ok none) : m.run (fuel + 1) = some (m, .ok .blocked) := by
  have hstep := step_of_wait hn
  have hawait : m.await = m := by
    have h : m.await = { m with status := .blocked } := by simp [await, note, hr]
    rw [h, ← hs]
  rw [run_succ_of_stopped (by rw [hstep]; simp), hstep, hawait]

/-- A run between whose ends no difference shows: the machine was waiting, and still is. -/
theorem idle_of_run_unchanged (hp : m.Poised) (hr : m.recording = false) (hh : m.status ≠ .halted)
    (h : m.run fuel = some (m', .ok s)) (hs : s ≠ .halted)
    (hq : m'.config.input.length = m.config.input.length) : m' = m ∧ m.Idle := by
  obtain ⟨-, rfl | ⟨rfl, hn'⟩⟩ := Ends.stuck ⟨fuel, h⟩
  · exact absurd rfl hs
  · -- the run has stopped with nothing queued, and it has consumed nothing
    rw [(next_eq_wait_iff_atInput.1 hn').1, List.length_nil] at hq
    have hnil : m.config.input = [] := List.length_eq_zero_iff.1 hq.symm
    rcases hp with hp | ⟨hb, hat⟩ | ⟨-, hne⟩
    · exact absurd hp hh
    · have hwait : m.config.next = .ok none := next_eq_wait_iff_atInput.2 ⟨hnil, hat⟩
      have hrun : m.run 1 = some (m, .ok .blocked) := run_of_wait hr hb hwait
      exact ⟨congrArg Prod.fst (run_unique h hrun), .inr ⟨hb, hnil, hat⟩⟩
    · exact absurd hnil hne

end Machine

namespace Chain

variable {fuel i k : Nat} {ms ms' start : List Machine} {round round' : Round} {done : History}

/-! ### The machines between two turns -/

theorem Poised.visit (hp : ∀ m ∈ ms, m.Poised)
    (h : visit fuel true i ms round = some (ms', .ok round')) : ∀ m ∈ ms', m.Poised := by
  rcases visit_eq_ok h with ⟨rfl, -⟩ | ⟨m, m', s, -, -, hrun, hms', -⟩
  · exact hp
  · intro x hx
    obtain ⟨k, hk⟩ := List.getElem?_of_mem hx
    rw [show ms' = ((Ring.mk ms []).pass i m').machines from hms', Ring.getElem?_pass] at hk
    obtain ⟨y, hy, rfl⟩ := Option.map_eq_some_iff.1 hk
    apply Machine.Poised.feedAll
    rcases List.mem_or_eq_of_mem_set (List.mem_of_getElem? hy) with hy | rfl
    · exact hp y hy
    · exact Machine.Ends.poised ⟨fuel, hrun⟩

theorem Poised.visitAll {indices : List Nat} (hp : ∀ m ∈ ms, m.Poised)
    (h : visitAll fuel true indices ms round = some (ms', .ok round')) :
    ∀ m ∈ ms', m.Poised := by
  induction indices generalizing ms round with
  | nil =>
    cases h
    exact hp
  | cons i indices ih =>
    unfold Chain.visitAll at h
    split at h
    · rename_i ms₁ round₁ hvisit
      exact ih (Poised.visit hp hvisit) h
    · rename_i hstopped
      exact absurd h (hstopped _ _)

theorem poised_seeded (p : Program) (phases queued : List Int) :
    ∀ m ∈ seeded p phases queued, m.Poised := by
  intro m hm
  obtain ⟨i, hi⟩ := List.getElem?_of_mem hm
  rw [getElem?_seeded] at hi
  obtain ⟨phase, -, rfl⟩ := Option.map_eq_some_iff.1 hi
  exact .inr (.inr ⟨rfl, by simp [Machine.feedAll, Queue.pushAll]⟩)

theorem Pumped.poised (h : Pumped start ms done) (hp : ∀ m ∈ start, m.Poised) :
    ∀ m ∈ ms, m.Poised := by
  induction h with
  | start => exact hp
  | round _ hpump ih => exact Poised.visitAll ih hpump

/-! ### Rounds without progress -/

/-- A turn without progress has changed nothing, and its machine is idle. -/
theorem visit_of_progressed_false (hq : Quiet ms) (hp : ∀ m ∈ ms, m.Poised)
    (h : visit fuel true i ms round = some (ms', .ok round')) (hr : round'.progressed = false) :
    ms' = ms ∧ round.progressed = false ∧ ∀ m, ms[i]? = some m → m.Idle := by
  rcases visit_eq_ok h with ⟨rfl, rfl, hh⟩ | ⟨m, m', s, hm, hh, hrun, hms', rfl⟩
  · exact ⟨rfl, hr, fun m hm => .inl (hh m hm)⟩
  · simp only [Bool.or_eq_false_iff, beq_eq_false_iff_ne, bne_eq_false_iff_eq] at hr
    obtain ⟨hround, ⟨⟨-, hs⟩, -⟩, hlength⟩ := hr
    have hmem := List.mem_of_getElem? hm
    obtain ⟨rfl, hidle⟩ :=
      Machine.idle_of_run_unchanged (hp m hmem) (hq m hmem).1 hh hrun hs hlength
    refine ⟨?_, hround, ?_⟩
    · have hself := Ring.pass_self (r := ⟨ms, []⟩) hm (hq _ hmem).2
      rw [show ms' = ((Ring.mk ms []).pass i _).machines from hms', hself]
    · intro x hx
      rw [hm] at hx
      cases hx
      exact hidle

theorem visitAll_of_progressed_false {indices : List Nat} (hq : Quiet ms)
    (hp : ∀ m ∈ ms, m.Poised)
    (h : visitAll fuel true indices ms round = some (ms', .ok round'))
    (hr : round'.progressed = false) :
    ms' = ms ∧ round.progressed = false ∧ ∀ i ∈ indices, ∀ m, ms[i]? = some m → m.Idle := by
  induction indices generalizing ms round with
  | nil =>
    cases h
    exact ⟨rfl, hr, by simp⟩
  | cons i indices ih =>
    unfold visitAll at h
    split at h
    · rename_i ms₁ round₁ hvisit
      obtain ⟨rfl, hround, hrest⟩ := ih (hq.visit hvisit) (Poised.visit hp hvisit) h
      obtain ⟨rfl, hround', hfirst⟩ := visit_of_progressed_false hq hp hvisit hround
      refine ⟨rfl, hround', ?_⟩
      intro k hk
      rcases List.mem_cons.1 hk with rfl | hk
      · exact hfirst
      · exact hrest k hk
    · rename_i hstopped
      exact absurd h (hstopped _ _)

/-- A round without progress has changed nothing, and all machines are idle. -/
theorem pump_of_progressed_false (hq : Quiet ms) (hp : ∀ m ∈ ms, m.Poised)
    (h : pump fuel true ms = some (ms', .ok round)) (hr : round.progressed = false) :
    ms' = ms ∧ ∀ m ∈ ms, m.Idle := by
  obtain ⟨hms, -, hidle⟩ := visitAll_of_progressed_false hq hp h hr
  refine ⟨hms, ?_⟩
  intro m hm
  obtain ⟨i, hi⟩ := List.getElem?_of_mem hm
  exact hidle i (List.mem_range.2 (List.getElem?_eq_some_iff.1 hi).1) m hi

/-- The turn of an idle machine changes nothing and is no progress. -/
theorem visit_of_idle (hq : Quiet ms) (hidle : ∀ m ∈ ms, m.Idle) :
    visit (fuel + 1) true i ms round = some (ms, .ok round) := by
  cases hm : ms[i]? with
  | none => simp only [visit, hm]
  | some m =>
    have hmem := List.mem_of_getElem? hm
    obtain ⟨hr, ho⟩ := hq m hmem
    rcases hidle m hmem with hh | ⟨hb, hwait⟩
    · simp only [visit, hm, if_pos hh]
    · have hrun : m.run (fuel + 1) = some (m, .ok .blocked) :=
        Machine.run_of_wait hr hb (Machine.next_eq_wait_iff_atInput.2 hwait)
      have hh : m.status ≠ .halted := by simp [hb]
      have hdrain : m.drain = ([], m) := by
        unfold Machine.drain
        rw [← ho]
      have hself := congrArg Ring.machines (Ring.pass_self (r := ⟨ms, []⟩) hm ho)
      simp only [Ring.pass, hdrain] at hself
      have hmoved : (Status.blocked == Status.halted) = false := rfl
      simp only [visit, hm, if_neg hh, hrun, hdrain, List.length_set, hself, hmoved]
      simp

theorem visitAll_of_idle (hq : Quiet ms) (hidle : ∀ m ∈ ms, m.Idle) (indices : List Nat) :
    visitAll (fuel + 1) true indices ms round = some (ms, .ok round) := by
  induction indices with
  | nil => rfl
  | cons i indices ih => simp only [visitAll, visit_of_idle hq hidle, ih]

/-- A round of idle machines changes nothing and is no progress. -/
theorem pump_of_idle (hq : Quiet ms) (hidle : ∀ m ∈ ms, m.Idle) :
    pump (fuel + 1) true ms = some (ms, .ok ⟨false, none⟩) :=
  visitAll_of_idle hq hidle _

/-! ### No move is left -/

namespace Ring

variable {r r' : Ring}

theorem not_move_of_stuck (h : ∀ m ∈ r.machines, m.Stuck) : ¬ Move r r' := by
  rintro ⟨i, hi⟩
  obtain ⟨m, m', s, hm, hh, hs, hb, -⟩ := move?_eq_some_iff.1 hi
  rcases h m (List.mem_of_getElem? hm) with hhalted | hwait
  · exact hh hhalted
  · rw [Machine.step_of_wait hwait] at hs
    cases hs
    exact hb rfl

/-- In a ring of stuck machines every schedule is empty. -/
theorem eq_of_moves (h : ∀ m ∈ r.machines, m.Stuck) (hr : Moves r r') : r' = r :=
  (Relation.reflTransGen_iff_eq fun _ => not_move_of_stuck h).1 hr

theorem stuck_settle (h : ∀ m ∈ r.machines, m.Stuck) : ∀ m ∈ r.settle.machines, m.Stuck := by
  intro m hm
  obtain ⟨x, hx, rfl⟩ := List.mem_map.1 hm
  exact (h x hx).settle

/-- If some schedule ends in a ring of stuck machines whose last one has not halted, then no
schedule from the same start leaves the last machine halted. -/
theorem not_lastHalted_of_stuck {r₀ : Ring} (h : Moves r₀ r) (hs : ∀ m ∈ r.machines, m.Stuck)
    (hl : ¬ r.LastHalted) (h' : Moves r₀ r') : ¬ r'.LastHalted := by
  intro hl'
  obtain ⟨r₁, hr, hr'⟩ := moves_confluent h h'
  obtain ⟨hlast, -⟩ := Moves.lastHalted hr' hl'
  rw [eq_of_moves hs hr] at hlast
  exact hl hlast

theorem lastHalted_of_settle (h : r.settle.LastHalted) : r.LastHalted := by
  obtain ⟨m, hm, hs⟩ := h
  rw [settle, List.getLast?_map] at hm
  obtain ⟨x, hx, rfl⟩ := Option.map_eq_some_iff.1 hm
  exact ⟨x, hx, Machine.status_settle.1 hs⟩

end Ring

theorem lastStatus_of_lastHalted {emitted : List Int} (h : (Ring.mk ms emitted).LastHalted) :
    lastStatus ms = .halted := by
  obtain ⟨m, hm, hs⟩ := h
  rw [lastStatus, show ms.getLast? = some m from hm]
  exact hs

/-- The last of idle machines waits if it has not halted. -/
theorem lastStatus_of_idle (hidle : ∀ m ∈ ms, m.Idle) (h : lastStatus ms ≠ .halted) :
    lastStatus ms = .blocked := by
  unfold lastStatus at h ⊢
  cases hl : ms.getLast? with
  | none =>
    rw [hl] at h
    exact absurd rfl h
  | some m =>
    rw [hl] at h
    rcases hidle m (List.mem_of_getLast? hl) with hh | ⟨hb, -⟩
    · exact absurd hh h
    · exact hb

/-- Completed rounds are moves. -/
theorem Pumped.moves (h : Pumped start ms done) (hq : Quiet start) :
    ∃ emitted, Ring.Moves (Ring.mk start []).settle (Ring.mk ms emitted).settle := by
  induction h with
  | start => exact ⟨[], .refl⟩
  | round h hp ih =>
    obtain ⟨emitted, hmoves⟩ := ih
    obtain ⟨outs, hmoves', -, -⟩ := pump_moves (h.quiet hq) hp emitted
    exact ⟨_, hmoves.trans hmoves'⟩

/-! ### Stall reports -/

/-- No instruction fails for want of input. -/
theorem next_ne_inputExhausted {c : Config} {cause : Shortage} {outs : List Int}
    {pc : Option Int} : c.next ≠ .error (.fault (.inputExhausted cause outs pc)) := by
  have houtside : ∀ a, c.outside a ≠ .fault (.inputExhausted cause outs pc) := by
    intro a
    unfold Config.outside Failure.outOfBounds
    split <;> simp
  have hunknown : ∀ o w q,
      Failure.unknownOpcode o w q ≠ .fault (.inputExhausted cause outs pc) := by
    intro o w q
    unfold Failure.unknownOpcode
    split <;> simp
  intro h
  rcases Config.next_eq_error_iff.1 h with h | ⟨i, a, -, -, h⟩
  · rcases Config.instruction_eq_error_iff.1 h with ⟨-, h⟩ | ⟨word, -, h⟩
    · exact houtside _ h.symm
    · exact hunknown _ _ _ h.symm
  · exact houtside a h.symm

/-- A turn fails as a run of its machine does. -/
theorem visit_error {f : Failure} {feedback : Bool}
    (h : visit fuel feedback i ms round = some (ms', .error f)) :
    ∃ m m', Machine.Ends m (m', .error f) := by
  unfold visit at h
  split at h
  · cases h
  · rename_i m hm
    split_ifs at h
    · cases h
    · split at h
      · cases h
      · rename_i m' f' hrun
        cases h
        exact ⟨m, m', fuel, hrun⟩
      · dsimp only at h
        split_ifs at h <;> cases h

theorem visitAll_error {f : Failure} {feedback : Bool} {indices : List Nat}
    (h : visitAll fuel feedback indices ms round = some (ms', .error f)) :
    ∃ m m', Machine.Ends m (m', .error f) := by
  induction indices generalizing ms round with
  | nil => cases h
  | cons i indices ih =>
    unfold visitAll at h
    split at h
    · exact ih h
    · exact visit_error h

/-- A chain that reports a stall has completed a round without progress, and its last machine has
not halted. -/
theorem rounds_stalled {more : Nat} {signal : Option Int} {k : Nat} {s : Status} {outs : List Int}
    {pc : Option Int} (hstart : Pumped start ms done)
    (h : rounds fuel true more ms signal =
      some (.error (.fault (.inputExhausted (.stalled k s) outs pc)))) :
    ∃ ms₁ ms₂ done₁ round, Pumped start ms₁ done₁ ∧ pump fuel true ms₁ = some (ms₂, .ok round) ∧
      round.progressed = false ∧ k = ms₂.length - 1 ∧ s = lastStatus ms₂ ∧ s ≠ .halted := by
  induction more generalizing ms signal done with
  | zero => cases h
  | succ more ih =>
    unfold rounds at h
    split at h
    · cases h
    · -- a round that fails reports what an instruction reports
      rename_i f hpump
      cases h
      obtain ⟨m, m', hends⟩ := visitAll_error hpump
      obtain ⟨m₀, -, hlast, -⟩ := Machine.ends_iff.1 hends
      exact absurd (Machine.next_of_step_error (m := m₀) (by rw [hlast])) next_ne_inputExhausted
    · rename_i ms₁ round hpump
      simp only [Bool.not_true, Bool.false_or, beq_iff_eq] at h
      split_ifs at h with hhalted hprogressed
      · cases hsignal : round.last.or signal <;> rw [hsignal] at h <;> cases h
      · exact ih (hstart.round hpump) h
      · cases h
        exact ⟨ms, ms₁, done, round, hstart, hpump, by simpa using hprogressed, rfl, rfl, hhalted⟩

/-- **A stall report is genuine, and a genuine stall is reported.**  After a round without progress
every machine has halted or waits at an input instruction with nothing queued, and no further round
changes anything; if all machines are like that before a round, it makes no progress.  So a chain
reports a stall only when its last machine waits and no schedule lets it halt, neither one that
goes on from there nor one from the start. -/
theorem stall_report_genuine (p : Program) (phases : List Int) (initial : Int) :
    (∀ ms done fuel ms' round, Pumped (seeded p phases [initial]) ms done →
      pump fuel true ms = some (ms', .ok round) → round.progressed = false →
        (∀ m ∈ ms', m.Idle) ∧
        ∀ further, pump (further + 1) true ms' = some (ms', .ok ⟨false, none⟩)) ∧
    (∀ ms done, Pumped (seeded p phases [initial]) ms done → (∀ m ∈ ms, m.Idle) →
      ∀ fuel, pump (fuel + 1) true ms = some (ms, .ok ⟨false, none⟩)) ∧
    (∀ fuel text k s outs pc, Program.ofText text = .ok p →
      run fuel text phases initial true =
        some (.error (.fault (.inputExhausted (.stalled k s) outs pc))) →
      k + 1 = phases.length ∧ s = .blocked ∧
      (∃ ms done, Pumped (seeded p phases [initial]) ms done ∧ (∀ m ∈ ms, m.Idle) ∧
        ∀ emitted schedule r, (Ring.mk ms emitted).follow? schedule = some r →
          r.machines = ms ∧ ¬ r.LastHalted) ∧
      ∀ schedule r, (Ring.start p phases initial).follow? schedule = some r → ¬ r.LastHalted) := by
  have hquiet := quiet_seeded p phases [initial]
  have hpoised := poised_seeded p phases [initial]
  refine ⟨?_, ?_, ?_⟩
  · intro ms done fuel ms' round h hp hr
    obtain ⟨rfl, hidle⟩ := pump_of_progressed_false (h.quiet hquiet) (h.poised hpoised) hp hr
    exact ⟨hidle, fun further => pump_of_idle (h.quiet hquiet) hidle⟩
  · intro ms done h hidle fuel
    exact pump_of_idle (h.quiet hquiet) hidle
  · intro fuel text k s outs pc hp hrun
    have hphases : phases ≠ [] := by
      rintro rfl
      cases hrun
    simp only [run, List.isEmpty_iff, if_neg hphases, hp] at hrun
    have hstart : Pumped (seeded p phases [initial]) (seeded p phases [initial]) fun _ => [] :=
      .start
    obtain ⟨ms, ms', done, round, h, hpump, hr, hk, hs, hhalted⟩ := rounds_stalled hstart hrun
    obtain ⟨rfl, hidle⟩ := pump_of_progressed_false (h.quiet hquiet) (h.poised hpoised) hpump hr
    have hlength : ms'.length = phases.length := by
      rw [h.length_eq, length_seeded]
    have hstuck : ∀ m ∈ ms', m.Stuck := fun m hm => (hidle m hm).stuck
    have hlast : ∀ emitted, ¬ (Ring.mk ms' emitted).LastHalted := fun emitted hl =>
      hhalted (hs.trans (lastStatus_of_lastHalted hl))
    refine ⟨?_, ?_, ⟨ms', done, h, hidle, ?_⟩, ?_⟩
    · have hpos := List.length_pos_iff.2 hphases
      omega
    · rw [hs] at hhalted ⊢
      exact lastStatus_of_idle hidle hhalted
    · intro emitted schedule r hr
      have hsame := Ring.eq_of_moves (r := ⟨ms', emitted⟩) hstuck (Ring.moves_of_follow? hr)
      rw [hsame]
      exact ⟨rfl, hlast emitted⟩
    · intro schedule r hr hl
      obtain ⟨emitted, hmoves⟩ := h.moves hquiet
      have hschedule : Ring.Moves (Ring.start p phases initial).settle r.settle :=
        Ring.Moves.settle (Ring.moves_of_follow? hr)
      exact Ring.not_lastHalted_of_stuck hmoves (Ring.stuck_settle hstuck)
        (fun hsettled => hlast emitted (Ring.lastHalted_of_settle hsettled)) hschedule
        (Ring.lastHalted_settle hl)

/-- The program that reads its phase setting and a value, passes the value on, and asks for another
one before it halts. -/
def asksAgain : Program :=
  ⟨"3,0,3,0,4,0,3,0,99", #[3, 0, 3, 0, 4, 0, 3, 0, 99], by rfl⟩

/-- A machine with this program that has passed the value on. -/
def asksAgainAt (pc : Int) (input : Queue) (status : Status) : Machine :=
  ⟨asksAgain, ⟨#[8, 0, 3, 0, 4, 0, 3, 0, 99], pc, input, []⟩, status, false, #[]⟩

/-- In a ring of two machines the signal goes around once.  The first machine gets it back and
halts; the second then waits for a value that nobody will pass on. -/
theorem asksAgain_stall_genuine :
    (∃ ms done, Pumped (seeded asksAgain [1, 2] [8]) ms done ∧
      pump 5 true ms = some (ms, .ok ⟨false, none⟩) ∧ (∀ m ∈ ms, m.Idle) ∧
      pump 1 true ms = some (ms, .ok ⟨false, none⟩)) ∧
    run 5 asksAgain.text [1, 2] 8 true =
      some (.error (.fault (.inputExhausted (.stalled 1 .blocked) [8] (some 6)))) ∧
    ∀ schedule r, (Ring.start asksAgain [1, 2] 8).follow? schedule = some r → ¬ r.LastHalted := by
  obtain ⟨hround, hidle, hstalled⟩ := stall_report_genuine asksAgain [1, 2] 8
  have hfirst : pump 5 true (seeded asksAgain [1, 2] [8]) =
      some ([asksAgainAt 6 [8] .blocked, asksAgainAt 6 [] .blocked], .ok ⟨true, some 8⟩) := by rfl
  have hsecond : pump 5 true [asksAgainAt 6 [8] .blocked, asksAgainAt 6 [] .blocked] =
      some ([asksAgainAt 9 [] .halted, asksAgainAt 6 [] .blocked], .ok ⟨true, none⟩) := by rfl
  have hthird : pump 5 true [asksAgainAt 9 [] .halted, asksAgainAt 6 [] .blocked] =
      some ([asksAgainAt 9 [] .halted, asksAgainAt 6 [] .blocked], .ok ⟨false, none⟩) := by rfl
  have hrun : run 5 asksAgain.text [1, 2] 8 true =
      some (.error (.fault (.inputExhausted (.stalled 1 .blocked) [8] (some 6)))) := by rfl
  have hp : Program.ofText asksAgain.text = .ok asksAgain := by rfl
  have hpumped := (Pumped.round .start hfirst).round hsecond
  have hall := (hround _ _ _ _ _ hpumped hthird rfl).1
  exact ⟨⟨_, _, hpumped, hthird, hall, hidle _ _ hpumped hall 0⟩, hrun,
    (hstalled _ _ _ _ _ _ hp hrun).2.2.2⟩

end Chain

end Intcode

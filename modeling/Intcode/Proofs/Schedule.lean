import Intcode.Proofs.Ring

/-!
# The rounds of a chain as a schedule

A chain with feedback lets its machines take turns: each runs as far as it can, and only then
its output is handed on, all at once.  This is one schedule of the ring, up to two things: a turn
hands on later than a move does, and it marks a machine that stops at an input instruction as
waiting.

* `Machine.settle`, `Ring.settle`: all states but the halted one taken for the same, which no
  move notices (`Move.settle`);
* `move?_pass_self`: a machine that has not yet handed on its output moves like one that has;
* `moves_of_ends`, `visit_moves`, `pump_moves`, `rounds_moves`: a run, a turn, a round and a
  whole chain as moves;
* `schedule_independence`: the last value of the last machine is the same under every
  schedule that leaves the machine halted.
-/

namespace Intcode

namespace Machine

variable {m m' : Machine} {s : Status}

/-- The machine with every state but the halted one taken for the running one. -/
def settle (m : Machine) : Machine :=
  if m.status = .halted then m else { m with status := .running }

theorem settle_of_halted (h : m.status = .halted) : m.settle = m :=
  if_pos h

theorem settle_of_ne_halted (h : m.status ≠ .halted) :
    m.settle = { m with status := .running } :=
  if_neg h

@[simp] theorem status_settle : m.settle.status = .halted ↔ m.status = .halted := by
  by_cases h : m.status = .halted
  · rw [settle_of_halted h]
  · simp [settle_of_ne_halted h, h]

@[simp] theorem step_settle (m : Machine) : m.settle.step = m.step := by
  unfold settle
  split
  · rfl
  · exact step_withStatus m .running

@[simp] theorem settle_feedAll (m : Machine) (vs : List Int) :
    (m.feedAll vs).settle = m.settle.feedAll vs := by
  by_cases h : m.status = .halted
  · rw [settle_of_halted h, settle_of_halted (m := m.feedAll vs) h]
  · rw [settle_of_ne_halted h, settle_of_ne_halted (m := m.feedAll vs) h]
    rfl

@[simp] theorem drain_settle (m : Machine) : m.settle.drain = (m.drain.1, m.drain.2.settle) := by
  by_cases h : m.status = .halted
  · rw [settle_of_halted h, settle_of_halted (m := m.drain.2) h]
  · rw [settle_of_ne_halted h, settle_of_ne_halted (m := m.drain.2) h]
    rfl

/-- After a step that neither waits nor fails a machine is settled. -/
theorem settle_of_step (h : m.step = (m', .ok s)) (hs : s ≠ .blocked) : m'.settle = m' := by
  have hstatus := status_step h
  obtain ⟨e, -, rfl⟩ := next_of_step_ok (m := m) (s := s) (by rw [h]) hs
  unfold statusAfter at hstatus
  split at hstatus
  · exact settle_of_halted hstatus
  · rw [settle_of_ne_halted (by rw [hstatus]; simp), ← hstatus]

/-- A machine that only starts to wait is settled in the same way as before. -/
theorem settle_await (hr : m.recording = false) (hs : m.status ≠ .halted) :
    m.await.settle = m.settle := by
  have hawait : m.await = { m with status := .blocked } := by
    simp [await, note, hr]
  rw [hawait, settle_of_ne_halted hs, settle_of_ne_halted (by simp)]

end Machine

namespace Chain

namespace Ring

variable {r r' : Ring} {i : Nat} {m m' x : Machine} {s : Status}

/-- The ring with all its machines settled. -/
def settle (r : Ring) : Ring :=
  { r with machines := r.machines.map Machine.settle }

@[simp] theorem emitted_settle (r : Ring) : r.settle.emitted = r.emitted := rfl

@[simp] theorem length_settle (r : Ring) : r.settle.machines.length = r.machines.length := by
  simp [settle]

theorem settle_pass (r : Ring) (i : Nat) (m : Machine) :
    (r.pass i m).settle = r.settle.pass i m.settle := by
  have hgift : ∀ k, r.settle.gift i m.settle k = r.gift i m k := by
    intro k
    unfold gift
    rw [length_settle, show m.settle.config.output = m.settle.drain.1 from rfl,
      Machine.drain_settle]
    rfl
  have hmachines : (r.pass i m).settle.machines = (r.settle.pass i m.settle).machines := by
    apply List.ext_getElem?
    intro k
    have hk : (r.settle.machines.set i m.settle.drain.2)[k]? =
        (r.machines.set i m.drain.2)[k]?.map Machine.settle := by
      simp [settle, ← List.getElem?_map, List.map_set]
    rw [getElem?_pass, hgift, hk]
    simp only [settle, List.getElem?_map, getElem?_pass, Option.map_map]
    congr 1
    funext y
    exact Machine.settle_feedAll y _
  refine congrArg₂ Ring.mk hmachines ?_
  simp [pass, settle]

/-- No move notices whether a machine has run before, runs or waits. -/
theorem Move.settle (h : Move r r') : Move r.settle r'.settle := by
  obtain ⟨i, hi⟩ := h
  obtain ⟨m, m', s, hm, hh, hs, hb, rfl⟩ := move?_eq_some_iff.1 hi
  refine ⟨i, move?_eq_some_iff.2 ⟨m.settle, m', s, ?_, ?_, ?_, hb, ?_⟩⟩
  · simp [Ring.settle, hm]
  · simpa using hh
  · rw [Machine.step_settle, hs]
  · rw [settle_pass, Machine.settle_of_step hs hb]

theorem Moves.settle (h : Moves r r') : Moves r.settle r'.settle :=
  h.lift Ring.settle fun _ _ hmove => hmove.settle

theorem lastHalted_settle (h : r.LastHalted) : r.settle.LastHalted := by
  obtain ⟨m, hm, hs⟩ := h
  exact ⟨m.settle, by simp [Ring.settle, hm], by simpa using hs⟩

/-! ### A run as moves -/

/-- Handing on twice is handing on once, all that was put out. -/
theorem pass_pass (hi : i < r.machines.length) :
    (r.pass i m).pass i (x.feedAll (r.gift i m i)) = r.pass i (x.prepend m.config.output) := by
  have hgift : ∀ k, r.gift i (x.prepend m.config.output) k = r.gift i m k ++ r.gift i x k := by
    intro k
    unfold gift
    split <;> rfl
  have hmachines : ((r.pass i m).pass i (x.feedAll (r.gift i m i))).machines =
      (r.pass i (x.prepend m.config.output)).machines := by
    apply List.ext_getElem?
    intro k
    by_cases hk : k = i
    · subst hk
      rw [getElem?_pass_self (by simpa using hi), getElem?_pass_self hi, hgift,
        ← Machine.feedAll_feedAll]
      simp only [gift_pass, gift_feedAll]
      rfl
    · rw [getElem?_pass_of_ne hk, getElem?_pass_of_ne hk, getElem?_pass_of_ne hk, hgift]
      simp only [Option.map_map, gift_pass, gift_feedAll]
      congr 1
      funext y
      exact Machine.feedAll_feedAll y _ _
  refine congrArg₂ Ring.mk hmachines ?_
  by_cases hl : i + 1 = r.machines.length
  · simp [pass, hl, Machine.drain, Machine.feedAll, Machine.prepend, Machine.mapConfig,
      Config.prepend]
  · simp [pass, hl]

/-- A machine that hands on its output only later makes the same step as one that has handed it
on already, also if it has handed it on to itself. -/
theorem move?_pass_self (hi : i < r.machines.length) (hh : m.status ≠ .halted)
    (hs : m.step = (m', .ok s)) (hb : s ≠ .blocked) :
    (r.pass i m).move? i = some (r.pass i m') := by
  rcases hx : m.drain.2.step with ⟨x, reply⟩
  have hprepend := Machine.step_prepend m.drain.2 m.drain.1
  rw [Machine.prepend_drain, hx, hs] at hprepend
  cases hprepend
  -- in a ring of one machine the output is already queued again, behind all other input
  have hfed : (m.drain.2.feedAll (r.gift i m i)).step = (x.feedAll (r.gift i m i), .ok s) := by
    rw [Machine.step_feedAll (by rw [hx]; simpa using hb), hx]
  refine move?_eq_some_iff.2 ⟨_, _, s, getElem?_pass_self hi, hh, hfed, hb, ?_⟩
  exact (pass_pass hi).symm

/-- A machine that has nothing to hand on is its own replacement. -/
theorem pass_self (hm : r.machines[i]? = some m) (ho : m.config.output = []) : r.pass i m = r := by
  have hdrain : m.drain = ([], m) := by
    unfold Machine.drain
    rw [← ho]
  have hset : r.machines.set i m = r.machines := by
    apply List.ext_getElem?
    intro k
    by_cases hk : i = k
    · subst hk
      rw [List.getElem?_set_self (List.getElem?_eq_some_iff.1 hm).1, hm]
    · rw [List.getElem?_set_ne hk]
  have hmachines : (r.pass i m).machines = r.machines := by
    apply List.ext_getElem?
    intro k
    simp [getElem?_pass, gift, ho, hdrain, hset]
  refine congrArg₂ Ring.mk hmachines ?_
  simp [hdrain]

/-- Instructions of a machine that goes on are moves. -/
theorem moves_of_reaches (hi : i < r.machines.length) (hh : m.status ≠ .halted)
    (h : Relation.ReflTransGen Machine.Advances m m') :
    Moves (r.pass i m) (r.pass i m') ∧ m'.status ≠ .halted ∧ m'.recording = m.recording := by
  induction h with
  | refl => exact ⟨.refl, hh, rfl⟩
  | @tail a b _ hstep ih =>
    obtain ⟨hmoves, hstatus, hrecording⟩ := ih
    have hmove := move?_pass_self hi hstatus hstep (by simp)
    refine ⟨hmoves.tail ⟨i, hmove⟩, ?_, ?_⟩
    · rw [Machine.status_step hstep]
      simp
    · rw [← hrecording, ← a.recording_step, show a.step = (b, .ok .running) from hstep]

/-- A run that does not fail is a sequence of moves, the last step left out if it waits. -/
theorem moves_of_ends (hi : i < r.machines.length) (hh : m.status ≠ .halted)
    (hr : m.recording = false) (h : m.Ends (m', .ok s)) :
    Moves (r.pass i m).settle (r.pass i m').settle ∧ m'.recording = false := by
  obtain ⟨a, ha, hlast, -⟩ := Machine.ends_iff.1 h
  obtain ⟨hmoves, hstatus, hrecording⟩ := moves_of_reaches hi hh ha
  rw [hr] at hrecording
  have hm' : m'.recording = false := by
    rw [← hrecording, ← a.recording_step, hlast]
  refine ⟨?_, hm'⟩
  by_cases hb : s = .blocked
  · -- a step that waits is no move, but it changes no more than the status
    subst hb
    have hwait := Machine.next_of_step_blocked (m := a) (by rw [hlast])
    rw [Machine.step_of_wait hwait] at hlast
    have hawait : a.await = m' := congrArg Prod.fst hlast
    rw [← hawait, settle_pass r i a.await, Machine.settle_await hrecording hstatus, ← settle_pass]
    exact Moves.settle hmoves
  · exact Moves.settle (hmoves.tail ⟨i, move?_pass_self hi hstatus hlast hb⟩)

end Ring

/-! ### Turns and rounds -/

variable {fuel i : Nat} {ms ms' : List Machine} {round round' : Round}

/-- What a turn that does not fail does in a chain with feedback: nothing, if the machine has
halted, or a run whose output is handed on. -/
theorem visit_eq_ok (h : visit fuel true i ms round = some (ms', .ok round')) :
    (ms' = ms ∧ round' = round ∧ ∀ m, ms[i]? = some m → m.status = .halted) ∨
    ∃ m m' s, ms[i]? = some m ∧ m.status ≠ .halted ∧ m.run fuel = some (m', .ok s) ∧
      ms' = (ms.set i m'.drain.2).modify ((i + 1) % ms.length) (·.feedAll m'.drain.1) ∧
      round' =
        { progressed := round.progressed ||
            (!m'.drain.1.isEmpty || s == .halted || m'.pc != m.pc ||
              m'.config.input.length != m.config.input.length)
          last := if i + 1 = ms.length then m'.drain.1.getLast?.or round.last
            else round.last } := by
  unfold visit at h
  split at h
  · rename_i hnone
    cases h
    exact .inl ⟨rfl, rfl, fun m hm => by rw [hnone] at hm; cases hm⟩
  · rename_i m hm
    split_ifs at h with hh
    · cases h
      exact .inl ⟨rfl, rfl, fun x hx => by rw [hm] at hx; cases hx; exact hh⟩
    · split at h
      · cases h
      · cases h
      · rename_i m' s hrun
        simp only [Bool.not_true, Bool.and_false, Bool.false_eq_true, if_false, List.length_set,
          beq_iff_eq, Option.some.injEq, Prod.mk.injEq, Except.ok.injEq] at h
        exact .inr ⟨m, m', s, hm, hh, hrun, h.1.symm, h.2.symm⟩

/-- The machines between two turns: they record nothing and have handed on all their output. -/
def Quiet (ms : List Machine) : Prop :=
  ∀ m ∈ ms, m.recording = false ∧ m.config.output = []

theorem Quiet.pass {r : Ring} {m : Machine} (h : Quiet r.machines) (hm : m.recording = false) :
    Quiet (r.pass i m).machines := by
  intro x hx
  obtain ⟨k, hk⟩ := List.getElem?_of_mem hx
  rw [Ring.getElem?_pass] at hk
  obtain ⟨y, hy, rfl⟩ := Option.map_eq_some_iff.1 hk
  rcases List.mem_or_eq_of_mem_set (List.mem_of_getElem? hy) with hy | rfl
  · exact h y hy
  · exact ⟨hm, rfl⟩

/-- A turn is a sequence of moves, and adds what it makes the last machine put out. -/
theorem visit_moves (hq : Quiet ms) (h : visit fuel true i ms round = some (ms', .ok round'))
    (emitted : List Int) :
    ∃ outs, Ring.Moves (Ring.mk ms emitted).settle (Ring.mk ms' (emitted ++ outs)).settle ∧
      Quiet ms' ∧ round'.last = outs.getLast?.or round.last := by
  rcases visit_eq_ok h with ⟨rfl, rfl, -⟩ | ⟨m, m', s, hm, hh, hrun, rfl, rfl⟩
  · exact ⟨[], by rw [List.append_nil], hq, rfl⟩
  · have hi : i < ms.length := (List.getElem?_eq_some_iff.1 hm).1
    obtain ⟨hr, ho⟩ := hq m (List.mem_of_getElem? hm)
    obtain ⟨hmoves, hr'⟩ :=
      Ring.moves_of_ends (r := ⟨ms, emitted⟩) hi hh hr ⟨fuel, hrun⟩
    rw [Ring.pass_self hm ho] at hmoves
    have hq' := Quiet.pass (r := ⟨ms, emitted⟩) (i := i) hq hr'
    by_cases hl : i + 1 = ms.length
    · refine ⟨m'.drain.1, ?_, hq', if_pos hl⟩
      rwa [Ring.pass, if_pos hl] at hmoves
    · refine ⟨[], ?_, hq', if_neg hl⟩
      rw [List.append_nil]
      rwa [Ring.pass, if_neg hl] at hmoves

theorem visitAll_moves {indices : List Nat} (hq : Quiet ms)
    (h : visitAll fuel true indices ms round = some (ms', .ok round')) (emitted : List Int) :
    ∃ outs, Ring.Moves (Ring.mk ms emitted).settle (Ring.mk ms' (emitted ++ outs)).settle ∧
      Quiet ms' ∧ round'.last = outs.getLast?.or round.last := by
  induction indices generalizing ms round emitted with
  | nil =>
    cases h
    exact ⟨[], by rw [List.append_nil], hq, rfl⟩
  | cons i indices ih =>
    unfold visitAll at h
    split at h
    · rename_i ms₁ round₁ hvisit
      obtain ⟨outs₁, hmoves₁, hq₁, hlast₁⟩ := visit_moves hq hvisit emitted
      obtain ⟨outs₂, hmoves₂, hq₂, hlast₂⟩ := ih hq₁ h (emitted ++ outs₁)
      refine ⟨outs₁ ++ outs₂, ?_, hq₂, ?_⟩
      · rw [← List.append_assoc]
        exact hmoves₁.trans hmoves₂
      · rw [hlast₂, hlast₁, List.getLast?_append, Option.or_assoc]
    · rename_i hstopped
      exact absurd h (hstopped _ _)

/-- A round is a sequence of moves, and reports the last value that it makes the last machine put
out. -/
theorem pump_moves (hq : Quiet ms) (h : pump fuel true ms = some (ms', .ok round))
    (emitted : List Int) :
    ∃ outs, Ring.Moves (Ring.mk ms emitted).settle (Ring.mk ms' (emitted ++ outs)).settle ∧
      Quiet ms' ∧ round.last = outs.getLast? := by
  obtain ⟨outs, hmoves, hq', hlast⟩ := visitAll_moves hq h emitted
  exact ⟨outs, hmoves, hq', by rw [hlast, Option.or_none]⟩

theorem lastHalted_of_lastStatus {emitted : List Int} (hms : ms ≠ [])
    (h : lastStatus ms = .halted) : (Ring.mk ms emitted).LastHalted := by
  obtain ⟨m, hm⟩ := Option.ne_none_iff_exists'.1 (mt List.getLast?_eq_none_iff.1 hms)
  refine ⟨m, hm, ?_⟩
  rw [lastStatus, hm] at h
  exact h

/-- A chain that delivers a signal has followed a schedule that leaves the last machine halted,
and the signal is the last value that the machine has put out. -/
theorem rounds_moves {more : Nat} {signal : Option Int} {v : Int} {emitted : List Int}
    (hms : ms ≠ []) (hq : Quiet ms) (hsignal : signal = emitted.getLast?)
    (h : rounds fuel true more ms signal = some (.ok v)) :
    ∃ r, Ring.Moves (Ring.mk ms emitted).settle r ∧ r.LastHalted ∧
      r.emitted.getLast? = some v := by
  -- between two rounds the signal is the last value put out so far
  induction more generalizing ms signal emitted with
  | zero => cases h
  | succ more ih =>
    unfold rounds at h
    split at h
    · cases h
    · cases h
    · rename_i ms₁ round hpump
      obtain ⟨outs, hmoves, hq₁, hlast⟩ := pump_moves hq hpump emitted
      have hms₁ : ms₁ ≠ [] := by
        have hlength := Ring.Moves.length_eq hmoves
        simp only [Ring.length_settle] at hlength
        rw [← List.length_pos_iff] at hms ⊢
        omega
      have hsignal₁ : round.last.or signal = (emitted ++ outs).getLast? := by
        rw [List.getLast?_append, hlast, hsignal]
      simp only [Bool.not_true, Bool.false_or, beq_iff_eq, hsignal₁] at h
      split_ifs at h with hhalted
      · refine ⟨_, hmoves, Ring.lastHalted_settle (lastHalted_of_lastStatus hms₁ hhalted), ?_⟩
        cases hv : (emitted ++ outs).getLast? with
        | none => rw [hv] at h; cases h
        | some w => rw [hv] at h; cases h; exact hv
      · obtain ⟨r, hr, hend⟩ := ih hms₁ hq₁ rfl h
        exact ⟨r, hmoves.trans hr, hend⟩
      · cases h

/-! ### All schedules -/

/-- The ring with one machine for each phase setting and the initial signal queued on the first
of them. -/
def Ring.start (p : Program) (phases : List Int) (initial : Int) : Ring :=
  ⟨(build p phases).modify 0 (·.feed initial), []⟩

theorem quiet_start (p : Program) (phases : List Int) (initial : Int) :
    Quiet (Ring.start p phases initial).machines := by
  intro m hm
  obtain ⟨k, hk⟩ := List.getElem?_of_mem hm
  simp only [Ring.start, build, List.getElem?_modify, List.getElem?_map] at hk
  obtain ⟨x, hx, rfl⟩ := Option.map_eq_some_iff.1 hk
  obtain ⟨phase, -, rfl⟩ := Option.map_eq_some_iff.1 hx
  split <;> exact ⟨rfl, rfl⟩

/-- **The result of a ring does not depend on the schedule.**  If the rounds of a chain with
feedback deliver `v`, then every schedule that leaves the last machine halted has made it put out
`v` last. -/
theorem schedule_independence {fuel : Nat} {text : String} {phases : List Int}
    {initial v : Int} {p : Program} {schedule : List Nat} {r : Ring}
    (hrun : run fuel text phases initial true = some (.ok v)) (hp : Program.ofText text = .ok p)
    (hr : (Ring.start p phases initial).follow? schedule = some r) (hlast : r.LastHalted) :
    r.emitted.getLast? = some v := by
  have hphases : phases ≠ [] := by
    rintro rfl
    cases hrun
  have hms : (Ring.start p phases initial).machines ≠ [] := by
    simpa [Ring.start, build] using hphases
  simp only [run, List.isEmpty_iff, if_neg hphases, hp] at hrun
  obtain ⟨r₁, hmoves₁, hlast₁, hv⟩ :=
    rounds_moves hms (quiet_start p phases initial) List.getLast?_nil.symm hrun
  have hmoves : Ring.Moves (Ring.start p phases initial).settle r.settle :=
    Ring.Moves.settle (Ring.moves_of_follow? hr)
  have hemitted := Ring.emitted_unique hmoves₁ hlast₁ hmoves (Ring.lastHalted_settle hlast)
  rw [← Ring.emitted_settle, ← hemitted, hv]

/-- The program that adds the two values it is given. -/
def adder : Program :=
  ⟨"3,0,3,1,1,0,1,0,4,0,99", #[3, 0, 3, 1, 1, 0, 1, 0, 4, 0, 99], by rfl⟩

/-- A schedule in which the second of two adders starts first. -/
theorem adder_schedule :
    ∃ r, (Ring.start adder [1, 2] 5).follow? [1, 0, 0, 0, 0, 1, 1, 0, 1, 1] = some r ∧
      r.LastHalted ∧ r.emitted.getLast? = some 8 := by
  have hrun : run 6 adder.text [1, 2] 5 true = some (.ok 8) := by rfl
  have hp : Program.ofText adder.text = .ok adder := by rfl
  have hr : (Ring.start adder [1, 2] 5).follow? [1, 0, 0, 0, 0, 1, 1, 0, 1, 1] =
      some
        ⟨[⟨adder, ⟨#[6, 5, 3, 1, 1, 0, 1, 0, 4, 0, 99], 11, [8], []⟩, .halted, false, #[]⟩,
          ⟨adder, ⟨#[8, 6, 3, 1, 1, 0, 1, 0, 4, 0, 99], 11, [], []⟩, .halted, false, #[]⟩],
        [8]⟩ := by rfl
  exact ⟨_, hr, ⟨_, rfl, rfl⟩, schedule_independence hrun hp hr ⟨_, rfl, rfl⟩⟩

end Chain

end Intcode

import Intcode.Proofs.Execution

/-!
# Resumption

A machine that waits for input can be fed and run again.  This module shows that the pause
leaves no trace: feeding everything at once and running once comes to the same.

The argument is that an instruction sees of the input queue no more than its first value, and
nothing of the output queue.

* `Config.feed`, `Config.prepend`: more input at the end, older output in front;
* `step_mapConfig`: a change of the queues that an instruction does not notice commutes with a
  step; `step_feedAll` and `step_prepend` are its two instances;
* `Ends.feedAll`, `Ends.prepend`: the same for whole runs;
* `Machine.Yields`: how a run ends and what the machine shows then; it depends on the
  configuration alone (`Yields.congr`);
* `resumed_run_eq_single_run`: the pause is invisible.
-/

namespace Intcode

namespace Config

variable {c : Config} {e : Effect}

/-- Queue more input values. -/
def feed (c : Config) (vs : List Int) : Config :=
  { c with input := c.input.pushAll vs }

/-- Put older values in front of the queued output. -/
def prepend (vs : List Int) (c : Config) : Config :=
  { c with output := vs ++ c.output }

/-- An instruction that does not wait is not changed by more input. -/
theorem next_feed (h : c.next ≠ .ok none) (vs : List Int) : (c.feed vs).next = c.next := by
  have hi : (c.feed vs).instruction = c.instruction := instruction_congr rfl rfl
  unfold next
  rw [hi]
  cases hc : c.instruction with
  | error f => rfl
  | ok i =>
    show (c.feed vs).effect i = c.effect i
    by_cases ho : i.opcode = .input
    · -- an input instruction sees the first value alone, and there is one, since it does not wait
      cases hq : c.input with
      | nil => exact absurd (next_eq_wait_iff.2 ⟨i, hc, ho, hq⟩) h
      | cons v q =>
        have hq' : (c.feed vs).input = v :: (q ++ vs) := by
          simp [feed, hq, Queue.pushAll]
        rw [effect_input_cons ho hq, effect_input_cons ho hq']
        rfl
    · exact effect_congr rfl rfl ho

/-- An effect takes no more than the first queued value, so that it can be applied before or
after more input is queued. -/
theorem apply_feed (h : c.next = .ok (some e)) (vs : List Int) :
    (c.feed vs).apply e = (c.apply e).feed vs := by
  obtain ⟨i, -, hp⟩ := next_eq_ok_iff.1 h
  cases hp with
  | input ho hq hd hv => simp [apply, feed, hq, Queue.pushAll]
  | _ => rfl

/-- Nothing that an instruction does depends on the queued output. -/
theorem next_prepend (c : Config) (vs : List Int) : (c.prepend vs).next = c.next := rfl

theorem apply_prepend (c : Config) (e : Effect) (vs : List Int) :
    (c.prepend vs).apply e = (c.apply e).prepend vs := by
  obtain ⟨i, write, accepts, emits, next⟩ := e
  cases emits <;> simp [apply, prepend, Queue.push]

end Config

namespace Machine

variable {m m' m₁ : Machine} {e : Effect} {reply : Except Failure Status} {s : Snapshot}

/-! ### Changes that an instruction does not notice -/

/-- Change the configuration and nothing else. -/
def mapConfig (g : Config → Config) (m : Machine) : Machine :=
  { m with config := g m.config }

/-- Put older values in front of the queued output. -/
def prepend (vs : List Int) (m : Machine) : Machine :=
  m.mapConfig (·.prepend vs)

theorem prepend_drain (m : Machine) : m.drain.2.prepend m.drain.1 = m := by
  simp [drain, prepend, mapConfig, Config.prepend]

theorem note_mapConfig (g : Config → Config) (m : Machine) (v : Event) :
    (m.mapConfig g).note v = (m.note v).mapConfig g := by
  by_cases h : m.recording <;> simp [note, mapConfig, h]

theorem log_mapConfig (g : Config → Config) (m : Machine) (e : Effect) (ps : List Int) :
    (m.mapConfig g).log e ps = (m.log e ps).mapConfig g := by
  unfold log
  by_cases h : m.recording
  · have h' : (m.mapConfig g).recording = true := h
    simp only [h, h', if_true, note_mapConfig]
    split <;> rfl
  · have h' : ¬ (m.mapConfig g).recording = true := h
    rw [if_neg h', if_neg h]

theorem perform_mapConfig {g : Config → Config} (hm : (g m.config).memory = m.config.memory)
    (ha : (g m.config).apply e = g (m.config.apply e)) :
    (m.mapConfig g).perform e = (m.perform e).mapConfig g := by
  have hc : (m.mapConfig g).commit e = (m.commit e).mapConfig g := by
    simp [commit, mapConfig, ha]
  have hp : (m.mapConfig g).config.params e.instruction = m.config.params e.instruction := by
    simp [Config.params, mapConfig, hm]
  unfold perform
  by_cases h : m.recording
  · have h' : (m.mapConfig g).recording = true := h
    simp only [h, h', if_true, hc, hp, log_mapConfig]
  · have h' : ¬ (m.mapConfig g).recording = true := h
    rw [if_neg h', if_neg h, hc]

/-- A change of the configuration that keeps memory and counter, and that the next instruction
does not notice, can be made before or after the step. -/
theorem step_mapConfig {g : Config → Config} (hm : (g m.config).memory = m.config.memory)
    (hpc : (g m.config).pc = m.config.pc) (hn : (g m.config).next = m.config.next)
    (ha : ∀ e, m.config.next = .ok (some e) → (g m.config).apply e = g (m.config.apply e)) :
    (m.mapConfig g).step = (m.step.1.mapConfig g, m.step.2) := by
  rcases m.step_cases with ⟨f, h, hs⟩ | ⟨h, hs⟩ | ⟨e, h, hs⟩
  · have hs' : (m.mapConfig g).step = _ := step_of_error (hn.trans h)
    rw [hs, hs']
    rfl
  · have hs' : (m.mapConfig g).step = _ := step_of_wait (hn.trans h)
    rw [hs, hs']
    simp only [await, Prod.mk.injEq, and_true, ← note_mapConfig]
    simp [mapConfig, pc, hpc]
  · have hs' : (m.mapConfig g).step = _ := step_of_effect (hn.trans h)
    rw [hs, hs', perform_mapConfig hm (ha e h)]

theorem step_feedAll (h : m.step.2 ≠ .ok .blocked) (vs : List Int) :
    (m.feedAll vs).step = (m.step.1.feedAll vs, m.step.2) := by
  have hw : m.config.next ≠ .ok none := by
    intro hw
    rw [step_of_wait hw] at h
    exact h rfl
  exact step_mapConfig (g := (·.feed vs)) rfl rfl (Config.next_feed hw vs)
    fun e he => Config.apply_feed he vs

theorem step_prepend (m : Machine) (vs : List Int) :
    (m.prepend vs).step = (m.step.1.prepend vs, m.step.2) :=
  step_mapConfig (g := (·.prepend vs)) rfl rfl (Config.next_prepend m.config vs)
    fun e _ => Config.apply_prepend m.config e vs

/-! ### Whole runs -/

theorem Advances.feedAll (h : m.Advances m') (vs : List Int) :
    (m.feedAll vs).Advances (m'.feedAll vs) := by
  unfold Advances at *
  rw [step_feedAll (by rw [h]; simp), h]

theorem reaches_feedAll (h : Relation.ReflTransGen Advances m m') (vs : List Int) :
    Relation.ReflTransGen Advances (m.feedAll vs) (m'.feedAll vs) :=
  h.lift (·.feedAll vs) fun _ _ hstep => Advances.feedAll hstep vs

/-- A run that does not end in waiting is not changed by more input, which stays queued. -/
theorem Ends.feedAll (h : m.Ends (m', reply)) (hr : reply ≠ .ok .blocked) (vs : List Int) :
    (m.feedAll vs).Ends (m'.feedAll vs, reply) := by
  obtain ⟨m₀, h₀, hlast, hs⟩ := ends_iff.1 h
  have hstep : (m₀.feedAll vs).step = (m'.feedAll vs, reply) := by
    rw [step_feedAll (by rw [hlast]; exact hr), hlast]
  exact ends_iff.2 ⟨m₀.feedAll vs, reaches_feedAll h₀ vs, hstep, hs⟩

/-- A run goes on in the same way after its output has been taken away. -/
theorem run_prepend (fuel : Nat) (m : Machine) (vs : List Int) :
    (m.prepend vs).run fuel = (m.run fuel).map fun r => (r.1.prepend vs, r.2) := by
  induction fuel generalizing m with
  | zero => rfl
  | succ fuel ih =>
    by_cases hs : m.step.2 = .ok .running
    · have hm : (m.prepend vs).step = (m.step.1.prepend vs, .ok .running) := by
        rw [step_prepend, hs]
      rw [run_succ_of_running (advances_of_running hs), run_succ_of_running hm, ih]
    · rw [run_succ_of_stopped hs, run_succ_of_stopped (by rw [step_prepend]; exact hs),
        step_prepend]
      rfl

/-- A run ends with this reply, and the machine then shows this. -/
def Yields (m : Machine) (reply : Except Failure Status) (s : Snapshot) : Prop :=
  ∃ m', m.Ends (m', reply) ∧ m'.snapshot = s

theorem yields_iff_of_reaches (h : Relation.ReflTransGen Advances m m') :
    m.Yields reply s ↔ m'.Yields reply s := by
  unfold Yields
  simp only [ends_iff_of_reaches h]

/-- How a run ends depends on the configuration in which it starts, and on nothing else of the
machine. -/
theorem Yields.congr (h : m.Yields reply s) (hc : m.config = m'.config) : m'.Yields reply s := by
  obtain ⟨m₁, ⟨fuel, hr⟩, rfl⟩ := h
  -- both machines go step by step together; only what they record can be different
  induction fuel generalizing m m' with
  | zero => cases hr
  | succ fuel ih =>
    obtain ⟨hreply, hconfig, hstatus⟩ := step_congr hc
    by_cases hs : m.step.2 = .ok .running
    · have hm' : m'.Advances m'.step.1 := advances_of_running (by rw [← hreply, hs])
      rw [run_succ_of_running (advances_of_running hs)] at hr
      exact (yields_iff_of_reaches (.single hm')).2 (ih hconfig hr)
    · rw [run_succ_of_stopped hs] at hr
      have hm : m.step = (m₁, reply) := Option.some.inj hr
      have he : m'.Ends m'.step := ends_of_stopped (by rwa [← hreply])
      rw [hm] at hreply hconfig hstatus
      refine ⟨m'.step.1, ?_, ?_⟩
      · rwa [show m'.step = (m'.step.1, reply) from Prod.ext rfl hreply.symm] at he
      · simp only [snapshot, ← hconfig, ← hstatus]

theorem yields_congr (hc : m.config = m'.config) : m.Yields reply s ↔ m'.Yields reply s :=
  ⟨fun h => h.congr hc, fun h => h.congr hc.symm⟩

/-- A machine that waits, fed and run again, ends as if it had been fed before its first run. -/
theorem yields_feedAll_of_blocked (h : m.Ends (m₁, .ok .blocked)) (vs : List Int) :
    (m₁.feedAll vs).Yields reply s ↔ (m.feedAll vs).Yields reply s := by
  obtain ⟨m₀, h₀, hlast, -⟩ := ends_iff.1 h
  have hw : m₀.config.next = .ok none := next_of_step_blocked (by rw [hlast])
  have hm₁ : m₁ = m₀.await := by
    rw [step_of_wait hw] at hlast
    exact (congrArg Prod.fst hlast).symm
  -- waiting leaves the configuration alone, so that the input instruction is executed after all
  have hc : (m₁.feedAll vs).config = (m₀.feedAll vs).config := by
    simp [feedAll, hm₁]
  rw [yields_iff_of_reaches (reaches_feedAll h₀ vs), yields_congr hc]

/-- Older output in front of the queue comes out in front of the output of the run. -/
theorem yields_prepend {vs : List Int} :
    (m.prepend vs).Yields reply s ↔
      ∃ s', m.Yields reply s' ∧ s = { s' with config.output := vs ++ s'.config.output } := by
  constructor
  · rintro ⟨m', ⟨fuel, h⟩, rfl⟩
    rw [run_prepend] at h
    obtain ⟨r, hr, h⟩ := Option.map_eq_some_iff.1 h
    cases h
    exact ⟨_, ⟨r.1, ⟨fuel, hr⟩, rfl⟩, rfl⟩
  · rintro ⟨s', ⟨m', ⟨fuel, h⟩, rfl⟩, rfl⟩
    exact ⟨m'.prepend vs, ⟨fuel, by rw [run_prepend, h]; rfl⟩, rfl⟩

/-- **A pause for input is invisible.**  If a machine fed `xs` stops waiting, then feeding it `ys`
and running it again ends like one run on `xs ++ ys`, also when the output is taken away in
between: it then comes in two parts.  If it stops for another reason, `ys` stays queued. -/
theorem resumed_run_eq_single_run (m : Machine) (xs ys : List Int) :
    (∀ m₁, (m.feedAll xs).Ends (m₁, .ok .blocked) → ∀ reply s,
      ((m₁.feedAll ys).Yields reply s ↔ (m.feedAll (xs ++ ys)).Yields reply s) ∧
      ((m.feedAll (xs ++ ys)).Yields reply s ↔
        ∃ s', (m₁.drain.2.feedAll ys).Yields reply s' ∧
          s = { s' with config.output := m₁.drain.1 ++ s'.config.output })) ∧
    (∀ m₁ reply, (m.feedAll xs).Ends (m₁, reply) → reply ≠ .ok .blocked →
      (m.feedAll (xs ++ ys)).Yields reply
        ⟨{ m₁.config with input := m₁.config.input ++ ys }, m₁.status⟩) := by
  rw [← feedAll_feedAll]
  constructor
  · intro m₁ h reply s
    have hresume : (m₁.feedAll ys).Yields reply s ↔ _ := yields_feedAll_of_blocked h ys
    refine ⟨hresume, ?_⟩
    -- taking the output away only delays it: it is what `prepend` puts back
    have hdrain : m₁.feedAll ys = (m₁.drain.2.feedAll ys).prepend m₁.drain.1 :=
      congrArg (·.feedAll ys) (prepend_drain m₁).symm
    rw [← hresume, hdrain, yields_prepend]
  · intro m₁ reply h hr
    exact ⟨m₁.feedAll ys, h.feedAll hr ys, rfl⟩

/-- A machine that reads and writes two values. -/
def echoTwo : Machine :=
  ofProgram ⟨"3,9,4,9,3,9,4,9,99,0", #[3, 9, 4, 9, 3, 9, 4, 9, 99, 0], by rfl⟩ false

/-- The first value is written before the pause, the second after it, and a third is left over. -/
theorem echoTwo_resumed :
    (∃ m₁, (echoTwo.feedAll [5]).Ends (m₁, .ok .blocked) ∧ m₁.drain.1 = [5] ∧
      (m₁.feedAll [7]).Yields (.ok .halted)
        ⟨⟨#[3, 9, 4, 9, 3, 9, 4, 9, 99, 7], 9, [], [5, 7]⟩, .halted⟩) ∧
    (echoTwo.feedAll [5, 7, 8]).Yields (.ok .halted)
      ⟨⟨#[3, 9, 4, 9, 3, 9, 4, 9, 99, 7], 9, [8], [5, 7]⟩, .halted⟩ := by
  have hblocked : (echoTwo.feedAll [5]).Ends
      (⟨echoTwo.program, ⟨#[3, 9, 4, 9, 3, 9, 4, 9, 99, 5], 4, [], [5]⟩, .blocked, false, #[]⟩,
        .ok .blocked) := ⟨3, by rfl⟩
  have hhalted : (echoTwo.feedAll [5, 7]).Ends
      (⟨echoTwo.program, ⟨#[3, 9, 4, 9, 3, 9, 4, 9, 99, 7], 9, [], [5, 7]⟩, .halted, false, #[]⟩,
        .ok .halted) := ⟨5, by rfl⟩
  refine ⟨⟨_, hblocked, rfl, ?_⟩, ?_⟩
  · exact ((resumed_run_eq_single_run echoTwo [5] [7]).1 _ hblocked _ _).1.2 ⟨_, hhalted, rfl⟩
  · exact (resumed_run_eq_single_run echoTwo [5, 7] [8]).2 _ _ hhalted (by simp)

end Machine

end Intcode

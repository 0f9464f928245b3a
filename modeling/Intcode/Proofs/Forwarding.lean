import Intcode.Proofs.Schedule

/-!
# What the machines of a ring hand on

In a chain with feedback every value that a machine puts out becomes input of the next machine.
Here the instructions that each machine has executed are written down beside the rounds of the
chain, and what the input instructions have consumed is compared with what the output
instructions have put out.

* `consumed`, `emitted`: the values that a list of executed instructions has taken in and put out;
* `Machine.effects`: what a run executes; `run_queues` says what becomes of the queues;
* `History`, `turnEffects`, `visitAllHistory`, `pumpHistory`: what every machine has executed;
* `seeded`, `Pumped`: the machines at the start, and after any number of completed rounds;
* `Balanced`: what a machine has consumed and has queued is what it was given and what the machine
  before it has put out; `Balanced.visit`, `Balanced.visitAll`, `Pumped.balanced` carry this through
  a turn, a round and all rounds;
* `values_forwarded_in_order`: the same for the machines of a chain, with what else a round keeps.
-/

namespace Intcode

/-! ### What instructions take in and put out -/

/-- The value that an input instruction has consumed, which is the one that it stores. -/
def Effect.consumed (e : Effect) : List Int :=
  if e.instruction.opcode = .input then e.write.toList.map Prod.snd else []

/-- The values that the input instructions among the executed ones have consumed, in order. -/
def consumed (es : List Effect) : List Int :=
  es.flatMap Effect.consumed

/-- The values that the output instructions among the executed ones have put out, in order. -/
def emitted (es : List Effect) : List Int :=
  es.filterMap Effect.emits

@[simp] theorem consumed_nil : consumed [] = [] := rfl

@[simp] theorem emitted_nil : emitted [] = [] := rfl

@[simp] theorem consumed_cons (e : Effect) (es : List Effect) :
    consumed (e :: es) = e.consumed ++ consumed es := rfl

theorem emitted_cons (e : Effect) (es : List Effect) :
    emitted (e :: es) = e.emits.toList ++ emitted es := by
  cases h : e.emits <;> simp [emitted, h]

@[simp] theorem consumed_append (es es' : List Effect) :
    consumed (es ++ es') = consumed es ++ consumed es' := by
  simp [consumed]

@[simp] theorem emitted_append (es es' : List Effect) :
    emitted (es ++ es') = emitted es ++ emitted es' := by
  simp [emitted]

theorem Opcode.Computes.ne_input {o : Opcode} {op : Int → Int → Int} (h : o.Computes op) :
    o ≠ .input := by
  rintro rfl
  cases h

theorem Opcode.Tests.ne_input {o : Opcode} {test : Int → Bool} (h : o.Tests test) :
    o ≠ .input := by
  rintro rfl
  cases h

/-- Only an input instruction takes a value from the queue, and it takes the first. -/
theorem Config.input_of_next {c : Config} {e : Effect} (h : c.next = .ok (some e)) :
    c.input = e.consumed ++ (c.apply e).input := by
  obtain ⟨i, -, hp⟩ := Config.next_eq_ok_iff.1 h
  cases hp with
  | store ho => simp [Effect.consumed, ho.ne_input, Config.input_apply]
  | jump ho => simp [Effect.consumed, ho.ne_input, Config.input_apply]
  | skip ho => simp [Effect.consumed, ho.ne_input, Config.input_apply]
  | input ho hq => simp [Effect.consumed, ho, Config.input_apply, hq]
  | output ho => simp [Effect.consumed, ho, Config.input_apply]
  | halt ho => simp [Effect.consumed, ho, Config.input_apply]

namespace Machine

variable {m m' : Machine} {fuel : Nat} {e : Effect} {reply : Except Failure Status}

/-- The effects of the instructions that a run executes. -/
def effects : Nat → Machine → List Effect
  | 0, _ => []
  | fuel + 1, m =>
    match m.config.next with
    | .ok (some e) => e :: if statusAfter e = .running then effects fuel (m.perform e) else []
    | _ => []

theorem effects_of_error {f : Failure} (h : m.config.next = .error f) :
    m.effects (fuel + 1) = [] := by
  simp only [effects, h]

theorem effects_of_wait (h : m.config.next = .ok none) : m.effects (fuel + 1) = [] := by
  simp only [effects, h]

theorem effects_of_effect (h : m.config.next = .ok (some e)) :
    m.effects (fuel + 1) =
      e :: if statusAfter e = .running then effects fuel (m.perform e) else [] := by
  simp only [effects, h]

/-- A run takes from the input queue what its input instructions consume, and adds to the output
queue what its output instructions put out. -/
theorem run_queues (h : m.run fuel = some (m', reply)) :
    m.config.input = consumed (m.effects fuel) ++ m'.config.input ∧
      m'.config.output = m.config.output ++ emitted (m.effects fuel) := by
  induction fuel generalizing m with
  | zero => cases h
  | succ fuel ih =>
    rcases m.step_cases with ⟨f, hn, hs⟩ | ⟨hn, hs⟩ | ⟨e, hn, hs⟩
    · rw [run_succ_of_stopped (by rw [hs]; simp), hs] at h
      cases h
      simp [effects_of_error hn]
    · rw [run_succ_of_stopped (by rw [hs]; simp), hs] at h
      cases h
      simp [effects_of_wait hn]
    · have hin := Config.input_of_next hn
      have hout := Config.output_apply m.config e
      rw [effects_of_effect hn, consumed_cons, emitted_cons]
      by_cases hr : statusAfter e = .running
      · rw [hr] at hs
        rw [run_succ_of_running hs] at h
        obtain ⟨ihin, ihout⟩ := ih h
        rw [config_perform] at ihin ihout
        rw [if_pos hr]
        constructor
        · rw [hin, ihin, List.append_assoc]
        · rw [ihout, hout, List.append_assoc]
      · rw [run_succ_of_stopped (by rw [hs]; simpa using hr), hs] at h
        cases h
        rw [if_neg hr]
        simpa using ⟨hin, hout⟩

end Machine

namespace Chain

/-! ### What the machines of a chain have executed -/

/-- The effects of the instructions that the machine at each place has executed. -/
abbrev History := Nat → List Effect

/-- What the machine at a place executes in its turn. -/
def turnEffects (fuel i : Nat) (ms : List Machine) : List Effect :=
  match ms[i]? with
  | none => []
  | some m => if m.status = .halted then [] else m.effects fuel

/-- Write down the effects of further instructions of the machine at a place. -/
def History.record (done : History) (i : Nat) (es : List Effect) : History :=
  fun k => if k = i then done k ++ es else done k

/-- What the machines have executed after the turns at the given indices. -/
def visitAllHistory (fuel : Nat) : List Nat → List Machine → Round → History → History
  | [], _, _, done => done
  | i :: indices, ms, round, done =>
    let done := done.record i (turnEffects fuel i ms)
    match visit fuel true i ms round with
    | some (ms, .ok round) => visitAllHistory fuel indices ms round done
    | _ => done

/-- What the machines have executed after a round. -/
def pumpHistory (fuel : Nat) (ms : List Machine) (done : History) : History :=
  visitAllHistory fuel (List.range ms.length) ms ⟨false, none⟩ done

/-- One machine for each phase setting, and more values queued on the first of them. -/
def seeded (p : Program) (phases queued : List Int) : List Machine :=
  (build p phases).modify 0 (·.feedAll queued)

/-- Any number of completed rounds with feedback lead from the machines `start` to the machines
`ms`, and `done` is what these have executed on the way. -/
inductive Pumped (start : List Machine) : List Machine → History → Prop
  | start : Pumped start start fun _ => []
  | round {fuel : Nat} {ms ms' : List Machine} {done : History} {round : Round}
      (h : Pumped start ms done) (hp : pump fuel true ms = some (ms', .ok round)) :
      Pumped start ms' (pumpHistory fuel ms done)

/-- The place before another one in a ring of `n` machines. -/
def previous (n i : Nat) : Nat :=
  if i = 0 then n - 1 else i - 1

/-- The values that the machine at a place is given from outside: its phase setting, and the first
machine also the values queued by the caller. -/
def given (phases queued : List Int) (i : Nat) : List Int :=
  phases[i]?.toList ++ if i = 0 then queued else []

/-- Every machine has consumed, or has still queued, what it was given from outside and then what
the machine before it has put out. -/
def Balanced (phases queued : List Int) (ms : List Machine) (done : History) : Prop :=
  ∀ i m, ms[i]? = some m →
    consumed (done i) ++ m.config.input =
      given phases queued i ++ emitted (done (previous ms.length i))

variable {fuel i k : Nat} {ms ms' start : List Machine} {round round' : Round} {done : History}
  {phases queued : List Int} {m : Machine}

/-- A machine comes before the one to which it hands on. -/
theorem previous_eq_iff {n : Nat} (hi : i < n) (hk : k < n) :
    previous n k = i ↔ k = (i + 1) % n := by
  unfold previous
  rcases Nat.lt_or_ge (i + 1) n with h | h
  · rw [Nat.mod_eq_of_lt h]
    split_ifs <;> omega
  · have hn : i + 1 = n := by omega
    rw [hn, Nat.mod_self]
    split_ifs <;> omega

/-! ### Turns and rounds -/

theorem History.record_nil (done : History) (i : Nat) : done.record i [] = done := by
  funext k
  simp [History.record]

theorem turnEffects_of_halted (h : ∀ m, ms[i]? = some m → m.status = .halted) :
    turnEffects fuel i ms = [] := by
  unfold turnEffects
  split
  · rfl
  · rename_i m hm
    exact if_pos (h m hm)

theorem turnEffects_of_ne_halted (hm : ms[i]? = some m) (hh : m.status ≠ .halted) :
    turnEffects fuel i ms = m.effects fuel := by
  simp only [turnEffects, hm, if_neg hh]

/-- A turn keeps the balance: what it takes from one queue it writes down as consumed, and what it
adds to another one it writes down as put out. -/
theorem Balanced.visit (hb : Balanced phases queued ms done) (hq : Quiet ms)
    (h : visit fuel true i ms round = some (ms', .ok round')) :
    Balanced phases queued ms' (done.record i (turnEffects fuel i ms)) := by
  rcases visit_eq_ok h with ⟨rfl, -, hh⟩ | ⟨m, m', s, hm, hh, hrun, hms', -⟩
  · rw [turnEffects_of_halted hh, History.record_nil]
    exact hb
  · rw [turnEffects_of_ne_halted hm hh]
    obtain ⟨hin, hout⟩ := Machine.run_queues hrun
    rw [(hq m (List.mem_of_getElem? hm)).2, List.nil_append] at hout
    have hi : i < ms.length := (List.getElem?_eq_some_iff.1 hm).1
    have hpass : ms' = ((Ring.mk ms []).pass i m').machines := hms'
    intro k x hx
    rw [hpass, Ring.getElem?_pass] at hx
    obtain ⟨y, hy, rfl⟩ := Option.map_eq_some_iff.1 hx
    have hk : k < ms.length := by
      simpa using (List.getElem?_eq_some_iff.1 hy).1
    rw [hpass, Ring.length_pass]
    -- the machine at `k` before anything is handed on
    have hown : consumed (done.record i (m.effects fuel) k) ++ y.config.input =
        given phases queued k ++ emitted (done (previous ms.length k)) := by
      by_cases hki : k = i
      · subst hki
        rw [List.getElem?_set_self hi] at hy
        cases hy
        rw [← hb k m hm, hin]
        simp [History.record, Machine.drain]
      · rw [List.getElem?_set_ne (Ne.symm hki)] at hy
        rw [← hb k y hy]
        simp [History.record, hki]
    -- the values handed on to `k` are those that the machine before it has put out
    have hgift : emitted (done.record i (m.effects fuel) (previous ms.length k)) =
        emitted (done (previous ms.length k)) ++ (Ring.mk ms []).gift i m' k := by
      by_cases hp : previous ms.length k = i
      · have hk' := (previous_eq_iff hi hk).1 hp
        simp [History.record, hp, Ring.gift, hk'.symm, hout]
      · have hk' := mt (previous_eq_iff hi hk).2 hp
        simp [History.record, hp, Ring.gift, hk']
    calc consumed (done.record i (m.effects fuel) k) ++
          (y.config.input ++ (Ring.mk ms []).gift i m' k)
        = given phases queued k ++ emitted (done (previous ms.length k)) ++
            (Ring.mk ms []).gift i m' k := by rw [← List.append_assoc, hown]
      _ = given phases queued k ++
            emitted (done.record i (m.effects fuel) (previous ms.length k)) := by
          rw [hgift, List.append_assoc]

theorem Quiet.visit (hq : Quiet ms) (h : visit fuel true i ms round = some (ms', .ok round')) :
    Quiet ms' := by
  obtain ⟨-, -, hq', -⟩ := visit_moves hq h []
  exact hq'

theorem Balanced.visitAll {indices : List Nat} (hb : Balanced phases queued ms done)
    (hq : Quiet ms) (h : visitAll fuel true indices ms round = some (ms', .ok round')) :
    Balanced phases queued ms' (visitAllHistory fuel indices ms round done) := by
  induction indices generalizing ms round done with
  | nil =>
    cases h
    exact hb
  | cons i indices ih =>
    unfold Chain.visitAll at h
    split at h
    · rename_i ms₁ round₁ hvisit
      simp only [visitAllHistory, hvisit]
      exact ih (hb.visit hq hvisit) (hq.visit hvisit) h
    · rename_i hstopped
      exact absurd h (hstopped _ _)

/-! ### The machines of a chain -/

@[simp] theorem length_seeded (p : Program) (phases queued : List Int) :
    (seeded p phases queued).length = phases.length := by
  simp [seeded, build]

theorem getElem?_seeded (p : Program) (phases queued : List Int) (i : Nat) :
    (seeded p phases queued)[i]? =
      phases[i]?.map fun phase => (Machine.ofProgram p false).feedAll
        (phase :: if i = 0 then queued else []) := by
  unfold seeded build
  by_cases hi : i = 0
  · subst hi
    rw [List.getElem?_modify_eq, List.getElem?_map]
    cases phases[0]? <;> rfl
  · rw [List.getElem?_modify_ne _ _ (Ne.symm hi), List.getElem?_map]
    simp only [if_neg hi]
    rfl

theorem quiet_seeded (p : Program) (phases queued : List Int) :
    Quiet (seeded p phases queued) := by
  intro m hm
  obtain ⟨i, hi⟩ := List.getElem?_of_mem hm
  rw [getElem?_seeded] at hi
  obtain ⟨phase, -, rfl⟩ := Option.map_eq_some_iff.1 hi
  exact ⟨rfl, rfl⟩

/-- Before the first round every machine has queued what it was given. -/
theorem balanced_seeded (p : Program) (phases queued : List Int) :
    Balanced phases queued (seeded p phases queued) fun _ => [] := by
  intro i m hm
  rw [getElem?_seeded] at hm
  obtain ⟨phase, hphase, rfl⟩ := Option.map_eq_some_iff.1 hm
  rw [given, hphase]
  simp only [consumed_nil, emitted_nil, List.nil_append, List.append_nil]
  rfl

theorem Pumped.quiet (h : Pumped start ms done) (hq : Quiet start) : Quiet ms := by
  induction h with
  | start => exact hq
  | round _ hp ih =>
    obtain ⟨-, -, hq', -⟩ := pump_moves ih hp []
    exact hq'

/-- Between two rounds all values are accounted for. -/
theorem Pumped.balanced (h : Pumped start ms done) (hq : Quiet start)
    (hb : Balanced phases queued start fun _ => []) : Balanced phases queued ms done := by
  induction h with
  | start => exact hb
  | round h hp ih => exact ih.visitAll (h.quiet hq) hp

theorem length_visitAll {indices : List Nat}
    (h : visitAll fuel true indices ms round = some (ms', .ok round')) :
    ms'.length = ms.length := by
  induction indices generalizing ms round with
  | nil =>
    cases h
    rfl
  | cons i indices ih =>
    unfold visitAll at h
    split at h
    · rename_i ms₁ round₁ hvisit
      rw [ih h]
      rcases visit_eq_ok hvisit with ⟨rfl, -⟩ | ⟨m, m', s, -, -, -, rfl, -⟩
      · rfl
      · simp
    · rename_i hstopped
      exact absurd h (hstopped _ _)

theorem Pumped.length_eq (h : Pumped start ms done) : ms.length = start.length := by
  induction h with
  | start => rfl
  | round _ hp ih => rw [length_visitAll hp, ih]

/-- A turn does nothing to a halted machine but to queue more input on it. -/
theorem visit_of_halted (h : visit fuel true i ms round = some (ms', .ok round'))
    (hm : ms[k]? = some m) (hh : m.status = .halted) : ∃ vs, ms'[k]? = some (m.feedAll vs) := by
  rcases visit_eq_ok h with ⟨rfl, -⟩ | ⟨x, x', s, hx, hxh, -, rfl, -⟩
  · exact ⟨[], by rw [hm, Machine.feedAll_nil]⟩
  · -- the machine whose turn it is has not halted, so it is another one
    have hki : k ≠ i := by
      rintro rfl
      rw [hm] at hx
      cases hx
      exact hxh hh
    refine ⟨(Ring.mk ms []).gift i x' k, ?_⟩
    have hpass := Ring.getElem?_pass_of_ne (r := ⟨ms, []⟩) (m := x') hki
    rw [show (Ring.mk ms []).machines[k]? = some m from hm] at hpass
    exact hpass

theorem visitAll_of_halted {indices : List Nat}
    (h : visitAll fuel true indices ms round = some (ms', .ok round'))
    (hm : ms[k]? = some m) (hh : m.status = .halted) : ∃ vs, ms'[k]? = some (m.feedAll vs) := by
  induction indices generalizing ms round m with
  | nil =>
    cases h
    exact ⟨[], by rw [hm, Machine.feedAll_nil]⟩
  | cons i indices ih =>
    unfold visitAll at h
    split at h
    · rename_i ms₁ round₁ hvisit
      obtain ⟨vs, hvs⟩ := visit_of_halted hvisit hm hh
      obtain ⟨ws, hws⟩ := ih h hvs hh
      exact ⟨vs ++ ws, by rw [hws, Machine.feedAll_feedAll]⟩
    · rename_i hstopped
      exact absurd h (hstopped _ _)

/-- **A chain hands on every value once and in order.**  After any number of rounds with feedback,
what a machine has consumed, followed by what is queued on it, is its phase setting, for the first
machine the values queued by the caller, and then all that the machine before it in the ring has
put out.  No output is left, and a round does not change a machine that has halted. -/
theorem values_forwarded_in_order {p : Program} {phases queued : List Int} {ms : List Machine}
    {done : History} (h : Pumped (seeded p phases queued) ms done) :
    ms.length = phases.length ∧
    (∀ i phase, phases[i]? = some phase → ∃ m, ms[i]? = some m ∧
      consumed (done i) ++ m.config.input =
        phase :: (if i = 0 then queued else []) ++ emitted (done (previous phases.length i))) ∧
    (∀ m ∈ ms, m.config.output = []) ∧
    (∀ (fuel : Nat) (ms' : List Machine) (round : Round),
      pump fuel true ms = some (ms', .ok round) →
        ∀ (i : Nat) (m : Machine), ms[i]? = some m → m.status = .halted →
          ∃ m', ms'[i]? = some m' ∧ m'.memory = m.memory ∧ m'.pc = m.pc ∧
            m'.status = .halted) := by
  have hlength : ms.length = phases.length := by
    rw [h.length_eq, length_seeded]
  have hquiet := h.quiet (quiet_seeded p phases queued)
  have hbalanced := h.balanced (quiet_seeded p phases queued) (balanced_seeded p phases queued)
  refine ⟨hlength, ?_, fun m hm => (hquiet m hm).2, ?_⟩
  · intro i phase hphase
    have hi : i < ms.length := by
      rw [hlength]
      exact (List.getElem?_eq_some_iff.1 hphase).1
    obtain ⟨m, hm⟩ : ∃ m, ms[i]? = some m := ⟨_, List.getElem?_eq_getElem hi⟩
    have hvalues := hbalanced i m hm
    rw [given, hphase, hlength] at hvalues
    exact ⟨m, hm, hvalues⟩
  · intro fuel ms' round hp i m hm hh
    obtain ⟨vs, hvs⟩ := visitAll_of_halted hp hm hh
    exact ⟨m.feedAll vs, hvs, rfl, rfl, hh⟩

/-- Two adders, with one value more than they ask for: it stays queued on the first, and the result
of the second comes after it. -/
theorem adder_values_forwarded :
    ∃ ms done, Pumped (seeded adder [1, 2] [5, 7]) ms done ∧
      consumed (done 0) = [1, 5] ∧ emitted (done 1) = [8] ∧
      ∃ m, ms[0]? = some m ∧
        consumed (done 0) ++ m.config.input = [1, 5, 7] ++ emitted (done 1) := by
  have hp : pump 6 true (seeded adder [1, 2] [5, 7]) =
      some
        ([⟨adder, ⟨#[6, 5, 3, 1, 1, 0, 1, 0, 4, 0, 99], 11, [7, 8], []⟩, .halted, false, #[]⟩,
          ⟨adder, ⟨#[8, 6, 3, 1, 1, 0, 1, 0, 4, 0, 99], 11, [], []⟩, .halted, false, #[]⟩],
        .ok ⟨true, some 8⟩) := by rfl
  have h := Pumped.round .start hp
  exact ⟨_, _, h, by rfl, by rfl, (values_forwarded_in_order h).2.1 0 1 rfl⟩

end Chain

end Intcode

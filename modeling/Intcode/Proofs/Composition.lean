import Intcode.Proofs.ChainResults
import Intcode.Proofs.Stalls

/-!
# A chain as a composition

In a chain without feedback every machine has one turn, and what it puts out is all that the next
machine is given besides its phase setting.  So the chain computes what fresh machines compute one
after the other, each run on its own with the output of the one before.

* `Chain.Relay`: fresh machines run one after the other, up to the first that fails;
* `Chain.verdict`: the result of a chain whose last machine has put out some values;
* `visit_of_ok`, `visit_of_error`: the turn of a machine; `visit_seeded_next`, `visit_seeded_last`:
  the turn of one that has been given its phase setting and the values from before;
* `relay_of_visitAll`, `visitAll_of_relay`: the turns of all machines, in both directions;
* `serial_chain_composes`: whole chains.
-/

namespace Intcode.Chain

/-! ### Machines one after the other -/

/-- Fresh machines are run one after the other.  Each is given its phase setting, followed by the
values that the one before has put out; the first is given the values `vs`.  The outcome is what the
last machine has put out, and its status, or the failure of the first machine that fails. -/
inductive Relay (p : Program) :
    List Int → List Int → Except Failure (List Int × Status) → Prop
  /-- A machine fails, and those after it do not matter. -/
  | fails {phase : Int} {phases vs : List Int} {m : Machine} {f : Failure}
      (h : ((Machine.ofProgram p false).feedAll (phase :: vs)).Ends (m, .error f)) :
      Relay p (phase :: phases) vs (.error f)
  /-- The last machine halts or waits. -/
  | last {phase : Int} {vs : List Int} {m : Machine} {status : Status}
      (h : ((Machine.ofProgram p false).feedAll (phase :: vs)).Ends (m, .ok status)) :
      Relay p [phase] vs (.ok (m.config.output, status))
  /-- A machine halts or waits, and the next one is given what it has put out. -/
  | next {phase phase' : Int} {phases vs : List Int} {m : Machine} {status : Status}
      {q : Except Failure (List Int × Status)}
      (h : ((Machine.ofProgram p false).feedAll (phase :: vs)).Ends (m, .ok status))
      (rest : Relay p (phase' :: phases) m.config.output q) :
      Relay p (phase :: phase' :: phases) vs q

/-- The result of a chain: the last value that its last machine has put out.  It is a failure if
there is none, or if a machine fails. -/
def verdict : Except Failure (List Int × Status) → Except Failure Int
  | .error f => .error f
  | .ok (outs, _) =>
    match outs.getLast? with
    | some v => .ok v
    | none => .error (.fault (.inputExhausted .noSignal [] none))

variable {p : Program} {fuel i : Nat} {feedback : Bool} {ms done : List Machine} {round : Round}
  {phase phase' : Int} {phases vs : List Int} {m m' : Machine} {status : Status} {f : Failure}

/-! ### One turn -/

theorem seeded_cons (p : Program) (phase : Int) (phases vs : List Int) :
    seeded p (phase :: phases) vs =
      (Machine.ofProgram p false).feedAll (phase :: vs) :: build p phases := by
  simp [seeded, build, Machine.feed_eq_feedAll, Machine.feedAll_feedAll]

theorem modify_length_append (done : List Machine) (g : Machine → Machine) (m : Machine)
    (ms : List Machine) : (done ++ m :: ms).modify done.length g = done ++ g m :: ms := by
  induction done with
  | nil => rfl
  | cons x done ih => simp [ih]

/-- Queueing input on a machine does not change the status of the last one. -/
theorem lastStatus_modify (ms : List Machine) (i : Nat) (vs : List Int) :
    lastStatus (ms.modify i (·.feedAll vs)) = lastStatus ms := by
  have hmap : (ms.modify i (·.feedAll vs)).map Machine.status = ms.map Machine.status := by
    apply List.ext_getElem?
    intro k
    rw [List.getElem?_map, List.getElem?_map, List.getElem?_modify]
    cases ms[k]? with
    | none => rfl
    | some m => by_cases hk : i = k <;> simp [hk, Machine.feedAll]
  unfold lastStatus
  rw [← List.getLast?_map, ← List.getLast?_map, hmap]

theorem visit_of_none (hm : ms[i]? = some m) (hh : m.status ≠ .halted)
    (hrun : m.run fuel = none) : visit fuel feedback i ms round = none := by
  simp only [visit, hm, if_neg hh, hrun]

/-- The turn of a machine that fails. -/
theorem visit_of_error (hm : ms[i]? = some m) (hh : m.status ≠ .halted)
    (hrun : m.run fuel = some (m', .error f)) :
    visit fuel feedback i ms round = some (ms.set i m', .error f) := by
  simp only [visit, hm, if_neg hh, hrun]

/-- The turn of a machine that does not fail: it hands on its output, the last machine only if there
is feedback. -/
theorem visit_of_ok (feedback : Bool) (round : Round) (hm : ms[i]? = some m)
    (hh : m.status ≠ .halted) (hrun : m.run fuel = some (m', .ok status)) :
    ∃ progressed, visit fuel feedback i ms round =
      some
        (if i + 1 = ms.length ∧ feedback = false then ms.set i m'.drain.2
          else (ms.set i m'.drain.2).modify ((i + 1) % ms.length) (·.feedAll m'.config.output),
        .ok ⟨progressed, if i + 1 = ms.length then m'.config.output.getLast?.or round.last
          else round.last⟩) := by
  refine ⟨round.progressed || (!m'.config.output.isEmpty || status == .halted || m'.pc != m.pc ||
    m'.config.input.length != m.config.input.length), ?_⟩
  simp only [visit, hm, if_neg hh, hrun, Machine.drain, List.length_set]
  by_cases hlast : i + 1 = ms.length
  · cases feedback <;> simp [hlast, Machine.pc]
  · simp [hlast, Machine.pc]

theorem status_fresh (p : Program) (vs : List Int) :
    ((Machine.ofProgram p false).feedAll vs).status ≠ .halted := by
  have hinitialized : ((Machine.ofProgram p false).feedAll vs).status = .initialized := rfl
  simp [hinitialized]

theorem getElem?_seeded_length (done : List Machine) :
    (done ++ seeded p (phase :: phases) vs)[done.length]? =
      some ((Machine.ofProgram p false).feedAll (phase :: vs)) := by
  simp [seeded_cons]

theorem set_seeded_length (done : List Machine) (m : Machine) :
    (done ++ seeded p (phase :: phases) vs).set done.length m =
      (done ++ [m]) ++ build p phases := by
  simp [seeded_cons]

/-- The turn of a machine with others behind it: the next one has then been given its phase setting
and what this one has put out. -/
theorem visit_seeded_next (feedback : Bool) (done : List Machine) (round : Round)
    (hrun : ((Machine.ofProgram p false).feedAll (phase :: vs)).run fuel =
      some (m, .ok status)) :
    ∃ progressed,
      visit fuel feedback done.length (done ++ seeded p (phase :: phase' :: phases) vs) round =
        some ((done ++ [m.drain.2]) ++ seeded p (phase' :: phases) m.config.output,
          .ok ⟨progressed, round.last⟩) := by
  obtain ⟨progressed, hvisit⟩ := visit_of_ok feedback round
    (getElem?_seeded_length done) (status_fresh p _) hrun
  have hlength : (done ++ seeded p (phase :: phase' :: phases) vs).length =
      done.length + (phases.length + 2) := by
    simp
  have hlast : done.length + 1 ≠ (done ++ seeded p (phase :: phase' :: phases) vs).length := by
    omega
  have hindex : (done.length + 1) % (done ++ seeded p (phase :: phase' :: phases) vs).length =
      (done ++ [m.drain.2]).length := by
    rw [Nat.mod_eq_of_lt (by omega), List.length_append, List.length_singleton]
  have hfeed : (Machine.ofProgram p false).feedAll (phase' :: m.config.output) =
      ((Machine.ofProgram p false).feed phase').feedAll m.config.output := by
    rw [Machine.feed_eq_feedAll, Machine.feedAll_feedAll]
    rfl
  refine ⟨progressed, hvisit.trans ?_⟩
  rw [if_neg (fun h => hlast h.1), if_neg hlast, hindex, set_seeded_length, seeded_cons, hfeed]
  exact congrArg (fun ms => some (ms, _)) (modify_length_append _ _ _ _)

/-- The turn of the last machine. -/
theorem visit_seeded_last (feedback : Bool) (done : List Machine) (round : Round)
    (hrun : ((Machine.ofProgram p false).feedAll (phase :: vs)).run fuel =
      some (m, .ok status)) :
    ∃ ms progressed,
      visit fuel feedback done.length (done ++ seeded p [phase] vs) round =
        some (ms, .ok ⟨progressed, m.config.output.getLast?.or round.last⟩) ∧
      lastStatus ms = status := by
  obtain ⟨progressed, hvisit⟩ := visit_of_ok feedback round
    (getElem?_seeded_length done) (status_fresh p _) hrun
  have hlast : done.length + 1 = (done ++ seeded p [phase] vs).length := by
    simp
  have hstatus : lastStatus (done ++ [m.drain.2]) = status := by
    have hends : m.status = status := (Machine.Ends.stuck ⟨fuel, hrun⟩).1
    simpa [lastStatus, Machine.drain] using hends
  have hset : (done ++ seeded p [phase] vs).set done.length m.drain.2 = done ++ [m.drain.2] :=
    (set_seeded_length done _).trans (List.append_nil _)
  rw [hset, if_pos hlast] at hvisit
  refine ⟨_, progressed, hvisit, ?_⟩
  split_ifs
  · exact hstatus
  · rw [lastStatus_modify, hstatus]

/-! ### All turns -/

theorem visitAll_seeded_cons (done : List Machine) :
    visitAll fuel feedback (List.range' done.length (phase :: phases).length) ms round =
      match visit fuel feedback done.length ms round with
      | some (ms, .ok round) =>
        visitAll fuel feedback (List.range' (done.length + 1) phases.length) ms round
      | stopped => stopped := by
  rw [List.length_cons, List.range'_succ]
  rfl

/-- If all turns come to an end, so does every machine that is run on its own. -/
theorem relay_of_visitAll {r : List Machine × Except Failure Round} (hphases : phases ≠ [])
    (h : visitAll fuel feedback (List.range' done.length phases.length)
      (done ++ seeded p phases vs) round = some r) : ∃ q, Relay p phases vs q := by
  induction phases generalizing done vs round with
  | nil => exact absurd rfl hphases
  | cons phase phases ih =>
    rw [visitAll_seeded_cons] at h
    cases hrun : ((Machine.ofProgram p false).feedAll (phase :: vs)).run fuel with
    | none =>
      rw [visit_of_none (getElem?_seeded_length done) (status_fresh p _) hrun] at h
      cases h
    | some result =>
      obtain ⟨m, reply⟩ := result
      cases reply with
      | error f => exact ⟨_, .fails ⟨fuel, hrun⟩⟩
      | ok status =>
        cases phases with
        | nil => exact ⟨_, .last ⟨fuel, hrun⟩⟩
        | cons phase' phases =>
          obtain ⟨progressed, hvisit⟩ := visit_seeded_next feedback done round hrun
          rw [hvisit] at h
          have hlength : done.length + 1 = (done ++ [m.drain.2]).length := by simp
          rw [hlength] at h
          obtain ⟨q, hq⟩ := ih (by simp) h
          exact ⟨q, .next ⟨fuel, hrun⟩ hq⟩

/-- What is reported after all turns, if the machines have the outcome `q` one after the other: the
failure, or the last value of the last machine and its status. -/
def Reports (ms : List Machine) (reply : Except Failure Round) (before : Option Int) :
    Except Failure (List Int × Status) → Prop
  | .error f => reply = .error f
  | .ok (outs, status) =>
    (∃ progressed, reply = .ok ⟨progressed, outs.getLast?.or before⟩) ∧ lastStatus ms = status

/-- If the machines come to an end one after the other, so do all turns, with the same outcome. -/
theorem visitAll_of_relay {q : Except Failure (List Int × Status)} (h : Relay p phases vs q) :
    ∃ n, ∀ fuel, n ≤ fuel → ∀ feedback done round, ∃ ms reply,
      visitAll fuel feedback (List.range' done.length phases.length)
        (done ++ seeded p phases vs) round = some (ms, reply) ∧ Reports ms reply round.last q := by
  induction h with
  | fails h =>
    obtain ⟨n, hn⟩ := h
    refine ⟨n, fun fuel hle feedback done round => ?_⟩
    rw [visitAll_seeded_cons, visit_of_error (getElem?_seeded_length done) (status_fresh p _)
      (Machine.run_mono hn hle)]
    exact ⟨_, _, rfl, rfl⟩
  | last h =>
    obtain ⟨n, hn⟩ := h
    refine ⟨n, fun fuel hle feedback done round => ?_⟩
    obtain ⟨ms, progressed, hvisit, hstatus⟩ :=
      visit_seeded_last feedback done round (Machine.run_mono hn hle)
    rw [visitAll_seeded_cons, hvisit]
    exact ⟨ms, _, rfl, ⟨progressed, rfl⟩, hstatus⟩
  | @next phase phase' phases vs m status q h _ ih =>
    obtain ⟨n, hn⟩ := h
    obtain ⟨k, hk⟩ := ih
    refine ⟨max n k, fun fuel hle feedback done round => ?_⟩
    obtain ⟨progressed, hvisit⟩ := visit_seeded_next feedback done round
      (Machine.run_mono hn (Nat.le_trans (Nat.le_max_left n k) hle))
    have hlength : done.length + 1 = (done ++ [m.drain.2]).length := by simp
    rw [visitAll_seeded_cons, hvisit, hlength]
    have hkle : k ≤ fuel := Nat.le_trans (Nat.le_max_right n k) hle
    exact hk fuel hkle feedback (done ++ [m.drain.2]) ⟨progressed, round.last⟩

/-! ### Whole chains -/

theorem run_eq_rounds {text : String} {initial : Int} (hp : Program.ofText text = .ok p)
    (hphases : phases ≠ []) :
    run fuel text phases initial feedback =
      rounds fuel feedback fuel (seeded p phases [initial]) none := by
  simp only [run, List.isEmpty_iff, if_neg hphases, hp]
  rfl

theorem pump_seeded (p : Program) (phases vs : List Int) :
    pump fuel feedback (seeded p phases vs) =
      visitAll fuel feedback (List.range' ([] : List Machine).length phases.length)
        ([] ++ seeded p phases vs) ⟨false, none⟩ := by
  rw [pump, length_seeded, List.range_eq_range']
  rfl

/-- A chain that needs one round only has the result that the round reports. -/
theorem rounds_of_reports {more : Nat} {reply : Except Failure Round} {ms' : List Machine}
    {q : Except Failure (List Int × Status)} (hpump : pump fuel feedback ms = some (ms', reply))
    (hreports : Reports ms' reply none q)
    (hround : feedback = false ∨ ∃ outs, q = .ok (outs, .halted)) :
    rounds fuel feedback (more + 1) ms none = some (verdict q) := by
  rw [rounds, hpump]
  cases q with
  | error f =>
    obtain rfl : reply = .error f := hreports
    rfl
  | ok result =>
    obtain ⟨outs, status⟩ := result
    obtain ⟨⟨progressed, rfl⟩, hstatus⟩ := hreports
    have hdone : (!feedback || lastStatus ms' == .halted) = true := by
      rcases hround with rfl | ⟨outs', h⟩
      · rfl
      · cases h
        simp [hstatus]
    simp only [hdone, if_true, Option.or_none, verdict]
    cases outs.getLast? <;> rfl

theorem ends_of_relay {text : String} {initial : Int} {q : Except Failure (List Int × Status)}
    (hp : Program.ofText text = .ok p) (hphases : phases ≠ [])
    (h : Relay p phases [initial] q)
    (hround : feedback = false ∨ ∃ outs, q = .ok (outs, .halted)) :
    Ends text phases initial feedback (verdict q) := by
  obtain ⟨n, hn⟩ := visitAll_of_relay h
  obtain ⟨ms, reply, hvisits, hreports⟩ := hn (n + 1) (by omega) feedback [] ⟨false, none⟩
  rw [← pump_seeded] at hvisits
  refine ⟨n + 1, ?_⟩
  rw [run_eq_rounds hp hphases]
  exact rounds_of_reports hvisits hreports hround

theorem relay_of_ends {text : String} {initial : Int} {r : Except Failure Int}
    (hp : Program.ofText text = .ok p) (hphases : phases ≠ [])
    (h : Ends text phases initial feedback r) : ∃ q, Relay p phases [initial] q := by
  obtain ⟨fuel, hrun⟩ := h
  rw [run_eq_rounds hp hphases] at hrun
  cases fuel with
  | zero => cases hrun
  | succ fuel =>
    cases hpump : pump (fuel + 1) feedback (seeded p phases [initial]) with
    | none =>
      rw [rounds, hpump] at hrun
      cases hrun
    | some result =>
      rw [pump_seeded] at hpump
      exact relay_of_visitAll hphases hpump

/-- **A chain without feedback is a composition.**  It comes to an end exactly if the machines do
that are run one after the other, each fresh and given its phase setting and what the one before has
put out.  The result is the last value that the last machine has put out, a failure if there is
none, and the failure of the first machine that fails if there is one.  With feedback the chain has
the same result if the last of these machines halts. -/
theorem serial_chain_composes {text : String} (hp : Program.ofText text = .ok p)
    (hphases : phases ≠ []) (initial : Int) :
    (∀ r, Ends text phases initial false r ↔ ∃ q, Relay p phases [initial] q ∧ r = verdict q) ∧
    ∀ outs, Relay p phases [initial] (.ok (outs, .halted)) →
      ∀ r, Ends text phases initial true r ↔ Ends text phases initial false r := by
  refine ⟨fun r => ⟨fun h => ?_, ?_⟩, fun outs h r => ?_⟩
  · obtain ⟨q, hq⟩ := relay_of_ends hp hphases h
    exact ⟨q, hq, h.unique (ends_of_relay hp hphases hq (.inl rfl))⟩
  · rintro ⟨q, hq, rfl⟩
    exact ends_of_relay hp hphases hq (.inl rfl)
  · have hserial : Ends text phases initial false _ := ends_of_relay hp hphases h (.inl rfl)
    have hring : Ends text phases initial true _ := ends_of_relay hp hphases h (.inr ⟨outs, rfl⟩)
    constructor
    · intro h
      rwa [h.unique hring]
    · intro h
      rwa [h.unique hserial]

/-- A program that puts out the two values it has read and then asks for a third one. -/
def repeater : Program :=
  ⟨"3,0,3,1,4,0,4,1,3,2,99", #[3, 0, 3, 1, 4, 0, 4, 1, 3, 2, 99], by rfl⟩

/-- The first of two repeaters waits half way, with two values put out, which are enough for the
second to halt. -/
theorem repeater_composes :
    Relay repeater [1, 2] [5] (.ok ([2, 1], .halted)) ∧
      Ends repeater.text [1, 2] 5 false (.ok 1) ∧ Ends repeater.text [1, 2] 5 true (.ok 1) := by
  have hp : Program.ofText repeater.text = .ok repeater := by rfl
  have hfirst : ((Machine.ofProgram repeater false).feedAll [1, 5]).run 5 =
      some (⟨repeater, ⟨#[1, 5, 3, 1, 4, 0, 4, 1, 3, 2, 99], 8, [], [1, 5]⟩, .blocked, false, #[]⟩,
        .ok .blocked) := by rfl
  have hsecond : ((Machine.ofProgram repeater false).feedAll [2, 1, 5]).run 6 =
      some (⟨repeater, ⟨#[2, 1, 5, 1, 4, 0, 4, 1, 3, 2, 99], 11, [], [2, 1]⟩, .halted, false, #[]⟩,
        .ok .halted) := by rfl
  have hrelay : Relay repeater [1, 2] [5] (.ok ([2, 1], .halted)) :=
    .next ⟨5, hfirst⟩ (.last ⟨6, hsecond⟩)
  have hphases : ([1, 2] : List Int) ≠ [] := by simp
  obtain ⟨hserial, hring⟩ := serial_chain_composes hp hphases 5
  have hends : Ends repeater.text [1, 2] 5 false (.ok 1) := (hserial _).2 ⟨_, hrelay, rfl⟩
  exact ⟨hrelay, hends, (hring _ hrelay _).2 hends⟩

end Intcode.Chain

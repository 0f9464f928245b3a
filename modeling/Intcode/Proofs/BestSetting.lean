import Intcode.Proofs.ChainResults
import Intcode.Proofs.Orderings
import Mathlib.Tactic.Choose

/-!
# The best phase settings

The search for the best phase settings runs a chain for every ordering of the settings and keeps the
greatest signal, with the ordering that was the first to produce it.

* `Leads`: of the orderings seen so far one is the first with the greatest signal;
  `Leads.push` takes one more ordering;
* `bestOf_of_ok`, `bestOf_of_error`: the search over any orderings;
* `exists_bound`: one bound is enough for several chains;
* `finds_of_ok`, `finds_of_error`: the search over all orderings, found by their positions;
* `best_setting_is_first_maximum`: what the search finds.
-/

namespace Intcode.Chain

variable {fuel : Nat} {text : String} {phases : List Int} {initial : Int} {feedback : Bool}
  {value : List Int → Int} {seen candidates : List (List Int)} {best : Int × List Int}

/-! ### The search -/

/-- Of the orderings in a row one is kept with its value: the first of those with the greatest
value. -/
def Leads (value : List Int → Int) (seen : List (List Int)) (best : Int × List Int) : Prop :=
  best.1 = value best.2 ∧ ∃ before after, seen = before ++ best.2 :: after ∧
    (∀ ys ∈ before, value ys < best.1) ∧ ∀ ys ∈ after, value ys ≤ best.1

theorem Leads.le (h : Leads value seen best) {ys : List Int} (hys : ys ∈ seen) :
    value ys ≤ best.1 := by
  obtain ⟨hvalue, before, after, rfl, hbefore, hafter⟩ := h
  rcases List.mem_append.1 hys with hys | hys
  · exact Int.le_of_lt (hbefore ys hys)
  · rcases List.mem_cons.1 hys with rfl | hys
    · exact Int.le_of_eq hvalue.symm
    · exact hafter ys hys

/-- One more ordering: it is kept if its value is greater. -/
theorem Leads.push (h : Leads value seen best) (ys : List Int) :
    Leads value (seen ++ [ys]) (if value ys > best.1 then (value ys, ys) else best) := by
  split_ifs with hgt
  · exact ⟨rfl, seen, [], rfl, fun zs hzs => Int.lt_of_le_of_lt (h.le hzs) hgt, by simp⟩
  · obtain ⟨hvalue, before, after, rfl, hbefore, hafter⟩ := h
    refine ⟨hvalue, before, after ++ [ys], by simp, hbefore, fun zs hzs => ?_⟩
    rcases List.mem_append.1 hzs with hzs | hzs
    · exact hafter zs hzs
    · obtain rfl := List.mem_singleton.1 hzs
      exact Int.not_lt.1 hgt

theorem bestOf_cons_of_ok {ys : List Int} {v : Int}
    (hrun : run fuel text ys initial feedback = some (.ok v)) :
    bestOf fuel text initial feedback (ys :: candidates) (some best) =
      bestOf fuel text initial feedback candidates
        (some (if v > best.1 then (v, ys) else best)) := by
  rw [bestOf, hrun]
  dsimp only
  split_ifs <;> rfl

/-- If no chain fails, the search keeps the first of the greatest signals. -/
theorem bestOf_of_ok
    (h : ∀ ys ∈ candidates, run fuel text ys initial feedback = some (.ok (value ys)))
    (hbest : Leads value seen best) :
    ∃ best', bestOf fuel text initial feedback candidates (some best) = some (.ok best') ∧
      Leads value (seen ++ candidates) best' := by
  induction candidates generalizing seen best with
  | nil => exact ⟨best, rfl, by simpa using hbest⟩
  | cons ys candidates ih =>
    rw [List.forall_mem_cons] at h
    obtain ⟨best', hsearch, hleads⟩ := ih h.2 (hbest.push ys)
    refine ⟨best', (bestOf_cons_of_ok h.1).trans hsearch, ?_⟩
    rwa [List.append_assoc] at hleads

/-- The first chain that fails ends the search. -/
theorem bestOf_of_error {before after : List (List Int)} {bad : List Int} {f : Failure}
    (hbefore : ∀ ys ∈ before, ∃ v, run fuel text ys initial feedback = some (.ok v))
    (hbad : run fuel text bad initial feedback = some (.error f))
    (best : Option (Int × List Int)) :
    bestOf fuel text initial feedback (before ++ bad :: after) best = some (.error f) := by
  induction before generalizing best with
  | nil => rw [List.nil_append, bestOf, hbad]
  | cons ys before ih =>
    rw [List.forall_mem_cons] at hbefore
    obtain ⟨v, hv⟩ := hbefore.1
    rw [List.cons_append, bestOf, hv]
    exact ih hbefore.2 _

/-! ### All orderings -/

/-- One bound is enough for several chains. -/
theorem exists_bound (h : ∀ ys ∈ candidates, ∃ r, Ends text ys initial feedback r) :
    ∃ fuel, ∀ ys ∈ candidates, ∀ r, Ends text ys initial feedback r →
      run fuel text ys initial feedback = some r := by
  induction candidates with
  | nil => exact ⟨0, by simp⟩
  | cons ys candidates ih =>
    rw [List.forall_mem_cons] at h
    obtain ⟨r, n, hn⟩ := h.1
    obtain ⟨k, hk⟩ := ih h.2
    refine ⟨max n k, List.forall_mem_cons.2 ⟨fun r' hr' => ?_, fun zs hzs r' hr' => ?_⟩⟩
    · rw [hr'.unique ⟨n, hn⟩]
      exact run_mono hn (Nat.le_max_left n k)
    · exact run_mono (hk zs hzs r' hr') (Nat.le_max_right n k)

/-- If no ordering fails, the search finds the first of the greatest signals. -/
theorem finds_of_ok
    (h : ∀ ys, ys.Perm phases → Ends text ys initial feedback (.ok (value ys))) :
    ∃ positions, positions.Perm (List.range phases.length) ∧
      Finds text phases initial feedback
        (.ok (value (arrange phases positions), arrange phases positions)) ∧
      (∀ ys, ys.Perm phases → value ys ≤ value (arrange phases positions)) ∧
      ∀ earlier, earlier.Perm (List.range phases.length) → earlier < positions →
        value (arrange phases earlier) < value (arrange phases positions) := by
  have hends : ∀ ys ∈ orderings phases, Ends text ys initial feedback (.ok (value ys)) :=
    fun ys hys => h ys (mem_orderings_iff.1 hys)
  obtain ⟨fuel, hfuel⟩ := exists_bound fun ys hys => ⟨_, hends ys hys⟩
  have hrun := fun ys hys => hfuel ys hys _ (hends ys hys)
  obtain ⟨first, rest, hfirst⟩ := List.exists_cons_of_ne_nil (orderings_ne_nil phases)
  rw [hfirst, List.forall_mem_cons] at hrun
  have hstart : Leads value [first] (value first, first) :=
    ⟨rfl, [], [], rfl, by simp, by simp⟩
  obtain ⟨⟨signal, chosen⟩, hsearch, hleads⟩ := bestOf_of_ok hrun.2 hstart
  have hbest : best fuel text phases initial feedback = some (.ok (signal, chosen)) := by
    rw [best, hfirst, bestOf, hrun.1]
    exact hsearch
  rw [List.singleton_append, ← hfirst] at hleads
  have hle := fun (ys : List Int) (hys : ys.Perm phases) => hleads.le (mem_orderings_iff.2 hys)
  obtain ⟨hvalue, before, after, hsplit, hbefore, -⟩ := hleads
  obtain rfl : signal = value chosen := hvalue
  obtain ⟨positions, hpositions, rfl, hearlier⟩ := exists_positions hsplit
  exact ⟨positions, hpositions, ⟨fuel, hbest⟩, hle,
    fun earlier hperm hlt => hbefore _ (hearlier earlier hperm hlt)⟩

theorem exists_first_error (h : ∀ ys ∈ candidates, ∃ r, Ends text ys initial feedback r)
    {bad : List Int} {f : Failure} (hmem : bad ∈ candidates)
    (hbad : Ends text bad initial feedback (.error f)) :
    ∃ before first after f', candidates = before ++ first :: after ∧
      (∀ ys ∈ before, ∃ v, Ends text ys initial feedback (.ok v)) ∧
      Ends text first initial feedback (.error f') := by
  induction candidates with
  | nil => cases hmem
  | cons ys candidates ih =>
    rw [List.forall_mem_cons] at h
    obtain ⟨⟨f' | v, hends⟩, hrest⟩ := h
    · exact ⟨[], ys, candidates, f', rfl, by simp, hends⟩
    · have hne : bad ≠ ys := by
        rintro rfl
        cases hbad.unique hends
      obtain ⟨before, first, after, f', rfl, hbefore, hfirst⟩ :=
        ih hrest ((List.mem_cons.1 hmem).resolve_left hne)
      exact ⟨ys :: before, first, after, f', rfl,
        List.forall_mem_cons.2 ⟨⟨v, hends⟩, hbefore⟩, hfirst⟩

/-- If an ordering fails, the search fails like the first that does. -/
theorem finds_of_error (h : ∀ ys, ys.Perm phases → ∃ r, Ends text ys initial feedback r)
    {bad : List Int} {f : Failure} (hperm : bad.Perm phases)
    (hbad : Ends text bad initial feedback (.error f)) :
    ∃ positions f', positions.Perm (List.range phases.length) ∧
      Ends text (arrange phases positions) initial feedback (.error f') ∧
      (∀ earlier, earlier.Perm (List.range phases.length) → earlier < positions →
        ∃ v, Ends text (arrange phases earlier) initial feedback (.ok v)) ∧
      Finds text phases initial feedback (.error f') := by
  have hends : ∀ ys ∈ orderings phases, ∃ r, Ends text ys initial feedback r :=
    fun ys hys => h ys (mem_orderings_iff.1 hys)
  obtain ⟨before, first, after, f', hsplit, hbefore, hfirst⟩ :=
    exists_first_error hends (mem_orderings_iff.2 hperm) hbad
  obtain ⟨fuel, hfuel⟩ := exists_bound hends
  rw [hsplit, List.forall_mem_append, List.forall_mem_cons] at hfuel
  have hbest : best fuel text phases initial feedback = some (.error f') := by
    rw [best, hsplit]
    refine bestOf_of_error (fun ys hys => ?_) (hfuel.2.1 _ hfirst) none
    obtain ⟨v, hv⟩ := hbefore ys hys
    exact ⟨v, hfuel.1 ys hys _ hv⟩
  obtain ⟨positions, hpositions, rfl, hearlier⟩ := exists_positions hsplit
  exact ⟨positions, f', hpositions, hfirst,
    fun earlier hperm hlt => hbefore _ (hearlier earlier hperm hlt), ⟨fuel, hbest⟩⟩

/-- **The search finds the first of the best orderings.**  If the chain has a signal for every
ordering of the phase settings, the search has one result: a signal and an ordering that produces
it, such that no ordering produces a greater signal, and those with smaller positions, where the
first difference decides, produce smaller ones.  The signal is the same in whatever order the
settings are given.  If every chain comes to an end but some fail, the search fails like the first
that does. -/
theorem best_setting_is_first_maximum (text : String) (phases : List Int) (initial : Int)
    (feedback : Bool) :
    ((∀ ys, ys.Perm phases → ∃ v, Ends text ys initial feedback (.ok v)) →
      ∃ signal positions, positions.Perm (List.range phases.length) ∧
        (∀ r, Finds text phases initial feedback r ↔
          r = .ok (signal, arrange phases positions)) ∧
        (arrange phases positions).Perm phases ∧
        Ends text (arrange phases positions) initial feedback (.ok signal) ∧
        (∀ ys v, ys.Perm phases → Ends text ys initial feedback (.ok v) → v ≤ signal) ∧
        (∀ earlier v, earlier.Perm (List.range phases.length) → earlier < positions →
          Ends text (arrange phases earlier) initial feedback (.ok v) → v < signal) ∧
        ∀ phases', phases'.Perm phases →
          ∃ chosen, Finds text phases' initial feedback (.ok (signal, chosen))) ∧
    ((∀ ys, ys.Perm phases → ∃ r, Ends text ys initial feedback r) →
      (∃ ys f, ys.Perm phases ∧ Ends text ys initial feedback (.error f)) →
      ∃ positions f, positions.Perm (List.range phases.length) ∧
        Ends text (arrange phases positions) initial feedback (.error f) ∧
        (∀ earlier, earlier.Perm (List.range phases.length) → earlier < positions →
          ∃ v, Ends text (arrange phases earlier) initial feedback (.ok v)) ∧
        ∀ r, Finds text phases initial feedback r ↔ r = .error f) := by
  have hiff : ∀ {r}, Finds text phases initial feedback r →
      ∀ r', Finds text phases initial feedback r' ↔ r' = r := by
    intro r h r'
    constructor
    · intro h'
      exact h'.unique h
    · rintro rfl
      exact h
  constructor
  · intro h
    choose! value hvalue using h
    have hsame : ∀ {ys v}, ys.Perm phases → Ends text ys initial feedback (.ok v) →
        v = value ys := by
      intro ys v hys hv
      exact Except.ok.inj (hv.unique (hvalue ys hys))
    obtain ⟨positions, hpositions, hfinds, hmax, hfirst⟩ := finds_of_ok hvalue
    have hperm := perm_arrange hpositions
    refine ⟨_, positions, hpositions, hiff hfinds, hperm, hvalue _ hperm, ?_, ?_, ?_⟩
    · intro ys v hys hv
      rw [hsame hys hv]
      exact hmax ys hys
    · intro earlier v hearlier hlt hv
      rw [hsame (perm_arrange hearlier) hv]
      exact hfirst earlier hearlier hlt
    · intro phases' hphases'
      obtain ⟨positions', hpositions', hfinds', hmax', -⟩ :=
        finds_of_ok fun (ys : List Int) (hys : ys.Perm phases') => hvalue ys (hys.trans hphases')
      -- both are greatest signals over the same orderings
      have hperm' := perm_arrange hpositions'
      have heq : value (arrange phases' positions') = value (arrange phases positions) :=
        Int.le_antisymm (hmax _ (hperm'.trans hphases')) (hmax' _ (hperm.trans hphases'.symm))
      exact ⟨_, heq ▸ hfinds'⟩
  · rintro h ⟨ys, f, hys, hf⟩
    obtain ⟨positions, f', hpositions, hfails, hearlier, hfinds⟩ := finds_of_error h hys hf
    exact ⟨positions, f', hpositions, hfails, hearlier, hiff hfinds⟩

/-- A program that puts out ten times its signal plus its phase setting. -/
def appender : String :=
  "3,15,3,16,1002,16,10,16,1,16,15,15,4,15,99,0,0"

/-- A program whose phase setting is its next instruction: `104` puts out a seven, `99` halts. -/
def obedient : String :=
  "3,2,0,7,99"

/-- Equal settings lead to equal signals, of which the first is kept; and a search fails at an
ordering that leaves the chain without a signal, although the ordering before it has one. -/
theorem appender_best :
    (∀ ys, ys.Perm [0, 1, 1] → ∃ v, Ends appender ys 0 false (.ok v)) ∧
    Finds appender [0, 1, 1] 0 false (.ok (110, [1, 1, 0])) ∧
    (∀ ys v, ys.Perm [0, 1, 1] → Ends appender ys 0 false (.ok v) → v ≤ 110) ∧
    (∃ chosen, Finds appender [1, 0, 1] 0 false (.ok (110, chosen))) ∧
    (∀ ys, ys.Perm [99, 104] → ∃ r, Ends obedient ys 0 false r) ∧
    Ends obedient [99, 104] 0 false (.ok 7) ∧
    ∀ r, Finds obedient [99, 104] 0 false r ↔
      r = .error (.fault (.inputExhausted .noSignal [] none)) := by
  have happender : ∀ ys ∈ orderings [0, 1, 1],
      run 20 appender ys 0 false = some (.ok (ys.foldl (10 * · + ·) 0)) := by decide +kernel
  have hsignals : ∀ ys, ys.Perm [0, 1, 1] → ∃ v, Ends appender ys 0 false (.ok v) :=
    fun ys hys => ⟨_, 20, happender ys (mem_orderings_iff.2 hys)⟩
  have hbest : Finds appender [0, 1, 1] 0 false (.ok (110, [1, 1, 0])) := ⟨20, by decide +kernel⟩
  have hobedient : ∀ ys ∈ orderings [99, 104], (run 20 obedient ys 0 false).isSome = true := by
    decide +kernel
  have hresults : ∀ ys, ys.Perm [99, 104] → ∃ r, Ends obedient ys 0 false r := by
    intro ys hys
    obtain ⟨r, hr⟩ := Option.isSome_iff_exists.1 (hobedient ys (mem_orderings_iff.2 hys))
    exact ⟨r, 20, hr⟩
  have hfails : Ends obedient [104, 99] 0 false
      (.error (.fault (.inputExhausted .noSignal [] none))) := ⟨20, by rfl⟩
  obtain ⟨signal, positions, -, honly, -, -, hmax, -, hany⟩ :=
    (best_setting_is_first_maximum appender [0, 1, 1] 0 false).1 hsignals
  obtain ⟨rfl, -⟩ := Prod.mk.inj (Except.ok.inj ((honly _).1 hbest))
  have hfinds : Finds obedient [99, 104] 0 false
      (.error (.fault (.inputExhausted .noSignal [] none))) := ⟨20, by rfl⟩
  obtain ⟨positions', f, -, -, -, honly'⟩ :=
    (best_setting_is_first_maximum obedient [99, 104] 0 false).2 hresults
      ⟨_, _, .swap 99 104 [], hfails⟩
  obtain rfl := Except.error.inj ((honly' _).1 hfinds)
  exact ⟨hsignals, hbest, hmax, hany _ (by decide), hresults, ⟨20, by rfl⟩, honly'⟩

end Intcode.Chain

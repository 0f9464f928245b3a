import Intcode.Chain
import Mathlib.Tactic.SplitIfs

/-!
# Results of chains

A chain is given a bound on the instructions of each run and on its rounds.  A bound that is enough
for a result can be raised without changing the result, so that the result does not depend on it.

* `run_mono`, `visit_mono`, `visitAll_mono`, `pump_mono`, `rounds_mono`: raising the bound, from
  single machines up to whole chains; `Chain.run_mono` and `Chain.best_mono` for the results;
* `Chain.Ends`, `Chain.Finds`: the result of a chain and of a search for the best phase settings,
  for any bound that is enough; `Ends.unique` and `Finds.unique`.
-/

namespace Intcode

theorem Machine.run_mono {fuel more : Nat} {m : Machine} {r : Machine × Except Failure Status}
    (h : m.run fuel = some r) (hle : fuel ≤ more) : m.run more = some r := by
  obtain ⟨n, rfl⟩ := Nat.exists_eq_add_of_le hle
  exact run_add h n

namespace Chain

variable {fuel more i : Nat} {feedback : Bool} {ms : List Machine} {round : Round}
  {text : String} {phases : List Int} {initial : Int}

/-! ### Raising the bound -/

theorem visit_mono {r : List Machine × Except Failure Round}
    (h : visit fuel feedback i ms round = some r) (hle : fuel ≤ more) :
    visit more feedback i ms round = some r := by
  unfold visit at h ⊢
  split at h
  · exact h
  · rename_i m hm
    split_ifs at h with hhalted
    · rw [if_pos hhalted]
      exact h
    · rw [if_neg hhalted]
      cases hrun : m.run fuel with
      | none =>
        rw [hrun] at h
        cases h
      | some result =>
        rw [hrun] at h
        rw [Machine.run_mono hrun hle]
        exact h

theorem visitAll_mono {indices : List Nat} {r : List Machine × Except Failure Round}
    (h : visitAll fuel feedback indices ms round = some r) (hle : fuel ≤ more) :
    visitAll more feedback indices ms round = some r := by
  induction indices generalizing ms round with
  | nil => exact h
  | cons i indices ih =>
    unfold visitAll at h ⊢
    cases hvisit : visit fuel feedback i ms round with
    | none =>
      rw [hvisit] at h
      cases h
    | some result =>
      rw [hvisit] at h
      rw [visit_mono hvisit hle]
      obtain ⟨ms', reply⟩ := result
      cases reply with
      | error f => exact h
      | ok round' => exact ih h

theorem pump_mono {r : List Machine × Except Failure Round}
    (h : pump fuel feedback ms = some r) (hle : fuel ≤ more) :
    pump more feedback ms = some r :=
  visitAll_mono h hle

/-- Both the bound on a run and the bound on the rounds can be raised. -/
theorem rounds_mono {n n' : Nat} {signal : Option Int} {r : Except Failure Int}
    (h : rounds fuel feedback n ms signal = some r) (hle : fuel ≤ more) (hn : n ≤ n') :
    rounds more feedback n' ms signal = some r := by
  induction n generalizing ms signal n' with
  | zero => cases h
  | succ n ih =>
    obtain ⟨k, rfl⟩ : ∃ k, n' = k + 1 := ⟨n' - 1, by omega⟩
    unfold rounds at h ⊢
    cases hpump : pump fuel feedback ms with
    | none =>
      rw [hpump] at h
      cases h
    | some result =>
      rw [hpump] at h
      rw [pump_mono hpump hle]
      obtain ⟨ms', reply⟩ := result
      cases reply with
      | error f => exact h
      | ok round =>
        dsimp only at h ⊢
        split_ifs at h ⊢
        · exact h
        · exact ih h (by omega)
        · exact h

/-- A chain that has a result keeps it when the bound is raised. -/
theorem run_mono {r : Except Failure Int} (h : run fuel text phases initial feedback = some r)
    (hle : fuel ≤ more) : run more text phases initial feedback = some r := by
  unfold run at h ⊢
  split_ifs at h ⊢
  · exact h
  · split at h
    · exact h
    · exact rounds_mono h hle hle

theorem bestOf_mono {candidates : List (List Int)} {best : Option (Int × List Int)}
    {r : Except Failure (Int × List Int)}
    (h : bestOf fuel text initial feedback candidates best = some r) (hle : fuel ≤ more) :
    bestOf more text initial feedback candidates best = some r := by
  induction candidates generalizing best with
  | nil => cases best <;> exact h
  | cons phases candidates ih =>
    unfold bestOf at h ⊢
    cases hrun : run fuel text phases initial feedback with
    | none =>
      rw [hrun] at h
      cases h
    | some result =>
      rw [hrun] at h
      rw [run_mono hrun hle]
      cases result with
      | error f => exact h
      | ok signal => exact ih h

theorem best_mono {r : Except Failure (Int × List Int)}
    (h : best fuel text phases initial feedback = some r) (hle : fuel ≤ more) :
    best more text phases initial feedback = some r :=
  bestOf_mono h hle

/-! ### Results without a bound -/

/-- A chain has a result, if it is given a bound that is enough. -/
def Ends (text : String) (phases : List Int) (initial : Int) (feedback : Bool)
    (r : Except Failure Int) : Prop :=
  ∃ fuel, run fuel text phases initial feedback = some r

/-- The search for the best phase settings has a result, if it is given a bound that is enough. -/
def Finds (text : String) (phases : List Int) (initial : Int) (feedback : Bool)
    (r : Except Failure (Int × List Int)) : Prop :=
  ∃ fuel, best fuel text phases initial feedback = some r

theorem Ends.unique {r r' : Except Failure Int} (h : Ends text phases initial feedback r)
    (h' : Ends text phases initial feedback r') : r = r' := by
  obtain ⟨n, hn⟩ := h
  obtain ⟨k, hk⟩ := h'
  have hn' := run_mono hn (Nat.le_max_left n k)
  have hk' := run_mono hk (Nat.le_max_right n k)
  rw [hn'] at hk'
  exact Option.some.inj hk'

theorem Finds.unique {r r' : Except Failure (Int × List Int)}
    (h : Finds text phases initial feedback r) (h' : Finds text phases initial feedback r') :
    r = r' := by
  obtain ⟨n, hn⟩ := h
  obtain ⟨k, hk⟩ := h'
  have hn' := best_mono hn (Nat.le_max_left n k)
  have hk' := best_mono hk (Nat.le_max_right n k)
  rw [hn'] at hk'
  exact Option.some.inj hk'

end Chain

end Intcode

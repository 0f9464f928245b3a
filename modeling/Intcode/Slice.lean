/-!
# Slices of lists

* `slice xs start stop`: the elements from one position up to another, where a negative
  stop counts from the end;
* `latest n xs`: the last `n` elements;
* `untilFailure`: the results of a list up to its first failure.
-/

namespace Intcode

variable {α ε : Type}

/-- The elements from position `start` up to, and without, position `stop`.  A negative `stop`
counts from the end of the list. -/
def slice (xs : List α) (start : Nat) (stop : Int) : List α :=
  let stop := if stop < 0 then stop + xs.length else stop
  (xs.take stop.toNat).drop start

/-- The last `n` elements, or all if there are fewer. -/
def latest (n : Nat) (xs : List α) : List α :=
  xs.drop (xs.length - n)

/-- The results before the first failure, and that failure if there is one. -/
def untilFailure : List (Except ε α) → List α × Option ε
  | [] => ([], none)
  | .error f :: _ => ([], some f)
  | .ok a :: rest =>
    let r := untilFailure rest
    (a :: r.1, r.2)

@[simp] theorem untilFailure_map_ok (xs : List α) :
    untilFailure (xs.map (.ok : α → Except ε α)) = (xs, none) := by
  induction xs with
  | nil => rfl
  | cons x xs ih => simp [untilFailure, ih]

/-- If nothing fails, there is one result for every element. -/
theorem untilFailure_map_of_ok {β : Type} {f : β → Except ε α} {g : β → α} {xs : List β}
    (h : ∀ x ∈ xs, f x = .ok (g x)) : untilFailure (xs.map f) = (xs.map g, none) := by
  rw [← untilFailure_map_ok (xs.map g), List.map_map]
  exact congrArg untilFailure (List.map_congr_left h)

/-- If one failure alone can happen, and some element has it, it is reported. -/
theorem untilFailure_map_of_error {β : Type} {f : β → Except ε α} {g : β → α} {e : ε}
    {P : β → Prop} (hok : ∀ x, P x → f x = .ok (g x)) (herror : ∀ x, ¬ P x → f x = .error e)
    {xs : List β} (h : ¬ ∀ x ∈ xs, P x) : (untilFailure (xs.map f)).2 = some e := by
  induction xs with
  | nil => simp at h
  | cons x xs ih =>
    rw [List.map_cons]
    by_cases hx : P x
    · rw [hok x hx]
      exact ih fun hxs => h (List.forall_mem_cons.2 ⟨hx, hxs⟩)
    · rw [herror x hx]
      rfl

/-- If every result is a success, no failure is reported. -/
theorem untilFailure_of_isOk {rs : List (Except ε α)} (h : ∀ r ∈ rs, r.isOk = true) :
    (untilFailure rs).2 = none := by
  induction rs with
  | nil => rfl
  | cons r rs ih =>
    rw [List.forall_mem_cons] at h
    cases r with
    | error f => cases h.1
    | ok a => exact ih h.2

theorem mem_of_mem_untilFailure {rs : List (Except ε α)} {a : α} (h : a ∈ (untilFailure rs).1) :
    .ok a ∈ rs := by
  induction rs with
  | nil => cases h
  | cons r rs ih =>
    cases r with
    | error f => cases h
    | ok b =>
      rcases List.mem_cons.1 h with rfl | h
      · exact List.mem_cons_self
      · exact List.mem_cons_of_mem _ (ih h)

theorem mem_of_mem_slice {xs : List α} {start : Nat} {stop : Int} {x : α}
    (h : x ∈ slice xs start stop) : x ∈ xs :=
  List.mem_of_mem_take (List.mem_of_mem_drop h)

/-- A slice that starts at the beginning and stops at a natural number is a list of first
elements. -/
theorem slice_zero_natCast (xs : List α) (n : Nat) : slice xs 0 n = xs.take n := by
  have : ¬ (n : Int) < 0 := by omega
  simp [slice, this]

end Intcode

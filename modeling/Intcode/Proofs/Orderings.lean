import Intcode.Ordering
import Mathlib.Data.List.Lex

/-!
# All orderings, in the lexicographic order of positions

An ordering of a list is given by the positions of its elements, themselves an ordering of the
numbers `0, …, n - 1`.  The enumeration of all orderings goes through these lists of positions from
the smallest to the greatest, where the first difference decides.

* `mem_orderings_iff`: what is enumerated are the permutations of the list;
* `orderings_map`: the enumeration does not look at the elements;
* `arrange`, `orderings_eq_map_arrange`: the orderings of a list through those of its positions;
* `pairwise_lt_orderings_range`: the lists of positions come in increasing order;
  `exists_positions` says what stands before an ordering.
-/

namespace Intcode

variable {α β : Type} {n : Nat}

/-! ### Permutations -/

theorem perm_of_mem_picks {xs : List α} {p : α × List α} (h : p ∈ picks xs) :
    (p.1 :: p.2).Perm xs := by
  induction xs generalizing p with
  | nil => cases h
  | cons x xs ih =>
    rcases List.mem_cons.1 h with rfl | h
    · exact .refl _
    · obtain ⟨q, hq, rfl⟩ := List.mem_map.1 h
      exact (List.Perm.swap x q.1 q.2).trans ((ih hq).cons x)

theorem length_of_mem_picks {xs : List α} {p : α × List α} (h : p ∈ picks xs) :
    p.2.length + 1 = xs.length :=
  (perm_of_mem_picks h).length_eq

theorem map_fst_picks (xs : List α) : (picks xs).map Prod.fst = xs := by
  induction xs with
  | nil => rfl
  | cons x xs ih => simpa [picks, Function.comp_def] using ih

/-- Every element can be chosen. -/
theorem exists_mem_picks {xs : List α} {x : α} (h : x ∈ xs) : ∃ rest, (x, rest) ∈ picks xs := by
  rw [← map_fst_picks xs] at h
  obtain ⟨p, hp, rfl⟩ := List.mem_map.1 h
  exact ⟨p.2, hp⟩

theorem mem_orderingsOf_iff {xs ys : List α} (hn : xs.length = n) :
    ys ∈ orderingsOf n xs ↔ ys.Perm xs := by
  induction n generalizing xs ys with
  | zero =>
    obtain rfl := List.eq_nil_of_length_eq_zero hn
    rw [orderingsOf, List.mem_singleton, List.perm_nil]
  | succ n ih =>
    simp only [orderingsOf, List.mem_flatMap, List.mem_map]
    constructor
    · rintro ⟨p, hp, zs, hzs, rfl⟩
      have hlength : p.2.length = n := by
        have := length_of_mem_picks hp
        omega
      exact (((ih hlength).1 hzs).cons p.1).trans (perm_of_mem_picks hp)
    · intro h
      cases ys with
      | nil =>
        have := h.length_eq
        rw [List.length_nil] at this
        omega
      | cons y ys =>
        obtain ⟨rest, hrest⟩ := exists_mem_picks (h.subset List.mem_cons_self)
        have hlength : rest.length = n := by
          have : rest.length + 1 = xs.length := length_of_mem_picks hrest
          omega
        have hperm : ys.Perm rest :=
          (List.perm_cons y).1 (h.trans (perm_of_mem_picks hrest).symm)
        exact ⟨_, hrest, ys, (ih hlength).2 hperm, rfl⟩

/-- The orderings of a list are its permutations. -/
theorem mem_orderings_iff {xs ys : List α} : ys ∈ orderings xs ↔ ys.Perm xs :=
  mem_orderingsOf_iff rfl

/-! ### Positions -/

theorem picks_map (g : α → β) (xs : List α) :
    picks (xs.map g) = (picks xs).map fun p => (g p.1, p.2.map g) := by
  induction xs with
  | nil => rfl
  | cons x xs ih => simp [picks, ih]

theorem orderingsOf_map (g : α → β) (n : Nat) (xs : List α) :
    orderingsOf n (xs.map g) = (orderingsOf n xs).map (List.map g) := by
  induction n generalizing xs with
  | zero => rfl
  | succ n ih =>
    simp [orderingsOf, picks_map, List.flatMap_map, List.map_flatMap, ih, Function.comp_def]

/-- Which elements a list has does not matter for the order of its orderings. -/
theorem orderings_map (g : α → β) (xs : List α) :
    orderings (xs.map g) = (orderings xs).map (List.map g) := by
  rw [orderings, List.length_map, orderingsOf_map, orderings]

/-- The elements at the given positions of a list. -/
def arrange (xs : List Int) (positions : List Nat) : List Int :=
  positions.map (xs.getD · 0)

theorem arrange_range (xs : List Int) : arrange xs (List.range xs.length) = xs := by
  apply List.ext_getElem?
  intro i
  by_cases hi : i < xs.length
  · simp [arrange, hi]
  · simp [arrange, hi]

theorem orderings_eq_map_arrange (xs : List Int) :
    orderings xs = (orderings (List.range xs.length)).map (arrange xs) := by
  have h : orderings (arrange xs (List.range xs.length)) =
      (orderings (List.range xs.length)).map (arrange xs) := orderings_map _ _
  rwa [arrange_range] at h

/-- The elements at all positions, in whatever order, are all elements. -/
theorem perm_arrange {xs : List Int} {positions : List Nat}
    (h : positions.Perm (List.range xs.length)) : (arrange xs positions).Perm xs := by
  have hmap : (arrange xs positions).Perm (arrange xs (List.range xs.length)) := h.map _
  rwa [arrange_range] at hmap

theorem sublist_of_mem_picks {xs : List α} {p : α × List α} (h : p ∈ picks xs) :
    p.2.Sublist xs := by
  induction xs generalizing p with
  | nil => cases h
  | cons x xs ih =>
    rcases List.mem_cons.1 h with rfl | h
    · exact List.sublist_cons_self x xs
    · obtain ⟨q, hq, rfl⟩ := List.mem_map.1 h
      exact (ih hq).cons_cons x

theorem pairwise_lt_orderingsOf {xs : List Nat} (h : xs.Pairwise (· < ·)) (n : Nat) :
    (orderingsOf n xs).Pairwise (· < ·) := by
  induction n generalizing xs with
  | zero => exact List.pairwise_singleton _ _
  | succ n ih =>
    rw [orderingsOf, List.pairwise_flatMap]
    constructor
    · -- the same first position: what follows decides
      intro p hp
      rw [List.pairwise_map]
      refine (ih (h.sublist (sublist_of_mem_picks hp))).imp ?_
      intro ys zs hlt
      exact List.cons_lt_cons_iff.2 (.inr ⟨rfl, hlt⟩)
    · -- an earlier first position
      rw [← map_fst_picks xs, List.pairwise_map] at h
      refine h.imp ?_
      intro p q hlt ys hys zs hzs
      obtain ⟨ys, -, rfl⟩ := List.mem_map.1 hys
      obtain ⟨zs, -, rfl⟩ := List.mem_map.1 hzs
      exact List.cons_lt_cons_iff.2 (.inl hlt)

/-- The lists of positions are enumerated in increasing order. -/
theorem pairwise_lt_orderings_range (n : Nat) :
    (orderings (List.range n)).Pairwise (· < ·) :=
  pairwise_lt_orderingsOf List.pairwise_lt_range _

/-- A list of positions that is less than another stands before it. -/
theorem mem_before_of_lt {before after : List (List Nat)} {positions earlier : List Nat}
    (h : orderings (List.range n) = before ++ positions :: after)
    (hearlier : earlier.Perm (List.range n)) (hlt : earlier < positions) : earlier ∈ before := by
  have hmem := mem_orderings_iff.2 hearlier
  have hsorted := pairwise_lt_orderings_range n
  rw [h] at hmem hsorted
  rcases List.mem_append.1 hmem with hmem | hmem
  · exact hmem
  · rcases List.mem_cons.1 hmem with rfl | hmem
    · exact absurd hlt (lt_irrefl _)
    · have hgt := (List.pairwise_cons.1 (List.pairwise_append.1 hsorted).2.1).1 earlier hmem
      exact absurd hlt (lt_asymm hgt)

/-- An ordering in the enumeration has positions, and before it stand those with smaller ones. -/
theorem exists_positions {xs chosen : List Int} {before after : List (List Int)}
    (h : orderings xs = before ++ chosen :: after) :
    ∃ positions, positions.Perm (List.range xs.length) ∧ chosen = arrange xs positions ∧
      ∀ earlier, earlier.Perm (List.range xs.length) → earlier < positions →
        arrange xs earlier ∈ before := by
  rw [orderings_eq_map_arrange] at h
  obtain ⟨before', rest, hsplit, rfl, hrest⟩ := List.map_eq_append_iff.1 h
  obtain ⟨positions, after', rfl, rfl, rfl⟩ := List.map_eq_cons_iff.1 hrest
  have hmem : positions ∈ orderings (List.range xs.length) := by
    rw [hsplit]
    simp
  refine ⟨positions, mem_orderings_iff.1 hmem, rfl, fun earlier hearlier hlt => ?_⟩
  exact List.mem_map_of_mem (mem_before_of_lt hsplit hearlier hlt)

end Intcode

import Intcode.Numeral
import Mathlib.Data.List.Induction
import Mathlib.Data.Option.Basic

/-!
# Numerals can be read back

The decimal text of an integer, if it has one, spells that integer, and every integer that a text
spells has a decimal text.

* `toList_write`, `mem_write`, `write_ne_nil`: what stands in the text of an integer;
* `readNat?_toDigits`: the digits of a natural number spell it;
* `read?_write`: the text of an integer spells it;
* `readList?`, `readList?_writeList`: the same for several integers with commas between them;
* `short_of_read?`: an integer that is read can be written.
-/

namespace Intcode.Numeral

theorem toList_write (v : Int) :
    (write v).toList = (if v < 0 then ['-'] else []) ++ Nat.toDigits 10 v.natAbs :=
  String.toList_ofList

theorem isDigit_of_mem_toDigits {c : Char} {n : Nat} (h : c ∈ Nat.toDigits 10 n) :
    c.isDigit = true :=
  Nat.isDigit_of_mem_toDigits (by decide) (by decide) h

/-- The text of an integer consists of digits and perhaps a minus sign. -/
theorem mem_write {c : Char} {v : Int} (h : c ∈ (write v).toList) : c = '-' ∨ c.isDigit = true := by
  rw [toList_write, List.mem_append] at h
  rcases h with h | h
  · split at h
    · exact .inl (List.mem_singleton.1 h)
    · cases h
  · exact .inr (isDigit_of_mem_toDigits h)

theorem write_ne_nil (v : Int) : (write v).toList ≠ [] := by
  rw [toList_write]
  simp [Nat.toDigits_ne_nil]

theorem ofDigits_concat (ds : List Nat) (d : Nat) :
    ofDigits (ds ++ [d]) = 10 * ofDigits ds + d := by
  simp [ofDigits]

/-- The values of the digits of a number spell the number. -/
theorem mapM_digitValue?_toDigits (n : Nat) :
    ∃ ds, (Nat.toDigits 10 n).mapM Text.digitValue? = some ds ∧ ofDigits ds = n ∧
      ds.length = (Nat.toDigits 10 n).length := by
  induction n using Nat.strongRecOn with
  | ind n ih =>
    rw [Nat.toDigits_eq_if (by decide)]
    split
    · rename_i hn
      exact ⟨[n], by simp [Text.digitValue?_digitChar hn], by simp [ofDigits], rfl⟩
    · rename_i hn
      obtain ⟨ds, hds, hvalue, hlength⟩ := ih (n / 10) (by omega)
      have hlast : Text.digitValue? (Nat.digitChar (n % 10)) = some (n % 10) :=
        Text.digitValue?_digitChar (by omega)
      refine ⟨ds ++ [n % 10], ?_, ?_, ?_⟩
      · rw [List.mapM_append, hds]
        simp [hlast]
      · rw [ofDigits_concat, hvalue]
        omega
      · simp [hlength]

theorem length_toDigits_le {n k : Nat} (hk : 0 < k) (h : n < Nat.pow 10 k) :
    (Nat.toDigits 10 n).length ≤ k :=
  (Nat.length_toDigits_le_iff (by decide) hk).2 h

theorem guard_of_pos {p : Prop} [Decidable p] (h : p) : (guard p : Option Unit) = some () :=
  if_pos h

/-- Digits without a separating line spell the number that their values spell. -/
theorem readNat?_of_mapM {cs : List Char} {ds : List Nat} (hne : cs ≠ []) (hline : '_' ∉ cs)
    (hds : cs.mapM Text.digitValue? = some ds) (hfits : ds.length ≤ maxDigits) :
    readNat? cs = some (ofDigits ds) := by
  have hgroups : ([cs].all fun g => !g.isEmpty) = true := by simp [hne]
  unfold readNat?
  rw [List.splitOn_eq_singleton hline]
  show ((guard (([cs].all fun g => !g.isEmpty) = true) : Option Unit) >>= _) = _
  rw [guard_of_pos hgroups, List.flatten_singleton, hds]
  show ((guard (ds.length ≤ maxDigits) : Option Unit) >>= _) = _
  rw [guard_of_pos hfits]
  rfl

/-- The digits of a natural number spell it, if there are not too many of them. -/
theorem readNat?_toDigits {n : Nat} (h : n < Nat.pow 10 maxDigits) :
    readNat? (Nat.toDigits 10 n) = some n := by
  have hline : '_' ∉ Nat.toDigits 10 n := by
    intro hmem
    exact absurd (isDigit_of_mem_toDigits hmem) (by decide)
  obtain ⟨ds, hds, hvalue, hlength⟩ := mapM_digitValue?_toDigits n
  have hfits : ds.length ≤ maxDigits := by
    rw [hlength]
    exact length_toDigits_le (by decide) h
  rw [readNat?_of_mapM Nat.toDigits_ne_nil hline hds hfits, hvalue]

/-- The text of an integer spells it. -/
theorem read?_write {v : Int} (h : Short v) : read? (write v).toList = some v := by
  have hnat := readNat?_toDigits h
  rw [toList_write]
  by_cases hv : v < 0
  · rw [if_pos hv]
    simp only [List.singleton_append, read?, hnat, Option.map_some]
    congr 1
    show -(v.natAbs : Int) = v
    omega
  · rw [if_neg hv, List.nil_append]
    obtain ⟨c, cs, hcs⟩ :=
      List.exists_cons_of_ne_nil (Nat.toDigits_ne_nil (n := v.natAbs) (b := 10))
    have hc : c.isDigit = true := isDigit_of_mem_toDigits (by rw [hcs]; exact List.mem_cons_self)
    -- a digit is not a sign
    have hread : read? (c :: cs) = (readNat? (c :: cs)).map Int.ofNat := by
      unfold read?
      split
      · rename_i heq
        cases heq
        cases hc
      · rename_i heq
        cases heq
        cases hc
      · rfl
    rw [hcs, hread, ← hcs, hnat]
    show some (v.natAbs : Int) = some v
    congr 1
    omega

/-! ### Several integers -/

/-- The integers that a text spells, with commas between them. -/
def readList? (cs : List Char) : Option (List Int) :=
  (cs.splitOn ',').mapM read?

/-- Computations in a row succeed if each of them does. -/
theorem mapM_eq_pure_map {α β : Type} {m : Type → Type} [Monad m] [LawfulMonad m] {f : α → m β}
    {g : α → β} {xs : List α} (h : ∀ x ∈ xs, f x = pure (g x)) :
    xs.mapM f = pure (xs.map g) := by
  induction xs with
  | nil => rfl
  | cons x xs ih =>
    have hrest := ih fun y hy => h y (List.mem_cons_of_mem x hy)
    rw [List.mapM_cons, h x List.mem_cons_self, pure_bind, hrest, pure_bind, List.map_cons]

theorem comma_not_mem_write (v : Int) : ',' ∉ (write v).toList := by
  intro hmem
  rcases mem_write hmem with h | h
  · cases h
  · cases h

theorem toList_writeList (vs : List Int) :
    (writeList "," vs).toList = [','].intercalate (vs.map fun v => (write v).toList) := by
  simp [writeList, String.toList_intercalate, Function.comp_def]

theorem splitOn_writeList {vs : List Int} (h : vs ≠ []) :
    (writeList "," vs).toList.splitOn ',' = vs.map fun v => (write v).toList := by
  rw [toList_writeList]
  refine List.splitOn_intercalate ',' ?_ (by simpa using h)
  intro piece hpiece
  obtain ⟨v, -, rfl⟩ := List.mem_map.1 hpiece
  exact comma_not_mem_write v

/-- The text of one or more integers spells them. -/
theorem readList?_writeList {vs : List Int} (hne : vs ≠ []) (h : ∀ v ∈ vs, Short v) :
    readList? (writeList "," vs).toList = some vs := by
  have hread : ∀ v ∈ vs, (read? ∘ fun v => (write v).toList) v = pure (id v) :=
    fun v hv => read?_write (h v hv)
  rw [readList?, splitOn_writeList hne, List.mapM_map, mapM_eq_pure_map hread, List.map_id]
  rfl

/-! ### What is read can be written -/

theorem lt_of_mem_mapM {cs : List Char} {ds : List Nat}
    (h : cs.mapM Text.digitValue? = some ds) : ∀ d ∈ ds, d < 10 := by
  induction cs generalizing ds with
  | nil =>
    cases h
    simp
  | cons c cs ih =>
    rw [List.mapM_cons] at h
    obtain ⟨d, hd, h⟩ := Option.bind_eq_some_iff.1 h
    obtain ⟨ds', hds, h⟩ := Option.bind_eq_some_iff.1 h
    cases h
    intro x hx
    rcases List.mem_cons.1 hx with rfl | hx
    · exact Text.lt_of_digitValue? hd
    · exact ih hds x hx

/-- A number has no more digits than spell it. -/
theorem ofDigits_lt {ds : List Nat} {k : Nat} (h : ∀ d ∈ ds, d < 10) (hk : ds.length ≤ k) :
    ofDigits ds < Nat.pow 10 k := by
  have hlt : ofDigits ds < 10 ^ ds.length := by
    induction ds using List.reverseRecOn with
    | nil => decide
    | append_singleton ds d ih =>
      have hds := ih (fun x hx => h x (by simp [hx])) (by simp at hk; omega)
      have hd := h d (by simp)
      rw [ofDigits_concat, List.length_append, List.length_singleton, Nat.pow_succ]
      omega
  exact Nat.lt_of_lt_of_le hlt (Nat.pow_le_pow_right (by decide) hk)

theorem lt_of_readNat? {cs : List Char} {n : Nat} (h : readNat? cs = some n) :
    n < Nat.pow 10 maxDigits := by
  unfold readNat? at h
  obtain ⟨-, -, h⟩ := Option.bind_eq_some_iff.1 h
  obtain ⟨ds, hds, h⟩ := Option.bind_eq_some_iff.1 h
  obtain ⟨u, hfits, h⟩ := Option.bind_eq_some_iff.1 h
  cases h
  exact ofDigits_lt (lt_of_mem_mapM hds) ((Option.guard_eq_some' u).1 hfits)

/-- An integer that is read can be written. -/
theorem short_of_read? {cs : List Char} {v : Int} (h : read? cs = some v) : Short v := by
  unfold read? at h
  split at h
  · obtain ⟨n, hn, rfl⟩ := Option.map_eq_some_iff.1 h
    exact lt_of_readNat? hn
  · obtain ⟨n, hn, rfl⟩ := Option.map_eq_some_iff.1 h
    show (-(n : Int)).natAbs < Nat.pow 10 maxDigits
    rw [Int.natAbs_neg]
    exact lt_of_readNat? hn
  · obtain ⟨n, hn, rfl⟩ := Option.map_eq_some_iff.1 h
    exact lt_of_readNat? hn

end Intcode.Numeral

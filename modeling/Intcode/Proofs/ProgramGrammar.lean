import Intcode.Proofs.Execution
import Intcode.Proofs.ProgramText
import Mathlib.Data.List.Forall2
import Mathlib.Data.List.TakeWhile
import Mathlib.Data.Nat.Digits.Defs

/-!
# The grammar of program text

What program text looks like, said without the functions that read it: blanks at the ends, pieces
with commas between them, and in each piece, between blanks, a sign and digits.  The text is
accepted exactly if it looks like this, and if not, the first piece that does not is reported.

* `Stripped`: a text without the blanks at its ends; there is one, by `stripped_iff`;
* `Divided`: the pieces of a text; there is one list of them, by `divided_iff`;
* `Figures`, `Literal`, `Spells`: digits, integers with a sign, and integers between blanks;
  `readToken?_eq_some_iff` says that they are what is read from a piece;
* `readTokens_eq_error_iff`: the first piece that spells nothing;
* `parse_follows_grammar`: what is read from a text.
-/

namespace Intcode

variable {cs t token piece : List Char} {pieces : List (List Char)} {v : Int} {n : Nat}

/-! ### Blanks at the ends -/

/-- What remains of a text without the blanks at its ends: around it stand blanks only, and it
neither begins nor ends with one. -/
structure Stripped (cs t : List Char) : Prop where
  ends : ∃ left right, cs = left ++ t ++ right ∧ (∀ c ∈ left, Text.isBlank c = true) ∧
    ∀ c ∈ right, Text.isBlank c = true
  head : ∀ c, t.head? = some c → Text.isBlank c = false
  last : ∀ c, t.getLast? = some c → Text.isBlank c = false

theorem dropWhile_append_eq {p : Char → Bool} {left rest : List Char}
    (hleft : ∀ c ∈ left, p c = true) (hrest : ∀ c, rest.head? = some c → p c = false) :
    (left ++ rest).dropWhile p = rest := by
  rw [List.dropWhile_append_of_pos hleft]
  cases rest with
  | nil => rfl
  | cons c rest => exact List.dropWhile_cons_of_neg (by simp [hrest c rfl])

theorem not_of_head?_dropWhile {p : Char → Bool} {c : Char}
    (h : (cs.dropWhile p).head? = some c) : p c = false := by
  have hnot := List.head?_dropWhile_not p cs
  rwa [h] at hnot

/-- What is removed from the right end of a text stands behind what is kept. -/
theorem exists_trimRightBy_append (p : Char → Bool) (cs : List Char) :
    ∃ removed, (∀ c ∈ removed, p c = true) ∧ cs = Text.trimRightBy p cs ++ removed := by
  refine ⟨cs.rtakeWhile p, fun c hc => List.mem_rtakeWhile_imp hc, ?_⟩
  rw [Text.trimRightBy_eq_rdropWhile, List.rdropWhile_append_rtakeWhile]

theorem stripped_trimBy (cs : List Char) : Stripped cs (Text.trimBy Text.isBlank cs) := by
  obtain ⟨right, hright, hsplit⟩ :=
    exists_trimRightBy_append Text.isBlank (cs.dropWhile Text.isBlank)
  constructor
  · refine ⟨cs.takeWhile Text.isBlank, right, ?_, fun c => List.mem_takeWhile_imp, hright⟩
    rw [List.append_assoc, Text.trimBy, ← hsplit, List.takeWhile_append_dropWhile]
  · intro c hc
    have hhead : (cs.dropWhile Text.isBlank).head? = some c := by
      rw [hsplit, List.head?_append]
      exact Option.or_eq_some_iff.2 (.inl hc)
    exact not_of_head?_dropWhile hhead
  · intro c hc
    rw [Text.trimBy, Text.trimRightBy, List.getLast?_reverse] at hc
    exact not_of_head?_dropWhile hc

theorem Stripped.eq_trimBy (h : Stripped cs t) : t = Text.trimBy Text.isBlank cs := by
  obtain ⟨⟨left, right, rfl, hleft, hright⟩, hhead, hlast⟩ := h
  have hright' : ∀ c ∈ right.reverse, Text.isBlank c = true :=
    fun c hc => hright c (List.mem_reverse.1 hc)
  rw [← List.head?_reverse] at hlast
  unfold Text.trimBy Text.trimRightBy
  rw [List.append_assoc, List.dropWhile_append_of_pos hleft]
  cases t with
  | nil =>
    -- nothing stops the removal on the left, so that it takes the blanks on the right as well
    rw [List.nil_append, List.dropWhile_eq_nil_iff.2 hright]
    rfl
  | cons c rest =>
    rw [List.cons_append, List.dropWhile_cons_of_neg (by simp [hhead c rfl]), ← List.cons_append,
      List.reverse_append, dropWhile_append_eq hright' hlast, List.reverse_reverse]

/-- There is one way to strip a text. -/
theorem stripped_iff : Stripped cs t ↔ t = Text.trimBy Text.isBlank cs := by
  constructor
  · exact Stripped.eq_trimBy
  · rintro rfl
    exact stripped_trimBy cs

/-! ### Pieces -/

/-- The pieces of a text, between which the commas stand. -/
structure Divided (t : List Char) (pieces : List (List Char)) : Prop where
  ne_nil : pieces ≠ []
  join : [','].intercalate pieces = t
  apart : ∀ piece ∈ pieces, ',' ∉ piece

theorem not_mem_of_mem_splitOn {a : Char} (h : piece ∈ t.splitOn a) : a ∉ piece := by
  induction t generalizing piece with
  | nil =>
    obtain rfl : piece = [] := by simpa using h
    simp
  | cons c t ih =>
    rw [List.splitOn_cons_eq_if_modifyHead] at h
    obtain ⟨first, rest, hsplit⟩ := List.exists_cons_of_ne_nil (List.splitOn_ne_nil a t)
    rw [hsplit] at h ih
    split_ifs at h with hc
    · rcases List.mem_cons.1 h with rfl | h
      · simp
      · exact ih h
    · rcases List.mem_cons.1 h with rfl | h
      · have hne : a ≠ c := by
          rintro rfl
          simp at hc
        simpa [hne] using ih List.mem_cons_self
      · exact ih (List.mem_cons_of_mem first h)

/-- There is one way to divide a text. -/
theorem divided_iff : Divided t pieces ↔ pieces = t.splitOn ',' := by
  constructor
  · rintro ⟨hne, rfl, hapart⟩
    exact (List.splitOn_intercalate ',' hapart hne).symm
  · rintro rfl
    exact ⟨List.splitOn_ne_nil _ _, List.intercalate_splitOn ',', fun _ => not_mem_of_mem_splitOn⟩

/-! ### Integers -/

/-- Decimal digits of any script, not too many of them, and the number they stand for; the first is
the most significant. -/
def Figures (digits : List Char) (n : Nat) : Prop :=
  digits ≠ [] ∧ digits.length ≤ 4300 ∧
    ∃ values, List.Forall₂ (fun c d => Text.digitValue? c = some d) digits values ∧
      n = Nat.ofDigits 10 values.reverse

/-- Digits, perhaps after a sign. -/
inductive Literal : List Char → Int → Prop
  | unsigned {digits : List Char} {n : Nat} : Figures digits n → Literal digits n
  | plus {digits : List Char} {n : Nat} : Figures digits n → Literal ('+' :: digits) n
  | minus {digits : List Char} {n : Nat} : Figures digits n → Literal ('-' :: digits) (-n)

/-- A piece of program text spells an integer: blanks at its ends left out, it is a literal. -/
def Spells (piece : List Char) (v : Int) : Prop :=
  ∃ token, Stripped piece token ∧ Literal token v

theorem mapM_digitValue?_eq_some_iff {ds : List Nat} :
    cs.mapM Text.digitValue? = some ds ↔
      List.Forall₂ (fun c d => Text.digitValue? c = some d) cs ds := by
  induction cs generalizing ds with
  | nil => simp [List.forall₂_nil_left_iff, eq_comm]
  | cons c cs ih =>
    simp only [List.mapM_cons, bind, Option.bind_eq_some_iff, pure, Option.some.injEq, ih]
    cases ds with
    | nil => simp
    | cons d ds => simp [eq_comm]

theorem ofDigits_eq (ds : List Nat) : Numeral.ofDigits ds = Nat.ofDigits 10 ds.reverse := by
  induction ds using List.reverseRecOn with
  | nil => rfl
  | append_singleton ds d ih =>
    rw [Numeral.ofDigits_concat, ih, List.reverse_append, List.reverse_singleton,
      List.singleton_append, Nat.ofDigits_cons, Nat.add_comm]

/-- Only digits stand among digits. -/
theorem Figures.isSome_of_mem (h : Figures cs n) {c : Char} (hc : c ∈ cs) :
    (Text.digitValue? c).isSome = true := by
  obtain ⟨-, -, values, hvalues, -⟩ := h
  induction hvalues with
  | nil => cases hc
  | cons hd _ ih =>
    rcases List.mem_cons.1 hc with rfl | hc
    · exact Option.isSome_of_eq_some hd
    · exact ih hc

theorem Figures.not_mem (h : Figures cs n) {c : Char} (hc : Text.digitValue? c = none) :
    c ∉ cs := by
  intro hmem
  have hsome := h.isSome_of_mem hmem
  rw [hc] at hsome
  cases hsome

/-- Without digit groups, digits are what is read as a natural number. -/
theorem readNat?_eq_some_iff (hline : '_' ∉ cs) :
    Numeral.readNat? cs = some n ↔ Figures cs n := by
  constructor
  · intro h
    unfold Numeral.readNat? at h
    rw [List.splitOn_eq_singleton hline] at h
    obtain ⟨u, hne, h⟩ := Option.bind_eq_some_iff.1 h
    obtain ⟨ds, hds, h⟩ := Option.bind_eq_some_iff.1 h
    obtain ⟨u', hfits, h⟩ := Option.bind_eq_some_iff.1 h
    obtain rfl := Option.some.inj h
    rw [List.flatten_singleton, mapM_digitValue?_eq_some_iff] at hds
    refine ⟨?_, ?_, ds, hds, ofDigits_eq ds⟩
    · simpa using (Option.guard_eq_some' u).1 hne
    · rw [hds.length_eq]
      exact (Option.guard_eq_some' u').1 hfits
  · rintro ⟨hne, hfits, ds, hds, rfl⟩
    rw [hds.length_eq] at hfits
    rw [← ofDigits_eq]
    exact Numeral.readNat?_of_mapM hne hline (mapM_digitValue?_eq_some_iff.2 hds) hfits

/-- Digits have no sign before them, and are read as a natural number. -/
theorem read?_of_figures (h : Figures cs n) :
    Numeral.read? cs = (Numeral.readNat? cs).map Int.ofNat := by
  unfold Numeral.read?
  split
  · exact absurd List.mem_cons_self (h.not_mem (by decide))
  · exact absurd List.mem_cons_self (h.not_mem (by decide))
  · rfl

/-- Without digit groups, a literal is what is read as an integer. -/
theorem read?_eq_some_iff (hline : '_' ∉ token) :
    Numeral.read? token = some v ↔ Literal token v := by
  constructor
  · intro h
    unfold Numeral.read? at h
    split at h
    · obtain ⟨n, hn, rfl⟩ := Option.map_eq_some_iff.1 h
      exact .plus ((readNat?_eq_some_iff (List.not_mem_of_not_mem_cons hline)).1 hn)
    · obtain ⟨n, hn, rfl⟩ := Option.map_eq_some_iff.1 h
      exact .minus ((readNat?_eq_some_iff (List.not_mem_of_not_mem_cons hline)).1 hn)
    · obtain ⟨n, hn, rfl⟩ := Option.map_eq_some_iff.1 h
      exact .unsigned ((readNat?_eq_some_iff hline).1 hn)
  · intro h
    cases h with
    | unsigned hfigures =>
      rw [read?_of_figures hfigures, (readNat?_eq_some_iff hline).2 hfigures]
      rfl
    | plus hfigures =>
      rw [Numeral.read?, (readNat?_eq_some_iff (List.not_mem_of_not_mem_cons hline)).2 hfigures]
      rfl
    | minus hfigures =>
      rw [Numeral.read?, (readNat?_eq_some_iff (List.not_mem_of_not_mem_cons hline)).2 hfigures]
      rfl

/-- A literal has no digit groups. -/
theorem Literal.not_mem_line (h : Literal token v) : '_' ∉ token := by
  have hline : Text.digitValue? '_' = none := by decide
  cases h with
  | unsigned hfigures => exact hfigures.not_mem hline
  | plus hfigures => simpa using hfigures.not_mem hline
  | minus hfigures => simpa using hfigures.not_mem hline

/-- A piece spells the integer that is read from it. -/
theorem readToken?_eq_some_iff : readToken? piece = some v ↔ Spells piece v := by
  have hspells : Spells piece v ↔ Literal (Text.trimBy Text.isBlank piece) v := by
    simp [Spells, stripped_iff]
  rw [hspells]
  unfold readToken?
  dsimp only
  split_ifs with hline
  · rw [List.contains_iff_mem] at hline
    constructor
    · intro h
      cases h
    · intro h
      exact absurd hline h.not_mem_line
  · rw [List.contains_iff_mem] at hline
    exact read?_eq_some_iff hline

/-! ### The whole text -/

/-- A relation that has a partner for every element of a list has a list of partners. -/
theorem exists_forall₂_iff {α β : Type} {R : α → β → Prop} {xs : List α} :
    (∃ ys, List.Forall₂ R xs ys) ↔ ∀ x ∈ xs, ∃ y, R x y := by
  induction xs with
  | nil => simp [List.forall₂_nil_left_iff]
  | cons x xs ih =>
    rw [List.forall_mem_cons, ← ih]
    constructor
    · rintro ⟨ys, hys⟩
      cases hys with
      | cons hy hrest => exact ⟨⟨_, hy⟩, _, hrest⟩
    · rintro ⟨⟨y, hy⟩, ys, hys⟩
      exact ⟨y :: ys, .cons hy hys⟩

/-- Pieces that each spell an integer spell a list of integers. -/
theorem exists_values_iff :
    (∃ vs, List.Forall₂ Spells pieces vs) ↔ ∀ piece ∈ pieces, ∃ v, Spells piece v :=
  exists_forall₂_iff

/-- The first piece that spells no integer, and the number of pieces before it. -/
def FirstBad (pieces : List (List Char)) (index : Nat) (bad : List Char) : Prop :=
  ∃ before after, pieces = before ++ bad :: after ∧ before.length = index ∧
    (∀ piece ∈ before, ∃ v, Spells piece v) ∧ ∀ v, ¬ Spells bad v

/-- All pieces spell integers, or there is a first that does not. -/
theorem exists_values_or_firstBad (pieces : List (List Char)) :
    (∃ vs, List.Forall₂ Spells pieces vs) ∨ ∃ index bad, FirstBad pieces index bad := by
  induction pieces with
  | nil => exact .inl ⟨[], .nil⟩
  | cons piece pieces ih =>
    by_cases hpiece : ∃ v, Spells piece v
    · obtain ⟨v, hv⟩ := hpiece
      rcases ih with ⟨vs, hvs⟩ | ⟨index, bad, before, after, rfl, rfl, hbefore, hbad⟩
      · exact .inl ⟨v :: vs, .cons hv hvs⟩
      · exact .inr ⟨_, bad, piece :: before, after, rfl, rfl,
          List.forall_mem_cons.2 ⟨⟨v, hv⟩, hbefore⟩, hbad⟩
    · exact .inr ⟨0, piece, [], pieces, rfl, rfl, by simp, not_exists.1 hpiece⟩

theorem readTokens_eq_ok_iff_spells (start : Nat) {vs : List Int} :
    readTokens start pieces = .ok vs ↔ List.Forall₂ Spells pieces vs := by
  rw [readTokens_eq_ok_iff, ← List.forall₂_eq_eq_eq, List.forall₂_map_left_iff,
    List.forall₂_map_right_iff]
  simp only [readToken?_eq_some_iff]

/-- Reading stops at the first piece that spells nothing. -/
theorem readTokens_of_firstBad {start index : Nat} {bad : List Char}
    (h : FirstBad pieces index bad) :
    readTokens start pieces = .error (.badToken (String.ofList bad) (start + index : Nat)) := by
  obtain ⟨before, after, rfl, rfl, hbefore, hbad⟩ := h
  induction before generalizing start with
  | nil =>
    have hnone : readToken? bad = none := by
      rw [Option.eq_none_iff_forall_ne_some]
      exact fun v hv => hbad v (readToken?_eq_some_iff.1 hv)
    rw [List.nil_append, readTokens, hnone]
    rfl
  | cons piece before ih =>
    rw [List.forall_mem_cons] at hbefore
    obtain ⟨v, hv⟩ := hbefore.1
    rw [List.cons_append, readTokens, readToken?_eq_some_iff.2 hv]
    dsimp only
    rw [ih hbefore.2, List.length_cons, Nat.add_assoc, Nat.add_comm 1]
    rfl

theorem readTokens_eq_error_iff {start : Nat} {f : Fault} :
    readTokens start pieces = .error f ↔ ∃ index bad, FirstBad pieces index bad ∧
      f = .badToken (String.ofList bad) (start + index : Nat) := by
  constructor
  · intro h
    rcases exists_values_or_firstBad pieces with ⟨vs, hvs⟩ | ⟨index, bad, hbad⟩
    · rw [(readTokens_eq_ok_iff_spells start).2 hvs] at h
      cases h
    · rw [readTokens_of_firstBad hbad] at h
      exact ⟨index, bad, hbad, (Except.error.inj h).symm⟩
  · rintro ⟨index, bad, hbad, rfl⟩
    exact readTokens_of_firstBad hbad

namespace Memory

variable {text : String} {m : Memory} {f : Fault}

theorem parse_of_eq_nil (h : Text.trimBy Text.isBlank text.toList = []) :
    parse text = .error (.badToken text 0) := by
  unfold parse
  rw [h]

theorem parse_of_ne_nil (h : Text.trimBy Text.isBlank text.toList ≠ []) :
    parse text =
      (readTokens 0 ((Text.trimBy Text.isBlank text.toList).splitOn ',')).map List.toArray := by
  unfold parse
  split
  · contradiction
  · rfl

theorem parse_eq_ok_iff (h : Text.trimBy Text.isBlank text.toList ≠ []) :
    parse text = .ok m ↔
      List.Forall₂ Spells ((Text.trimBy Text.isBlank text.toList).splitOn ',') m.toList := by
  rw [parse_of_ne_nil h, ← readTokens_eq_ok_iff_spells 0]
  cases readTokens 0 ((Text.trimBy Text.isBlank text.toList).splitOn ',') with
  | error f => simp [Except.map]
  | ok vs => simp [Except.map, List.toArray_eq_iff]

theorem parse_eq_error_iff (h : Text.trimBy Text.isBlank text.toList ≠ []) :
    parse text = .error f ↔ ∃ index bad,
      FirstBad ((Text.trimBy Text.isBlank text.toList).splitOn ',') index bad ∧
        f = .badToken (String.ofList bad) index := by
  rw [parse_of_ne_nil h, map_eq_error_iff, readTokens_eq_error_iff]
  simp only [Nat.zero_add]

end Memory

/-- **Program text is accepted exactly if it follows its grammar.**  A text that is blank is refused
as a whole.  Any other text is divided at its commas, blanks at its ends left out; it is accepted
exactly if each piece, blanks at its ends left out, is a literal, and then describes the memory of
their values.  If not, the first piece that is not a literal is reported, as it stands in the text,
with the number of pieces before it. -/
theorem parse_follows_grammar (text : String) :
    ∃ t, (∀ t', Stripped text.toList t' ↔ t' = t) ∧
      (t = [] → Memory.parse text = .error (.badToken text 0)) ∧
      (t ≠ [] → ∃ pieces, (∀ pieces', Divided t pieces' ↔ pieces' = pieces) ∧
        ((∃ m, Memory.parse text = .ok m) ↔ ∀ piece ∈ pieces, ∃ v, Spells piece v) ∧
        (∀ m, Memory.parse text = .ok m ↔ List.Forall₂ Spells pieces m.toList) ∧
        ∀ f, Memory.parse text = .error f ↔ ∃ index bad, FirstBad pieces index bad ∧
          f = .badToken (String.ofList bad) index) := by
  refine ⟨_, fun t' => stripped_iff, Memory.parse_of_eq_nil, fun hne =>
    ⟨_, fun pieces' => divided_iff, ?_, fun m => Memory.parse_eq_ok_iff hne,
      fun f => Memory.parse_eq_error_iff hne⟩⟩
  rw [← exists_values_iff]
  constructor
  · rintro ⟨m, hm⟩
    exact ⟨_, (Memory.parse_eq_ok_iff hne).1 hm⟩
  · rintro ⟨vs, hvs⟩
    exact ⟨vs.toArray, (Memory.parse_eq_ok_iff hne).2 hvs⟩

/-- A text with blanks, signs, a leading zero and a digit of another script; one whose second piece
has a digit group; and a blank one. -/
theorem unevenText_grammar :
    (Memory.parse " 7 ,+٣,-05\n" = .ok #[7, 3, -5] ∧
      List.Forall₂ Spells ["7 ".toList, "+٣".toList, "-05".toList] [7, 3, -5]) ∧
    (Memory.parse "1, 2_0,z" = .error (.badToken " 2_0" 1) ∧
      FirstBad ["1".toList, " 2_0".toList, "z".toList] 1 " 2_0".toList) ∧
    Stripped " \n".toList [] ∧ Memory.parse " \n" = .error (.badToken " \n" 0) := by
  refine ⟨⟨by rfl, ?_⟩, ⟨by rfl, ?_⟩, stripped_iff.2 (by rfl), ?_⟩
  · obtain ⟨t, ht, -, hfull⟩ := parse_follows_grammar " 7 ,+٣,-05\n"
    obtain rfl := (ht "7 ,+٣,-05".toList).1 (stripped_iff.2 (by rfl))
    obtain ⟨pieces, hpieces, -, hok, -⟩ := hfull (by decide)
    obtain rfl := (hpieces ["7 ".toList, "+٣".toList, "-05".toList]).1 (divided_iff.2 (by rfl))
    exact (hok #[7, 3, -5]).1 (by rfl)
  · obtain ⟨t, ht, -, hfull⟩ := parse_follows_grammar "1, 2_0,z"
    obtain rfl := (ht "1, 2_0,z".toList).1 (stripped_iff.2 (by rfl))
    obtain ⟨pieces, hpieces, -, -, herror⟩ := hfull (by decide)
    obtain rfl := (hpieces ["1".toList, " 2_0".toList, "z".toList]).1 (divided_iff.2 (by rfl))
    obtain ⟨index, bad, hbad, heq⟩ := (herror (.badToken " 2_0" 1)).1 (by rfl)
    obtain ⟨hpiece, hindex⟩ := Fault.badToken.inj heq
    obtain rfl : 1 = index := by exact_mod_cast hindex
    obtain rfl : " 2_0".toList = bad := by rw [hpiece, String.toList_ofList]
    exact hbad
  · obtain ⟨t, ht, hempty, -⟩ := parse_follows_grammar " \n"
    obtain rfl := (ht []).1 (stripped_iff.2 (by rfl))
    exact hempty rfl

end Intcode

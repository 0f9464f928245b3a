import Mathlib.Data.List.Basic
import Mathlib.Tactic.Common
import Intcode.Text.Utf8

/-!
# Reading characters from bytes

What can be read from a sequence of bytes, said without a decoder: a character wherever its encoding
stands, and nothing where none stands.

* `Reads`: the bytes and what can be read from them;
* `Reads.unique`: at most one text can be read, as no two encodings stand at one place;
* `leadingChar?_eq_some`, `leadingChar?_ne_none`: the first character that is found;
* `reads_iff`: `decodeLossy` is what can be read.
-/

namespace Intcode.Text

/-- What can be read from bytes: a character where its encoding stands.  A byte at which no encoding
stands is skipped. -/
inductive Reads : List UInt8 → List Char → Prop
  | nil : Reads [] []
  | char {bytes : List UInt8} {cs : List Char} (c : Char) (rest : Reads bytes cs) :
    Reads (String.utf8EncodeChar c ++ bytes) (c :: cs)
  | skip {b : UInt8} {bytes : List UInt8} {cs : List Char}
    (stray : ∀ c : Char, ¬ String.utf8EncodeChar c <+: b :: bytes) (rest : Reads bytes cs) :
    Reads (b :: bytes) cs

variable {bytes : List UInt8} {c d : Char} {cs ds : List Char} {n : Nat} {s : String}

/-- No two characters stand at one place. -/
theorem eq_of_encoding_isPrefix (hc : String.utf8EncodeChar c <+: bytes)
    (hd : String.utf8EncodeChar d <+: bytes) : c = d := by
  have hdecode : ∀ {c : Char}, String.utf8EncodeChar c <+: bytes →
      bytes.toByteArray.utf8DecodeChar? 0 = some c := by
    rintro c ⟨rest, rfl⟩
    rw [List.toByteArray_append]
    exact ByteArray.utf8DecodeChar?_utf8EncodeChar_append
  exact Option.some.inj ((hdecode hc).symm.trans (hdecode hd))

theorem Reads.eq_nil_of_nil (h : Reads [] cs) : cs = [] := by
  generalize hbytes : ([] : List UInt8) = bytes at h
  cases h with
  | nil => rfl
  | char c rest =>
    exact absurd (List.append_eq_nil_iff.1 hbytes.symm).1 String.utf8EncodeChar_ne_nil
  | skip stray rest => cases hbytes

/-- Where a character stands, it is read. -/
theorem Reads.exists_of_encoding (h : Reads (String.utf8EncodeChar c ++ bytes) ds) :
    ∃ cs, ds = c :: cs ∧ Reads bytes cs := by
  generalize hwhole : String.utf8EncodeChar c ++ bytes = whole at h
  cases h with
  | nil => exact absurd (List.append_eq_nil_iff.1 hwhole).1 String.utf8EncodeChar_ne_nil
  | char d rest =>
    obtain rfl := eq_of_encoding_isPrefix ⟨bytes, rfl⟩ ⟨_, hwhole.symm⟩
    exact ⟨_, rfl, List.append_cancel_left hwhole ▸ rest⟩
  | skip stray rest => exact absurd ⟨bytes, hwhole⟩ (stray c)

/-- At most one text can be read. -/
theorem Reads.unique (h : Reads bytes cs) (h' : Reads bytes ds) : cs = ds := by
  induction h generalizing ds with
  | nil => exact h'.eq_nil_of_nil.symm
  | char c rest ih =>
    obtain ⟨cs', rfl, rest'⟩ := h'.exists_of_encoding
    rw [ih rest']
  | @skip b bytes cs stray rest ih =>
    generalize hwhole : b :: bytes = whole at h'
    cases h' with
    | nil => cases hwhole
    | char d rest' => exact absurd ⟨_, hwhole.symm⟩ (stray d)
    | skip stray' rest' =>
      cases hwhole
      exact ih rest'

/-! ### The first character -/

/-- Bytes are well-formed if they are the encodings of characters. -/
theorem fromUTF8?_eq_some_iff :
    String.fromUTF8? ⟨bytes.toArray⟩ = some s ↔ s.toList.flatMap String.utf8EncodeChar = bytes := by
  have hdata : (⟨bytes.toArray⟩ : ByteArray) = bytes.toByteArray := by
    rw [ByteArray.ext_iff, List.data_toByteArray]
  have hencode : (s.toList.flatMap String.utf8EncodeChar).toByteArray = s.toByteArray :=
    s.utf8Encode_toList
  rw [hdata, ← List.toByteArray_inj, hencode, String.fromUTF8?]
  constructor
  · intro h
    split_ifs at h with hvalid
    cases h
    rfl
  · intro h
    rw [dif_pos (h ▸ s.isValidUTF8), Option.some.injEq, ← String.toByteArray_inj]
    exact h.symm

theorem textOfLength?_eq_some_iff {k : Nat} :
    textOfLength? bytes n = some (k, s) ↔
      k = n ∧ n ≤ bytes.length ∧ s.toList.flatMap String.utf8EncodeChar = bytes.take n := by
  unfold textOfLength?
  split_ifs with hn
  · simp only [Option.map_eq_some_iff, fromUTF8?_eq_some_iff, Prod.mk.injEq]
    constructor
    · rintro ⟨t, ht, rfl, rfl⟩
      exact ⟨rfl, hn, ht⟩
    · rintro ⟨rfl, -, hs⟩
      exact ⟨s, hs, rfl, rfl⟩
  · simp [hn]

/-- As many bytes as an encoding has are well-formed where the encoding stands. -/
theorem textOfLength?_of_encoding (h : String.utf8EncodeChar c <+: bytes) :
    textOfLength? bytes (String.utf8EncodeChar c).length =
      some ((String.utf8EncodeChar c).length, String.singleton c) := by
  refine textOfLength?_eq_some_iff.2 ⟨rfl, h.length_le, ?_⟩
  rw [← List.prefix_iff_eq_take.1 h]
  simp

/-- A character is found where one stands. -/
theorem leadingChar?_ne_none (h : String.utf8EncodeChar c <+: bytes) :
    leadingChar? bytes ≠ none := by
  intro hnone
  have hlength : (String.utf8EncodeChar c).length ∈ [1, 2, 3, 4] := by
    have hpos := c.utf8Size_pos
    have hle := c.utf8Size_le_four
    rw [String.length_utf8EncodeChar]
    simp only [List.mem_cons, List.not_mem_nil, or_false]
    omega
  have hfound := List.findSome?_eq_none_iff.1 hnone _ hlength
  rw [textOfLength?_of_encoding h] at hfound
  cases hfound

/-- The bytes that are found have no shorter beginning that is well-formed. -/
theorem leadingChar?_eq_some_minimal (h : leadingChar? bytes = some (n, s)) :
    1 ≤ n ∧ textOfLength? bytes n = some (n, s) ∧
      ∀ k, 1 ≤ k → k < n → textOfLength? bytes k = none := by
  obtain ⟨shorter, m, longer, hlengths, hfound, hbefore⟩ := List.findSome?_eq_some_iff.1 h
  obtain rfl := (textOfLength?_eq_some_iff.1 hfound).1
  have hmem : n ∈ [1, 2, 3, 4] := hlengths ▸ by simp
  have hsorted : (shorter ++ n :: longer).Pairwise (· < ·) := hlengths ▸ by decide
  simp only [List.mem_cons, List.not_mem_nil, or_false] at hmem
  refine ⟨by omega, hfound, fun k hk hkn => hbefore k ?_⟩
  have hkmem : k ∈ shorter ++ n :: longer := by
    rw [← hlengths]
    simp only [List.mem_cons, List.not_mem_nil, or_false]
    omega
  -- what comes after `n` is longer
  rcases List.mem_append.1 hkmem with hk | hk
  · exact hk
  · have hle : n ≤ k := by
      rcases List.mem_cons.1 hk with rfl | hk
      · exact Nat.le_refl _
      · exact Nat.le_of_lt ((List.pairwise_cons.1 (List.pairwise_append.1 hsorted).2.1).1 k hk)
    omega

/-- What is found is one character, and it stands there: if it were more than one, the first of them
would be found in fewer bytes. -/
theorem leadingChar?_eq_some (h : leadingChar? bytes = some (n, s)) :
    ∃ c, s = String.singleton c ∧ n = (String.utf8EncodeChar c).length ∧
      String.utf8EncodeChar c <+: bytes := by
  obtain ⟨hpos, hfound, hminimal⟩ := leadingChar?_eq_some_minimal h
  obtain ⟨-, hn, hencode⟩ := textOfLength?_eq_some_iff.1 hfound
  have hlength := congrArg List.length hencode
  rw [List.length_take, Nat.min_eq_left hn] at hlength
  cases hs : s.toList with
  | nil =>
    rw [hs] at hlength
    simp only [List.flatMap_nil, List.length_nil] at hlength
    omega
  | cons c ds =>
    rw [hs, List.flatMap_cons] at hencode hlength
    have hstands : String.utf8EncodeChar c <+: bytes :=
      (hencode ▸ List.prefix_append _ _ : String.utf8EncodeChar c <+: bytes.take n).trans
        (List.take_prefix n bytes)
    rw [List.length_append] at hlength
    have hle : n ≤ (String.utf8EncodeChar c).length := by
      by_contra hlt
      have hc := List.length_pos_iff.2 (String.utf8EncodeChar_ne_nil (c := c))
      have hnone := hminimal _ hc (by omega)
      rw [textOfLength?_of_encoding hstands] at hnone
      cases hnone
    have hds : ds = [] := by
      cases ds with
      | nil => rfl
      | cons d ds =>
        have hd := List.length_pos_iff.2 (String.utf8EncodeChar_ne_nil (c := d))
        rw [List.flatMap_cons, List.length_append] at hlength
        omega
    subst hds
    refine ⟨c, String.toList_inj.1 (by rw [hs, String.toList_singleton]), ?_, hstands⟩
    simpa using hlength.symm

/-! ### All characters -/

theorem reads_decodeLossyFrom (skip : Nat) (bytes : List UInt8) :
    Reads (bytes.drop skip) (decodeLossyFrom skip bytes).toList := by
  fun_induction decodeLossyFrom skip bytes with
  | case1 skip =>
    rw [List.drop_nil]
    exact .nil
  | case2 skip b bs ih => exact ih
  | case3 b bs n s hfound ih =>
    obtain ⟨c, rfl, rfl, rest, hrest⟩ := leadingChar?_eq_some hfound
    have hpos := List.length_pos_iff.2 (String.utf8EncodeChar_ne_nil (c := c))
    have hdrop : bs.drop ((String.utf8EncodeChar c).length - 1) = rest := by
      rw [← List.drop_succ_cons (a := b), Nat.sub_add_cancel hpos, ← hrest, List.drop_left]
    rw [hdrop] at ih
    rw [List.drop_zero, String.toList_append, String.toList_singleton, ← hrest]
    exact ih.char c
  | case4 b bs hnone ih =>
    rw [List.drop_zero]
    exact ih.skip fun c hc => leadingChar?_ne_none hc hnone

/-- **What can be read is what is decoded.** -/
theorem reads_iff : Reads bytes cs ↔ cs = (decodeLossy bytes).toList := by
  have hdecode : Reads bytes (decodeLossy bytes).toList := reads_decodeLossyFrom 0 bytes
  exact ⟨fun h => h.unique hdecode, fun h => h ▸ hdecode⟩

end Intcode.Text

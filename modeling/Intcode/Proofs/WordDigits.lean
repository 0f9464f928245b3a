import Intcode.Proofs.InstructionSet
import Mathlib.Algebra.BigOperators.Fin
import Mathlib.Data.Nat.Digits.Lemmas

/-!
# Instruction words, digit by digit

An instruction word is meant to be read in decimal notation: the two digits at the right are the
number of an opcode, and the digits above them belong to the parameters, one to each.  Words may
have other digits than zero and one there, and more digits than their opcode has parameters.

* `digitAt`: the decimal digits of a word, and `flag_eq_digitAt`: the mode digits are among them;
* `Mode.digit`, `Opcode.word`: the word that is written for an opcode with given modes;
* `word_eq_ofDigits`, `digitAt_word`: the digits of such a word;
* `decode_word`, `modes_word`: it decodes to the opcode and the modes;
* `words_decode_by_digits`: all this for every word.
-/

namespace Intcode

/-- The decimal digit of a word at a place, counted from zero at the right.  There are zeros in
front of the first digit. -/
def digitAt (word : Int) (place : Nat) : Nat :=
  (Nat.digits 10 word.toNat).getD place 0

/-- The mode digit of the parameter at a place is two places further to the left in the word. -/
theorem flag_eq_digitAt {word : Int} (h : 0 ≤ word) (k : Nat) :
    InstructionSet.flag word k = digitAt word (k + 2) := by
  obtain ⟨n, rfl⟩ := Int.eq_ofNat_of_zero_le h
  rw [digitAt, Int.toNat_natCast, Nat.getD_digits n (k + 2) (by decide), InstructionSet.flag]
  push_cast
  rfl

/-! ### Writing words -/

/-- The digit that is written for a mode. -/
def Mode.digit : Mode → Nat
  | position => 0
  | immediate => 1

theorem Mode.digit_lt (mode : Mode) : mode.digit < 10 := by
  cases mode <;> decide

theorem Mode.digit_eq_one_iff {mode : Mode} : mode.digit = 1 ↔ mode = immediate := by
  cases mode <;> simp [digit]

/-- There are two modes, so that one of them tells modes apart. -/
theorem Mode.eq_of_immediate_iff {mode mode' : Mode}
    (h : mode = immediate ↔ mode' = immediate) : mode = mode' := by
  cases mode <;> cases mode' <;> simp_all

theorem Opcode.number_lt (o : Opcode) : o.number < 100 := by
  cases o <;> decide

/-- The word of an opcode with given modes: the number of the opcode, and a digit for each mode. -/
def Opcode.word (o : Opcode) (modes : List Mode) : Nat :=
  o.number + ∑ k : Fin modes.length, 10 ^ (k.val + 2) * (modes.get k).digit

theorem sum_digits (modes : List Mode) :
    ∑ k : Fin modes.length, 10 ^ (k.val + 2) * (modes.get k).digit =
      100 * Nat.ofDigits 10 (modes.map Mode.digit) := by
  induction modes with
  | nil => rfl
  | cons mode modes ih =>
    have hrest : ∑ k : Fin modes.length, 10 ^ (k.succ.val + 2) * (modes.get k).digit =
        10 * ∑ k : Fin modes.length, 10 ^ (k.val + 2) * (modes.get k).digit := by
      rw [Finset.mul_sum]
      refine Finset.sum_congr rfl fun k _ => ?_
      rw [Fin.val_succ]
      ring
    rw [List.map_cons, Nat.ofDigits_cons]
    calc ∑ k : Fin (mode :: modes).length, 10 ^ (k.val + 2) * ((mode :: modes).get k).digit
        = 10 ^ 2 * mode.digit +
            ∑ k : Fin modes.length, 10 ^ (k.succ.val + 2) * (modes.get k).digit :=
          Fin.sum_univ_succ _
      _ = 100 * (mode.digit + 10 * Nat.ofDigits 10 (modes.map Mode.digit)) := by
          rw [hrest, ih]
          ring

/-- The digits of the modes stand above the number of the opcode. -/
theorem word_eq_ofDigits (o : Opcode) (modes : List Mode) :
    o.word modes = o.number + 100 * Nat.ofDigits 10 (modes.map Mode.digit) := by
  rw [Opcode.word, sum_digits]

/-- A number that is put together from digits has these digits. -/
theorem ofDigits_div_pow_mod {ds : List Nat} (h : ∀ d ∈ ds, d < 10) (k : Nat) :
    Nat.ofDigits 10 ds / 10 ^ k % 10 = ds.getD k 0 := by
  induction ds generalizing k with
  | nil => simp [Nat.ofDigits_nil]
  | cons d ds ih =>
    have hd : d < 10 := h d (by simp)
    rw [Nat.ofDigits_cons]
    cases k with
    | zero =>
      rw [List.getD_cons_zero]
      omega
    | succ k =>
      have htail : (d + 10 * Nat.ofDigits 10 ds) / 10 = Nat.ofDigits 10 ds := by omega
      rw [List.getD_cons_succ, Nat.pow_succ', ← Nat.div_div_eq_div_mul, htail]
      exact ih (fun e he => h e (by simp [he])) k

/-- The digits above the number of the opcode are those of the modes. -/
theorem digitAt_word (o : Opcode) {modes : List Mode} {k : Nat} (hk : k < modes.length) :
    digitAt (o.word modes) (k + 2) = modes[k].digit := by
  have hdigits : ∀ d ∈ modes.map Mode.digit, d < 10 := by
    intro d hd
    obtain ⟨mode, -, rfl⟩ := List.mem_map.1 hd
    exact mode.digit_lt
  have habove : o.word modes / 10 ^ 2 = Nat.ofDigits 10 (modes.map Mode.digit) := by
    have hnumber := o.number_lt
    rw [word_eq_ofDigits]
    omega
  calc digitAt (o.word modes) (k + 2)
      = o.word modes / 10 ^ (k + 2) % 10 := by
        rw [digitAt, Int.toNat_natCast, Nat.getD_digits _ _ (by decide)]
    _ = o.word modes / 10 ^ 2 / 10 ^ k % 10 := by
        rw [Nat.div_div_eq_div_mul, ← Nat.pow_add, Nat.add_comm 2 k]
    _ = (modes.map Mode.digit).getD k 0 := by rw [habove, ofDigits_div_pow_mod hdigits]
    _ = modes[k].digit := by simp [hk]

/-! ### Reading words -/

namespace Instruction

variable {word address : Int} {i : Instruction} {o : Opcode} {modes : List Mode}

/-- Which words decode. -/
theorem exists_decode_eq_ok_iff :
    (∃ i, decode word address = .ok i) ↔
      0 ≤ word ∧ ∃ o ∈ Opcode.all, (o.number : Int) = word % 100 := by
  constructor
  · rintro ⟨i, hi⟩
    obtain ⟨h0, hnumber, -, -⟩ := decode_eq_ok_iff.1 hi
    exact ⟨h0, i.opcode, i.opcode.mem_all, hnumber⟩
  · rintro ⟨h0, o, -, hnumber⟩
    exact ⟨⟨address, word, o⟩, decode_eq_ok_iff.2 ⟨h0, hnumber, rfl, rfl⟩⟩

/-- The mode of a parameter is immediate exactly if the digit of the word is one. -/
theorem getElem_modes_eq_immediate_iff (h : decode word address = .ok i) {k : Nat}
    (hk : k < i.modes.length) : i.modes[k] = .immediate ↔ digitAt word (k + 2) = 1 := by
  obtain ⟨h0, -, -, rfl⟩ := decode_eq_ok_iff.1 h
  have hflag := flag_eq_digitAt h0 k
  have hmode : i.mode k = .immediate ↔ InstructionSet.flag i.word k = 1 :=
    InstructionSet.mode_eq_immediate_iff
  simp only [modes, List.getElem_map, List.getElem_range]
  rw [hmode, hflag]
  exact Int.natCast_inj (n := 1)

/-- A word that is written for an opcode decodes to it, whatever the modes are. -/
theorem decode_word (o : Opcode) (modes : List Mode) (address : Int) :
    decode (o.word modes) address = .ok ⟨address, o.word modes, o⟩ := by
  have hnumber := o.number_lt
  have hword := word_eq_ofDigits o modes
  refine decode_eq_ok_iff.2 ⟨Int.natCast_nonneg _, ?_, rfl, rfl⟩
  show (o.number : Int) = (o.word modes : Int) % 100
  omega

/-- A word that is written for modes, as many as the opcode has parameters, has these modes. -/
theorem modes_word (h : modes.length = o.params) :
    (⟨address, o.word modes, o⟩ : Instruction).modes = modes := by
  refine List.ext_getElem (by simp [h]) fun k hk hk' => Mode.eq_of_immediate_iff ?_
  rw [getElem_modes_eq_immediate_iff (decode_word o modes address) hk, digitAt_word o hk',
    Mode.digit_eq_one_iff]

/-- **Instruction words decode digit by digit.**  A word decodes exactly if it is not negative and
its remainder by 100 is the number of an opcode.  It then has as many modes as the opcode has
parameters, and the mode at place `k` is immediate exactly if the decimal digit at place `k + 2` is
one.  So the word that is written for an opcode and modes, one for each parameter, decodes to them,
and the word that is written for what any word decodes to has the same opcode and the same modes,
whatever other digits the word has. -/
theorem words_decode_by_digits (word address : Int) :
    ((∃ i, decode word address = .ok i) ↔
      0 ≤ word ∧ ∃ o ∈ Opcode.all, (o.number : Int) = word % 100) ∧
    (∀ i, decode word address = .ok i →
      (i.opcode.number : Int) = word % 100 ∧ i.modes.length = i.opcode.params ∧
      (∀ k (hk : k < i.modes.length), i.modes[k] = .immediate ↔ digitAt word (k + 2) = 1) ∧
      ∃ j, decode (i.opcode.word i.modes) address = .ok j ∧ j.opcode = i.opcode ∧
        j.modes = i.modes) ∧
    ∀ (o : Opcode) (modes : List Mode), modes.length = o.params →
      ∃ i, decode (o.word modes) address = .ok i ∧ i.opcode = o ∧ i.modes = modes := by
  have hwritten : ∀ (o : Opcode) (modes : List Mode), modes.length = o.params →
      ∃ i, decode (o.word modes) address = .ok i ∧ i.opcode = o ∧ i.modes = modes :=
    fun o modes h => ⟨_, decode_word o modes address, rfl, modes_word h⟩
  refine ⟨exists_decode_eq_ok_iff, fun i hi => ?_, hwritten⟩
  obtain ⟨-, hnumber, -, -⟩ := decode_eq_ok_iff.1 hi
  exact ⟨hnumber, i.length_modes, fun k hk => getElem_modes_eq_immediate_iff hi hk,
    hwritten i.opcode i.modes i.length_modes⟩

/-- A product with the mode digits 3, 1 and 7 and two digits too many has the modes of 1002. -/
theorem surplusDigits_decoded :
    ∃ i, decode 9871302 0 = .ok i ∧ i.opcode = .mul ∧
      i.modes = [.position, .immediate, .position] ∧ i.opcode.word i.modes = 1002 ∧
      ∃ j, decode 1002 0 = .ok j ∧ j.opcode = i.opcode ∧ j.modes = i.modes := by
  have hdecode : decode 9871302 0 = .ok ⟨0, 9871302, .mul⟩ := by decide
  obtain ⟨-, hread, -⟩ := words_decode_by_digits 9871302 0
  obtain ⟨-, -, -, hagain⟩ := hread _ hdecode
  exact ⟨_, hdecode, rfl, by decide, by decide, hagain⟩

end Instruction

end Intcode

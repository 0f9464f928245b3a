import Intcode.Listing
import Intcode.Proofs.Numerals
import Mathlib.Data.List.DropRight
import Mathlib.Data.List.Induction
import Mathlib.Data.List.TakeWhile

/-!
# Printed lines can be read

A line of a listing, as it is printed, read by somebody who does not know the words of the memory:
the third field is a mnemonic, the fields after it are operands, `#n` is the value `n` and `[n]` is
the cell `n`.

* `Text.trimRightBy_eq_rdropWhile`: trimming in the library's terms;
* `fields`, `Operand.read?`, `Statement.read?`: a printed line as a mnemonic with operands;
* `IsField`, `Spaced`: the pieces of a text, and texts without other blanks than spaces;
* `Line.Tidy`, `Line.Tidy.fields_text`: the columns of a line are its fields;
* `Instruction.statement`: the statement that stands for an instruction with its parameters;
* `read?_text`: the line of an instruction reads as its statement.
-/

namespace Intcode

/-! ### Trimming -/

namespace Text

variable {p : Char → Bool} {cs : List Char} {c : Char}

/-- Trimming on the right is the library's `List.rdropWhile`. -/
theorem trimRightBy_eq_rdropWhile (p : Char → Bool) (cs : List Char) :
    trimRightBy p cs = cs.rdropWhile p := rfl

/-- A text without characters satisfying `p` is left alone. -/
theorem trimBy_of_all_not (h : ∀ c ∈ cs, p c = false) : trimBy p cs = cs := by
  have hleft : cs.dropWhile p = cs :=
    List.dropWhile_eq_self_iff.2 fun hcs => by simp [h _ (List.getElem_mem hcs)]
  rw [trimBy, hleft, trimRightBy_eq_rdropWhile, List.rdropWhile_eq_self_iff]
  exact fun hcs => by simp [h _ (List.getLast_mem hcs)]

/-- One more character at the end, if it satisfies `p`, is all that is removed. -/
theorem trimBy_concat_of_pos (h : ∀ d ∈ cs, p d = false) (hc : p c = true) :
    trimBy p (cs ++ [c]) = cs := by
  rw [trimBy, trimRightBy_eq_rdropWhile]
  cases cs with
  | nil => simp [hc]
  | cons d ds =>
    have hd := h d List.mem_cons_self
    rw [List.cons_append, List.dropWhile_cons_of_neg (by simp [hd]), ← List.cons_append,
      List.rdropWhile_concat_pos p _ c hc, List.rdropWhile_eq_self_iff]
    exact fun hcs => by simp [h _ (List.getLast_mem hcs)]

end Text

/-! ### Reading a line -/

/-- An operand of a statement. -/
inductive Operand
  /-- Written `#n`: the value `n`. -/
  | value (n : Int)
  /-- Written `[n]`: the cell `n`. -/
  | cell (n : Int)
  deriving DecidableEq, Repr

/-- The operand that a text spells. -/
def Operand.read? : List Char → Option Operand
  | '#' :: cs => (Numeral.read? cs).map value
  | '[' :: cs => if cs.getLast? = some ']' then (Numeral.read? cs.dropLast).map cell else none
  | _ => none

/-- A mnemonic with its operands. -/
structure Statement where
  mnemonic : String
  operands : List Operand
  deriving DecidableEq, Repr

/-- The pieces of a text between its spaces. -/
def fields (cs : List Char) : List (List Char) :=
  (cs.splitOn ' ').filter fun f => !f.isEmpty

/-- The statement on a printed line.  The address and the words in front of it are not looked at,
and commas after operands are ignored. -/
def Statement.read? (text : String) : Option Statement :=
  match fields text.toList with
  | _ :: _ :: mnemonic :: operands =>
    ((operands.map (Text.trimRightBy (· == ','))).mapM Operand.read?).map
      (⟨String.ofList mnemonic, ·⟩)
  | _ => none

/-! ### Fields -/

section Fields

variable {f xs ys : List Char}

theorem fields_append (xs ys : List Char) : fields (xs ++ ' ' :: ys) = fields xs ++ fields ys := by
  unfold fields
  rw [List.splitOn_append_cons_self, List.filter_append]

theorem fields_cons (xs : List Char) : fields (' ' :: xs) = fields xs :=
  fields_append [] xs

theorem fields_replicate_append (n : Nat) (xs : List Char) :
    fields (List.replicate n ' ' ++ xs) = fields xs := by
  induction n with
  | zero => rfl
  | succ n ih => rw [List.replicate_succ, List.cons_append, fields_cons, ih]

theorem fields_append_replicate (n : Nat) (xs : List Char) :
    fields (xs ++ List.replicate n ' ') = fields xs := by
  cases n with
  | zero => rw [List.replicate_zero, List.append_nil]
  | succ n =>
    have hblank : fields (List.replicate n ' ' ++ []) = [] := fields_replicate_append n []
    rw [List.append_nil] at hblank
    rw [List.replicate_succ, fields_append, hblank, List.append_nil]

/-- A text that is one field: it is not empty and has no blanks in it. -/
def IsField (f : List Char) : Prop :=
  f ≠ [] ∧ ∀ c ∈ f, Text.isBlank c = false

-- the second part is decided by going through the text, not through all characters
instance (f : List Char) : Decidable (IsField f) :=
  decidable_of_iff (f ≠ [] ∧ f.all (fun c => !Text.isBlank c) = true) (by simp [IsField])

theorem IsField.fields_eq (h : IsField f) : fields f = [f] := by
  have hspace : ' ' ∉ f := by
    intro hmem
    have hblank := h.2 ' ' hmem
    revert hblank
    decide
  unfold fields
  rw [List.splitOn_eq_singleton hspace]
  simp [h.1]

theorem IsField.append (h : IsField xs) (h' : IsField ys) : IsField (xs ++ ys) := by
  refine ⟨by simp [h.1], fun c hc => ?_⟩
  rcases List.mem_append.1 hc with hc | hc
  · exact h.2 c hc
  · exact h'.2 c hc

theorem isField_singleton {c : Char} (hc : Text.isBlank c = false) : IsField [c] :=
  ⟨by simp, by simpa using hc⟩

/-- A text in which all blanks are spaces. -/
def Spaced (cs : List Char) : Prop :=
  ∀ c ∈ cs, Text.isBlank c = true → c = ' '

theorem IsField.spaced (h : IsField f) : Spaced f := by
  intro c hc hblank
  rw [h.2 c hc] at hblank
  cases hblank

theorem Spaced.append (h : Spaced xs) (h' : Spaced ys) : Spaced (xs ++ ys) := by
  intro c hc
  rcases List.mem_append.1 hc with hc | hc
  · exact h c hc
  · exact h' c hc

theorem spaced_replicate (n : Nat) : Spaced (List.replicate n ' ') :=
  fun _ hc _ => List.eq_of_mem_replicate hc

theorem Spaced.cons (h : Spaced xs) : Spaced (' ' :: xs) :=
  (spaced_replicate 1).append h

theorem Spaced.trimRightBy (h : Spaced xs) (p : Char → Bool) : Spaced (Text.trimRightBy p xs) := by
  intro c hc
  rw [Text.trimRightBy, List.mem_reverse] at hc
  exact h c (List.mem_reverse.1 ((List.dropWhile_sublist p).mem hc))

/-- Trimming spaces at the right end changes no field. -/
theorem fields_trimRightBy (h : Spaced xs) :
    fields (Text.trimRightBy Text.isBlank xs) = fields xs := by
  induction xs using List.reverseRecOn with
  | nil => rfl
  | append_singleton xs c ih =>
    cases hc : Text.isBlank c with
    | false =>
      rw [Text.trimRightBy_eq_rdropWhile, List.rdropWhile_concat_neg _ _ c (by simp [hc])]
    | true =>
      obtain rfl := h c (by simp) hc
      have hlast : fields (xs ++ [' ']) = fields xs := fields_append_replicate 1 xs
      rw [Text.trimRightBy_eq_rdropWhile, List.rdropWhile_concat_pos _ _ _ hc,
        ← Text.trimRightBy_eq_rdropWhile, ih fun d hd => h d (by simp [hd]), hlast]

theorem intercalate_comma_cons_cons (f f' : List Char) (fs : List (List Char)) :
    [',', ' '].intercalate (f :: f' :: fs) =
      (f ++ [',']) ++ ' ' :: [',', ' '].intercalate (f' :: fs) := by
  rw [List.intercalate_cons_cons]
  simp

/-- Fields with commas between them are found again. -/
theorem fields_intercalate {fs : List (List Char)} (hfs : ∀ f ∈ fs, IsField f)
    (hcomma : ∀ f ∈ fs, Text.trimRightBy (· == ',') f = f) :
    (fields ([',', ' '].intercalate fs)).map (Text.trimRightBy (· == ',')) = fs := by
  induction fs with
  | nil => rfl
  | cons f fs ih =>
    have hf := hfs f (by simp)
    have htrim := hcomma f (by simp)
    cases fs with
    | nil => simp [List.intercalate_singleton, hf.fields_eq, htrim]
    | cons f' fs =>
      have hrest := ih (fun g hg => hfs g (by simp [hg])) (fun g hg => hcomma g (by simp [hg]))
      have hshort : Text.trimRightBy (· == ',') (f ++ [',']) = f := by
        rw [Text.trimRightBy_eq_rdropWhile, List.rdropWhile_concat_pos _ _ _ (by decide)]
        exact htrim
      have hfirst : fields (f ++ [',']) = [f ++ [',']] :=
        (hf.append (isField_singleton (by decide))).fields_eq
      rw [intercalate_comma_cons_cons, fields_append, hfirst, List.map_append, hrest]
      simp [hshort]

/-- The only blanks among fields with commas between them are the spaces after the commas. -/
theorem spaced_intercalate {fs : List (List Char)} (hfs : ∀ f ∈ fs, IsField f) :
    Spaced ([',', ' '].intercalate fs) := by
  induction fs with
  | nil => exact spaced_replicate 0
  | cons f fs ih =>
    have hf := hfs f (by simp)
    cases fs with
    | nil =>
      rw [List.intercalate_singleton]
      exact hf.spaced
    | cons f' fs =>
      rw [intercalate_comma_cons_cons]
      exact (hf.append (isField_singleton (by decide))).spaced.append
        (ih fun g hg => hfs g (by simp [hg])).cons

end Fields

/-! ### What stands on a line -/

theorem isBlank_of_isDigit {c : Char} (h : c.isDigit = true) : Text.isBlank c = false := by
  have hrange : 48 ≤ c.toNat ∧ c.toNat ≤ 57 := by
    simpa [Char.isDigit, UInt32.le_iff_toNat_le] using h
  simp [Text.isBlank]
  omega

theorem isField_write (v : Int) : IsField (Numeral.write v).toList := by
  refine ⟨Numeral.write_ne_nil v, fun c hc => ?_⟩
  rcases Numeral.mem_write hc with rfl | hc
  · decide
  · exact isBlank_of_isDigit hc

theorem isField_writeList {vs : List Int} (h : vs ≠ []) :
    IsField (Numeral.writeList "," vs).toList := by
  induction vs with
  | nil => exact absurd rfl h
  | cons v vs ih =>
    cases vs with
    | nil =>
      show IsField (",".intercalate [Numeral.write v]).toList
      rw [String.intercalate_singleton]
      exact isField_write v
    | cons w vs =>
      have hrest : IsField (Numeral.writeList "," (w :: vs)).toList := ih (by simp)
      show IsField (",".intercalate
        (Numeral.write v :: Numeral.write w :: vs.map Numeral.write)).toList
      rw [String.intercalate_cons_cons, String.toList_append, String.toList_append]
      exact ((isField_write v).append (isField_singleton (by decide))).append hrest

theorem isField_mnemonic (o : Opcode) : IsField o.mnemonic.toList := by
  cases o <;> decide

theorem toList_operand (mode : Mode) (raw : Int) :
    (mode.operand raw).toList =
      match mode with
      | .immediate => '#' :: (Numeral.write raw).toList
      | .position => '[' :: ((Numeral.write raw).toList ++ [']']) := by
  cases mode <;> simp [Mode.operand]

theorem isField_operand (mode : Mode) (raw : Int) : IsField (mode.operand raw).toList := by
  have hwrite := isField_write raw
  rw [toList_operand]
  cases mode with
  | immediate => exact (isField_singleton (c := '#') (by decide)).append hwrite
  | position =>
    exact (isField_singleton (c := '[') (by decide)).append
      (hwrite.append (isField_singleton (by decide)))

theorem comma_not_mem_operand (mode : Mode) (raw : Int) : ',' ∉ (mode.operand raw).toList := by
  have hwrite := Numeral.comma_not_mem_write raw
  rw [toList_operand]
  cases mode <;> simp [hwrite]

theorem trimRightBy_of_not_mem {f : List Char} (h : ',' ∉ f) :
    Text.trimRightBy (· == ',') f = f := by
  rw [Text.trimRightBy_eq_rdropWhile, List.rdropWhile_eq_self_iff]
  intro hf hlast
  rw [beq_iff_eq] at hlast
  exact h (hlast ▸ List.getLast_mem hf)

/-! ### The columns of a line -/

theorem toList_assembly (mnemonic : String) (operands : List String) :
    (assembly mnemonic operands).toList =
      Text.trimRightBy Text.isBlank
        (mnemonic.toList ++ ' ' :: [',', ' '].intercalate (operands.map String.toList)) := by
  simp [assembly, Text.trimRight, String.toList_intercalate]

theorem toList_text (l : Line) :
    l.text.toList =
      (List.replicate (5 - (Numeral.write l.address).length) ' ' ++
        (Numeral.write l.address).toList) ++ ' ' :: ' ' ::
      (((Numeral.writeList "," l.words).toList ++
        List.replicate (24 - (Numeral.writeList "," l.words).length) ' ') ++ ' ' ::
      (assembly l.mnemonic l.operands).toList) := by
  simp [Line.text, padLeft, padRight]

/-- A line whose columns are neither empty nor broken by blanks: there are words on it, and its
mnemonic and its operands are fields. -/
structure Line.Tidy (l : Line) : Prop where
  words : l.words ≠ []
  mnemonic : IsField l.mnemonic.toList
  operands : ∀ o ∈ l.operands, IsField o.toList

namespace Line.Tidy

variable {l : Line}

theorem spaced_operands (h : l.Tidy) :
    Spaced (l.mnemonic.toList ++ ' ' :: [',', ' '].intercalate (l.operands.map String.toList)) :=
  h.mnemonic.spaced.append (spaced_intercalate (by simpa using h.operands)).cons

/-- The only blanks on a line are spaces, so that it does not break into several. -/
theorem spaced_text (h : l.Tidy) : Spaced l.text.toList := by
  have haddress := (isField_write l.address).spaced
  have hwords := (isField_writeList h.words).spaced
  have hassembly : Spaced (assembly l.mnemonic l.operands).toList := by
    rw [toList_assembly]
    exact h.spaced_operands.trimRightBy _
  rw [toList_text]
  exact ((spaced_replicate _).append haddress).append
    ((hwords.append (spaced_replicate _)).append hassembly.cons).cons.cons

/-- The fields of a printed line: address, words, mnemonic and operands. -/
theorem fields_text (h : l.Tidy) :
    fields l.text.toList =
      (Numeral.write l.address).toList :: (Numeral.writeList "," l.words).toList ::
        l.mnemonic.toList :: fields ([',', ' '].intercalate (l.operands.map String.toList)) := by
  have hassembly : fields (assembly l.mnemonic l.operands).toList =
      l.mnemonic.toList :: fields ([',', ' '].intercalate (l.operands.map String.toList)) := by
    rw [toList_assembly, fields_trimRightBy h.spaced_operands, fields_append,
      h.mnemonic.fields_eq]
    rfl
  rw [toList_text, fields_append, fields_cons, fields_append, fields_replicate_append,
    fields_append_replicate, (isField_write _).fields_eq, (isField_writeList h.words).fields_eq,
    hassembly]
  rfl

end Line.Tidy

/-! ### Statements -/

/-- How a parameter in a mode is written as an operand. -/
def Mode.reading (mode : Mode) (raw : Int) : Operand :=
  match mode with
  | immediate => .value raw
  | position => .cell raw

/-- The statement that stands for an instruction with its parameters. -/
def Instruction.statement (i : Instruction) (params : List Int) : Statement :=
  ⟨i.opcode.mnemonic, List.zipWith (fun raw mode => mode.reading raw) params i.operandModes⟩

theorem read?_operand (mode : Mode) {raw : Int} (h : Numeral.Short raw) :
    Operand.read? (mode.operand raw).toList = some (mode.reading raw) := by
  have hread := Numeral.read?_write h
  rw [toList_operand]
  cases mode with
  | immediate => simp [Operand.read?, hread, Mode.reading]
  | position => simp [Operand.read?, hread, Mode.reading]

theorem mapM_read?_operands {params : List Int} (h : ∀ v ∈ params, Numeral.Short v)
    (modes : List Mode) :
    ((List.zipWith (fun raw mode => Mode.operand mode raw) params modes).map
        String.toList).mapM Operand.read? =
      some (List.zipWith (fun raw mode => Mode.reading mode raw) params modes) := by
  induction params generalizing modes with
  | nil => rfl
  | cons v params ih =>
    cases modes with
    | nil => rfl
    | cons mode modes =>
      have hrest := ih (fun w hw => h w (by simp [hw])) modes
      have hfirst := read?_operand mode (h v (by simp))
      rw [List.zipWith_cons_cons, List.map_cons, List.mapM_cons, hfirst, hrest]
      rfl

theorem exists_of_mem_operands {i : Instruction} {params : List Int} {o : String}
    (h : o ∈ i.operands params) : ∃ mode raw, o = Mode.operand mode raw := by
  obtain ⟨k, hk, rfl⟩ := List.getElem_of_mem h
  exact ⟨_, _, List.getElem_zipWith⟩

/-- The line of an instruction is tidy. -/
theorem tidy_instruction {a : Int} {words params : List Int} {i : Instruction} (h : words ≠ []) :
    (Line.mk a words i.opcode.mnemonic (i.operands params)).Tidy := by
  refine ⟨h, isField_mnemonic _, fun o ho => ?_⟩
  obtain ⟨mode, raw, rfl⟩ := exists_of_mem_operands ho
  exact isField_operand mode raw

/-- The line of an instruction reads as its statement. -/
theorem read?_text {a : Int} {words params : List Int} {i : Instruction} (hwords : words ≠ [])
    (hparams : ∀ v ∈ params, Numeral.Short v) :
    Statement.read? (Line.mk a words i.opcode.mnemonic (i.operands params)).text =
      some (i.statement params) := by
  have htidy : (Line.mk a words i.opcode.mnemonic (i.operands params)).Tidy :=
    tidy_instruction hwords
  have hcomma : ∀ f ∈ (i.operands params).map String.toList,
      Text.trimRightBy (· == ',') f = f := by
    intro f hf
    obtain ⟨o, ho, rfl⟩ := List.mem_map.1 hf
    obtain ⟨mode, raw, rfl⟩ := exists_of_mem_operands ho
    exact trimRightBy_of_not_mem (comma_not_mem_operand mode raw)
  unfold Statement.read?
  rw [htidy.fields_text]
  simp only [fields_intercalate (by simpa using htidy.operands) hcomma]
  rw [Instruction.operands, mapM_read?_operands hparams]
  simp [Instruction.statement]

example : Statement.read? "    0  12101,5,0,3              ADD #5, [0], [3]" =
    some ⟨"ADD", [.value 5, .cell 0, .cell 3]⟩ := by decide

end Intcode

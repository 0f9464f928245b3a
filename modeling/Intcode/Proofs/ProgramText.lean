import Intcode.Files
import Intcode.Proofs.PrintedLines

/-!
# Program text can be read back

The text of a memory describes that memory, also after it has been kept in a file.  Reading is more
liberal than writing, so that many texts describe the same memory; one of them is the text that is
written.

* `readTokens_eq_ok_iff`: the pieces of a text, read one by one;
* `parse_of_trim_eq_print`: a text that is the text of a memory, apart from blanks at its ends,
  describes this memory;
* `short_of_mem_parse`, `parse_ne_empty`: what is read can be written;
* `walk_insert`, `read_write`, `load_save`: what is written to a file is found there again;
* `Memory.reformat`, `program_text_round_trips`: the ways from memory to text and back.
-/

namespace Intcode

variable {m : Memory} {text path : String} {vs : List Int} {v : Int}

/-! ### Pieces of a text -/

/-- Reading succeeds when every piece spells an integer. -/
theorem readTokens_eq_ok_iff {index : Nat} {pieces : List (List Char)} :
    readTokens index pieces = .ok vs ↔ pieces.map readToken? = vs.map some := by
  induction pieces generalizing index vs with
  | nil => cases vs <;> simp [readTokens]
  | cons piece pieces ih =>
    unfold readTokens
    cases hpiece : readToken? piece with
    | none => cases vs <;> simp [hpiece]
    | some v =>
      cases vs with
      | nil => cases hrest : readTokens (index + 1) pieces <;> simp [Except.map]
      | cons w ws =>
        rw [List.map_cons, List.map_cons, hpiece, List.cons.injEq, Option.some.injEq, ← ih]
        cases hrest : readTokens (index + 1) pieces <;> simp [Except.map]

/-- A piece that spells an integer spells one that can be written. -/
theorem short_of_readToken? {piece : List Char} (h : readToken? piece = some v) :
    Numeral.Short v := by
  simp only [readToken?] at h
  split at h
  · cases h
  · exact Numeral.short_of_read? h

theorem not_blank_of_mem_write {c : Char} (hc : c ∈ (Numeral.write v).toList) :
    Text.isBlank c = false :=
  (isField_write v).2 c hc

/-- The text of an integer is a piece that spells it. -/
theorem readToken?_write (h : Numeral.Short v) : readToken? (Numeral.write v).toList = some v := by
  have hline : (Numeral.write v).toList.contains '_' = false := by
    rw [Bool.eq_false_iff, ne_eq, List.contains_iff_mem]
    intro hmem
    rcases Numeral.mem_write hmem with h | h
    · cases h
    · cases h
  unfold readToken?
  rw [Text.trimBy_of_all_not fun c => not_blank_of_mem_write, if_neg (by rw [hline]; simp)]
  exact Numeral.read?_write h

/-! ### The text of a memory -/

namespace Memory

theorem isField_print (h : m ≠ #[]) : IsField m.print.toList :=
  isField_writeList (by simpa using h)

theorem splitOn_print (h : m ≠ #[]) :
    m.print.toList.splitOn ',' = m.toList.map fun v => (Numeral.write v).toList :=
  Numeral.splitOn_writeList (by simpa using h)

/-- A text that is the text of a memory, apart from blanks at its ends, describes this memory. -/
theorem parse_of_trim_eq_print (hm : m ≠ #[]) (hshort : ∀ v ∈ m.toList, Numeral.Short v)
    (htext : Text.trimBy Text.isBlank text.toList = m.print.toList) : parse text = .ok m := by
  have hread : readTokens 0 (m.print.toList.splitOn ',') = .ok m.toList := by
    rw [readTokens_eq_ok_iff, splitOn_print hm, List.map_map]
    refine List.map_congr_left ?_
    intro v hv
    rw [Function.comp_apply, readToken?_write (hshort v hv)]
  unfold parse
  rw [htext]
  split
  · rename_i hnil
    exact absurd hnil (isField_print hm).1
  · rw [hread]
    rfl

theorem parse_print (hm : m ≠ #[]) (hshort : ∀ v ∈ m.toList, Numeral.Short v) :
    parse m.print = .ok m :=
  parse_of_trim_eq_print hm hshort (Text.trimBy_of_all_not (isField_print hm).2)

/-- A line end after the text makes no difference. -/
theorem parse_print_line (hm : m ≠ #[]) (hshort : ∀ v ∈ m.toList, Numeral.Short v) :
    parse (m.print ++ "\n") = .ok m := by
  refine parse_of_trim_eq_print hm hshort ?_
  rw [String.toList_append]
  exact Text.trimBy_concat_of_pos (isField_print hm).2 (by decide)

/-- A text that is accepted is read piece by piece. -/
theorem parse_eq_ok (h : parse text = .ok m) :
    ((Text.trimBy Text.isBlank text.toList).splitOn ',').map readToken? = m.toList.map some := by
  unfold parse at h
  split at h
  · cases h
  · cases hread : readTokens 0 ((Text.trimBy Text.isBlank text.toList).splitOn ',') with
    | error f =>
      rw [hread] at h
      cases h
    | ok vs =>
      rw [hread] at h
      cases h
      exact readTokens_eq_ok_iff.1 hread

theorem parse_ne_empty (h : parse text = .ok m) : m ≠ #[] := by
  rintro rfl
  have hpieces := parse_eq_ok h
  rw [Array.toList_empty, List.map_nil, List.map_eq_nil_iff] at hpieces
  exact List.splitOn_ne_nil _ _ hpieces

/-- What is read can be written. -/
theorem short_of_mem_parse (h : parse text = .ok m) : ∀ v ∈ m.toList, Numeral.Short v := by
  intro v hv
  have hmem : some v ∈ m.toList.map some := List.mem_map_of_mem hv
  rw [← parse_eq_ok h] at hmem
  obtain ⟨piece, -, hpiece⟩ := List.mem_map.1 hmem
  exact short_of_readToken? hpiece

theorem format_of_short (h : ∀ v ∈ m.toList, Numeral.Short v) : m.format = .ok m.print :=
  if_pos (Numeral.allShort_eq_true.2 h)

/-- The text that is written for the memory that a text describes. -/
def reformat (text : String) : Except Failure String := do
  let m ← (parse text).mapError .fault
  m.format

theorem reformat_of_parse (h : parse text = .ok m) : reformat text = m.format := by
  unfold reformat
  rw [h]
  rfl

end Memory

/-! ### Files -/

namespace Files

variable {fs fs' : Files} {here parts names other : List String} {content old : ByteArray}

theorem find?_insert_self (h : names ≠ []) (e : Entry) :
    (fs.insert names e).find? names = some e := by
  obtain ⟨name, rest, rfl⟩ := List.exists_cons_of_ne_nil h
  simp [find?, insert]

theorem find?_insert_of_ne (h : other ≠ names) (e : Entry) :
    (fs.insert names e).find? other = fs.find? other := by
  cases other with
  | nil => rfl
  | cons name rest =>
    have hne : (names == name :: rest) = false := by simpa using fun heq => h heq.symm
    simp only [find?, insert, List.find?_cons, hne, List.find?_filter]
    congr 2
    funext entry
    by_cases hentry : entry.1 = name :: rest
    · simp [hentry, h]
    · simp [hentry]

theorem walk_cons {name : String} (hname : name ≠ "..") (hsize : ¬ nameLimit < name.utf8ByteSize)
    (here rest : List String) :
    fs.walk here (name :: rest) =
      match fs.find? (here ++ [name]) with
      | some .directory => fs.walk (here ++ [name]) rest
      | some (.file content) =>
        if rest.isEmpty then .ok (.file (here ++ [name]) content) else .error .notDirectory
      | none => if rest.isEmpty then .ok (.vacant (here ++ [name])) else .error .notFound := by
  rw [walk]
  · exact if_neg hsize
  · exact hname

/-- The place where a file is or can be put. -/
def Target.place? : Target → Option (List String)
  | directory => none
  | file names _ => some names
  | vacant names => some names

/-- A path that leads to a place for a file leads to the file that is put there. -/
theorem walk_insert {target : Target} (content : ByteArray) (h : fs.walk here parts = .ok target)
    (hplace : target.place? = some names) :
    names ≠ [] ∧ fs.find? names ≠ some .directory ∧
      (fs.insert names (.file content)).walk here parts = .ok (.file names content) := by
  have hlast {here rest : List String} {name : String} (hname : name ≠ "..")
      (hsize : ¬ nameLimit < name.utf8ByteSize) (hrest : rest.isEmpty = true)
      (hfree : fs.find? (here ++ [name]) ≠ some .directory) :
      here ++ [name] ≠ [] ∧ fs.find? (here ++ [name]) ≠ some .directory ∧
        (fs.insert (here ++ [name]) (.file content)).walk here (name :: rest) =
          .ok (.file (here ++ [name]) content) := by
    refine ⟨by simp, hfree, ?_⟩
    rw [walk_cons hname hsize, find?_insert_self (by simp)]
    exact if_pos hrest
  fun_induction walk fs here parts with
  | case1 =>
    cases h
    cases hplace
  | case2 here rest ih => exact ih h
  | case3 => cases h
  | case4 here name rest hname hsize hdirectory ih =>
    obtain ⟨hnames, hfree, hwalk⟩ := ih h
    -- a directory on the way is not the place of the file
    have hne : here ++ [name] ≠ names := by
      rintro rfl
      exact hfree hdirectory
    refine ⟨hnames, hfree, ?_⟩
    rw [walk_cons hname hsize, find?_insert_of_ne hne, hdirectory]
    exact hwalk
  | case5 here name rest hname hsize old hold hrest =>
    cases h
    cases hplace
    exact hlast hname hsize hrest (by simp [hold])
  | case6 => cases h
  | case7 here name rest hname hsize hnone hrest =>
    cases h
    cases hplace
    exact hlast hname hsize hrest (by simp [hnone])
  | case8 => cases h

theorem resolve_insert {target : Target} (content : ByteArray) (h : fs.resolve path = .ok target)
    (hplace : target.place? = some names) :
    (fs.insert names (.file content)).resolve path = .ok (.file names content) := by
  have hwalk {here : List String}
      (h : (fs.walk here (Path.ofText path).parts).mapError
        (FileError.refused · (Path.ofText path).text) = .ok target) :
      ((fs.insert names (.file content)).walk here (Path.ofText path).parts).mapError
        (FileError.refused · (Path.ofText path).text) = .ok (.file names content) := by
    cases hold : fs.walk here (Path.ofText path).parts with
    | error problem =>
      rw [hold] at h
      cases h
    | ok found =>
      rw [hold] at h
      cases h
      rw [(walk_insert content hold hplace).2.2]
      rfl
  unfold resolve at h ⊢
  dsimp only at h ⊢
  split_ifs at h ⊢
  · exact hwalk h
  · exact hwalk h

/-- What is written to a file is read from it. -/
theorem read_write (h : fs.write path content = .ok fs') : fs'.read path = .ok content := by
  have hread {names : List String} {target : Target} (htarget : fs.resolve path = .ok target)
      (hplace : target.place? = some names) :
      (fs.insert names (.file content)).read path = .ok content := by
    unfold read
    rw [resolve_insert content htarget hplace]
    rfl
  unfold write at h
  cases htarget : fs.resolve path with
  | error e =>
    rw [htarget] at h
    cases h
  | ok target =>
    rw [htarget] at h
    cases target with
    | directory => cases h
    | file names old =>
      cases h
      exact hread htarget rfl
    | vacant names =>
      cases h
      exact hread htarget rfl

/-- The text of a file in which a memory was saved. -/
theorem load_save (hm : m ≠ #[]) (h : fs.save path m = .ok fs') :
    fs'.load path = .ok (m.print ++ "\n") := by
  have hreturn : '\r' ∉ (m.print ++ "\n").toList := by
    rw [String.toList_append, List.mem_append]
    rintro (hmem | hmem)
    · exact absurd ((Memory.isField_print hm).2 _ hmem) (by decide)
    · exact absurd hmem (by decide)
  have hwrite : fs.write path (m.print ++ "\n").toUTF8 = .ok fs' := by
    unfold save at h
    split at h
    · rename_i text htext
      rw [Memory.format] at htext
      split_ifs at htext
      cases htext
      exact h
    · cases h
  have hbytes : fs'.read path = .ok (m.print ++ "\n").toUTF8 := read_write hwrite
  simp only [load, hbytes, bind, Except.bind, Text.decodeFile?_toUTF8 hreturn]
  rfl

end Files

/-- **Program text and memory.**  A memory with cells, all of which can be written, has a text, and
this text describes the memory; so does what is loaded after the memory has been saved.  Every text
that is accepted, however it is written, describes a memory that has a text; this text is accepted
with the same result, and it is its own form as written. -/
theorem program_text_round_trips :
    (∀ m : Memory, m ≠ #[] → (∀ v ∈ m.toList, Numeral.Short v) →
      (∃ text, m.format = .ok text ∧ Memory.parse text = .ok m) ∧
      ∀ fs path fs', Files.save fs path m = .ok fs' →
        ∃ text, fs'.load path = .ok text ∧ Memory.parse text = .ok m) ∧
    ∀ text m, Memory.parse text = .ok m →
      ∃ text', m.format = .ok text' ∧ Memory.parse text' = .ok m ∧
        Memory.reformat text = .ok text' ∧ Memory.reformat text' = .ok text' := by
  constructor
  · intro m hm hshort
    refine ⟨⟨m.print, Memory.format_of_short hshort, Memory.parse_print hm hshort⟩, ?_⟩
    intro fs path fs' hsave
    exact ⟨_, Files.load_save hm hsave, Memory.parse_print_line hm hshort⟩
  · intro text m htext
    have hshort := Memory.short_of_mem_parse htext
    have hformat := Memory.format_of_short hshort
    have hparse := Memory.parse_print (Memory.parse_ne_empty htext) hshort
    exact ⟨m.print, hformat, hparse, (Memory.reformat_of_parse htext).trans hformat,
      (Memory.reformat_of_parse hparse).trans hformat⟩

/-- A text with a digit of another script, signs, leading zeros and blanks: it is written again
without them, and survives a file. -/
theorem unevenText_round_trip :
    Memory.parse "  +٣ ,-0,\n007\t" = .ok #[3, 0, 7] ∧
    Memory.reformat "  +٣ ,-0,\n007\t" = .ok "3,0,7" ∧ Memory.reformat "3,0,7" = .ok "3,0,7" ∧
    ∃ fs' text, (Files.empty.addDirectory "a").save "./a//p.txt" #[3, 0, 7] = .ok fs' ∧
      fs'.load "./a//p.txt" = .ok text ∧ Memory.parse text = .ok #[3, 0, 7] := by
  have hparse : Memory.parse "  +٣ ,-0,\n007\t" = .ok #[3, 0, 7] := by rfl
  have hshort : ∀ v ∈ (#[3, 0, 7] : Memory).toList, Numeral.Short v := by decide +kernel
  have hformat : Memory.format #[3, 0, 7] = .ok "3,0,7" := Memory.format_of_short hshort
  have hsave : (Files.empty.addDirectory "a").save "./a//p.txt" #[3, 0, 7] =
      .ok ⟨[(["a", "p.txt"], .file "3,0,7\n".toUTF8), (["a"], .directory)]⟩ := by
    rw [Files.save, hformat]
    rfl
  obtain ⟨text', htext', -, hreformat, hagain⟩ := program_text_round_trips.2 _ _ hparse
  obtain rfl : "3,0,7" = text' := Except.ok.inj (hformat.symm.trans htext')
  obtain ⟨text, hload, htext⟩ :=
    (program_text_round_trips.1 #[3, 0, 7] (by decide) hshort).2 _ _ _ hsave
  exact ⟨hparse, hreformat, hagain, _, text, hsave, hload, htext⟩

end Intcode

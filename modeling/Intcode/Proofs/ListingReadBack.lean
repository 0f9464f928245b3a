import Intcode.Proofs.LinearSweep

/-!
# A printed listing can be read back

Everything that a listing was made from can be recovered from its text: the address it starts at,
and the cells of the memory from there on.  The address stands in the first column of the first line
and the cells stand in the second column of all lines.  The columns have a least width only, so that
they are found by the spaces between them and not by their places.

* `Line.readWords?`, `readListing?`: the address and the words on a line and in a listing;
* `tidy_lineAt`, `Line.Tidy.readWords?_text`: every line can be read;
* `listingText_eq_ok_iff`, `listingText_of_short`: the text of a listing, and when there is one;
* `readListing?_listingText`: a listing reads as the memory that it shows;
* `listing_is_lossless`: memories with the same listing are the same from its start on.
-/

namespace Intcode

variable {m m' : Memory} {a : Nat} {l : Line} {lines : List Line} {text : String}

/-! ### Reading a listing -/

/-- The address and the words on a printed line.  The instruction behind them is not looked at. -/
def Line.readWords? (line : List Char) : Option (Int × List Int) :=
  match fields line with
  | address :: words :: _ => do
    let a ← Numeral.read? address
    let vs ← Numeral.readList? words
    some (a, vs)
  | _ => none

/-- The address of the first line of a printed listing, and the words on all its lines. -/
def readListing? (text : String) : Option (Int × List Int) := do
  let rows ← (text.toList.splitOn '\n').mapM Line.readWords?
  let first ← rows.head?
  some (first.1, rows.flatMap Prod.snd)

/-- The address and the words of a line can be written. -/
def Line.Writable (l : Line) : Prop :=
  Numeral.Short l.address ∧ ∀ v ∈ l.words, Numeral.Short v

theorem Line.Tidy.readWords?_text (h : l.Tidy) (hl : l.Writable) :
    Line.readWords? l.text.toList = some (l.address, l.words) := by
  have haddress := Numeral.read?_write hl.1
  have hwords := Numeral.readList?_writeList h.words hl.2
  rw [Line.readWords?, h.fields_text]
  simp only [haddress, hwords, Option.bind_eq_bind, Option.bind_some]

theorem Line.Tidy.newline_not_mem_text (h : l.Tidy) : '\n' ∉ l.text.toList := by
  intro hmem
  exact absurd (h.spaced_text '\n' hmem (by decide)) (by decide)

/-! ### The lines of a memory -/

/-- Every line of a memory is tidy. -/
theorem tidy_lineAt (h : a < m.size) : (lineAt m a).Tidy := by
  have hwords : (lineAt m a).words ≠ [] := by
    have hlength := length_words_lineAt h
    have hpos := spanAt_pos m a
    intro hnil
    rw [hnil, List.length_nil] at hlength
    omega
  cases hi : instructionAt? m a with
  | some i =>
    simp only [lineAt, hi] at hwords ⊢
    exact tidy_instruction hwords
  | none =>
    have hdata : IsField Line.data.toList := by decide
    simp only [lineAt, hi] at hwords ⊢
    refine ⟨hwords, hdata, fun o ho => ?_⟩
    obtain ⟨v, -, rfl⟩ := List.mem_map.1 ho
    exact isField_write v

/-! ### The text of a listing -/

theorem render_eq_ok_iff : l.render = .ok text ↔ l.Writable ∧ l.text = text := by
  have hshort : Numeral.allShort (l.address :: l.words) = true ↔ l.Writable := by
    rw [Numeral.allShort_eq_true, List.forall_mem_cons, Line.Writable]
  unfold Line.render
  split_ifs with h
  · simp [hshort.1 h]
  · simp [mt hshort.2 h]

theorem mapM_render_eq_ok_iff {texts : List String} :
    lines.mapM Line.render = .ok texts ↔
      (∀ l ∈ lines, l.Writable) ∧ lines.map Line.text = texts := by
  constructor
  · intro h
    induction lines generalizing texts with
    | nil =>
      cases h
      simp
    | cons l lines ih =>
      rw [List.mapM_cons] at h
      obtain ⟨text, htext, h⟩ := bind_eq_ok_iff.1 h
      obtain ⟨rest, hrest, h⟩ := bind_eq_ok_iff.1 h
      cases h
      obtain ⟨hl, rfl⟩ := render_eq_ok_iff.1 htext
      obtain ⟨hlines, rfl⟩ := ih hrest
      exact ⟨List.forall_mem_cons.2 ⟨hl, hlines⟩, rfl⟩
  · rintro ⟨h, rfl⟩
    exact Numeral.mapM_eq_pure_map fun l hl => render_eq_ok_iff.2 ⟨h l hl, rfl⟩

/-- A listing has a text if all its lines can be written, and it consists of these lines. -/
theorem listingText_eq_ok_iff :
    listingText lines = .ok text ↔
      (∀ l ∈ lines, l.Writable) ∧ "\n".intercalate (lines.map Line.text) = text := by
  unfold listingText
  constructor
  · intro h
    cases hlines : lines.mapM Line.render with
    | error f =>
      rw [hlines] at h
      cases h
    | ok texts =>
      rw [hlines] at h
      cases h
      obtain ⟨hwritable, rfl⟩ := mapM_render_eq_ok_iff.1 hlines
      exact ⟨hwritable, rfl⟩
  · rintro ⟨h, rfl⟩
    rw [mapM_render_eq_ok_iff.2 ⟨h, rfl⟩]
    rfl

/-- A memory has a printed listing if its words and its addresses can be written. -/
theorem listingText_of_short (hm : ∀ v ∈ m.toList, Numeral.Short v) (hsize : Numeral.Short m.size)
    (a : Nat) : ∃ text, listingText (sweep m a) = .ok text := by
  refine ⟨_, listingText_eq_ok_iff.2 ⟨fun l hl => ?_, rfl⟩⟩
  obtain ⟨b, hb, rfl⟩ := exists_lineAt_of_mem_sweep hl
  refine ⟨?_, fun v hv => hm v (mem_of_mem_words_lineAt hv)⟩
  rw [address_lineAt]
  unfold Numeral.Short at hsize ⊢
  omega

/-- A printed listing reads as the memory from its start on. -/
theorem readListing?_listingText (ha : a < m.size) (h : listingText (sweep m a) = .ok text) :
    readListing? text = some ((a : Int), m.toList.drop a) := by
  obtain ⟨hwritable, rfl⟩ := listingText_eq_ok_iff.1 h
  have htidy : ∀ l ∈ sweep m a, l.Tidy := by
    intro l hl
    obtain ⟨b, hb, rfl⟩ := exists_lineAt_of_mem_sweep hl
    exact tidy_lineAt hb
  have hlines : ("\n".intercalate ((sweep m a).map Line.text)).toList.splitOn '\n' =
      (sweep m a).map fun l => l.text.toList := by
    rw [String.toList_intercalate, List.map_map]
    refine List.splitOn_intercalate '\n' ?_ (by simp [sweep_of_lt ha])
    intro line hline
    obtain ⟨l, hl, rfl⟩ := List.mem_map.1 hline
    exact (htidy l hl).newline_not_mem_text
  have hrows : ((sweep m a).map fun l => l.text.toList).mapM Line.readWords? =
      some ((sweep m a).map fun l => (l.address, l.words)) := by
    have hrow : ∀ l ∈ sweep m a,
        (Line.readWords? ∘ fun l => l.text.toList) l = pure (l.address, l.words) := by
      intro l hl
      rw [Function.comp_apply, (htidy l hl).readWords?_text (hwritable l hl)]
      rfl
    rw [List.mapM_map, Numeral.mapM_eq_pure_map hrow]
    rfl
  have hfirst : ((sweep m a).map fun l => (l.address, l.words)).head? =
      some ((a : Int), (lineAt m a).words) := by
    rw [sweep_of_lt ha, List.map_cons, List.head?_cons, address_lineAt]
  have hwords : ((sweep m a).map fun l => (l.address, l.words)).flatMap Prod.snd =
      m.toList.drop a := by
    rw [List.flatMap_map]
    exact flatMap_words_sweep m a
  unfold readListing?
  rw [hlines, hrows]
  simp only [Option.bind_eq_bind, Option.bind_some, hfirst, hwords]

example : readListing? "    1  104,-5                   OUT #-5\n    3  99      HALT" =
    some (1, [104, -5, 99]) := by decide

/-- **A printed listing is lossless.**  Every memory whose words can be written can be listed from
each of its addresses, and the listing has a text if the addresses can be written, too.  If the
listings of two memories have the same text, then they start at the same address, and from there on
the memories hold the same words. -/
theorem listing_is_lossless {start start' : Int} (hm : ∀ v ∈ m.toList, Numeral.Short v)
    (hm' : ∀ v ∈ m'.toList, Numeral.Short v) (hstart : m.Valid start)
    (hstart' : m'.Valid start') :
    ∃ lines lines', disassemble m start = .ok lines ∧ disassemble m' start' = .ok lines' ∧
      (Numeral.Short m.size → ∃ text, listingText lines = .ok text) ∧
      ∀ text, listingText lines = .ok text → listingText lines' = .ok text →
        start = start' ∧ m.toList.drop start.toNat = m'.toList.drop start'.toNat := by
  refine ⟨_, _, disassemble_of_short hm hstart, disassemble_of_short hm' hstart',
    fun hsize => listingText_of_short hm hsize _, fun text htext htext' => ?_⟩
  have hread := readListing?_listingText hstart.toNat_lt htext
  rw [readListing?_listingText hstart'.toNat_lt htext', Int.toNat_of_nonneg hstart.1,
    Int.toNat_of_nonneg hstart'.1] at hread
  obtain ⟨haddress, hwords⟩ := Prod.mk.inj (Option.some.inj hread)
  exact ⟨haddress.symm, hwords.symm⟩

/-- A word of any kind, an addition too wide for its column, a halt, and an output without room for
its parameter. -/
def wideColumn (first : Int) : Memory :=
  #[first, 1101, 12345678901234567890, -9876543210987654321, 1, 99, 4]

/-- The listings from the addition on show nothing of the first word, and all that follows it. -/
theorem wideColumn_read_back :
    (∀ v ∈ (wideColumn 0).toList, Numeral.Short v) ∧
    (∀ v ∈ (wideColumn 7).toList, Numeral.Short v) ∧ (wideColumn 0).Valid 1 ∧
    (wideColumn 7).Valid 1 ∧
    ∃ lines lines' text, disassemble (wideColumn 0) 1 = .ok lines ∧
      disassemble (wideColumn 7) 1 = .ok lines' ∧ listingText lines = .ok text ∧
      listingText lines' = .ok text ∧
      (wideColumn 0).toList.drop 1 = (wideColumn 7).toList.drop 1 := by
  have hshort : ∀ v ∈ (wideColumn 0).toList, Numeral.Short v := by decide +kernel
  have hshort' : ∀ v ∈ (wideColumn 7).toList, Numeral.Short v := by decide +kernel
  have hvalid : (wideColumn 0).Valid 1 := by decide
  have hvalid' : (wideColumn 7).Valid 1 := by decide
  obtain ⟨lines, lines', hlines, hlines', htext, hsame⟩ :=
    listing_is_lossless hshort hshort' hvalid hvalid'
  obtain rfl : lines = lines' :=
    Except.ok.inj (hlines.symm.trans ((by decide +kernel : _ = _).trans hlines'))
  obtain ⟨text, htext⟩ := htext (by decide +kernel)
  exact ⟨hshort, hshort', hvalid, hvalid', lines, lines, text, hlines, hlines', htext, htext,
    (hsame text htext htext).2⟩

end Intcode

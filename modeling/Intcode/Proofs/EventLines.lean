import Intcode.Event
import Intcode.Proofs.PrintedLines

/-!
# The line of an event can be read back

The lines of the five kinds of events have the same look, and an executed instruction may be shown
with or without operands and with or without a cell that it wrote.  Still a line says which event
it stands for: the first two fields tell the kind, and the number of the other fields tells which
parts of an executed instruction are there.  Only the instruction word is not on the line.

* `Event.withWord`, `Event.Named`: events with another instruction word, and events whose mnemonic
  is one of the table;
* `Event.readLine?`, by way of `readOutcome?` and `readExecuted?`: the event on a line;
* `fields_line_executed`: the fields of the longest line;
* `readLine?_line`: a line reads as its event, apart from the word;
* `event_lines_unambiguous`: events with the same line are the same, apart from the word.
-/

namespace Intcode.Event

/-- The event with another instruction word.  Only an executed instruction has one. -/
def withWord (word : Int) : Event → Event
  | executed pc _ mnemonic operands next write => executed pc word mnemonic operands next write
  | e => e

/-- The mnemonic of the event, if it has one, is in the table of opcodes. -/
def Named : Event → Prop
  | executed _ _ mnemonic _ _ _ => ∃ o ∈ Opcode.all, o.mnemonic = mnemonic
  | _ => True

variable {e e' : Event} {pc word next : Int} {operands : List Int} {write : Option (Int × Int)}

/-- The instruction word is not on the line. -/
@[simp] theorem line_withWord (word : Int) (e : Event) : (e.withWord word).line = e.line := by
  cases e <;> rfl

theorem withWord_withWord (v w : Int) (e : Event) : (e.withWord v).withWord w = e.withWord w := by
  cases e <;> rfl

theorem exists_withWord_eq (e : Event) : ∃ word, e.withWord word = e := by
  cases e with
  | executed pc word mnemonic operands next write => exact ⟨word, rfl⟩
  | inputRequested pc => exact ⟨0, rfl⟩
  | outputProduced pc value => exact ⟨0, rfl⟩
  | halted pc => exact ⟨0, rfl⟩
  | rebooted size => exact ⟨0, rfl⟩

/-! ### Reading a line -/

/-- The address that a field spells in brackets. -/
def readAddress? (f : List Char) : Option Int :=
  match Operand.read? f with
  | some (.cell a) => some a
  | _ => none

/-- The event that an executed instruction with given operands has left, from the fields after the
operands: an arrow and the counter, and in front of them perhaps the cell that was written.  Signs
are not looked at, and zero stands for the word. -/
def readOutcome? (pc : Int) (mnemonic : String) (operands : List Int) :
    List (List Char) → Option Event
  | [_, next] => do
    let n ← Numeral.read? (next.drop 3)
    some (executed pc 0 mnemonic operands n none)
  | [_, address, _, value, _, next] => do
    let a ← readAddress? address
    let v ← Numeral.read? value
    let n ← Numeral.read? (next.drop 3)
    some (executed pc 0 mnemonic operands n (some (a, v)))
  | _ => none

/-- The event of an executed instruction, from the fields after its mnemonic.  Without operands
their number is even, because the operands are a single field. -/
def readExecuted? (pc : Int) (mnemonic : String) (fs : List (List Char)) : Option Event :=
  if fs.length % 2 = 0 then readOutcome? pc mnemonic [] fs
  else do
    let first ← fs.head?
    let operands ← Numeral.readList? first
    readOutcome? pc mnemonic operands fs.tail

/-- The event on a line, with zero for the instruction word. -/
def readLine? (line : String) : Option Event :=
  match fields line.toList with
  | first :: second :: rest =>
    if first = "rebooted".toList then (Numeral.read? (second.drop 1)).map rebooted
    else do
      let pc ← readAddress? first
      if second = "waiting".toList then some (inputRequested pc)
      else if second = "halted".toList then some (halted pc)
      else if second = "output".toList then do
        let value ← rest.head?
        (Numeral.read? value).map (outputProduced pc)
      else readExecuted? pc (String.ofList second) rest
  | _ => none

/-! ### The fields of a line -/

/-- The field of an address in brackets. -/
def addressField (a : Int) : List Char :=
  (Mode.position.operand a).toList

theorem addressField_eq (a : Int) :
    addressField a = '[' :: ((Numeral.write a).toList ++ [']']) :=
  toList_operand .position a

theorem isField_addressField (a : Int) : IsField (addressField a) :=
  isField_operand .position a

theorem readAddress?_addressField {a : Int} (h : Numeral.Short a) :
    readAddress? (addressField a) = some a := by
  rw [readAddress?, addressField, read?_operand .position h]
  rfl

theorem addressField_ne_rebooted (a : Int) : addressField a ≠ "rebooted".toList := by
  rw [addressField_eq]
  intro h
  exact absurd (List.cons.inj h).1 (by decide)

/-- The field of the counter. -/
def counterField (next : Int) : List Char :=
  "pc=".toList ++ (Numeral.write next).toList

theorem isField_counterField (next : Int) : IsField (counterField next) :=
  IsField.append (by decide) (isField_write next)

/-- The fields that show what an executed instruction has written. -/
def writeFields : Option (Int × Int) → List (List Char)
  | some (address, value) =>
    [";".toList, addressField address, "<-".toList, (Numeral.write value).toList]
  | none => []

theorem isField_of_mem_writeFields : ∀ f ∈ writeFields write, IsField f := by
  cases write with
  | none => simp [writeFields]
  | some w =>
    have hsemicolon : IsField ";".toList := by decide
    have harrow : IsField "<-".toList := by decide
    simpa [writeFields] using
      ⟨hsemicolon, isField_addressField w.1, harrow, isField_write w.2⟩

/-- The field of the operands, if there are any. -/
def operandFields : List Int → List (List Char)
  | [] => []
  | operands => [(Numeral.writeList "," operands).toList]

theorem fields_writeList (operands : List Int) :
    fields (Numeral.writeList "," operands).toList = operandFields operands := by
  cases operands with
  | nil => rfl
  | cons v vs => exact (isField_writeList (List.cons_ne_nil v vs)).fields_eq

theorem spaced_writeList (operands : List Int) :
    Spaced (Numeral.writeList "," operands).toList := by
  cases operands with
  | nil => exact spaced_replicate 0
  | cons v vs => exact (isField_writeList (List.cons_ne_nil v vs)).spaced

/-- Fields with a space in front of each are found behind the fields of the text before them. -/
theorem fields_append_flatMap (xs : List Char) {fs : List (List Char)} (h : ∀ f ∈ fs, IsField f) :
    fields (xs ++ fs.flatMap (' ' :: ·)) = fields xs ++ fs := by
  induction fs generalizing xs with
  | nil => simp
  | cons f fs ih =>
    have hf := h f (by simp)
    rw [List.flatMap_cons, List.cons_append, fields_append, ih f fun g hg => h g (by simp [hg]),
      hf.fields_eq, List.singleton_append]

theorem toList_line_executed (mnemonic : String) :
    (executed pc word mnemonic operands next write).line.toList =
      Text.trimRightBy Text.isBlank (addressField pc ++ ' ' ::
          (mnemonic.toList ++ ' ' :: (Numeral.writeList "," operands).toList)) ++
        (writeFields write ++ ["->".toList, counterField next]).flatMap (' ' :: ·) := by
  cases write with
  | none => simp [line, Text.trimRight, writeFields, addressField_eq, counterField]
  | some w => simp [line, Text.trimRight, writeFields, addressField_eq, counterField]

/-- The fields on the line of an executed instruction. -/
theorem fields_line_executed {mnemonic : String} (h : IsField mnemonic.toList) :
    fields (executed pc word mnemonic operands next write).line.toList =
      addressField pc :: mnemonic.toList ::
        (operandFields operands ++ (writeFields write ++ ["->".toList, counterField next])) := by
  have hspaced : Spaced (addressField pc ++ ' ' ::
      (mnemonic.toList ++ ' ' :: (Numeral.writeList "," operands).toList)) :=
    (isField_addressField pc).spaced.append
      (h.spaced.append (spaced_writeList operands).cons).cons
  have harrow : IsField "->".toList := by decide
  have houtcome : ∀ f ∈ writeFields write ++ ["->".toList, counterField next], IsField f := by
    intro f hf
    rcases List.mem_append.1 hf with hf | hf
    · exact isField_of_mem_writeFields f hf
    · simp only [List.mem_cons, List.not_mem_nil, or_false] at hf
      rcases hf with rfl | rfl
      · exact harrow
      · exact isField_counterField next
  rw [toList_line_executed, fields_append_flatMap _ houtcome, fields_trimRightBy hspaced,
    fields_append, fields_append, (isField_addressField pc).fields_eq, h.fields_eq,
    fields_writeList]
  simp

/-! ### Lines are read back -/

theorem readOutcome?_fields (pc : Int) (mnemonic : String) (operands : List Int)
    (hnext : Numeral.Short next)
    (hwrite : ∀ w ∈ write, Numeral.Short w.1 ∧ Numeral.Short w.2) :
    readOutcome? pc mnemonic operands (writeFields write ++ ["->".toList, counterField next]) =
      some (executed pc 0 mnemonic operands next write) := by
  have hcounter : Numeral.read? ((counterField next).drop 3) = some next :=
    Numeral.read?_write hnext
  cases write with
  | none => simp [writeFields, readOutcome?, hcounter]
  | some w =>
    obtain ⟨haddress, hvalue⟩ := hwrite w rfl
    simp [writeFields, readOutcome?, hcounter, readAddress?_addressField haddress,
      Numeral.read?_write hvalue]

theorem length_outcome (write : Option (Int × Int)) (next : Int) :
    (writeFields write ++ ["->".toList, counterField next]).length % 2 = 0 := by
  cases write <;> simp [writeFields]

theorem readExecuted?_fields (pc : Int) (mnemonic : String) (hnext : Numeral.Short next)
    (hoperands : ∀ v ∈ operands, Numeral.Short v)
    (hwrite : ∀ w ∈ write, Numeral.Short w.1 ∧ Numeral.Short w.2) :
    readExecuted? pc mnemonic
        (operandFields operands ++ (writeFields write ++ ["->".toList, counterField next])) =
      some (executed pc 0 mnemonic operands next write) := by
  have heven := length_outcome write next
  have hread := readOutcome?_fields pc mnemonic operands hnext hwrite
  cases operands with
  | nil => rw [operandFields, List.nil_append, readExecuted?, if_pos heven, hread]
  | cons v vs =>
    have hlist := Numeral.readList?_writeList (List.cons_ne_nil v vs) hoperands
    have hodd : ¬ ((Numeral.writeList "," (v :: vs)).toList ::
        (writeFields write ++ ["->".toList, counterField next])).length % 2 = 0 := by
      rw [List.length_cons]
      omega
    rw [operandFields, List.singleton_append, readExecuted?, if_neg hodd]
    · simp only [List.head?_cons, List.tail_cons, hlist, Option.bind_eq_bind, Option.bind_some,
        hread]
    · exact List.cons_ne_nil v vs

theorem mnemonic_ne (o : Opcode) :
    o.mnemonic.toList ≠ "waiting".toList ∧ o.mnemonic.toList ≠ "halted".toList ∧
      o.mnemonic.toList ≠ "output".toList := by
  cases o <;> decide

/-- The fields of a line that is not trimmed. -/
theorem fields_of_toList_eq {text : String} {f : List Char} {fs : List (List Char)}
    (htext : text.toList = f ++ fs.flatMap (' ' :: ·)) (hf : IsField f)
    (hfs : ∀ g ∈ fs, IsField g) : fields text.toList = f :: fs := by
  rw [htext, fields_append_flatMap f hfs, hf.fields_eq, List.singleton_append]

theorem readLine?_executed {o : Opcode}
    (h : (executed pc word o.mnemonic operands next write).Legible) :
    readLine? (executed pc word o.mnemonic operands next write).line =
      some (executed pc 0 o.mnemonic operands next write) := by
  obtain ⟨hwaiting, hhalted, houtput⟩ := mnemonic_ne o
  have hpc : Numeral.Short pc := h pc (by simp [integers])
  have hnext : Numeral.Short next := h next (by simp [integers])
  have hoperands : ∀ v ∈ operands, Numeral.Short v := fun v hv => h v (by simp [integers, hv])
  have hwrite : ∀ w ∈ write, Numeral.Short w.1 ∧ Numeral.Short w.2 := by
    rintro w rfl
    exact ⟨h w.1 (by simp [integers]), h w.2 (by simp [integers])⟩
  rw [readLine?, fields_line_executed (isField_mnemonic o)]
  simp only [if_neg (addressField_ne_rebooted pc), readAddress?_addressField hpc, if_neg hwaiting,
    if_neg hhalted, if_neg houtput, Option.bind_eq_bind, Option.bind_some, String.ofList_toList]
  exact readExecuted?_fields pc o.mnemonic hnext hoperands hwrite

theorem readLine?_inputRequested (hpc : Numeral.Short pc) :
    readLine? (inputRequested pc).line = some (inputRequested pc) := by
  have hfields : fields (inputRequested pc).line.toList =
      [addressField pc, "waiting".toList, "for".toList, "input".toList] :=
    fields_of_toList_eq (by simp [line, addressField_eq]) (isField_addressField pc) (by decide)
  simp only [readLine?, hfields, if_neg (addressField_ne_rebooted pc),
    readAddress?_addressField hpc, Option.bind_eq_bind, Option.bind_some]
  rfl

theorem readLine?_outputProduced {value : Int} (hpc : Numeral.Short pc)
    (hvalue : Numeral.Short value) :
    readLine? (outputProduced pc value).line = some (outputProduced pc value) := by
  have houtput : IsField "output".toList := by decide
  have hfields : fields (outputProduced pc value).line.toList =
      [addressField pc, "output".toList, (Numeral.write value).toList] :=
    fields_of_toList_eq (by simp [line, addressField_eq]) (isField_addressField pc)
      (by simpa using ⟨houtput, isField_write value⟩)
  have hwaiting : "output".toList ≠ "waiting".toList := by decide
  have hhalted : "output".toList ≠ "halted".toList := by decide
  simp only [readLine?, hfields, if_neg (addressField_ne_rebooted pc), if_neg hwaiting,
    if_neg hhalted, readAddress?_addressField hpc, Option.bind_eq_bind, Option.bind_some,
    List.head?_cons, Numeral.read?_write hvalue]
  rfl

theorem readLine?_halted (hpc : Numeral.Short pc) :
    readLine? (halted pc).line = some (halted pc) := by
  have hfields : fields (halted pc).line.toList = [addressField pc, "halted".toList] :=
    fields_of_toList_eq (by simp [line, addressField_eq]) (isField_addressField pc) (by decide)
  have hwaiting : "halted".toList ≠ "waiting".toList := by decide
  simp only [readLine?, hfields, if_neg (addressField_ne_rebooted pc), if_neg hwaiting,
    readAddress?_addressField hpc, Option.bind_eq_bind, Option.bind_some]
  rfl

theorem readLine?_rebooted {size : Int} (hsize : Numeral.Short size) :
    readLine? (rebooted size).line = some (rebooted size) := by
  have hcount : IsField ('(' :: (Numeral.write size).toList) :=
    (isField_singleton (by decide)).append (isField_write size)
  have hwords : IsField "words)".toList := by decide
  have hfields : fields (rebooted size).line.toList =
      ["rebooted".toList, '(' :: (Numeral.write size).toList, "words)".toList] :=
    fields_of_toList_eq (by simp [line]) (by decide) (by simpa using ⟨hcount, hwords⟩)
  simp only [readLine?, hfields, List.drop_succ_cons, List.drop_zero, Numeral.read?_write hsize]
  rfl

/-- A line reads as its event, apart from the instruction word. -/
theorem readLine?_line (h : e.Legible) (hn : e.Named) :
    readLine? e.line = some (e.withWord 0) := by
  cases e with
  | executed pc word mnemonic operands next write =>
    obtain ⟨o, -, rfl⟩ := hn
    exact readLine?_executed h
  | inputRequested pc => exact readLine?_inputRequested (h pc (by simp [integers]))
  | outputProduced pc value =>
    exact readLine?_outputProduced (h pc (by simp [integers])) (h value (by simp [integers]))
  | halted pc => exact readLine?_halted (h pc (by simp [integers]))
  | rebooted size => exact readLine?_rebooted (h size (by simp [integers]))

example : readLine? "[4] MUL 5,-3,9 ; [9] <- -15 -> pc=8" =
    some (executed 4 0 "MUL" [5, -3, 9] 8 (some (9, -15))) := by decide

/-- **The lines of events are unambiguous.**  Every event whose integers can be written and whose
mnemonic, if it has one, is in the table, is shown as a line.  Two such events have the same line
exactly if they are of the same kind and agree in everything but the instruction word. -/
theorem event_lines_unambiguous (h : e.Legible) (h' : e'.Legible) (hn : e.Named)
    (hn' : e'.Named) :
    ∃ text text', e.render = .ok text ∧ e'.render = .ok text' ∧
      (text = text' ↔ ∃ word, e' = e.withWord word) := by
  refine ⟨_, _, render_of_legible h, render_of_legible h', fun hline => ?_, ?_⟩
  · have hread := readLine?_line h' hn'
    rw [← hline, readLine?_line h hn] at hread
    obtain ⟨word, hword⟩ := e'.exists_withWord_eq
    refine ⟨word, ?_⟩
    calc e' = (e'.withWord 0).withWord word := by rw [withWord_withWord, hword]
      _ = (e.withWord 0).withWord word := by rw [Option.some.inj hread]
      _ = e.withWord word := withWord_withWord 0 word e
  · rintro ⟨word, rfl⟩
    exact (line_withWord word e).symm

/-- A halt, executed under a word with or without surplus digits. -/
def halting (word : Int) : Event :=
  executed 4 word "HALT" [] 5 none

/-- The line of an executed halt does not tell its word, but it is not the line of the machine's
coming to a halt. -/
theorem halting_lines :
    ((halting 99).Legible ∧ (halting 11199).Legible ∧ (halted 4).Legible ∧
      (halting 99).Named ∧ (halting 11199).Named ∧ (halted 4).Named) ∧
    (∃ text, (halting 99).render = .ok text ∧ (halting 11199).render = .ok text) ∧
    ∃ text text', (halting 99).render = .ok text ∧ (halted 4).render = .ok text' ∧
      text ≠ text' := by
  have h : (halting 99).Legible := by decide +kernel
  have h' : (halting 11199).Legible := by decide +kernel
  have hhalted : (halted 4).Legible := by decide +kernel
  have hnamed : ∀ word, (halting word).Named := fun word => ⟨.halt, Opcode.mem_all _, rfl⟩
  obtain ⟨text, text', htext, htext', hsame⟩ :=
    event_lines_unambiguous h h' (hnamed 99) (hnamed 11199)
  obtain rfl := hsame.2 ⟨11199, rfl⟩
  obtain ⟨line, line', hline, hline', hdiffer⟩ :=
    event_lines_unambiguous h hhalted (hnamed 99) trivial
  refine ⟨⟨h, h', hhalted, hnamed 99, hnamed 11199, trivial⟩, ⟨text, htext, htext'⟩, line, line',
    hline, hline', fun heq => ?_⟩
  obtain ⟨word, hword⟩ := hdiffer.1 heq
  cases hword

end Intcode.Event

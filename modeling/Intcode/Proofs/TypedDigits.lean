import Intcode.Proofs.ProgramGrammar
import Intcode.Window

/-!
# What is typed into the window

While the program waits for input, the window collects what the user types until the enter key
queues it.  Two readers look at the same text: the keys are let through one by one, and the whole is
read when it is queued.  They do not agree on every text: superscripts and other signs that stand
for a digit pass the first and not the second, and so do more digits than a numeral may have.

* `Visited`: the views through which a sitting can pass; `visited_run` says that a sitting ends in
  one of them;
* `Entry`: a minus sign, perhaps, and signs for digits; `Visited.entry` says that nothing else can
  be built, by what each event does to the text;
* `readTyped?_eq_some_iff`: such a text is read as the integer that it spells;
* `figures`, `Decimal`, `exists_literal_iff`: the texts that spell one;
* `enter_queues_decimal_digits`: what the enter key does in every view;
* `superscript_refused`: a text with a digit that cannot be queued.
-/

namespace Intcode

/-! ### Signs for digits -/

namespace Text

variable {c : Char}

/-- The code points of the blank characters. -/
def blanks : List Nat :=
  List.range' 9 5 ++ List.range' 28 5 ++ List.range' 0x2000 11 ++
    [0x85, 0xa0, 0x1680, 0x2028, 0x2029, 0x202f, 0x205f, 0x3000]

theorem toNat_mem_blanks (h : isBlank c = true) : c.toNat ∈ blanks := by
  simp only [isBlank, Bool.or_eq_true, Bool.and_eq_true, decide_eq_true_eq, beq_iff_eq] at h
  simp only [blanks, List.mem_append, List.mem_range'_1, List.mem_cons, List.not_mem_nil, or_false]
  omega

/-- No sign for a digit is blank. -/
theorem isBlank_of_isDigitLike (h : isDigitLike c = true) : isBlank c = false := by
  have hnot : ∀ n ∈ blanks, isDigitLike (Char.ofNat n) = false := by decide
  refine Bool.eq_false_iff.2 fun hblank => ?_
  have hc := hnot c.toNat (toNat_mem_blanks hblank)
  rw [Char.ofNat_toNat, h] at hc
  cases hc

theorem ne_minus_of_isDigitLike (h : isDigitLike c = true) : c ≠ '-' := by
  rintro rfl
  exact absurd h (by decide)

end Text

/-! ### Texts of digits -/

namespace Window

variable {cs ds : List Char}

/-- What can be typed: a minus sign, perhaps, and signs for digits. -/
def Entry (cs : List Char) : Prop :=
  ∃ digits, (cs = digits ∨ cs = '-' :: digits) ∧ ∀ c ∈ digits, Text.isDigitLike c = true

theorem entry_nil : Entry [] :=
  ⟨[], .inl rfl, by simp⟩

theorem entry_minus : Entry ['-'] :=
  ⟨[], .inr rfl, by simp⟩

theorem Entry.append (h : Entry cs) (hds : ∀ c ∈ ds, Text.isDigitLike c = true) :
    Entry (cs ++ ds) := by
  obtain ⟨digits, hcs, hdigits⟩ := h
  refine ⟨digits ++ ds, ?_, List.forall_mem_append.2 ⟨hdigits, hds⟩⟩
  rcases hcs with rfl | rfl
  · exact .inl rfl
  · exact .inr rfl

theorem Entry.dropLast (h : Entry cs) : Entry cs.dropLast := by
  obtain ⟨digits, hcs, hdigits⟩ := h
  have hrest : ∀ c ∈ digits.dropLast, Text.isDigitLike c = true :=
    fun c hc => hdigits c (List.dropLast_subset _ hc)
  rcases hcs with rfl | rfl
  · exact ⟨_, .inl rfl, hrest⟩
  · cases digits with
    | nil => exact entry_nil
    | cons d digits => exact ⟨_, .inr rfl, hrest⟩

/-- A minus sign is accepted at the start only, and signs for digits everywhere. -/
theorem Entry.of_accepts {typed text : String} (h : Entry typed.toList)
    (haccepts : accepts typed text = true) : Entry (typed ++ text).toList := by
  rw [String.toList_append]
  simp only [accepts, Bool.or_eq_true, Bool.and_eq_true, List.all_eq_true, beq_iff_eq] at haccepts
  rcases haccepts with ⟨-, hdigits⟩ | ⟨rfl, hempty⟩
  · exact h.append hdigits
  · rw [String.isEmpty_iff] at hempty
    rw [hempty]
    exact entry_minus

/-! ### What events do to the text -/

variable {m : Machine} {maxSteps : Option Int} {v v' : View} {code : Int} {text : String}

/-- The views through which a sitting on a machine can pass. -/
inductive Visited (m : Machine) (maxSteps : Option Int) : View → Prop
  /-- The window is opened. -/
  | opened : Visited m maxSteps ⟨.start m maxSteps, "", true⟩
  /-- An event is dealt with. -/
  | input {v : View} (h : Visited m maxSteps v) (i : Input) : Visited m maxSteps (v.input i).1
  /-- A session that runs by itself goes on. -/
  | advance {v : View} (h : Visited m maxSteps v) : Visited m maxSteps v.advance.1

theorem visited_inputs (h : Visited m maxSteps v) (events : List Input) :
    Visited m maxSteps (View.inputs events v).1 := by
  induction events generalizing v with
  | nil => exact h
  | cons i events ih =>
    have hi := h.input i
    unfold View.inputs
    split
    · rename_i heq
      rw [heq] at hi
      exact ih hi
    · exact hi

theorem visited_frame (h : Visited m maxSteps v) (events : List Input) :
    Visited m maxSteps (v.frame events).view := by
  have hinputs := visited_inputs h events
  have hadvance := hinputs.advance
  unfold View.frame
  split
  · rename_i heq
    rwa [heq] at hinputs
  · rename_i heq
    rw [heq] at hadvance
    dsimp only at hadvance
    split
    · rename_i heq'
      rwa [heq'] at hadvance
    · rename_i heq'
      rw [heq'] at hadvance
      split <;> exact hadvance

/-- Frame after frame, a sitting passes through such views, and ends in one. -/
theorem visited_loop (h : Visited m maxSteps v) (frames : List (List Input)) :
    Visited m maxSteps (View.loop frames v).view := by
  induction frames generalizing v with
  | nil =>
    have hframe := visited_frame h [.close]
    unfold View.loop
    dsimp only
    split <;> exact hframe
  | cons events frames ih =>
    have hframe := visited_frame h events
    unfold View.loop
    dsimp only
    split
    · exact hframe
    · split
      · exact ih hframe
      · exact hframe

theorem visited_run (frames : List (List Input)) (m : Machine) (maxSteps : Option Int) :
    Visited m maxSteps (run frames m maxSteps).view :=
  visited_loop .opened frames

theorem typed_advance (v : View) : v.advance.1.typed = v.typed := by
  unfold View.advance
  split
  · split <;> rfl
  · rfl

/-- A command keeps the text or, with a reset, removes it. -/
theorem typed_command (v : View) (code : Int) :
    (v.command code).1.typed = v.typed ∨ (v.command code).1.typed = "" := by
  unfold View.command
  split
  · exact .inl rfl
  · split
    · split <;> exact .inl rfl
    · split
      · exact .inl rfl
      · split
        · exact .inr rfl
        · exact .inl rfl

/-- The enter keys hand the text over, and remove it if it is accepted. -/
theorem typing?_of_enter (hcode : code = keyReturn ∨ code = keyEnter) :
    v.typing? code text =
      some { v with
        session := (v.session.provideInput v.typed).1
        typed := if (v.session.provideInput v.typed).2 then "" else v.typed } := by
  have henter : (code == keyReturn || code == keyEnter) = true := by simpa using hcode
  rw [View.typing?, if_pos henter]

theorem Entry.typing? (h : Entry v.typed.toList) (htyping : v.typing? code text = some v') :
    Entry v'.typed.toList := by
  by_cases henter : code = keyReturn ∨ code = keyEnter
  · rw [typing?_of_enter henter] at htyping
    cases htyping
    dsimp only
    split
    · exact entry_nil
    · exact h
  · have hcode : ¬ (code == keyReturn || code == keyEnter) = true := by simpa using henter
    rw [View.typing?, if_neg hcode] at htyping
    split at htyping
    · cases htyping
      rw [String.toList_ofList]
      exact h.dropLast
    · split at htyping
      · rename_i haccepts
        cases htyping
        exact h.of_accepts haccepts
      · cases htyping

theorem Entry.key (h : Entry v.typed.toList) (code : Int) (text : String) :
    Entry (v.key code text).1.typed.toList := by
  unfold View.key
  split
  · rename_i v' hv'
    split at hv'
    · exact h.typing? hv'
    · cases hv'
  · rcases typed_command v code with hc | hc <;> rw [hc]
    · exact h
    · exact entry_nil

/-- Nothing but a minus sign and signs for digits can be typed. -/
theorem Visited.entry (h : Visited m maxSteps v) : Entry v.typed.toList := by
  induction h with
  | opened => exact entry_nil
  | input _ i ih =>
    cases i with
    | close => exact ih
    | key code text => exact ih.key code text
    | other => exact ih
  | @advance v _ ih =>
    rw [typed_advance]
    exact ih

/-! ### What the text spells -/

theorem Entry.not_mem_line (h : Entry cs) : '_' ∉ cs := by
  obtain ⟨digits, hcs, hdigits⟩ := h
  have hline : '_' ∉ digits := fun hmem => absurd (hdigits '_' hmem) (by decide)
  rcases hcs with rfl | rfl
  · exact hline
  · simpa using hline

theorem Entry.trimBy_eq (h : Entry cs) : Text.trimBy Text.isBlank cs = cs := by
  obtain ⟨digits, hcs, hdigits⟩ := h
  have hblank : ∀ c ∈ digits, Text.isBlank c = false :=
    fun c hc => Text.isBlank_of_isDigitLike (hdigits c hc)
  apply Text.trimBy_of_all_not
  rcases hcs with rfl | rfl
  · exact hblank
  · exact List.forall_mem_cons.2 ⟨by decide, hblank⟩

/-- What was typed is read as the integer that it spells. -/
theorem readTyped?_eq_some_iff {typed : String} {n : Int} (h : Entry typed.toList) :
    Numeral.readTyped? typed = some n ↔ Literal typed.toList n := by
  rw [Numeral.readTyped?, h.trimBy_eq]
  exact read?_eq_some_iff h.not_mem_line

/-- The characters of a text other than minus signs. -/
def figures (cs : List Char) : List Char :=
  cs.filter (· ≠ '-')

/-- The text has decimal digits only, and no more than a numeral may have. -/
def Decimal (cs : List Char) : Prop :=
  (∀ c ∈ figures cs, (Text.digitValue? c).isSome = true) ∧ (figures cs).length ≤ 4300

theorem figures_eq (h : ∀ c ∈ ds, Text.isDigitLike c = true) : figures ds = ds := by
  rw [figures, List.filter_eq_self]
  intro c hc
  simpa using Text.ne_minus_of_isDigitLike (h c hc)

theorem exists_figures_iff :
    (∃ n, Figures ds n) ↔
      ds ≠ [] ∧ ds.length ≤ 4300 ∧ ∀ c ∈ ds, (Text.digitValue? c).isSome = true := by
  have hvalues : (∃ values, List.Forall₂ (fun c d => Text.digitValue? c = some d) ds values) ↔
      ∀ c ∈ ds, (Text.digitValue? c).isSome = true := by
    simp only [exists_forall₂_iff, Option.isSome_iff_exists]
  rw [← hvalues]
  constructor
  · rintro ⟨n, hne, hfits, values, hds, -⟩
    exact ⟨hne, hfits, values, hds⟩
  · rintro ⟨hne, hfits, values, hds⟩
    exact ⟨_, hne, hfits, values, hds, rfl⟩

/-- The sign that a text may have does not matter for whether it spells an integer. -/
theorem literal_iff_figures (hcs : cs = ds ∨ cs = '-' :: ds)
    (hds : ∀ c ∈ ds, Text.isDigitLike c = true) : (∃ n, Literal cs n) ↔ ∃ n, Figures ds n := by
  rcases hcs with rfl | rfl
  · constructor
    · rintro ⟨n, hn⟩
      cases hn with
      | unsigned hfigures => exact ⟨_, hfigures⟩
      | plus hfigures => exact absurd (hds '+' List.mem_cons_self) (by decide)
      | minus hfigures => exact absurd (hds '-' List.mem_cons_self) (by decide)
    · rintro ⟨n, hn⟩
      exact ⟨n, .unsigned hn⟩
  · constructor
    · rintro ⟨n, hn⟩
      cases hn with
      | unsigned hfigures => exact absurd List.mem_cons_self (hfigures.not_mem (by decide))
      | minus hfigures => exact ⟨_, hfigures⟩
    · rintro ⟨n, hn⟩
      exact ⟨-n, .minus hn⟩

/-- A text with a sign for a digit spells an integer exactly if it has decimal digits only, and not
too many. -/
theorem exists_literal_iff (h : Entry cs) (hdigit : ∃ c ∈ cs, c ≠ '-') :
    (∃ n, Literal cs n) ↔ Decimal cs := by
  obtain ⟨digits, hcs, hdigits⟩ := h
  have hfigures : figures cs = digits := by
    rcases hcs with rfl | rfl
    · exact figures_eq hdigits
    · exact figures_eq hdigits
  have hne : digits ≠ [] := by
    rintro rfl
    obtain ⟨c, hc, hminus⟩ := hdigit
    rcases hcs with rfl | rfl
    · cases hc
    · exact hminus (List.mem_singleton.1 hc)
  rw [literal_iff_figures hcs hdigits, exists_figures_iff, Decimal, hfigures]
  exact ⟨fun h => ⟨h.2.2, h.2.1⟩, fun h => ⟨hne, h.2, h.1⟩⟩

/-! ### The enter keys -/

/-- The view after an integer was queued behind the values that wait already: the text is
removed. -/
def View.queued (v : View) (n : Int) : View :=
  { v with
    typed := ""
    session := { v.session with
      machine := { v.session.machine with
        config.input := v.session.machine.config.input ++ [n] }
      message := "Queued input " ++ Numeral.write n ++ "." } }

/-- The view after the text was refused: nothing but the message changes. -/
def View.refused (v : View) : View :=
  { v with
    session := { v.session with message := "Not an integer: " ++ Text.quoted v.typed } }

theorem key_of_enter (hblocked : v.session.blocked = true)
    (hcode : code = keyReturn ∨ code = keyEnter) :
    v.key code text =
      match Numeral.readTyped? v.typed with
      | some n => (v.queued n, none)
      | none => (v.refused, none) := by
  rw [View.key, if_pos hblocked, typing?_of_enter hcode, Session.provideInput]
  cases Numeral.readTyped? v.typed <;> rfl

/-- **The enter keys queue decimal digits.**  Take any view through which a sitting can pass, in
which the program waits for input and a character other than a minus sign was typed.  What was typed
is a minus sign, perhaps, and signs for digits.  If all of these are decimal digits, and no more
than a numeral may have, then the enter keys queue exactly the integer that the text spells and
remove the text.  If not, then the text spells no integer, and the enter keys only say so: nothing
is queued and the text stays. -/
theorem enter_queues_decimal_digits (hv : Visited m maxSteps v)
    (hblocked : v.session.blocked = true) (hdigit : ∃ c ∈ v.typed.toList, c ≠ '-')
    (hcode : code = keyReturn ∨ code = keyEnter) (text : String) :
    Entry v.typed.toList ∧
    (Decimal v.typed.toList →
      ∃ n, Literal v.typed.toList n ∧ v.key code text = (v.queued n, none)) ∧
    (¬ Decimal v.typed.toList →
      (∀ n, ¬ Literal v.typed.toList n) ∧ v.key code text = (v.refused, none)) := by
  have hentry := hv.entry
  rw [← exists_literal_iff hentry hdigit, key_of_enter hblocked hcode]
  refine ⟨hentry, ?_, fun hnone => ?_⟩
  · rintro ⟨n, hn⟩
    rw [(readTyped?_eq_some_iff hentry).2 hn]
    exact ⟨n, hn, rfl⟩
  · have hread : Numeral.readTyped? v.typed = none := by
      rw [Option.eq_none_iff_forall_ne_some]
      exact fun n hn => hnone ⟨n, (readTyped?_eq_some_iff hentry).1 hn⟩
    rw [hread]
    exact ⟨not_exists.1 hnone, rfl⟩

/-- A machine whose program reads one value. -/
def asking : Machine :=
  .ofProgram ⟨"3,1,99", #[3, 1, 99], by rfl⟩ false

/-- The program waits; then a minus sign, a superscript, which is removed again, and two digits of
different scripts are typed. -/
def typedDigits : View :=
  (run [[.key keySpace " ", .key 45 "-"], [.key 178 "²", .key keyBackspace ""],
    [.key 0 "٣", .key 55 "7"]] asking none).view

/-- The two digits are queued as one integer. -/
theorem typedDigits_queued :
    Visited asking none typedDigits ∧ typedDigits.typed = "-٣7" ∧
      typedDigits.key keyEnter "" = (typedDigits.queued (-37), none) := by
  have hvisited : Visited asking none typedDigits := visited_run _ _ _
  have htyped : typedDigits.typed = "-٣7" := by decide +kernel
  have hfigures : figures typedDigits.typed.toList = ['٣', '7'] := by
    rw [htyped]
    decide +kernel
  have hdecimal : Decimal typedDigits.typed.toList := by
    rw [Decimal, hfigures]
    exact ⟨by simp [show (Text.digitValue? '٣').isSome = true by decide,
      show (Text.digitValue? '7').isSome = true by decide], by decide⟩
  have hdigit : ∃ c ∈ typedDigits.typed.toList, c ≠ '-' := by
    rw [htyped]
    exact ⟨'7', by decide +kernel, by decide⟩
  obtain ⟨-, hqueued, -⟩ :=
    enter_queues_decimal_digits hvisited (by decide +kernel) hdigit (.inr rfl) ""
  obtain ⟨n, hn, hkey⟩ := hqueued hdecimal
  have hread := (readTyped?_eq_some_iff hvisited.entry).2 hn
  obtain rfl : -37 = n := Option.some.inj (Eq.trans (by rw [htyped]; decide +kernel) hread)
  exact ⟨hvisited, htyped, hkey⟩

/-- The program waits, and a superscript is typed. -/
def typedSuperscript : View :=
  (run [[.key keySpace " ", .key 178 "²"]] asking none).view

/-- The superscript passes as a digit, but the enter key does not queue it and leaves it there. -/
theorem superscript_refused :
    Visited asking none typedSuperscript ∧ typedSuperscript.session.blocked = true ∧
      typedSuperscript.typed = "²" ∧
      (typedSuperscript.key keyReturn "").1.typed = "²" ∧
      (typedSuperscript.key keyReturn "").1.session.machine.config.input = [] := by
  refine ⟨visited_run _ _ _, ?_, ?_, ?_, ?_⟩ <;> decide +kernel

end Window

end Intcode

import Intcode.Command.Execute
import Intcode.Proofs.Forwarding
import Intcode.Proofs.Transparency

/-!
# What a command prints while it runs a program

Between two lines of input the command runs its machine as far as it can, prints the values that the
machine has put out and, if a trace is asked for, the events that it has recorded.  This module says
what one such turn does and how one turn follows another.

* `asLines`: a text made of lines; `linesOf_asLines_append` reads it back;
* `Machine.run_keeps`: what every step keeps, every run keeps;
* `Machine.Printable`, `Machine.emptied`, `Transcript.report`: everything that a machine shows can
  be printed, the machine after that, and what is written then;
* `Settings.Watches`: the machine records exactly if a trace is asked for;
* `Settings.turn_cases`: everything that a turn can do;
* `attend_of_ended`, `attend_of_accepted`, `perform_of_prepare`: how one turn follows another, and
  how the first is reached.
-/

namespace Intcode

namespace Machine

variable {m m' : Machine} {fuel : Nat} {reply : Except Failure Status}

/-- What every step keeps, every run keeps. -/
theorem run_keeps {P : Machine → Prop} (hstep : ∀ m, P m → P m.step.1) (hm : P m)
    (h : m.run fuel = some (m', reply)) : P m' := by
  induction fuel generalizing m with
  | zero => cases h
  | succ fuel ih =>
    have hnext : P m.step.1 := hstep m hm
    by_cases hs : m.step.2 = .ok .running
    · rw [run_succ_of_running (advances_of_running hs)] at h
      exact ih hnext h
    · rw [run_succ_of_stopped hs] at h
      rwa [Option.some.inj h] at hnext

/-- Everything that the machine has put out and recorded can be printed. -/
def Printable (m : Machine) : Prop :=
  (∀ v ∈ m.config.output, Numeral.Short v) ∧ ∀ e ∈ m.events.toList, e.Legible

/-- The machine after its output and its events have been taken away. -/
def emptied (m : Machine) : Machine :=
  m.drain.2.collect.2

end Machine

namespace Command

/-! ### Texts of lines -/

/-- A text made of lines, with a line feed after each. -/
def asLines (lines : List String) : String :=
  String.join (lines.map (· ++ "\n"))

@[simp] theorem asLines_nil : asLines [] = "" := rfl

@[simp] theorem asLines_cons (line : String) (lines : List String) :
    asLines (line :: lines) = line ++ "\n" ++ asLines lines := by
  simp [asLines, String.join_cons]

@[simp] theorem asLines_append (lines lines' : List String) :
    asLines (lines ++ lines') = asLines lines ++ asLines lines' := by
  simp [asLines, String.join_append]

/-- A line in front of a text is the first of its lines. -/
theorem linesOf_line_append {line : String} (h : '\n' ∉ line.toList) (rest : String) :
    linesOf (line ++ "\n" ++ rest) = line :: linesOf rest := by
  have hpieces : (line ++ "\n" ++ rest).toList.splitOn '\n' =
      line.toList :: rest.toList.splitOn '\n' := by
    have htext : (line ++ "\n" ++ rest).toList = line.toList ++ '\n' :: rest.toList := by
      simp [String.toList_append]
    rw [htext, List.splitOn_append_cons_self_of_not_mem h]
  have hrest := List.splitOn_ne_nil '\n' rest.toList
  unfold linesOf
  simp only [hpieces, List.getLast?_cons_of_ne_nil hrest, List.dropLast_cons_of_ne_nil hrest]
  split <;> simp

/-- Nothing but a text on the standard input: an empty directory and no front end. -/
def Surroundings.piped (stdin : String) : Surroundings :=
  { files := .empty, lines := linesOf stdin, screen := ⟨24, 80⟩, keys := [], answers := []
    frames := [], hasWindow := false, hasTerminal := false }

theorem linesOf_asLines_append {lines : List String} (h : ∀ line ∈ lines, '\n' ∉ line.toList)
    (rest : String) : linesOf (asLines lines ++ rest) = lines ++ linesOf rest := by
  induction lines with
  | nil => simp
  | cons line lines ih =>
    obtain ⟨hline, hlines⟩ := List.forall_mem_cons.1 h
    rw [asLines_cons, String.append_assoc, linesOf_line_append hline, ih hlines, List.cons_append]

namespace Transcript

theorem printLines_eq (t : Transcript) (lines : List String) :
    t.printLines lines = ⟨t.out ++ asLines lines, t.err⟩ := by
  induction lines generalizing t with
  | nil => simp [printLines]
  | cons line lines ih =>
    have hcons : t.printLines (line :: lines) = (t.print (line ++ "\n")).printLines lines := rfl
    rw [hcons, ih]
    simp [print, String.append_assoc]

theorem warnLines_eq (t : Transcript) (lines : List String) :
    t.warnLines lines = ⟨t.out, t.err ++ asLines lines⟩ := by
  induction lines generalizing t with
  | nil => simp [warnLines]
  | cons line lines ih =>
    have hcons : t.warnLines (line :: lines) = (t.warn line).warnLines lines := rfl
    rw [hcons, ih]
    simp [warn, String.append_assoc]

/-- The transcript after an account of a run, the output and the events of a machine. -/
def report (t : Transcript) (account : String) (m : Machine) : Transcript :=
  ⟨t.out ++ account ++ asLines (m.config.output.map Numeral.write),
    t.err ++ asLines (m.events.toList.map Event.line)⟩

/-- A failure that ends a command with an exit status is a fault, and is reported. -/
theorem eq_fault_of_fail {t : Transcript} {f : Failure} {n : Nat}
    (h : (t.fail f).ending = .exit n) :
    ∃ fault, f = .fault fault ∧
      t.fail f = ⟨t.warn ("error: " ++ fault.message), .exit 1, [], []⟩ := by
  cases f with
  | fault fault =>
    refine ⟨fault, rfl, ?_⟩
    by_cases hpc : (fault.pc.toList.all fun pc => decide (Numeral.Short pc)) = true
    · have hreported : (Failure.fault fault).reported = .fault fault := if_pos hpc
      simp only [fail, hreported]
    · have hreported : (Failure.fault fault).reported = .overlong := if_neg hpc
      simp only [fail, hreported] at h
      cases h
  | overlong => cases h
  | noPhases => cases h

end Transcript

namespace Settings

variable {s : Settings} {fuel : Nat} {t t' : Transcript} {m m' : Machine} {account : String}
  {status : Status} {reply : Except Failure Status} {f : Failure} {o : Outcome}

/-! ### One turn -/

/-- The machine records exactly if a trace is asked for, and otherwise has recorded nothing. -/
def Watches (s : Settings) (m : Machine) : Prop :=
  m.recording = s.trace ∧ (s.trace = false → m.events = #[])

theorem Watches.step (h : s.Watches m) : s.Watches m.step.1 := by
  refine ⟨by rw [Machine.recording_step, h.1], fun htrace => ?_⟩
  rw [Machine.events_step_of_not_recording (h.1.trans htrace), h.2 htrace]

theorem Watches.run (h : s.Watches m) (hrun : m.run fuel = some (m', reply)) : s.Watches m' :=
  Machine.run_keeps (fun _ => Watches.step) h hrun

/-- A run is the same with an account of it, unless that stops at a long integer. -/
theorem run_of_advance (h : s.advance fuel m = some (m', account, reply))
    (hr : reply ≠ .error .overlong) : m.run fuel = some (m', reply) := by
  unfold advance at h
  split at h
  · exact Machine.run_of_runShown h hr
  · obtain ⟨⟨m₁, reply₁⟩, hrun, heq⟩ := Option.map_eq_some_iff.1 h
    cases heq
    exact hrun

/-- Values that can be written are all printed. -/
theorem untilFailure_integerText {vs : List Int} (h : ∀ v ∈ vs, Numeral.Short v) :
    untilFailure (vs.map integerText) = (vs.map Numeral.write, none) :=
  untilFailure_map_of_ok fun v hv => if_pos (h v hv)

theorem printEvents_of_legible (hw : s.Watches m) (h : ∀ e ∈ m.events.toList, e.Legible) :
    s.printEvents t m =
      (⟨t.out, t.err ++ asLines (m.events.toList.map Event.line)⟩, m.collect.2, none) := by
  unfold printEvents
  by_cases htrace : s.trace = true
  · have hlines : untilFailure (m.events.toList.map Event.render) =
        (m.events.toList.map Event.line, none) :=
      untilFailure_map_of_ok fun e he => Event.render_of_legible (h e he)
    simp only [htrace, if_true, Machine.collect, hlines, Transcript.warnLines_eq]
  · have hevents : m.events = #[] := hw.2 (Bool.eq_false_iff.2 htrace)
    have hsame : m.collect.2 = m := by simp [Machine.collect, ← hevents]
    simp [htrace, hevents, hsame]

/-- An event that cannot be shown was recorded only because it was asked for, and stops the
printing. -/
theorem printEvents_of_not_legible (hw : s.Watches m) (h : ¬ ∀ e ∈ m.events.toList, e.Legible) :
    ∃ t' m', s.printEvents t m = (t', m', some .overlong) := by
  have htrace : s.trace = true := by
    by_cases htrace : s.trace = true
    · exact htrace
    · rw [hw.2 (Bool.eq_false_iff.2 htrace)] at h
      exact absurd (by simp) h
  have hfailure : (untilFailure (m.events.toList.map Event.render)).2 = some .overlong :=
    untilFailure_map_of_error (fun _ => Event.render_of_legible)
      (fun _ => Event.render_of_not_legible) h
  refine ⟨t.warnLines (untilFailure (m.events.toList.map Event.render)).1, m.collect.2, ?_⟩
  simp only [printEvents, htrace, if_true, Machine.collect, hfailure]

/-- What a run has put out and recorded is printed. -/
theorem turn_of_printable (hadvance : s.advance fuel m = some (m', account, .ok status))
    (hw : s.Watches m') (hp : m'.Printable) :
    s.turn fuel t m = some (if status = .halted then
      .ended (s.finish (t.report account m') m'.emptied)
      else .waiting (t.report account m') m'.emptied) := by
  have hdrain : m'.drain.1 = m'.config.output := rfl
  have hevents := printEvents_of_legible (t := ⟨t.out ++ account ++
    asLines (m'.config.output.map Numeral.write), t.err⟩) (m := m'.drain.2) hw hp.2
  simp only [turn, hadvance, Option.map_some, hdrain, untilFailure_integerText hp.1,
    Transcript.printLines_eq, Transcript.print, hevents]
  split <;> rfl

/-- A failure ends the command, and only the account is printed before. -/
theorem turn_of_error (hadvance : s.advance fuel m = some (m', account, .error f)) :
    s.turn fuel t m = some (.ended ((t.print account).fail f)) := by
  simp only [turn, hadvance, Option.map_some]

/-- A value or an event with a long integer ends the command without a report. -/
theorem turn_of_not_printable (hadvance : s.advance fuel m = some (m', account, .ok status))
    (hw : s.Watches m') (hp : ¬ m'.Printable) :
    ∃ o, s.turn fuel t m = some (.ended o) ∧ o.ending = .failed .overlong := by
  have hdrain : m'.drain.1 = m'.config.output := rfl
  by_cases hvalues : ∀ v ∈ m'.config.output, Numeral.Short v
  · obtain ⟨t₁, m₁, hevents⟩ := printEvents_of_not_legible (m := m'.drain.2)
      (t := (t.print account).printLines (m'.config.output.map Numeral.write)) hw
      fun hevents => hp ⟨hvalues, hevents⟩
    simp only [turn, hadvance, Option.map_some, hdrain, untilFailure_integerText hvalues, hevents]
    exact ⟨_, rfl, rfl⟩
  · have hfailure : (untilFailure (m'.config.output.map integerText)).2 = some .overlong :=
      untilFailure_map_of_error (fun _ hv => if_pos hv) (fun _ hv => if_neg hv) hvalues
    simp only [turn, hadvance, Option.map_some, hdrain, hfailure]
    exact ⟨_, rfl, rfl⟩

/-- Everything that a turn can do: it fails, or what the machine shows is printed, or an integer is
too long for that. -/
theorem turn_cases {turn : Turn} (hw : s.Watches m) (h : s.turn fuel t m = some turn) :
    (∃ m' account f, s.advance fuel m = some (m', account, .error f) ∧
      turn = .ended ((t.print account).fail f)) ∨
    (∃ m' account status, s.advance fuel m = some (m', account, .ok status) ∧ m'.Printable ∧
      turn = if status = .halted then .ended (s.finish (t.report account m') m'.emptied)
        else .waiting (t.report account m') m'.emptied) ∨
    ∃ o, turn = .ended o ∧ o.ending = .failed .overlong := by
  obtain ⟨⟨m', account, reply⟩, hadvance, -⟩ := Option.map_eq_some_iff.1 h
  cases reply with
  | error f =>
    rw [turn_of_error hadvance] at h
    exact .inl ⟨m', account, f, hadvance, (Option.some.inj h).symm⟩
  | ok status =>
    have hw' : s.Watches m' := hw.run (run_of_advance hadvance (by simp))
    by_cases hp : m'.Printable
    · rw [turn_of_printable hadvance hw' hp] at h
      exact .inr (.inl ⟨m', account, status, hadvance, hp, (Option.some.inj h).symm⟩)
    · obtain ⟨o, hturn, hending⟩ := turn_of_not_printable (t := t) hadvance hw' hp
      rw [hturn] at h
      exact .inr (.inr ⟨o, (Option.some.inj h).symm, hending⟩)

/-! ### From turn to turn -/

variable {line : String} {lines : List String} {v : Int}

theorem accept_eq_ok (h : accept t m line = .ok m') :
    ∃ v, Numeral.readTyped? line = some v ∧ m' = m.feed v := by
  unfold accept at h
  split at h <;> cases h
  exact ⟨_, ‹_›, rfl⟩

theorem accept_eq_error (h : accept t m line = .error o) :
    Numeral.readTyped? line = none ∧ o = malformed t line := by
  unfold accept at h
  split at h <;> cases h
  exact ⟨‹_›, rfl⟩

theorem attend_of_ended (h : s.turn fuel t m = some (.ended o)) :
    s.attend fuel lines t m = some (o, lines) := by
  rw [attend, h]

theorem attend_of_accepted (h : s.turn fuel t m = some (.waiting t' m'))
    (hline : Numeral.readTyped? line = some v) :
    s.attend fuel (line :: lines) t m = s.attend fuel lines t' (m'.feed v) := by
  rw [attend, h]
  simp only [accept, hline]

theorem perform_of_prepare {w : Surroundings} {text : String} (h : s.prepare text = .ok m)
    (hvisualize : s.visualize = none) :
    Kind.run.perform fuel w s text = (s.attend fuel w.lines {} m).map (·.1) := by
  simp only [Kind.perform, h, hvisualize]

end Settings

end Command

end Intcode

import Intcode.Proofs.Reboot
import Intcode.Proofs.Stalls
import Intcode.Proofs.Transcripts
import Mathlib.Control.Monad.Basic

/-!
# What is printed of what a program puts out

A command that runs a program prints values and events between the runs of its machine.  If a run
halts or waits, all that it has put out and recorded is printed.  If it ends with a fault, the
command reports the fault and ends, and what this last run has put out and recorded is lost.

* `Machine.recorded`, `Settings.account`, `Settings.shown`, `traced`: what a run records, what is
  printed in the course of it, and all that is printed if it is reported;
* `runs`: the machines with which the runs of a command begin;
* `Transcript.after`: what is written after runs that are all reported;
* `Settings.Closes`: what the last run adds to that, and how the command ends;
* `Settings.Ready`: a machine with which a run can begin;
* `waiting_of_turn`, `closes_of_turn`, `attend_closes`: a turn, and turn after turn;
* `failed_patch_loses_reboot`, `only_a_fault_loses_output`: a whole command line.
-/

namespace Intcode

/-- The events that a machine holds after a run. -/
def Machine.recorded (fuel : Nat) (m : Machine) : List Event :=
  match m.run fuel with
  | some (m', _) => m'.events.toList
  | none => []

theorem Machine.recorded_of_run {fuel : Nat} {m m' : Machine} {reply : Except Failure Status}
    (h : m.run fuel = some (m', reply)) : m.recorded fuel = m'.events.toList := by
  simp only [recorded, h]

theorem Machine.eq_overlong_of_dump {m : Machine} {f : Failure} (h : m.dump = .error f) :
    f = .overlong := by
  unfold Machine.dump at h
  split at h <;> cases h
  rfl

namespace Command

/-! ### The runs of a command -/

/-- The account that is printed in the course of a run; it is empty unless it is asked for. -/
def Settings.account (s : Settings) (fuel : Nat) (m : Machine) : String :=
  match s.advance fuel m with
  | some (_, account, _) => account
  | none => ""

/-- All that a run that is reported adds to the standard output: its account and the values that its
output instructions have put out, one on a line. -/
def Settings.shown (s : Settings) (fuel : Nat) (m : Machine) : String :=
  s.account fuel m ++ asLines ((emitted (m.effects fuel)).map Numeral.write)

/-- All that a run that is reported adds to the standard error: its events, one on a line. -/
def traced (fuel : Nat) (m : Machine) : String :=
  asLines ((m.recorded fuel).map Event.line)

/-- The machines with which the runs of a command begin.  A machine that waits is emptied and fed
the next line, as long as there is one and it is an integer. -/
def runs (fuel : Nat) : List String → Machine → List Machine
  | [], m => [m]
  | line :: lines, m =>
    match m.run fuel, Numeral.readTyped? line with
    | some (m', .ok .blocked), some v => m :: runs fuel lines (m'.emptied.feed v)
    | _, _ => [m]

/-- What is written after runs that are all reported. -/
def Transcript.after (s : Settings) (fuel : Nat) (t : Transcript) (ms : List Machine) :
    Transcript :=
  ⟨t.out ++ String.join (ms.map (s.shown fuel)), t.err ++ String.join (ms.map (traced fuel))⟩

/-- The memory that is printed at the end, if it is asked for. -/
def Settings.dumped (s : Settings) (m : Machine) : String :=
  match s.dump, m.dump with
  | true, .ok text => asLines [text]
  | _, _ => ""

/-- How a command ends with its last run, if `t` was written before that run. -/
inductive Settings.Closes (s : Settings) (fuel : Nat) (t : Transcript) (last : Machine) :
    Outcome → Prop
  /-- The program has halted, and the run is reported. -/
  | halted {m' : Machine} (h : last.run fuel = some (m', .ok .halted)) :
      Closes s fuel t last ⟨(t.after s fuel [last]).print (s.dumped m'), .exit 0, [], []⟩
  /-- The program waits and there is no line; the run is reported. -/
  | exhausted {m' : Machine} (h : last.run fuel = some (m', .ok .blocked)) :
      Closes s fuel t last (exhausted (t.after s fuel [last]) m')
  /-- The program waits and the line is no integer; the run is reported. -/
  | malformed {m' : Machine} {line : String} (h : last.run fuel = some (m', .ok .blocked))
      (hline : Numeral.readTyped? line = none) :
      Closes s fuel t last (malformed (t.after s fuel [last]) line)
  /-- The run has ended with a fault: nothing that it has put out or recorded is written, only its
  account. -/
  | fault {m' : Machine} {f : Fault} (h : last.run fuel = some (m', .error (.fault f))) :
      Closes s fuel t last
        ⟨(t.print (s.account fuel last)).warn ("error: " ++ f.message), .exit 1, [], []⟩

/-- A run can begin: the machine records exactly if a trace is asked for, and nothing waits to be
printed. -/
structure Settings.Ready (s : Settings) (m : Machine) : Prop where
  watches : s.Watches m
  output : m.config.output = []

variable {s : Settings} {fuel n : Nat} {t t' : Transcript} {m m' : Machine} {account : String}
  {reply : Except Failure Status} {o : Outcome} {line : String} {lines left : List String} {v : Int}

theorem runs_of_accepted (h : m.run fuel = some (m', .ok .blocked))
    (hline : Numeral.readTyped? line = some v) :
    runs fuel (line :: lines) m = m :: runs fuel lines (m'.emptied.feed v) := by
  simp only [runs, h, hline]

theorem runs_of_stopped (h : m.run fuel = some (m', reply)) (hr : reply ≠ .ok .blocked)
    (lines : List String) : runs fuel lines m = [m] := by
  cases lines with
  | nil => rfl
  | cons line lines =>
    unfold runs
    split
    · rename_i hblocked _
      rw [h] at hblocked
      cases hblocked
      exact absurd rfl hr
    · rfl

theorem runs_of_malformed (hline : Numeral.readTyped? line = none) :
    runs fuel (line :: lines) m = [m] := by
  unfold runs
  split
  · rename_i hread
    rw [hline] at hread
    cases hread
  · rfl

theorem after_nil : t.after s fuel [] = t := by
  simp [Transcript.after]

theorem after_cons (ms : List Machine) :
    t.after s fuel (m :: ms) = (t.after s fuel [m]).after s fuel ms := by
  simp [Transcript.after, String.join_cons, String.append_assoc]

/-! ### One turn -/

namespace Settings

theorem account_of_advance (h : s.advance fuel m = some (m', account, reply)) :
    s.account fuel m = account := by
  simp only [Settings.account, h]

/-- What is printed after a run is what its instructions have put out and what it has recorded. -/
theorem report_eq_after {status : Status} (hready : s.Ready m)
    (h : s.advance fuel m = some (m', account, .ok status)) :
    t.report account m' = t.after s fuel [m] := by
  have hrun : m.run fuel = some (m', .ok status) := run_of_advance h (by simp)
  have hvalues : m'.config.output = emitted (m.effects fuel) := by
    rw [(Machine.run_queues hrun).2, hready.output, List.nil_append]
  simp [Transcript.report, Transcript.after, shown, traced, account_of_advance h, hvalues,
    Machine.recorded_of_run hrun, String.join_cons, String.append_assoc]

/-- After a turn the command goes on only if the machine waits, and then the run is reported. -/
theorem waiting_of_turn {m₁ : Machine} (hready : s.Ready m)
    (h : s.turn fuel t m = some (.waiting t' m₁)) :
    ∃ m', m.run fuel = some (m', .ok .blocked) ∧ t' = t.after s fuel [m] ∧ m₁ = m'.emptied := by
  rcases turn_cases hready.watches h with ⟨m', account, f, -, hturn⟩ |
    ⟨m', account, status, hadvance, -, hturn⟩ | ⟨o, hturn, -⟩
  · cases hturn
  · have hrun : m.run fuel = some (m', .ok status) := run_of_advance hadvance (by simp)
    obtain ⟨-, rfl | ⟨rfl, -⟩⟩ := Machine.Ends.stuck ⟨fuel, hrun⟩
    · cases hturn
    · cases hturn
      exact ⟨m', hrun, report_eq_after hready hadvance, rfl⟩
  · cases hturn

/-- The end of a program that has halted, if it is reported. -/
theorem finish_of_exit (h : (s.finish t m).ending = .exit n) :
    s.finish t m = ⟨t.print (s.dumped m), .exit 0, [], []⟩ := by
  unfold finish dumped at *
  cases hdump : s.dump with
  | false => simp [Transcript.print]
  | true =>
    rw [hdump] at h
    cases htext : m.dump with
    | ok text => simp [Transcript.printLines_eq, Transcript.print]
    | error f =>
      rw [htext, Machine.eq_overlong_of_dump htext] at h
      cases h

/-- A command that ends with a turn ends in one of the ways listed. -/
theorem closes_of_turn (hready : s.Ready m) (h : s.turn fuel t m = some (.ended o))
    (hexit : o.ending = .exit n) (lines : List String) :
    runs fuel lines m = [m] ∧ s.Closes fuel t m o := by
  rcases turn_cases hready.watches h with ⟨m', account, f, hadvance, hturn⟩ |
    ⟨m', account, status, hadvance, -, hturn⟩ | ⟨o', hturn, hending⟩
  · cases hturn
    obtain ⟨fault, rfl, hfail⟩ := Transcript.eq_fault_of_fail hexit
    have hrun := run_of_advance hadvance (by simp)
    rw [hfail, ← account_of_advance hadvance]
    exact ⟨runs_of_stopped hrun (by simp) lines, .fault hrun⟩
  · have hrun : m.run fuel = some (m', .ok status) := run_of_advance hadvance (by simp)
    obtain ⟨-, rfl | ⟨rfl, -⟩⟩ := Machine.Ends.stuck ⟨fuel, hrun⟩
    · cases hturn
      have hdumped : s.dumped m'.emptied = s.dumped m' := rfl
      rw [finish_of_exit hexit, report_eq_after hready hadvance, hdumped]
      exact ⟨runs_of_stopped hrun (by simp) lines, .halted hrun⟩
    · cases hturn
  · cases hturn
    rw [hending] at hexit
    cases hexit

/-! ### Turn after turn -/

/-- A machine that has been reported and fed is ready again. -/
theorem Ready.emptied (hready : s.Ready m) (h : m.run fuel = some (m', reply)) (v : Int) :
    s.Ready (m'.emptied.feed v) :=
  ⟨⟨(hready.watches.run h).1, fun _ => rfl⟩, rfl⟩

/-- All runs of a command but the last are reported, and the last one closes it. -/
theorem attend_closes (hready : s.Ready m) (h : s.attend fuel lines t m = some (o, left))
    (hexit : o.ending = .exit n) :
    ∃ before last, runs fuel lines m = before ++ [last] ∧
      s.Closes fuel (t.after s fuel before) last o := by
  fun_induction attend s fuel lines t m with
  | case1 lines t m hturn => cases h
  | case2 lines t m outcome hturn =>
    cases h
    obtain ⟨hruns, hcloses⟩ := closes_of_turn hready hturn hexit left
    exact ⟨[], m, hruns, by rwa [after_nil]⟩
  | case3 t m t' m₁ hturn =>
    obtain ⟨m', hrun, rfl, rfl⟩ := waiting_of_turn hready hturn
    cases h
    have hsame : exhausted (t.after s fuel [m]) m'.emptied =
        exhausted (t.after s fuel [m]) m' := rfl
    refine ⟨[], m, rfl, ?_⟩
    rw [after_nil, hsame]
    exact .exhausted hrun
  | case4 t m t' m₁ hturn line lines m₂ haccept ih =>
    obtain ⟨m', hrun, rfl, rfl⟩ := waiting_of_turn hready hturn
    obtain ⟨v, hline, rfl⟩ := accept_eq_ok haccept
    obtain ⟨before, last, hruns, hcloses⟩ := ih (hready.emptied hrun v) h
    refine ⟨m :: before, last, ?_, ?_⟩
    · rw [runs_of_accepted hrun hline, hruns, List.cons_append]
    · rw [after_cons]
      exact hcloses
  | case5 t m t' m₁ hturn line lines outcome haccept =>
    obtain ⟨m', hrun, rfl, rfl⟩ := waiting_of_turn hready hturn
    obtain ⟨hline, rfl⟩ := accept_eq_error haccept
    cases h
    refine ⟨[], m, runs_of_malformed hline, ?_⟩
    rw [after_nil]
    exact .malformed hrun hline

theorem ready_of_load {text : String} (h : Machine.load text s.trace = .ok m) : s.Ready m := by
  obtain ⟨p, -, rfl⟩ := Machine.load_eq_ok_iff.1 h
  refine ⟨⟨Machine.recording_note _ _, fun htrace => ?_⟩, ?_⟩
  · rw [htrace]
    rfl
  · rw [Machine.ofProgram, Machine.reboot_config]
    rfl

/-- A patch changes the memory only. -/
theorem Ready.patch {address : Int} {value : Option Int} (hready : s.Ready m)
    (h : patch address value m = .ok m') : s.Ready m' := by
  cases value with
  | none =>
    cases h
    exact hready
  | some v =>
    unfold Command.patch Machine.write at h
    dsimp only at h
    split at h <;> cases h
    exact ⟨hready.watches, hready.output⟩

theorem ready_of_prepare {text : String} (h : s.prepare text = .ok m) : s.Ready m := by
  unfold prepare at h
  obtain ⟨m₀, hload, h⟩ := bind_eq_ok_iff.1 h
  obtain ⟨m₁, hnoun, h⟩ := bind_eq_ok_iff.1 h
  obtain ⟨m₂, hverb, h⟩ := bind_eq_ok_iff.1 h
  cases h
  have hstart : s.Ready m₀ := ready_of_load (mapError_eq_ok_iff.1 hload)
  have hpatched : s.Ready m₂ := (hstart.patch hnoun).patch hverb
  exact ⟨hpatched.watches, hpatched.output⟩

end Settings

/-- A machine that cannot be made ready, because one of its first cells is to be set and is not
there, ends the command before any instruction.  What has been recorded of the loading is lost, if a
trace is asked for: the fault is all that is written. -/
theorem failed_patch_loses_reboot {w : Surroundings} {args : List String} {source : Source}
    {text : String} {f : Failure} (hparse : parse args = .ok (.run, s))
    (hsource : s.source = .ok source) (htext : source.text w = .ok text)
    (hload : Machine.load text s.trace = .ok m) (hprepare : s.prepare text = .error f)
    (h : execute fuel w args = some o) (hexit : o.ending = .exit n) :
    (∃ fault, f = .fault fault ∧
      o.transcript = ⟨"", asLines ["error: " ++ fault.message]⟩) ∧
      (s.trace = true → m.events.toList = [.rebooted m.memory.size]) := by
  have hperform : Kind.run.perform fuel w s text = some o := by
    simpa only [execute, hparse, hsource, htext] using h
  have hfail : Transcript.fail {} f = o := by
    simpa only [Kind.perform, hprepare, Option.some.injEq] using hperform
  subst hfail
  obtain ⟨fault, hfault, houtcome⟩ := Transcript.eq_fault_of_fail hexit
  refine ⟨⟨fault, hfault, by rw [houtcome]; rfl⟩, fun htrace => ?_⟩
  obtain ⟨p, -, rfl⟩ := Machine.load_eq_ok_iff.1 hload
  rw [htrace]
  rfl

/-- **Only a fault loses output.**  Let a command line that runs a program without stepping through
it end with an exit status.  Then all runs of its machine but the last one are reported: the values
that their output instructions have put out, and the events if a trace is asked for, are written
once and in order.  The last one is reported as well if the program halts or waits for an integer
that does not come.  If it ends with a fault, nothing that it has put out or recorded is written.
The machine is taken to be made ready; a command that fails before has run nothing. -/
theorem only_a_fault_loses_output {w : Surroundings} {args : List String} {source : Source}
    {text : String} (hparse : parse args = .ok (.run, s)) (hvisualize : s.visualize = none)
    (hsource : s.source = .ok source) (htext : source.text w = .ok text)
    (hprepare : s.prepare text = .ok m) (h : execute fuel w args = some o)
    (hexit : o.ending = .exit n) :
    ∃ before last, runs fuel w.lines m = before ++ [last] ∧
      s.Closes fuel (Transcript.after s fuel {} before) last o := by
  have hperform : Kind.run.perform fuel w s text = some o := by
    simpa only [execute, hparse, hsource, htext] using h
  rw [Settings.perform_of_prepare hprepare hvisualize] at hperform
  obtain ⟨⟨o', left⟩, hattend, heq⟩ := Option.map_eq_some_iff.1 hperform
  obtain rfl : o' = o := heq
  exact Settings.attend_closes (Settings.ready_of_prepare hprepare) hattend hexit

/-- A program that puts out a value, takes one, puts out another one and has then no instruction. -/
def brokenTail : Program :=
  ⟨"104,7,3,0,104,8,42", #[104, 7, 3, 0, 104, 8, 42], by rfl⟩

/-- The run before the line is reported; the run after it ends with a fault, and its value and its
events are lost. -/
theorem brokenTail_loses_second_value :
    ∃ last o, execute 3 (.piped "5\n") ["run", "-e", brokenTail.text, "--trace"] = some o ∧
      o.transcript.out = "7\n" ∧
      o.transcript.err = asLines ["rebooted (7 words)", "[0] output 7", "[0] OUT 7 -> pc=2",
        "[2] waiting for input", "error: unknown opcode 42 in instruction word 42 (pc=6)"] ∧
      runs 3 ["5"] (Machine.ofProgram brokenTail true) = [Machine.ofProgram brokenTail true, last] ∧
      emitted (last.effects 3) = [8] ∧
      Settings.Closes { inline := some brokenTail.text, trace := true } 3
        (Transcript.after { inline := some brokenTail.text, trace := true } 3 {}
          [Machine.ofProgram brokenTail true]) last o := by
  have hparse : parse ["run", "-e", brokenTail.text, "--trace"] =
      .ok (.run, { inline := some brokenTail.text, trace := true }) := by decide +kernel
  have hprepare : Settings.prepare { inline := some brokenTail.text, trace := true }
      brokenTail.text = .ok (Machine.ofProgram brokenTail true) := by rfl
  have hexecute : execute 3 (.piped "5\n") ["run", "-e", brokenTail.text, "--trace"] =
      some ⟨⟨"7\n", asLines ["rebooted (7 words)", "[0] output 7", "[0] OUT 7 -> pc=2",
        "[2] waiting for input", "error: unknown opcode 42 in instruction word 42 (pc=6)"]⟩,
        .exit 1, [], []⟩ := by decide +kernel
  have hruns : runs 3 ["5"] (Machine.ofProgram brokenTail true) =
      [Machine.ofProgram brokenTail true] ++ [⟨brokenTail,
        ⟨#[104, 7, 3, 0, 104, 8, 42], 2, [5], []⟩, .blocked, true, #[]⟩] := by rfl
  obtain ⟨before, last, hsplit, hcloses⟩ :=
    only_a_fault_loses_output hparse rfl rfl rfl hprepare hexecute rfl
  obtain ⟨rfl, hlast⟩ := List.append_inj' (hsplit.symm.trans hruns) rfl
  cases hlast
  exact ⟨_, _, hexecute, rfl, rfl, hruns, rfl, hcloses⟩

/-- A value is put out and never printed, although the fault that follows is reported. -/
theorem value_before_fault_not_printed :
    ∃ m, Settings.prepare { inline := some "104,7,42" } "104,7,42" = .ok m ∧
      emitted (m.effects 2) = [7] ∧
      execute 2 (.piped "") ["run", "-e", "104,7,42"] = some
        ⟨⟨"", "error: unknown opcode 42 in instruction word 42 (pc=2)\n"⟩, .exit 1, [], []⟩ := by
  refine ⟨Machine.ofProgram ⟨"104,7,42", #[104, 7, 42], by rfl⟩ false, by rfl, by rfl, ?_⟩
  decide +kernel

end Command

end Intcode

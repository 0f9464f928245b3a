import Intcode.Chain
import Intcode.Command.Line
import Intcode.Files
import Intcode.Machine.Shown
import Intcode.Terminal
import Intcode.Window

/-!
# Carrying out commands

A command works on files, lines of standard input and, when a program is stepped
through, a window or a terminal.  It ends with an exit status and with what it has
written to the standard output and the standard error.

* `Surroundings`: everything a command can read;
* `Transcript`, `Ending`, `Outcome`: everything it leaves behind;
* `Settings.prepare`, `Settings.turn`, `Settings.attend`: a machine made ready, run until it
  waits, and kept supplied with lines;
* `Kind.perform`: one command on a program text;
* `execute`: a whole command line.
-/

namespace Intcode.Command

/-- Everything that a command can read. -/
structure Surroundings where
  files : Files
  /-- The lines of standard input.  The stream is taken to decode: bytes that are no text end the
  command by an error that nothing reports. -/
  lines : List String
  /-- The terminal, which is taken to grant whatever is not a write right of it. -/
  screen : Terminal.Screen
  /-- The keys that will be pressed at the terminal. -/
  keys : List Int
  /-- What will be typed when the terminal asks. -/
  answers : List (List UInt8)
  /-- What will happen in the window, frame by frame. -/
  frames : List (List Window.Input)
  /-- Whether windows can be opened. -/
  hasWindow : Bool
  /-- Whether there is a terminal to draw on. -/
  hasTerminal : Bool

/-- The lines of a text: each ends at a line feed, the last perhaps at the end of the text. -/
def linesOf (text : String) : List String :=
  let pieces := text.toList.splitOn '\n'
  (if pieces.getLast? == some [] then pieces.dropLast else pieces).map String.ofList

/-- What has been written. -/
structure Transcript where
  out : String := ""
  err : String := ""
  deriving DecidableEq, Repr

namespace Transcript

/-- Write to the standard output. -/
def print (t : Transcript) (text : String) : Transcript :=
  { t with out := t.out ++ text }

/-- Write lines to the standard output. -/
def printLines (t : Transcript) (lines : List String) : Transcript :=
  lines.foldl (fun t line => t.print (line ++ "\n")) t

/-- Write a line to the standard error. -/
def warn (t : Transcript) (line : String) : Transcript :=
  { t with err := t.err ++ line ++ "\n" }

/-- Write lines to the standard error. -/
def warnLines (t : Transcript) (lines : List String) : Transcript :=
  lines.foldl warn t

end Transcript

/-- How a command ends. -/
inductive Ending
  /-- With an exit status. -/
  | exit (status : Nat)
  /-- With the exit status of a refused command line. -/
  | refused (status : Nat)
  /-- By a failure that is not reported. -/
  | failed (failure : Failure)
  /-- By a file error that is not reported. -/
  | unreadable (error : FileError)
  deriving DecidableEq, Repr

/-- What a command leaves behind. -/
structure Outcome where
  transcript : Transcript
  ending : Ending
  terminal : List Terminal.Action := []
  window : List Window.Action := []
  deriving DecidableEq, Repr

/-- The outcome of a failure: faults are reported, other failures are not. -/
def Transcript.fail (t : Transcript) (f : Failure) : Outcome :=
  match f.reported with
  | .fault f => ⟨t.warn ("error: " ++ f.message), .exit 1, [], []⟩
  | f => ⟨t, .failed f, [], []⟩

/-- The outcome of a file error: refusals are reported, other errors are not. -/
def Transcript.failFile (t : Transcript) : FileError → Outcome
  | .refused problem path =>
    ⟨t.warn ("error: " ++ (FileError.refused problem path).message), .exit 1, [], []⟩
  | e => ⟨t, .unreadable e, [], []⟩

/-- The outcome of a refused command line. -/
def Refusal.outcome (r : Refusal) : Outcome :=
  let (out, err, status) := r.report
  ⟨⟨out, err⟩, .refused status, [], []⟩

/-! ### Running -/

/-- The text of an integer, if it can be written. -/
def integerText (v : Int) : Except Failure String :=
  if Numeral.Short v then .ok (Numeral.write v) else .error .overlong

/-- Change a cell, if a value for it is given. -/
def patch (address : Int) (value : Option Int) (m : Machine) : Except Failure Machine :=
  match value with
  | some v => m.write address v
  | none => .ok m

/-- The machine that a program is run on, with its first cells and inputs set. -/
def Settings.prepare (s : Settings) (text : String) : Except Failure Machine := do
  let m ← (Machine.load text s.trace).mapError .fault
  let m ← patch 1 s.noun m
  let m ← patch 2 s.verb m
  return m.feedAll s.inputs

/-- What becomes of a machine that has run as far as it can. -/
inductive Turn
  /-- The command has ended. -/
  | ended (outcome : Outcome)
  /-- The machine waits for a line of input. -/
  | waiting (transcript : Transcript) (machine : Machine)

/-- Run a machine as far as it can, with or without an account on the standard output. -/
def Settings.advance (s : Settings) (fuel : Nat) (m : Machine) :
    Option (Machine × String × Except Failure Status) :=
  if s.debug then m.runShown fuel "" else (m.run fuel).map fun r => (r.1, "", r.2)

/-- Print the recorded events, if they are asked for. -/
def Settings.printEvents (s : Settings) (t : Transcript) (m : Machine) :
    Transcript × Machine × Option Failure :=
  if s.trace then
    let (events, m) := m.collect
    let (lines, failure) := untilFailure (events.map Event.render)
    (t.warnLines lines, m, failure)
  else (t, m, none)

/-- The end of a program that has halted. -/
def Settings.finish (s : Settings) (t : Transcript) (m : Machine) : Outcome :=
  if s.dump then
    match m.dump with
    | .ok text => ⟨t.printLines [text], .exit 0, [], []⟩
    | .error f => t.fail f
  else ⟨t, .exit 0, [], []⟩

/-- Run a machine as far as it can and print what it puts out. -/
def Settings.turn (s : Settings) (fuel : Nat) (t : Transcript) (m : Machine) : Option Turn :=
  (s.advance fuel m).map fun
    | (_, printed, .error f) => .ended ((t.print printed).fail f)
    | (m, printed, .ok status) =>
      let (values, m) := m.drain
      let (lines, failure) := untilFailure (values.map integerText)
      let t := (t.print printed).printLines lines
      match failure with
      | some f => .ended (t.fail f)
      | none =>
        match s.printEvents t m with
        | (t, _, some f) => .ended (t.fail f)
        | (t, m, none) =>
          if status = .halted then .ended (s.finish t m) else .waiting t m

/-- The end of a program that waits when there are no more lines. -/
def exhausted (t : Transcript) (m : Machine) : Outcome :=
  let message := "error: program is waiting for input at pc=" ++ Numeral.write m.pc ++
    " but stdin is exhausted"
  ⟨t.warn message, .exit 1, [], []⟩

/-- The end of a program that is given a line that is no integer. -/
def malformed (t : Transcript) (line : String) : Outcome :=
  let message := "error: input " ++ Text.quoted (Text.trim line) ++ " is not an integer"
  ⟨t.warn message, .exit 1, [], []⟩

/-- Feed a line of input to a machine; a line that is no integer ends the command. -/
def accept (t : Transcript) (m : Machine) (line : String) : Except Outcome Machine :=
  match Numeral.readTyped? line with
  | some v => .ok (m.feed v)
  | none => .error (malformed t line)

/-- Run a machine, feeding it one line of input whenever it waits.  The lines that have not been
read come with the outcome. -/
def Settings.attend (s : Settings) (fuel : Nat) :
    List String → Transcript → Machine → Option (Outcome × List String)
  | lines, t, m =>
    match s.turn fuel t m with
    | none => none
    | some (.ended outcome) => some (outcome, lines)
    | some (.waiting t m) =>
      match lines with
      | [] => some (exhausted t m, [])
      | line :: lines =>
        match accept t m line with
        | .ok m => s.attend fuel lines t m
        | .error outcome => some (outcome, lines)

/-! ### Stepping -/

/-- The message about a library that is not there. -/
def missingModule (name : String) : String :=
  "No module named '" ++ name ++ "'"

/-- The library that opens windows. -/
def windowLibrary : String := "pygame"

/-- The library that draws on terminals, which the window front end loads as well. -/
def terminalLibrary : String := "curses"

/-- Why the window front end cannot be used. -/
def Surroundings.windowProblem (w : Surroundings) : Option String :=
  if !w.hasWindow then some (missingModule windowLibrary)
  else if !w.hasTerminal then some (missingModule terminalLibrary)
  else none

/-- The ending of a sitting at a front end. -/
def sittingEnding : Option Failure → Ending
  | some f => .failed f
  | none => .exit 0

/-- Step through a program at the terminal; `reason` is why the window was given up. -/
def Surroundings.stepTerminal (w : Surroundings) (m : Machine) (reason : Option String) : Outcome :=
  if w.hasTerminal then
    let r := Terminal.run w.screen w.keys w.answers m none
    ⟨{}, sittingEnding r.failure, r.actions, []⟩
  else
    let problem := missingModule terminalLibrary
    let message := match reason with
      | some reason =>
        "Visualizer unavailable. GUI error: " ++ reason ++ "; Headless error: " ++ problem
      | none => "Visualizer unavailable: " ++ problem
    ⟨Transcript.warn {} message, .exit 1, [], []⟩

/-- Step through a program.  The terminal takes over when the window cannot be used. -/
def Surroundings.stepThrough (w : Surroundings) (m : Machine) : FrontEnd → Outcome
  | .window =>
    match w.windowProblem with
    | none =>
      let r := Window.run w.frames m none
      ⟨{}, sittingEnding r.failure, [], r.actions⟩
    | problem => w.stepTerminal m problem
  | .terminal => w.stepTerminal m none

/-! ### Commands -/

/-- The outcome of printing one text. -/
def printed : Except Failure String → Outcome
  | .ok text => ⟨Transcript.printLines {} [text], .exit 0, [], []⟩
  | .error f => Transcript.fail {} f

/-- The listing of a program. -/
def Settings.listing (s : Settings) (text : String) : Except Failure String := do
  let m ← (Memory.parse text).mapError .fault
  listingText (← disassemble m s.start)

/-- The result of a chain. -/
def Settings.chainResult (s : Settings) (fuel : Nat) (text : String) :
    Option (Except Failure String) :=
  let phases := s.phases.getD []
  if s.search then
    (Chain.best fuel text phases s.signal s.feedback).map fun r => do
      let (signal, phases) ← r
      return (← integerText signal) ++ " " ++ ",".intercalate (← phases.mapM integerText)
  else
    (Chain.run fuel text phases s.signal s.feedback).map fun r => do integerText (← r)

/-- Carry out a command on a program text. -/
def Kind.perform (k : Kind) (fuel : Nat) (w : Surroundings) (s : Settings) (text : String) :
    Option Outcome :=
  match k with
  | .run =>
    match s.prepare text with
    | .error f => some (Transcript.fail {} f)
    | .ok m =>
      match s.visualize with
      | some front => some (w.stepThrough m front)
      | none => (s.attend fuel w.lines {} m).map (·.1)
  | .disasm => some (printed (s.listing text))
  | .chain => (s.chainResult fuel text).map printed

/-- The program text that the settings name. -/
def Source.text (w : Surroundings) : Source → Except FileError String
  | .inline text => .ok text
  | .file path => w.files.load path

/-- Carry out a command line.  There is no answer if a run takes more than `fuel` instructions. -/
def execute (fuel : Nat) (w : Surroundings) (args : List String) : Option Outcome :=
  match parse args with
  | .error refusal => some refusal.outcome
  | .ok (kind, settings) =>
    match settings.source with
    | .error refusal => some refusal.outcome
    | .ok source =>
      match source.text w with
      | .error e => some (Transcript.failFile {} e)
      | .ok text => kind.perform fuel w settings text

end Intcode.Command

import Intcode.Command.Help
import Intcode.Command.Word
import Intcode.Program

/-!
# Command lines

A command line names a command and gives its settings.  A command line that asks for
help or has an error is refused, with the text to show.

* `FrontEnd`, `Settings`: all that options can say;
* `Settings.set`, `interpret`: one option, and all items of a command line;
* `Refusal`: help, or an error with the usage it belongs to;
* `Kind.settings`: the settings of one command;
* `parse`: a whole command line;
* `Settings.source`: where the program text comes from.
-/

namespace Intcode.Command

/-- How a program is stepped through. -/
inductive FrontEnd
  | window
  | terminal
  deriving DecidableEq, Repr

/-- The word that selects a front end. -/
def FrontEnd.name : FrontEnd → String
  | window => "gui"
  | terminal => "curses"

/-- All that the arguments of a command can say. -/
structure Settings where
  program : Option String := none
  inline : Option String := none
  inputs : List Int := []
  noun : Option Int := none
  verb : Option Int := none
  dump : Bool := false
  trace : Bool := false
  debug : Bool := false
  visualize : Option FrontEnd := none
  start : Int := 0
  phases : Option (List Int) := none
  signal : Int := 0
  feedback : Bool := false
  search : Bool := false
  deriving DecidableEq, Repr

/-- Why the interpretation of a command line stops. -/
inductive Stop
  /-- Help was asked for. -/
  | help
  /-- The command line is wrong. -/
  | wrong (message : String)

/-! ### Values -/

/-- The integer value of an option. -/
def integer (key : Key) (text : String) : Except Stop Int :=
  match Numeral.readArgument? text with
  | some v => .ok v
  | none => .error (.wrong (about key ("invalid int value: " ++ Text.quoted text)))

/-- A list of integers, written as program text is. -/
def integers (key : Key) (text : String) : Except Stop (List Int) :=
  match Memory.parse text with
  | .ok m => .ok m.toList
  | .error f =>
    .error (.wrong (about key ("expected comma separated integers: " ++ f.message)))

/-- The message that a word is none of those to choose from. -/
def invalidChoice (text : String) (choices : List String) : String :=
  "invalid choice: " ++ Text.quoted text ++ " (choose from " ++
    ", ".intercalate (choices.map Text.quoted) ++ ")"

/-- The front end that a word selects. -/
def frontEnd (key : Key) (text : String) : Except Stop FrontEnd :=
  match [FrontEnd.window, .terminal].find? fun f => f.name == text with
  | some f => .ok f
  | none =>
    .error (.wrong (about key (invalidChoice text [FrontEnd.window.name, FrontEnd.terminal.name])))

/-- The settings after an option with its value. -/
def Settings.set (s : Settings) (key : Key) (value : Option String) : Except Stop Settings := do
  let text := value.getD ""
  match key with
  | .help => .error .help
  | .execute => return { s with inline := some text }
  | .input => return { s with inputs := s.inputs ++ [← integer key text] }
  | .noun => return { s with noun := some (← integer key text) }
  | .verb => return { s with verb := some (← integer key text) }
  | .dump => return { s with dump := true }
  | .trace => return { s with trace := true }
  | .debug => return { s with debug := true }
  | .visualize =>
    match value with
    | none => return { s with visualize := some .window }
    | some text => return { s with visualize := some (← frontEnd key text) }
  | .start => return { s with start := ← integer key text }
  | .phases => return { s with phases := some (← integers key text) }
  | .signal => return { s with signal := ← integer key text }
  | .feedback => return { s with feedback := true }
  | .search => return { s with search := true }

/-- The settings after some items, and the items that have no place. -/
def interpret : List Item → Settings → Except Stop (Settings × List String)
  | [], s => .ok (s, [])
  | .option key value :: items, s => do interpret items (← s.set key value)
  | .positional text :: items, s => interpret items { s with program := some text }
  | .extra text :: items, s => do
    let (s, extras) ← interpret items s
    return (s, text :: extras)

/-! ### Whole command lines -/

/-- A command line that is not carried out. -/
inductive Refusal
  /-- Help was asked for; this is its text. -/
  | help (text : String)
  /-- The command line is wrong: the usage, the name to complain under, and the complaint. -/
  | wrong (usage name message : String)
  deriving DecidableEq, Repr

/-- What is shown for a refused command line: text for the standard output and for the standard
error, and the exit status. -/
def Refusal.report : Refusal → String × String × Nat
  | help text => (text, "", 0)
  | wrong usage name message => ("", usage ++ name ++ ": error: " ++ message ++ "\n", 2)

/-- The name of the program. -/
def topName : String := "intcode"

/-- A complaint of the program itself. -/
def complain (message : String) : Refusal :=
  .wrong topUsage topName message

/-- What stopping means for a command. -/
def Kind.refuse (k : Kind) : Stop → Refusal
  | .help => .help k.help
  | .wrong message => .wrong k.usage (topName ++ " " ++ k.name) message

/-- The complaint that arguments are missing. -/
def missing (names : List String) : String :=
  "the following arguments are required: " ++ ", ".intercalate names

/-- The settings that the arguments of a command give, and the arguments that have no place. -/
def Kind.settings (k : Kind) (args : List String) : Except Stop (Settings × List String) :=
  match words k.options args with
  | .error message => .error (.wrong message)
  | .ok ws =>
    let (items, broken) := scan k.options false ws
    match interpret items {}, broken with
    | .error stop, _ => .error stop
    | .ok _, some message => .error (.wrong message)
    | .ok (s, extras), none =>
      if k = .chain && s.phases.isNone then .error (.wrong (missing [Key.phases.label]))
      else .ok (s, extras)

/-- Parse a command line whose arguments before `args` were the misplaced `extras`. -/
def parseFrom (extras : List String) : List String → Except Refusal (Kind × Settings)
  | [] => .error (complain (missing ["command"]))
  | ["--"] => .error (complain (missing ["command"]))
  | arg :: args =>
    let word := if arg == "--" then .ok .dashes else classify [.help] arg
    match word with
    | .error message => .error (complain message)
    | .ok .dashes =>
      .error (complain ("argument command: " ++ invalidChoice arg (Kind.all.map Kind.name)))
    | .ok (.plain name) =>
      match Kind.ofName? name with
      | none =>
        .error (complain ("argument command: " ++ invalidChoice name (Kind.all.map Kind.name)))
      | some k =>
        match k.settings args with
        | .error stop => .error (k.refuse stop)
        | .ok (s, more) =>
          match extras ++ more with
          | [] => .ok (k, s)
          | misplaced =>
            .error (complain ("unrecognized arguments: " ++ " ".intercalate misplaced))
    | .ok (.unknown text) => parseFrom (extras ++ [text]) args
    | .ok (.option given) =>
      match given.attached with
      | none => .error (.help topHelp)
      | some (equals, v) =>
        match attach [.help] given.key given.short equals v.toList with
        | .ok _ => .error (.help topHelp)
        | .error message => .error (complain message)

/-- Parse a command line. -/
def parse (args : List String) : Except Refusal (Kind × Settings) :=
  parseFrom [] args

/-- Where a program text comes from. -/
inductive Source
  | inline (text : String)
  | file (path : String)

/-- Where the program text comes from.  An empty argument counts as none. -/
def Settings.source (s : Settings) : Except Refusal Source :=
  match s.inline.getD "", s.program.getD "" with
  | "", "" => .error (complain "missing program path or --execute")
  | "", path => .ok (.file path)
  | text, "" => .ok (.inline text)
  | _, _ => .error (complain "cannot use program path and --execute together")

end Intcode.Command

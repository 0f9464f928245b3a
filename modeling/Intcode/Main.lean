import Intcode.Command.Execute

/-!
# The command line program

The only part that talks to the outside world: it reads the arguments, the program
file and the lines of standard input, and writes what the command leaves behind.
-/

namespace Intcode.Command

/-- A bound on the number of instructions that no run reaches. -/
def boundless : Nat := 4611686018427387904

/-- Write a transcript. -/
def emit (t : Transcript) : IO Unit := do
  let out ← IO.getStdout
  out.putStr t.out
  out.flush
  IO.eprint t.err

/-- Write what a command leaves behind and give its exit status. -/
def conclude (o : Outcome) : IO UInt32 := do
  emit o.transcript
  match o.ending with
  | .exit status | .refused status => return status.toUInt32
  | .failed f =>
    IO.eprintln f.message
    return 1
  | .unreadable e =>
    IO.eprintln e.message
    return 1

/-- The problem that the operating system reports.  Some reports negate the number. -/
def problemOf (e : IO.Error) : FileProblem :=
  let problem (code : UInt32) (details : String) : FileProblem :=
    .ofNumber code.toInt32.toInt.natAbs details
  match e with
  | .interrupted _ code details | .noFileOrDirectory _ code details => problem code details
  | .alreadyExists _ code details | .invalidArgument _ code details
  | .permissionDenied _ code details | .resourceExhausted _ code details
  | .inappropriateType _ code details | .noSuchThing _ code details => problem code details
  | .otherError code details | .resourceBusy code details | .resourceVanished code details
  | .unsupportedOperation code details | .hardwareFault code details
  | .unsatisfiedConstraints code details | .illegalOperation code details
  | .protocolError code details | .timeExpired code details => problem code details
  | .unexpectedEof => .other 5 "Input/output error"
  | .userError details => .other 5 details

/-- Read a program file. -/
def readProgram (path : String) : IO (Except FileError String) := do
  let name := (Path.ofText path).text
  if path.toList.contains '\x00' then return .error .unnameable
  try
    let bytes ← IO.FS.readBinFile name
    return match Text.decodeFile? bytes with
      | some text => .ok text
      | none => .error .malformed
  catch e => return .error (.refused (problemOf e) name)

/-- Run a machine, reading a line of standard input whenever it waits. -/
partial def attendInput (s : Settings) (t : Transcript) (m : Machine) : IO UInt32 := do
  match s.turn boundless t m with
  | none => return 1
  | some (.ended outcome) => conclude outcome
  | some (.waiting t m) =>
    emit t
    let line ← (← IO.getStdin).getLine
    if line.isEmpty then conclude (exhausted {} m)
    else
      match accept {} m line with
      | .ok m => attendInput s {} m
      | .error outcome => conclude outcome

/-- Carry out the command line of the process. -/
def carryOut (args : List String) : IO UInt32 := do
  match parse args with
  | .error refusal => conclude refusal.outcome
  | .ok (kind, settings) =>
    match settings.source with
    | .error refusal => conclude refusal.outcome
    | .ok source =>
      let text ← match source with
        | .inline text => pure (.ok text)
        | .file path => readProgram path
      let surroundings : Surroundings :=
        { files := .empty, lines := [], screen := ⟨24, 80⟩, keys := [], answers := [], frames := []
          hasWindow := false, hasTerminal := false }
      match text with
      | .error e => conclude (Transcript.failFile {} e)
      | .ok text =>
        match kind, settings.visualize, settings.prepare text with
        | .run, none, .ok m => attendInput settings {} m
        | _, _, _ =>
          match kind.perform boundless surroundings settings text with
          | some outcome => conclude outcome
          | none => return 1

end Intcode.Command

def main (args : List String) : IO UInt32 :=
  Intcode.Command.carryOut args

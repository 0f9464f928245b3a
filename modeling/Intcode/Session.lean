import Intcode.Listing
import Intcode.Machine.Basic
import Intcode.Slice

/-!
# Stepping sessions

A session lets a user step through a program: it counts the instructions, keeps a log
of what happened and a message for the user, and holds the first error of the program
instead of failing with it.

* `Session`, `Session.start`, and the views `halted`, `blocked`, `stopped`;
* `consume`: move the recorded events into the log;
* `advance`, `provideInput`, `toggleAuto`, `reset`;
* `Session.Operation`, `Session.perform`: the same operations as data;
* `listingWindow`, `statusLine`: what a front end shows.

An operation gives the session after it and whether it failed; a session that shows
integers too long to be written is the only reason for failing.
-/

namespace Intcode

/-- A machine stepped by a user. -/
structure Session where
  machine : Machine
  /-- The number of instructions after which the session refuses to go on. -/
  maxSteps : Option Int
  /-- The instructions completed since the start or the last reset. -/
  steps : Nat
  /-- Whether the session runs by itself. -/
  auto : Bool
  /-- The error that stopped the program. -/
  error : Option String
  /-- The latest events, one line each. -/
  log : List String
  /-- The message for the user. -/
  message : String

namespace Session

/-! ### Messages -/

/-- Shown when a session starts. -/
def welcomeMessage : String := "Press SPACE to run/pause, n to step, q to quit."

/-- Shown when a stopped program is asked to go on. -/
def stoppedMessage : String := "Program halted. Press r to reset or q to quit."

/-- Shown when the instruction limit is reached. -/
def limitMessage : String := "Reached max steps; press r to reset or q to quit."

/-- Shown when the program waits for input. -/
def waitingMessage : String := "Waiting for input. Press i to enter a value."

/-- Shown when the program halts. -/
def haltedMessage : String := "Halted. Press r to reset or q to quit."

/-- Shown while the session runs by itself. -/
def runningMessage : String := "Running..."

/-- Shown when the session stops running by itself. -/
def pausedMessage : String := "Paused."

/-- Shown after a reset. -/
def resetMessage : String := "Reset. Press SPACE to run or n to step."

/-! ### The session -/

/-- A session on a machine, which records its events from now on. -/
def start (m : Machine) (maxSteps : Option Int) : Session where
  machine := { m with recording := true }
  maxSteps
  steps := 0
  auto := false
  error := none
  log := []
  message := welcomeMessage

variable (s : Session)

/-- The program has halted. -/
def halted : Bool :=
  s.machine.status == .halted

/-- The program waits for input. -/
def blocked : Bool :=
  s.machine.status == .blocked

/-- The program has halted or failed. -/
def stopped : Bool :=
  s.halted || s.error.isSome

/-- The instruction limit is reached. -/
def exhausted : Bool :=
  s.maxSteps.any fun limit => decide (limit ≤ (s.steps : Int))

/-- The number of lines that the log keeps. -/
def logLimit : Nat := 200

/-- Move the recorded events into the log, of which only the latest lines are kept. -/
def consume : Session × Except Failure Unit :=
  let (events, machine) := s.machine.collect
  let (lines, failure) := untilFailure (events.map Event.render)
  let log := s.log ++ lines
  match failure with
  | some f => ({ s with machine, log }, .error f)
  | none => ({ s with machine, log := latest logLimit log }, .ok ())

/-- Count an instruction that ended in a status and tell the user. -/
def settle (auto : Bool) : Status → Session
  | .blocked => { s with auto := false, message := waitingMessage }
  | .halted => { s with steps := s.steps + 1, auto := false, message := haltedMessage }
  | _ =>
    { s with steps := s.steps + 1, message := if auto then runningMessage else s.message }

/-- Execute one instruction, unless the program has stopped or the limit is reached.  A fault of
the program becomes the session's error. -/
def advance (auto : Bool) : Session × Except Failure Unit :=
  if s.stopped then ({ s with auto := false, message := stoppedMessage }, .ok ())
  else if s.exhausted then ({ s with auto := false, message := limitMessage }, .ok ())
  else
    match s.machine.step with
    | (machine, .error (.fault f)) =>
      consume { s with
        machine, error := some f.message, auto := false, message := "Error: " ++ f.message }
    | (machine, .error f) => ({ s with machine }, .error f)
    | (machine, .ok status) =>
      match consume { s with machine } with
      | (s, .error f) => (s, .error f)
      | (s, .ok ()) => (s.settle auto status, .ok ())

/-- Queue the integer that the user typed; anything else is refused. -/
def provideInput (text : String) : Session × Bool :=
  match Numeral.readTyped? text with
  | none => ({ s with message := "Not an integer: " ++ Text.quoted text }, false)
  | some v =>
    ({ s with
        machine := s.machine.feed v
        message := "Queued input " ++ Numeral.write v ++ "." }, true)

/-- Start or pause running by itself. -/
def toggleAuto : Session :=
  if s.stopped then { s with message := stoppedMessage }
  else
    { s with
      auto := !s.auto
      message := if s.auto then pausedMessage else runningMessage }

/-- Load the program again and forget everything that happened. -/
def reset : Session :=
  { s with
    machine := s.machine.reboot.collect.2
    steps := 0
    auto := false
    error := none
    log := []
    message := resetMessage }

/-! ### Operations as data -/

/-- What a user can do with a session. -/
inductive Operation
  /-- Execute one instruction, by hand or while running. -/
  | advance (auto : Bool)
  /-- Type a value. -/
  | input (text : String)
  /-- Start or pause running. -/
  | toggle
  /-- Start again. -/
  | reset
  /-- Bring the log up to date. -/
  | consume
  deriving DecidableEq, Repr

/-- Carry out an operation.  The answer is whether the operation was accepted, which only an
input can fail to be. -/
def perform : Operation → Session × Except Failure Bool
  | .advance auto =>
    let r := s.advance auto
    (r.1, r.2.map fun _ => true)
  | .input text =>
    let r := s.provideInput text
    (r.1, .ok r.2)
  | .toggle => (s.toggleAuto, .ok true)
  | .reset => (s.reset, .ok true)
  | .consume =>
    let r := s.consume
    (r.1, r.2.map fun _ => true)

/-! ### What a front end shows -/

/-- At most `height` lines around the program counter, and the index of its own line among them.
A listing that has no line starting at the program counter is replaced by one that starts there;
the index is -1 if the program counter is outside memory. -/
def listingWindow (height : Int) : Except Failure (List Line × Int) := do
  let m := s.machine.memory
  let pc := s.machine.pc
  let lines ← disassemble m 0
  if m.Valid pc then
    let (lines, cursor) ← match lines.findIdx? (·.address == pc) with
      | some cursor => pure (lines, cursor)
      | none => pure (← disassemble m pc, 0)
    let start := ((cursor : Int) - height / 2).toNat
    return (slice lines start (start + height), (cursor : Int) - start)
  else
    return (slice lines 0 height, -1)

/-- A line that describes the session. -/
def statusLine : Except Failure String :=
  if Numeral.Short s.machine.pc then
    .ok ("Step: " ++ Numeral.write s.steps ++ " | PC: " ++ Numeral.write s.machine.pc ++
      " | State: " ++ s.machine.status.name ++ " | Auto: " ++ (if s.auto then "True" else "False") ++
      " | Input queued: " ++ Numeral.write s.machine.config.input.length)
  else .error .overlong

/-- The queued output, or a remark that there is none. -/
def outputLine : Except Failure String :=
  let output := s.machine.config.output
  if Numeral.allShort output then
    .ok (if output.isEmpty then "<empty>" else Numeral.writeList ", " output)
  else .error .overlong

end Session

end Intcode

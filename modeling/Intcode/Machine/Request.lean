import Intcode.Machine.Shown

/-!
# Requests

Everything that can be asked of a machine, as data, so that histories of calls can be
recorded, replayed and reasoned about.

* `Request`, `Reply`;
* `Machine.handle`: the machine after a request, what was printed, and the reply or the
  failure.
-/

namespace Intcode

/-- A call of a machine. -/
inductive Request
  /-- Execute until halted or waiting, with or without a printed account. -/
  | run (shown : Bool)
  /-- Execute one instruction, with or without a printed account. -/
  | step (shown : Bool)
  /-- Load the program again. -/
  | reboot
  /-- Queue an input value. -/
  | feed (value : Int)
  /-- Queue several input values. -/
  | feedAll (values : List Int)
  /-- Remove the first output value. -/
  | take
  /-- Remove all output values. -/
  | drain
  /-- Show the queued output values. -/
  | peek
  /-- Tell whether there is queued output. -/
  | hasOutput
  /-- Count the queued input values. -/
  | pendingInput
  /-- Read a cell. -/
  | read (address : Int)
  /-- Change a cell. -/
  | write (address value : Int)
  /-- Count the cells. -/
  | size
  /-- Show all cells. -/
  | memory
  /-- Show the program text. -/
  | program
  /-- Show the program counter and all cells as text. -/
  | dump
  /-- Describe the machine in one line. -/
  | describe
  /-- Show configuration and status. -/
  | snapshot
  /-- Start or stop recording events. -/
  | record (on : Bool)
  /-- Collect the recorded events. -/
  | events
  /-- Decode the instruction at the program counter. -/
  | current

/-- The answer to a request. -/
inductive Reply
  | done
  | status (status : Status)
  | value (value : Int)
  | values (values : List Int)
  | flag (value : Bool)
  | text (text : String)
  | snapshot (snapshot : Machine.Snapshot)
  | events (events : List Event)
  | instruction (instruction : Instruction)

/-- Carry out a request: the machine afterwards, the printed account, and the reply or the
failure.  There is no answer if a run takes more than `fuel` instructions. -/
def Machine.handle (fuel : Nat) (m : Machine) :
    Request → Option (Machine × String × Except Failure Reply)
  | .run true => (m.runShown fuel "").map fun r => (r.1, r.2.1, r.2.2.map .status)
  | .run false => (m.run fuel).map fun r => (r.1, "", r.2.map .status)
  | .step true =>
    let r := m.stepShown
    some (r.1, r.2.1, r.2.2.map .status)
  | .step false =>
    let r := m.step
    some (r.1, "", r.2.map .status)
  | .reboot => some (m.reboot, "", .ok .done)
  | .feed v => some (m.feed v, "", .ok .done)
  | .feedAll vs => some (m.feedAll vs, "", .ok .done)
  | .take =>
    match m.take with
    | .ok (v, m) => some (m, "", .ok (.value v))
    | .error f => some (m, "", .error (.fault f))
  | .drain =>
    let r := m.drain
    some (r.2, "", .ok (.values r.1))
  | .peek => some (m, "", .ok (.values m.config.output))
  | .hasOutput => some (m, "", .ok (.flag !m.config.output.isEmpty))
  | .pendingInput => some (m, "", .ok (.value m.config.input.length))
  | .read a => some (m, "", (m.read a).map .value)
  | .write a v =>
    match m.write a v with
    | .ok m => some (m, "", .ok .done)
    | .error f => some (m, "", .error f)
  | .size => some (m, "", .ok (.value m.memory.size))
  | .memory => some (m, "", .ok (.values m.memory.toList))
  | .program => some (m, "", .ok (.text m.program.text))
  | .dump => some (m, "", m.dump.map .text)
  | .describe => some (m, "", m.describe.map .text)
  | .snapshot => some (m, "", .ok (.snapshot m.snapshot))
  | .record on => some ({ m with recording := on }, "", .ok .done)
  | .events =>
    let r := m.collect
    some (r.2, "", .ok (.events r.1))
  | .current => some (m, "", m.current.map .instruction)

end Intcode

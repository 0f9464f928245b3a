import Intcode.Listing
import Intcode.Machine.Basic

/-!
# Execution with a printed account

A machine can print an account of every instruction it executes: the instruction
before it is executed, then the cell it wrote and the queued output.  Integers that
are too long to be written stop the account, and with it the execution, at the point
where they would be printed; what was executed up to there stays executed.

* `execLine`, `writeLine`, `outputLine`, `statusLine`: the texts of the account;
* `performShown`, `stepShown`, `runShown`: execution together with the account.
-/

namespace Intcode.Machine

/-- The line that announces an instruction. -/
def execLine (i : Instruction) (params : List Int) : String :=
  "[PC=" ++ Numeral.write i.address ++ "] EXEC: " ++ i.assembly params ++ "\n"

/-- The line that reports a written cell. -/
def writeLine (address value : Int) : String :=
  "  WRITE: [" ++ Numeral.write address ++ "] = " ++ Numeral.write value ++ "\n"

/-- The lines that report the queued output; the second of them is empty. -/
def outputLine (output : List Int) : String :=
  "  OUTPUT: [" ++ Numeral.writeList ", " output ++ "]\n\n"

/-- The line that reports the status at the end of a run. -/
def statusLine (m : Machine) (s : Status) : String :=
  "[PC=" ++ Numeral.write m.pc ++ "] STATE: " ++ s.name ++ "\n"

/-- Execute an instruction whose effect is known and report what it did. -/
def performShown (m : Machine) (e : Effect) : Machine × String × Except Failure Status :=
  let params := m.config.params e.instruction
  let exec := execLine e.instruction params
  let m := m.commit e
  let written := e.write.toList.flatMap fun w => [w.1, w.2]
  if !Numeral.allShort written then (m, exec, .error .overlong)
  else
    let wrote := match e.write with
      | some (a, v) => writeLine a v
      | none => ""
    if !Numeral.allShort m.config.output then (m, exec ++ wrote, .error .overlong)
    else
      (m.log e params, exec ++ wrote ++ outputLine m.config.output, .ok (statusAfter e))

/-- Execute one instruction and give an account of it.  An instruction whose parameters are too
long to be written is not executed. -/
def stepShown (m : Machine) : Machine × String × Except Failure Status :=
  match m.config.instruction with
  | .error f => ({ m with status := .running }, "", .error f)
  | .ok i =>
    let params := m.config.params i
    let announced := Numeral.allShort (i.address :: params)
    match m.config.effect i with
    | .ok none => (m.await, "", .ok .blocked)
    | .error f =>
      if announced then ({ m with status := .running }, execLine i params, .error f)
      else ({ m with status := .running }, "", .error .overlong)
    | .ok (some e) =>
      if announced then m.performShown e
      else ({ m with status := .running }, "", .error .overlong)

/-- Execute instructions until the machine halts, waits for input or fails, adding the account
of each to `printed`.  There is no answer if that takes more than `fuel` instructions. -/
def runShown : Nat → Machine → String → Option (Machine × String × Except Failure Status)
  | 0, _, _ => none
  | fuel + 1, m, printed =>
    match m.stepShown with
    | (m, text, .ok .running) => runShown fuel m (printed ++ text)
    | (m, text, .ok s) =>
      if Numeral.Short m.pc then some (m, printed ++ text ++ m.statusLine s, .ok s)
      else some (m, printed ++ text, .error .overlong)
    | (m, text, .error f) => some (m, printed ++ text, .error f)

end Intcode.Machine

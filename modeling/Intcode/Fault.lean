import Intcode.Numeral
import Intcode.Status
import Intcode.Text.Quoted

/-!
# Faults and failures

A `Fault` is a defect of the program under execution or of its text, with the program
counter at which it arose when there is one.  A `Failure` is any reason for which a
call gives no result: a fault, an integer too long to be written, or a chain without
phases.

* `Shortage`: why a driver gives up waiting for values;
* `Fault`, `Fault.pc`, `Fault.reason`, `Fault.message`;
* `Failure`, `Failure.message`;
* `Failure.unknownOpcode`, `Failure.outOfBounds`: the fault, unless an integer that its
  message names is too long to be written.
-/

namespace Intcode

/-- Why a driver stops waiting for a value that will never come. -/
inductive Shortage
  /-- A program run to completion asks for more input than it was given. -/
  | waiting
  /-- A round of the chain moved nothing, with its last machine in this state. -/
  | stalled (machine : Nat) (status : Status)
  /-- The chain finished and its last machine never produced a value. -/
  | noSignal
  /-- Any other reason, described. -/
  | other (description : String)
  deriving DecidableEq, Repr

/-- The wording of a shortage. -/
def Shortage.reason : Shortage → String
  | waiting => "program is waiting for more input"
  | stalled machine status =>
    "chain stalled with machine " ++ Numeral.write machine ++ " in state " ++ status.name
  | noSignal => "chain finished without producing a signal"
  | other description => description

/-- A defect of a program or of its text. -/
inductive Fault
  /-- The piece of program text at this index is not an integer. -/
  | badToken (token : String) (index : Int)
  /-- The instruction word selects no operation. -/
  | unknownOpcode (opcode word : Int) (pc : Option Int)
  /-- The address lies outside a memory of this size. -/
  | outOfBounds (address size : Int) (pc : Option Int)
  /-- A value was asked of an empty output queue. -/
  | noOutput
  /-- A driver ran out of input; the outputs so far are kept. -/
  | inputExhausted (cause : Shortage) (outputs : List Int) (pc : Option Int)
  /-- Any other defect, described. -/
  | other (description : String) (pc : Option Int)
  deriving DecidableEq, Repr

namespace Fault

/-- The program counter at which a fault arose. -/
def pc : Fault → Option Int
  | badToken _ _ | noOutput => none
  | unknownOpcode _ _ pc | outOfBounds _ _ pc | inputExhausted _ _ pc | other _ pc => pc

/-- The wording of a fault, without its program counter. -/
def reason : Fault → String
  | badToken token index =>
    "invalid program token " ++ Text.quoted token ++ " at index " ++ Numeral.write index
  | unknownOpcode opcode word _ =>
    "unknown opcode " ++ Numeral.write opcode ++ " in instruction word " ++ Numeral.write word
  | outOfBounds address size _ =>
    "address " ++ Numeral.write address ++ " outside memory of size " ++ Numeral.write size
  | noOutput => "output buffer is empty"
  | inputExhausted cause _ _ => cause.reason
  | other description _ => description

/-- The wording of a fault, followed by its program counter when it has one. -/
def message (f : Fault) : String :=
  match f.pc with
  | none => f.reason
  | some pc => f.reason ++ " (pc=" ++ Numeral.write pc ++ ")"

end Fault

/-- A reason for which a call gives no result. -/
inductive Failure
  /-- A defect of the program or of its text. -/
  | fault (fault : Fault)
  /-- An integer has more digits than a numeral may have. -/
  | overlong
  /-- A chain was asked for without phase settings. -/
  | noPhases
  deriving DecidableEq, Repr

namespace Failure

/-- The wording of the digit limit. -/
def overlongMessage : String :=
  "Exceeds the limit (4300 digits) for integer string conversion; " ++
    "use sys.set_int_max_str_digits() to increase the limit"

/-- The wording of a failure. -/
def message : Failure → String
  | fault f => f.message
  | overlong => overlongMessage
  | noPhases => "at least one phase setting is required"

/-- A failure whose message can be written: a fault's program counter may be too long for it,
and then that is the failure. -/
def reported : Failure → Failure
  | fault f => if (f.pc.toList.all fun pc => decide (Numeral.Short pc)) then fault f else overlong
  | f => f

/-- The failure of an instruction word that selects no operation. -/
def unknownOpcode (opcode word : Int) (pc : Option Int) : Failure :=
  if Numeral.allShort [opcode, word] then fault (.unknownOpcode opcode word pc) else overlong

/-- The failure of an access outside memory. -/
def outOfBounds (address : Int) (size : Nat) (pc : Option Int) : Failure :=
  if Numeral.Short address then fault (.outOfBounds address size pc) else overlong

end Failure

end Intcode

import Intcode.Instruction
import Intcode.Program
import Intcode.Queue

/-!
# Configurations and effects

A configuration is all that the execution of an instruction can read or change: the
memory, the program counter and the two queues.  What an instruction does is worked
out first, as an `Effect`, and then applied, so that an instruction that fails changes
nothing.

* `Config`, `Config.ofProgram`;
* `Effect`: the result of one instruction, as data;
* `fetch`, `operand`, `destination`: reading what an instruction refers to;
* `counterAfter`: where execution goes on;
* `effect`: what a decoded instruction does, or that it has to wait for input;
* `next`: the same for the instruction at the program counter;
* `apply`: the configuration after an effect.
-/

namespace Intcode

/-- Memory, program counter, queued input and queued output. -/
structure Config where
  memory : Memory
  pc : Int
  input : Queue
  output : Queue
  deriving DecidableEq, Repr

/-- What one instruction does. -/
structure Effect where
  /-- The instruction. -/
  instruction : Instruction
  /-- The cell that is written, and its new value. -/
  write : Option (Int × Int)
  /-- Whether the first queued input value is consumed. -/
  accepts : Bool
  /-- The value that is queued as output. -/
  emits : Option Int
  /-- The program counter afterwards. -/
  next : Int
  deriving DecidableEq, Repr

namespace Config

/-- The configuration in which a program starts. -/
def ofProgram (p : Program) : Config :=
  ⟨p.image, 0, [], []⟩

/-- The cell at an address, read while executing. -/
def fetch (c : Config) (a : Int) : Except Failure Int :=
  match c.memory.read? a with
  | some v => .ok v
  | none => .error (.outOfBounds a c.memory.size (some c.pc))

/-- The operand for the parameter at a place. -/
def operand (c : Config) (i : Instruction) (place : Nat) : Except Failure Int := do
  let raw ← c.fetch (i.address + 1 + place)
  match i.mode place with
  | .immediate => return raw
  | .position => c.fetch raw

/-- The destination that the parameter at a place names.  It is an address whatever its mode
digit is, and it has to be one of the memory. -/
def destination (c : Config) (i : Instruction) (place : Nat) : Except Failure Int := do
  let a ← c.fetch (i.address + 1 + place)
  let _ ← c.fetch a
  return a

/-- The program counter after an instruction whose execution has left it at `pc`. -/
def counterAfter (i : Instruction) (pc : Int) : Int :=
  pc + i.opcode.size

/-- The effect of storing the result of an operation on two operands. -/
def storing (c : Config) (i : Instruction) (op : Int → Int → Int) :
    Except Failure (Option Effect) := do
  let a ← c.operand i 0
  let b ← c.operand i 1
  let d ← c.destination i 2
  return some ⟨i, some (d, op a b), false, none, counterAfter i i.address⟩

/-- The effect of a jump that is taken when the first operand satisfies `test`.  The target is
read only when the jump is taken. -/
def jumping (c : Config) (i : Instruction) (test : Int → Bool) :
    Except Failure (Option Effect) := do
  let a ← c.operand i 0
  if test a then
    let target ← c.operand i 1
    return some ⟨i, none, false, none, counterAfter i target⟩
  else
    return some ⟨i, none, false, none, counterAfter i (i.address + 3)⟩

/-- What a decoded instruction does; nothing if it has to wait for input. -/
def effect (c : Config) (i : Instruction) : Except Failure (Option Effect) :=
  match i.opcode with
  | .add => c.storing i (· + ·)
  | .mul => c.storing i (· * ·)
  | .lessThan => c.storing i fun a b => if a < b then 1 else 0
  | .equals => c.storing i fun a b => if a = b then 1 else 0
  | .jumpIfTrue => c.jumping i (· != 0)
  | .jumpIfFalse => c.jumping i (· == 0)
  | .input =>
    match c.input with
    | [] => return none
    | v :: _ => do
      let d ← c.destination i 0
      return some ⟨i, some (d, v), true, none, counterAfter i i.address⟩
  | .output => do
    let v ← c.operand i 0
    return some ⟨i, none, false, some v, counterAfter i i.address⟩
  | .halt => return some ⟨i, none, false, none, counterAfter i i.address⟩

/-- The decoded instruction at the program counter. -/
def instruction (c : Config) : Except Failure Instruction := do
  let word ← c.fetch c.pc
  Instruction.decode word c.pc

/-- What the instruction at the program counter does; nothing if it has to wait for input. -/
def next (c : Config) : Except Failure (Option Effect) := do
  let i ← c.instruction
  c.effect i

/-- The configuration after an effect. -/
def apply : Config → Effect → Config
  | ⟨memory, _, input, output⟩, e =>
    { memory := match e.write with
        | some (a, v) => memory.write a v
        | none => memory
      pc := e.next
      input := if e.accepts then input.tail else input
      output := match e.emits with
        | some v => output.push v
        | none => output }

/-- The parameter words of an instruction, cut at the end of memory. -/
def params (c : Config) (i : Instruction) : List Int :=
  c.memory.words (i.address.toNat + 1) i.opcode.params

@[simp] theorem size_apply (c : Config) (e : Effect) :
    (c.apply e).memory.size = c.memory.size := by
  obtain ⟨i, write, accepts, emits, next⟩ := e
  cases write <;> simp [apply]

@[simp] theorem pc_apply (c : Config) (e : Effect) : (c.apply e).pc = e.next := rfl

theorem input_apply (c : Config) (e : Effect) :
    (c.apply e).input = if e.accepts then c.input.tail else c.input := rfl

theorem output_apply (c : Config) (e : Effect) :
    (c.apply e).output = c.output ++ e.emits.toList := by
  obtain ⟨i, write, accepts, emits, next⟩ := e
  cases emits <;> simp [apply, Queue.push]

end Config

end Intcode

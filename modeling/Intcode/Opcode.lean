/-!
# The opcode table

Nine operations make up the instruction set.  Each has a number, a name, a mnemonic
for listings, and a shape: how many parameters follow the instruction word, whether
the last of them is a destination, and how far the program counter moves afterwards.

* `Opcode`, `Opcode.all`;
* `number`, `name`, `mnemonic`, `params`, `writes`, `size`, `width`;
* `ofNumber?`: the opcode with a given number.
-/

namespace Intcode

/-- The operations of the instruction set. -/
inductive Opcode
  /-- Store the sum of two operands. -/
  | add
  /-- Store the product of two operands. -/
  | mul
  /-- Store the next queued input value. -/
  | input
  /-- Queue the operand as output. -/
  | output
  /-- Jump when the first operand is not zero. -/
  | jumpIfTrue
  /-- Jump when the first operand is zero. -/
  | jumpIfFalse
  /-- Store whether the first operand is less than the second. -/
  | lessThan
  /-- Store whether the operands are equal. -/
  | equals
  /-- Stop the machine. -/
  | halt
  deriving DecidableEq, Repr

namespace Opcode

/-- All opcodes, in the order of the table. -/
def all : List Opcode :=
  [add, mul, input, output, jumpIfTrue, jumpIfFalse, lessThan, equals, halt]

/-- The number that selects an opcode in an instruction word. -/
def number : Opcode → Nat
  | add => 1
  | mul => 2
  | input => 3
  | output => 4
  | jumpIfTrue => 5
  | jumpIfFalse => 6
  | lessThan => 7
  | equals => 8
  | halt => 99

/-- The full name of an opcode. -/
def name : Opcode → String
  | add => "ADD"
  | mul => "MUL"
  | input => "INPUT"
  | output => "OUTPUT"
  | jumpIfTrue => "JUMP_IF_TRUE"
  | jumpIfFalse => "JUMP_IF_FALSE"
  | lessThan => "LESS_THAN"
  | equals => "EQUALS"
  | halt => "HALT"

/-- The short name of an opcode in listings. -/
def mnemonic : Opcode → String
  | add => "ADD"
  | mul => "MUL"
  | input => "IN"
  | output => "OUT"
  | jumpIfTrue => "JNZ"
  | jumpIfFalse => "JZ"
  | lessThan => "LT"
  | equals => "EQ"
  | halt => "HALT"

/-- How many parameter words follow the instruction word. -/
def params : Opcode → Nat
  | add | mul | lessThan | equals => 3
  | jumpIfTrue | jumpIfFalse => 2
  | input | output => 1
  | halt => 0

/-- Whether the last parameter is a destination. -/
def writes : Opcode → Bool
  | add | mul | input | lessThan | equals => true
  | output | jumpIfTrue | jumpIfFalse | halt => false

/-- The number of words that an instruction occupies. -/
def width (o : Opcode) : Nat :=
  o.params + 1

/-- How far the program counter moves after the operation.  Jumps set the counter
themselves and add nothing to it. -/
def size : Opcode → Nat
  | jumpIfTrue | jumpIfFalse => 0
  | o => o.width

/-- The opcode with a given number. -/
def ofNumber? (n : Int) : Option Opcode :=
  all.find? fun o => (o.number : Int) = n

/-- The table holds every opcode. -/
theorem mem_all (o : Opcode) : o ∈ all := by
  cases o <;> decide

/-- Different opcodes have different numbers. -/
theorem number_injective {o p : Opcode} (h : o.number = p.number) : o = p := by
  cases o <;> cases p <;> simp_all [number]

/-- An opcode is found under its number. -/
@[simp] theorem ofNumber?_number (o : Opcode) : ofNumber? o.number = some o := by
  cases o <;> decide

/-- Only an opcode's own number finds it. -/
theorem ofNumber?_eq_some_iff {n : Int} {o : Opcode} : ofNumber? n = some o ↔ (o.number : Int) = n := by
  refine ⟨fun h => ?_, fun h => h ▸ ofNumber?_number o⟩
  simpa using List.find?_some h

end Opcode

end Intcode

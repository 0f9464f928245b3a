import Intcode.Fault
import Intcode.Opcode

/-!
# Instruction words

The two lowest decimal digits of an instruction word select the operation.  Each
higher digit belongs to one parameter, the lowest to the first: a one makes the
parameter immediate, any other digit makes it a position.

* `Mode`, `modeDigit`, `Mode.at`;
* `Instruction`: a decoded word with its address;
* `Opcode.lookup`, `Instruction.decode`;
* `Instruction.modes` and `Instruction.operandModes`, in which a destination is always a
  position.
-/

namespace Intcode

/-- How a parameter word is turned into an operand. -/
inductive Mode
  /-- The operand is the cell that the parameter names. -/
  | position
  /-- The operand is the parameter itself. -/
  | immediate
  deriving DecidableEq, Repr

/-- The name of a mode. -/
def Mode.name : Mode → String
  | position => "POSITION"
  | immediate => "IMMEDIATE"

/-- The initial of a mode's name. -/
def Mode.letter : Mode → String
  | position => "P"
  | immediate => "I"

/-- The decimal digit of `flags` at a place, counted from zero at the right.  For negative
flags the quotients are rounded down. -/
def modeDigit (flags : Int) (place : Nat) : Int :=
  flags / (Nat.pow 10 place : Nat) % 10

/-- The mode that `flags` give to the parameter at a place. -/
def Mode.at (flags : Int) (place : Nat) : Mode :=
  if modeDigit flags place = 1 then immediate else position

/-- The opcode with a given number; `word` is the instruction word to name when there is none. -/
def Opcode.lookup (code word : Int) (pc : Option Int) : Except Failure Opcode :=
  match ofNumber? code with
  | some o => .ok o
  | none => .error (.unknownOpcode code word pc)

/-- A decoded instruction word and the address it was read from. -/
structure Instruction where
  address : Int
  word : Int
  opcode : Opcode
  deriving DecidableEq, Repr

namespace Instruction

/-- Decode the word at an address.  Negative words select no operation. -/
def decode (word address : Int) : Except Failure Instruction :=
  if word < 0 then .error (.unknownOpcode word word (some address))
  else
    match Opcode.lookup (word % 100) word (some address) with
    | .ok o => .ok ⟨address, word, o⟩
    | .error f => .error f

variable (i : Instruction)

/-- The mode digits: the word without its two lowest digits. -/
def flags : Int :=
  i.word / 100

/-- The mode of the parameter at a place. -/
def mode (place : Nat) : Mode :=
  Mode.at i.flags place

/-- The modes of all parameters. -/
def modes : List Mode :=
  (List.range i.opcode.params).map i.mode

/-- The modes in which the parameters are used: a destination is always a position. -/
def operandModes : List Mode :=
  (List.range i.opcode.params).map fun k =>
    if i.opcode.writes && k + 1 == i.opcode.params then .position else i.mode k

/-- The mnemonic, followed by the initials of the modes when there are parameters. -/
def summary : String :=
  match i.modes with
  | [] => i.opcode.mnemonic
  | modes => i.opcode.mnemonic ++ " (" ++ " ".intercalate (modes.map Mode.letter) ++ ")"

@[simp] theorem length_modes : i.modes.length = i.opcode.params := by
  simp [modes]

@[simp] theorem length_operandModes : i.operandModes.length = i.opcode.params := by
  simp [operandModes]

end Instruction

/-- A word decodes exactly when it is not negative and its two lowest digits are the number of
an opcode. -/
theorem Instruction.decode_eq_ok_iff {word address : Int} {i : Instruction} :
    decode word address = .ok i ↔
      0 ≤ word ∧ (i.opcode.number : Int) = word % 100 ∧ i.address = address ∧ i.word = word := by
  by_cases h : word < 0
  · simp only [decode, if_pos h, reduceCtorEq, false_iff]
    omega
  · obtain ⟨a, w, o⟩ := i
    have h0 : 0 ≤ word := by omega
    cases ho : Opcode.ofNumber? (word % 100) with
    | none =>
      have : (o.number : Int) ≠ word % 100 := fun e => by
        simp [← Opcode.ofNumber?_eq_some_iff, ho] at e
      simp [decode, h, Opcode.lookup, ho, this]
    | some p =>
      have hp := Opcode.ofNumber?_eq_some_iff.1 ho
      simp only [decode, h, if_false, Opcode.lookup, ho, Except.ok.injEq, Instruction.mk.injEq]
      constructor
      · rintro ⟨rfl, rfl, rfl⟩
        exact ⟨h0, hp, rfl, rfl⟩
      · rintro ⟨-, ho', rfl, rfl⟩
        refine ⟨rfl, rfl, Opcode.number_injective ?_⟩
        omega

end Intcode

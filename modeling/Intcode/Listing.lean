import Intcode.Instruction
import Intcode.Memory

/-!
# Listings

A listing shows memory as instructions, one line for each, by a linear sweep.  A word
that does not decode, or whose instruction would run past the end of memory, is a
line of data on its own, so the sweep always moves on.

* `Mode.operand`, `Instruction.operands`, `Instruction.assembly`: operands and whole
  instructions as text;
* `Line`, `Line.text`, `Line.render`;
* `instructionAt?`, `spanAt`, `lineAt`: what starts at an address;
* `sweep`: the lines from an address on;
* `disassemble`: the same, with the start and the operands checked;
* `listingText`: all lines of a listing.
-/

namespace Intcode

/-! ### Instructions as text -/

/-- The text of an operand: a number sign before an immediate value, brackets around an
address. -/
def Mode.operand (mode : Mode) (raw : Int) : String :=
  match mode with
  | immediate => "#" ++ Numeral.write raw
  | position => "[" ++ Numeral.write raw ++ "]"

/-- The texts of an instruction's operands, for as many parameters as are given. -/
def Instruction.operands (i : Instruction) (params : List Int) : List String :=
  List.zipWith (fun raw mode => mode.operand raw) params i.operandModes

/-- A mnemonic with its operands. -/
def assembly (mnemonic : String) (operands : List String) : String :=
  Text.trimRight (mnemonic ++ " " ++ ", ".intercalate operands)

/-- The text of an instruction with its parameters. -/
def Instruction.assembly (i : Instruction) (params : List Int) : String :=
  Intcode.assembly i.opcode.mnemonic (i.operands params)

/-! ### Lines -/

/-- One line of a listing: an address, the words from there, and what they say. -/
structure Line where
  address : Int
  words : List Int
  mnemonic : String
  operands : List String
  deriving DecidableEq, Repr

/-- A text with blanks put before it up to a width. -/
def padLeft (width : Nat) (s : String) : String :=
  String.ofList (List.replicate (width - s.length) ' ') ++ s

/-- A text with blanks put after it up to a width. -/
def padRight (width : Nat) (s : String) : String :=
  s ++ String.ofList (List.replicate (width - s.length) ' ')

namespace Line

/-- The mnemonic of a line of data. -/
def data : String := "DATA"

/-- A line as text: address, words and instruction in columns. -/
def text (l : Line) : String :=
  padLeft 5 (Numeral.write l.address) ++ "  " ++
    padRight 24 (Numeral.writeList "," l.words) ++ " " ++ assembly l.mnemonic l.operands

/-- A line as text, if its integers can be written. -/
def render (l : Line) : Except Failure String :=
  if Numeral.allShort (l.address :: l.words) then .ok l.text else .error .overlong

/-- The words whose texts are operands of the line: those after the instruction word, or the
word of a line of data. -/
def operandWords (l : Line) : List Int :=
  if l.mnemonic = data then l.words else l.words.tail

end Line

/-! ### The sweep -/

/-- The instruction at an address, if the word there decodes and its parameters lie inside
memory. -/
def instructionAt? (m : Memory) (a : Nat) : Option Instruction := do
  let word ← m[a]?
  match Instruction.decode word a with
  | .ok i => if a + i.opcode.width ≤ m.size then some i else none
  | .error _ => none

/-- The number of words on the line that starts at an address. -/
def spanAt (m : Memory) (a : Nat) : Nat :=
  match instructionAt? m a with
  | some i => i.opcode.width
  | none => 1

/-- The line that starts at an address. -/
def lineAt (m : Memory) (a : Nat) : Line :=
  match instructionAt? m a with
  | some i =>
    ⟨a, m.words a i.opcode.width, i.opcode.mnemonic, i.operands (m.words (a + 1) i.opcode.params)⟩
  | none => ⟨a, m.words a 1, Line.data, (m.words a 1).map Numeral.write⟩

theorem spanAt_pos (m : Memory) (a : Nat) : 0 < spanAt m a := by
  unfold spanAt
  split
  · exact Nat.succ_pos _
  · exact Nat.one_pos

/-- The lines from an address to the end of memory. -/
def sweep (m : Memory) (a : Nat) : List Line :=
  if a < m.size then lineAt m a :: sweep m (a + spanAt m a) else []
termination_by m.size - a
decreasing_by
  have := spanAt_pos m a
  omega

/-- The listing of a memory from an address on. -/
def disassemble (m : Memory) (start : Int) : Except Failure (List Line) :=
  if m.Valid start then
    let lines := sweep m start.toNat
    if lines.all fun l => Numeral.allShort l.operandWords then .ok lines else .error .overlong
  else .error (.outOfBounds start m.size none)

/-- All lines of a listing as text. -/
def listingText (lines : List Line) : Except Failure String :=
  (lines.mapM Line.render).map ("\n".intercalate ·)

end Intcode

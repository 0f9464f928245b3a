import Intcode.Fault
import Intcode.Memory

/-!
# Program text

A program is written as decimal integers with commas between them.  Blanks around the
whole text and around each integer are ignored; an empty piece is an error, and so is
one with digit groups.

* `readToken?`: the integer that one piece of the text spells;
* `Memory.parse`, `Memory.print`, `Memory.format`;
* `Program`: a text together with the memory it describes.
-/

namespace Intcode

/-- The integer that one piece of program text spells, blanks at its ends ignored.  Digit
groups, which other numerals may have, are refused. -/
def readToken? (piece : List Char) : Option Int :=
  let token := Text.trimBy Text.isBlank piece
  if token.contains '_' then none else Numeral.read? token

/-- Read pieces of program text, the first of them at `index`, up to the first that spells no
integer. -/
def readTokens (index : Nat) : List (List Char) → Except Fault (List Int)
  | [] => .ok []
  | piece :: pieces =>
    match readToken? piece with
    | none => .error (.badToken (String.ofList piece) index)
    | some v => (readTokens (index + 1) pieces).map (v :: ·)

namespace Memory

/-- The memory that a program text describes. -/
def parse (text : String) : Except Fault Memory :=
  match Text.trimBy Text.isBlank text.toList with
  | [] => .error (.badToken text 0)
  | cs => (readTokens 0 (cs.splitOn ',')).map List.toArray

/-- The text that describes a memory. -/
def print (m : Memory) : String :=
  Numeral.writeList "," m.toList

/-- The text that describes a memory, if all its integers can be written. -/
def format (m : Memory) : Except Failure String :=
  if Numeral.allShort m.toList then .ok m.print else .error .overlong

end Memory

/-- A program: its text and the memory that the text describes. -/
structure Program where
  text : String
  image : Memory
  parse_text : Memory.parse text = .ok image

/-- The program with a given text. -/
def Program.ofText (text : String) : Except Fault Program :=
  match h : Memory.parse text with
  | .ok image => .ok ⟨text, image, h⟩
  | .error f => .error f

/-- The program of a text has that text and the memory it describes. -/
theorem Program.ofText_eq_ok {text : String} {p : Program} (h : Program.ofText text = .ok p) :
    p.text = text ∧ Memory.parse text = .ok p.image := by
  unfold Program.ofText at h
  split at h
  · rename_i image hp
    cases h
    exact ⟨rfl, hp⟩
  · cases h

end Intcode

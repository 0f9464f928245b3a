import Intcode.Text.Blank
import Intcode.Text.Digit

/-!
# Decimal numerals

Integers are unbounded, but their decimal text is not: a numeral has at most
`maxDigits` digits, both when it is read and when it is written.

* `Short v`: `v` has a decimal text;
* `write v`: the decimal text of `v`;
* `read? cs`: the integer that `cs` spells, with an optional sign, digits of any script,
  and single low lines between digits;
* `readTyped?`, `readArgument?`: the same after trimming, for a line typed by a user and
  for a command line argument.
-/

namespace Intcode.Numeral

/-- The number of decimal digits that a numeral may have. -/
def maxDigits : Nat := 4300

/-! ### Writing -/

/-- An integer has a decimal text when it has at most `maxDigits` digits. -/
def Short (v : Int) : Prop :=
  v.natAbs < Nat.pow 10 maxDigits

instance (v : Int) : Decidable (Short v) :=
  inferInstanceAs (Decidable (v.natAbs < Nat.pow 10 maxDigits))

/-- All integers of a list have a decimal text. -/
def allShort (vs : List Int) : Bool :=
  vs.all fun v => decide (Short v)

@[simp] theorem allShort_eq_true {vs : List Int} : allShort vs = true ↔ ∀ v ∈ vs, Short v := by
  simp [allShort]

/-- The decimal text of an integer: digits without leading zeros, after a minus sign when
the integer is negative. -/
def write (v : Int) : String :=
  String.ofList ((if v < 0 then ['-'] else []) ++ Nat.toDigits 10 v.natAbs)

/-- The texts of several integers with `sep` between them. -/
def writeList (sep : String) (vs : List Int) : String :=
  sep.intercalate (vs.map write)

/-! ### Reading -/

/-- The number that a sequence of digit values spells. -/
def ofDigits (ds : List Nat) : Nat :=
  ds.foldl (fun n d => 10 * n + d) 0

/-- The natural number that `cs` spells: one or more digits, single low lines between digits
allowed, at most `maxDigits` digits in all. -/
def readNat? (cs : List Char) : Option Nat := do
  let groups := cs.splitOn '_'
  guard (groups.all (! ·.isEmpty))
  let ds ← groups.flatten.mapM Text.digitValue?
  guard (ds.length ≤ maxDigits)
  return ofDigits ds

/-- The integer that `cs` spells: an optional sign, then a natural number. -/
def read? : List Char → Option Int
  | '+' :: cs => (readNat? cs).map Int.ofNat
  | '-' :: cs => (readNat? cs).map fun n => -Int.ofNat n
  | cs => (readNat? cs).map Int.ofNat

/-- The integer on a line typed by a user, blanks at the ends ignored. -/
def readTyped? (line : String) : Option Int :=
  read? (Text.trimBy Text.isBlank line.toList)

/-- The integer in a command line argument: white space at the ends is ignored, information
separators are not. -/
def readArgument? (text : String) : Option Int :=
  read? (Text.trimBy (fun c => Text.isBlank c && !Text.isSeparator c) text.toList)

end Intcode.Numeral

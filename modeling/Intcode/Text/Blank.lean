/-!
# Blank characters and trimming

Program text, typed values and printed lines may carry blanks at their ends.  The
blanks are the white space characters of Unicode together with the four ASCII
information separators.

* `isBlank`, `isSeparator`;
* `trimBy p`, `trimRightBy p`: remove the characters satisfying `p` from both ends,
  or from the right end only;
* `trim`, `trimRight`: the same for blanks, on strings.
-/

namespace Intcode.Text

/-- The ASCII information separators, U+001C to U+001F. -/
def isSeparator (c : Char) : Bool :=
  28 ≤ c.toNat && c.toNat ≤ 31

/-- The blank characters: Unicode white space and the information separators. -/
def isBlank (c : Char) : Bool :=
  let n := c.toNat
  (9 ≤ n && n ≤ 13) || (28 ≤ n && n ≤ 32) || n == 0x85 || n == 0xa0 || n == 0x1680 ||
    (0x2000 ≤ n && n ≤ 0x200a) || n == 0x2028 || n == 0x2029 || n == 0x202f ||
    n == 0x205f || n == 0x3000

/-! ### Trimming -/

/-- Remove the characters satisfying `p` from the right end. -/
def trimRightBy (p : Char → Bool) (cs : List Char) : List Char :=
  (cs.reverse.dropWhile p).reverse

/-- Remove the characters satisfying `p` from both ends. -/
def trimBy (p : Char → Bool) (cs : List Char) : List Char :=
  trimRightBy p (cs.dropWhile p)

/-- The characters of a text without the blanks at its ends. -/
def trim (s : String) : String :=
  String.ofList (trimBy isBlank s.toList)

/-- The characters of a text without the blanks at its right end. -/
def trimRight (s : String) : String :=
  String.ofList (trimRightBy isBlank s.toList)

end Intcode.Text

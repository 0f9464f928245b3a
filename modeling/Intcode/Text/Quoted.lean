import Intcode.Text.Printable

/-!
# Quoted text

A text inside a message is written between quotes, so that its ends and its
unprintable characters can be seen.  Apostrophes enclose it, unless it holds an
apostrophe and no double quote.

* `quoteFor`: the quote that encloses a text;
* `escape`: one character between the quotes;
* `quoted`: the whole text with its quotes.
-/

namespace Intcode.Text

/-- The quote that encloses a text: the double quote only when the text holds an
apostrophe and no double quote. -/
def quoteFor (cs : List Char) : Char :=
  if cs.contains '\'' && !cs.contains '"' then '"' else '\''

/-- The lower-case hexadecimal digits of `n`, padded with zeros to `width`. -/
def hexPadded (width n : Nat) : List Char :=
  let ds := Nat.toDigits 16 n
  List.replicate (width - ds.length) '0' ++ ds

/-- One character between quotes `q`.  A backslash goes in front of the backslash and the
quote; line feed, return and tab have letters; other unprintable characters are written by
code point, in the shortest of three forms. -/
def escape (q c : Char) : List Char :=
  if c == '\\' || c == q then ['\\', c]
  else if c == '\n' then ['\\', 'n']
  else if c == '\r' then ['\\', 'r']
  else if c == '\t' then ['\\', 't']
  else if isPrintable c then [c]
  else if c.toNat < 0x100 then '\\' :: 'x' :: hexPadded 2 c.toNat
  else if c.toNat < 0x10000 then '\\' :: 'u' :: hexPadded 4 c.toNat
  else '\\' :: 'U' :: hexPadded 8 c.toNat

/-- A text between quotes. -/
def quoted (s : String) : String :=
  let cs := s.toList
  let q := quoteFor cs
  String.ofList (q :: cs.flatMap (escape q) ++ [q])

end Intcode.Text

/-!
# Bytes and text

Files and prompts deliver bytes.  A file must hold well-formed UTF-8, and its line
ends are unified; a prompt's answer keeps the well-formed characters it has.

* `foldLineEnds`: a return, alone or before a line feed, becomes one line feed;
* `decodeFile?`: the text of a file, if its bytes are well-formed;
* `decodeLossy`: the characters that can be read from a sequence of bytes.
-/

namespace Intcode.Text

/-- Write every line end as one line feed. -/
def foldLineEnds : List Char → List Char
  | '\r' :: '\n' :: cs => '\n' :: foldLineEnds cs
  | '\r' :: cs => '\n' :: foldLineEnds cs
  | c :: cs => c :: foldLineEnds cs
  | [] => []

/-- The text of a file, with its line ends unified, if its bytes are well-formed. -/
def decodeFile? (bytes : ByteArray) : Option String :=
  (String.fromUTF8? bytes).map fun s => String.ofList (foldLineEnds s.toList)

/-- A text without returns is unchanged by unifying its line ends. -/
theorem foldLineEnds_of_not_mem {cs : List Char} (h : '\r' ∉ cs) : foldLineEnds cs = cs := by
  fun_induction foldLineEnds cs with
  | case1 => simp at h
  | case2 => simp at h
  | case3 c cs _ _ ih => rw [ih (fun hc => h (List.mem_cons_of_mem c hc))]
  | case4 => rfl

/-- A text without returns is read from its bytes unchanged. -/
theorem decodeFile?_toUTF8 {s : String} (h : '\r' ∉ s.toList) :
    decodeFile? s.toUTF8 = some s := by
  have hbytes : String.fromUTF8? s.toUTF8 = some s := by
    rw [String.toUTF8_eq_toByteArray, String.fromUTF8?, dif_pos s.isValidUTF8]
    rfl
  rw [decodeFile?, hbytes, Option.map_some, foldLineEnds_of_not_mem h, String.ofList_toList]

/-- The text of the first `n` bytes, with their number, if there are so many and they are
well-formed. -/
def textOfLength? (bytes : List UInt8) (n : Nat) : Option (Nat × String) :=
  if n ≤ bytes.length then
    (String.fromUTF8? ⟨(bytes.take n).toArray⟩).map fun s => (n, s)
  else none

/-- The length and text of the character that a sequence of bytes starts with: the shortest
nonempty beginning that is well-formed. -/
def leadingChar? (bytes : List UInt8) : Option (Nat × String) :=
  [1, 2, 3, 4].findSome? (textOfLength? bytes)

/-- The characters of a sequence of bytes, skipping `skip` bytes first and dropping every
byte that neither starts nor continues a well-formed character. -/
def decodeLossyFrom : Nat → List UInt8 → String
  | _, [] => ""
  | skip + 1, _ :: bs => decodeLossyFrom skip bs
  | 0, b :: bs =>
    match leadingChar? (b :: bs) with
    | some (n, s) => s ++ decodeLossyFrom (n - 1) bs
    | none => decodeLossyFrom 0 bs

/-- The well-formed characters of a sequence of bytes. -/
def decodeLossy (bytes : List UInt8) : String :=
  decodeLossyFrom 0 bytes

end Intcode.Text

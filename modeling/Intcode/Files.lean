import Intcode.Program
import Intcode.Text.Utf8

/-!
# Files

Programs are kept in text files.  A `Files` is what a working directory holds; paths
are followed component by component, as an operating system does.

* `Path`, `Path.ofText`, `Path.text`: paths without empty and single-dot components;
* `FileProblem`, `FileError`: why a file cannot be read or written;
* `Files`, `Files.addDirectory`, `Files.addFile`;
* `Files.walk`: what a path leads to;
* `Files.read`, `Files.write`: bytes;
* `Files.load`, `Files.save`: program text.
-/

namespace Intcode

/-! ### Paths -/

/-- A path: the slashes that make it absolute, and its components. -/
structure Path where
  root : String
  parts : List String
  deriving DecidableEq, Repr

namespace Path

/-- The path that a text names.  Empty and single-dot components do not count; exactly two
slashes at the start are kept, any other number counts as one. -/
def ofText (text : String) : Path :=
  let cs := text.toList
  let root := match (cs.takeWhile (· == '/')).length with
    | 0 => ""
    | 2 => "//"
    | _ => "/"
  ⟨root, ((cs.splitOn '/').map String.ofList).filter fun part => part != "" && part != "."⟩

/-- The text of a path. -/
def text (p : Path) : String :=
  if p.root == "" && p.parts.isEmpty then "." else p.root ++ "/".intercalate p.parts

end Path

/-! ### Errors -/

/-- Why an operating system refuses to open a file. -/
inductive FileProblem
  | notFound
  | notDirectory
  | isDirectory
  | nameTooLong
  | permissionDenied
  /-- Any other reason, with its number and wording. -/
  | other (number : Nat) (wording : String)
  deriving DecidableEq, Repr

/-- The number of a problem. -/
def FileProblem.number : FileProblem → Nat
  | notFound => 2
  | notDirectory => 20
  | isDirectory => 21
  | nameTooLong => 36
  | permissionDenied => 13
  | other number _ => number

/-- The problem that an operating system reports by its number and wording. -/
def FileProblem.ofNumber (number : Nat) (wording : String) : FileProblem :=
  let known := [notFound, notDirectory, isDirectory, nameTooLong, permissionDenied]
  (known.find? fun problem => problem.number == number).getD (other number wording)

/-- The wording of a problem. -/
def FileProblem.wording : FileProblem → String
  | notFound => "No such file or directory"
  | notDirectory => "Not a directory"
  | isDirectory => "Is a directory"
  | nameTooLong => "File name too long"
  | permissionDenied => "Permission denied"
  | other _ wording => wording

/-- Why a file cannot be read or written as text. -/
inductive FileError
  /-- The file cannot be opened. -/
  | refused (problem : FileProblem) (path : String)
  /-- The path holds a character that no path may hold. -/
  | unnameable
  /-- The bytes of the file are not text. -/
  | malformed
  /-- The program to be written holds an integer with more digits than a numeral may have. -/
  | overlong
  deriving DecidableEq, Repr

/-- The wording of a file error. -/
def FileError.message : FileError → String
  | refused problem path =>
    "[Errno " ++ Numeral.write problem.number ++ "] " ++ problem.wording ++ ": " ++
      Text.quoted path
  | unnameable => "embedded null byte"
  | malformed => "malformed text"
  | overlong => Failure.overlongMessage

/-! ### The working directory -/

/-- What a name stands for in a directory. -/
inductive Entry
  | directory
  | file (content : ByteArray)

/-- The content of a working directory: what each sequence of names leads to. -/
structure Files where
  entries : List (List String × Entry)

namespace Files

/-- An empty working directory. -/
def empty : Files := ⟨[]⟩

/-- What a sequence of names leads to. -/
def find? (fs : Files) : List String → Option Entry
  | [] => some .directory
  | names => (fs.entries.find? fun e => e.1 == names).map (·.2)

/-- Set what a sequence of names leads to. -/
def insert (fs : Files) (names : List String) (e : Entry) : Files :=
  ⟨(names, e) :: fs.entries.filter fun old => old.1 != names⟩

/-- Create a directory, and the directories on the way to it. -/
def addDirectory (fs : Files) (path : String) : Files :=
  let parts := (Path.ofText path).parts
  (List.range parts.length).foldl (fun fs k => fs.insert (parts.take (k + 1)) .directory) fs

/-- Create a file, and the directories on the way to it. -/
def addFile (fs : Files) (path : String) (content : ByteArray) : Files :=
  let parts := (Path.ofText path).parts
  (fs.addDirectory ("/".intercalate parts.dropLast)).insert parts (.file content)

/-- What a path leads to. -/
inductive Target
  | directory
  | file (names : List String) (content : ByteArray)
  /-- Nothing yet, but there is a directory to put it in. -/
  | vacant (names : List String)

/-- The number of bytes that one component of a path may have. -/
def nameLimit : Nat := 255

/-- The number of bytes, with an end mark, that a path may have. -/
def pathLimit : Nat := 4096

/-- The directory above one.  Above the working directory lie directories of which nothing is
known; they are named by double dots, and the topmost of all by a slash. -/
def above (here : List String) : List String :=
  match here.getLast? with
  | none | some ".." => here ++ [".."]
  | some "/" => here
  | some _ => here.dropLast

/-- Follow names from a directory. -/
def walk (fs : Files) (here : List String) : List String → Except FileProblem Target
  | [] => .ok .directory
  | ".." :: rest => walk fs (above here) rest
  | name :: rest =>
    if nameLimit < name.utf8ByteSize then .error .nameTooLong
    else
      match fs.find? (here ++ [name]) with
      | some .directory => walk fs (here ++ [name]) rest
      | some (.file content) =>
        if rest.isEmpty then .ok (.file (here ++ [name]) content) else .error .notDirectory
      | none => if rest.isEmpty then .ok (.vacant (here ++ [name])) else .error .notFound

/-- What the path that a text names leads to. -/
def resolve (fs : Files) (path : String) : Except FileError Target :=
  let p := Path.ofText path
  if path.toList.contains '\x00' then .error .unnameable
  else if pathLimit ≤ p.text.utf8ByteSize then .error (.refused .nameTooLong p.text)
  else
    (fs.walk (if p.root == "" then [] else ["/"]) p.parts).mapError fun problem =>
      .refused problem p.text

/-- The bytes of a file. -/
def read (fs : Files) (path : String) : Except FileError ByteArray := do
  match ← fs.resolve path with
  | .file _ content => return content
  | .directory => throw (.refused .isDirectory (Path.ofText path).text)
  | .vacant _ => throw (.refused .notFound (Path.ofText path).text)

/-- Write the bytes of a file, which is created if need be. -/
def write (fs : Files) (path : String) (content : ByteArray) : Except FileError Files := do
  match ← fs.resolve path with
  | .file names _ | .vacant names => return fs.insert names (.file content)
  | .directory => throw (.refused .isDirectory (Path.ofText path).text)

/-- The text of a file. -/
def load (fs : Files) (path : String) : Except FileError String := do
  match Text.decodeFile? (← fs.read path) with
  | some text => return text
  | none => throw .malformed

/-- Write a memory as program text, with a line end after it.  The file is not touched if there is
no such text. -/
def save (fs : Files) (path : String) (m : Memory) : Except FileError Files :=
  match m.format with
  | .ok text => fs.write path (text ++ "\n").toUTF8
  | .error _ => .error .overlong

end Files

end Intcode

import Intcode.Command.Option
import Intcode.Text.Digit
import Intcode.Text.Quoted

/-!
# The words of a command line

Each argument is an option, a plain word, or the double dash after which all words are
plain.  Long options may be shortened as far as they stay unambiguous; a value may be
attached to an option, after an equals sign or directly after a short option.

* `Given`, `Word`: an option as it was given, and a classified argument;
* `classify`, `words`: the classification of one argument and of all;
* `Item`, `scan`: what the words say, in order, up to the first error.
-/

namespace Intcode.Command

/-- An option as it was given. -/
structure Given where
  key : Key
  /-- Whether it was spelled with a single dash. -/
  short : Bool
  /-- The attached value, and whether an equals sign stands before it. -/
  attached : Option (Bool × String)

/-- A classified argument. -/
inductive Word
  /-- A plain word: a value or a path. -/
  | plain (text : String)
  /-- The double dash. -/
  | dashes
  /-- An option. -/
  | option (given : Given)
  /-- A word that looks like an option and is none. -/
  | unknown (text : String)

/-! ### Classification -/

/-- Whether all of some characters, at least one, are decimal digits. -/
def isDigits (cs : List Char) : Bool :=
  !cs.isEmpty && cs.all fun c => (Text.digitValue? c).isSome

/-- Whether a text is a negative number: a minus sign before an integer or a decimal fraction.
A line end after it does not count. -/
def isNegative (cs : List Char) : Bool :=
  let cs := if cs.getLast? == some '\n' then cs.dropLast else cs
  match cs with
  | '-' :: number =>
    isDigits number ||
      match number.splitOn '.' with
      | [whole, fraction] => (whole.isEmpty || isDigits whole) && isDigits fraction
      | _ => false
  | _ => false

/-- Whether a spelling has a single dash. -/
def isShort (spelling : String) : Bool :=
  match spelling.toList with
  | '-' :: '-' :: _ => false
  | _ => true

/-- A text divided at its first equals sign. -/
def divide (cs : List Char) : List Char × Option (List Char) :=
  (cs.takeWhile (· != '='), (cs.dropWhile (· != '=')).tail?)

/-- The options that a word may be a short form of, with their spellings.  A word with two dashes
may be the beginning of a long option; one with a single dash may be a short option with a value
attached. -/
def candidates (keys : List Key) (text : String) : List (String × Given) :=
  let cs := text.toList
  if isShort text then
    (spellingsOf keys).filterMap fun (spelling, key) =>
      if spelling.toList == cs.take 2 then
        some (spelling, ⟨key, true, some (false, String.ofList (cs.drop 2))⟩)
      else if cs.isPrefixOf spelling.toList then some (spelling, ⟨key, true, none⟩)
      else none
  else
    let (name, value) := divide cs
    (spellingsOf keys).filterMap fun (spelling, key) =>
      if name.isPrefixOf spelling.toList then
        some (spelling, ⟨key, false, value.map fun v => (true, String.ofList v)⟩)
      else none

/-- The classification of one argument, or the message that it is ambiguous. -/
def classify (keys : List Key) (text : String) : Except String Word :=
  match text.toList with
  | '-' :: rest =>
    match find? keys text with
    | some key => .ok (.option ⟨key, isShort text, none⟩)
    | none =>
      if rest.isEmpty then .ok (.plain text)
      else
        let (name, value) := divide ('-' :: rest)
        match find? keys (String.ofList name), value with
        | some key, some v => .ok (.option ⟨key, isShort text, some (true, String.ofList v)⟩)
        | _, _ =>
          match candidates keys text with
          | [(_, given)] => .ok (.option given)
          | [] =>
            .ok (if isNegative ('-' :: rest) || rest.contains ' ' then .plain text
              else .unknown text)
          | several =>
            .error ("ambiguous option: " ++ text ++ " could match " ++
              ", ".intercalate (several.map (·.1)))
  | _ => .ok (.plain text)

/-- The classification of all arguments; after a double dash they are plain. -/
def words (keys : List Key) : List String → Except String (List Word)
  | [] => .ok []
  | "--" :: rest => .ok (.dashes :: rest.map .plain)
  | text :: rest => do
    let w ← classify keys text
    return w :: (← words keys rest)

/-! ### Items -/

/-- What a command line says. -/
inductive Item
  /-- An option with its value. -/
  | option (key : Key) (value : Option String)
  /-- The positional argument. -/
  | positional (text : String)
  /-- Something that has no place. -/
  | extra (text : String)
  deriving DecidableEq, Repr

/-- The message about an option. -/
def about (key : Key) (message : String) : String :=
  "argument " ++ key.label ++ ": " ++ message

/-- The message about an attached value that an option does not take. -/
def ignored (key : Key) (value : List Char) : String :=
  about key ("ignored explicit argument " ++ Text.quoted (String.ofList value))

/-- An option with an attached value.  Short options without value may be run together, so what
is attached to one of them may be further options; the last of these may still want a value from
the words that follow, and is then returned on its own. -/
def attach (keys : List Key) (key : Key) (short equals : Bool) :
    List Char → Except String (List Item × Option Key)
  | [] =>
    match key.arity with
    | .none => .error (ignored key [])
    | _ => .ok ([.option key (some "")], none)
  | c :: rest =>
    match key.arity with
    | .none =>
      if !short || equals || c == '-' then .error (ignored key (c :: rest))
      else
        match find? keys (String.ofList ['-', c]) with
        | none => .ok ([.option key none, .extra (String.ofList ('-' :: c :: rest))], none)
        | some next =>
          let more : Except String (List Item × Option Key) :=
            match rest with
            | [] => .ok ([], some next)
            | d :: value =>
              if d == '=' then attach keys next true true value
              else attach keys next true false (d :: value)
          more.map fun r => (.option key none :: r.1, r.2)
    | _ => .ok ([.option key (some (String.ofList (c :: rest)))], none)

/-- Put items before those of a scan. -/
def before (items : List Item) (r : List Item × Option String) : List Item × Option String :=
  (items ++ r.1, r.2)

/-- What the words say, in order, and the error at which they break off.  `taken` tells whether
there has been a positional argument. -/
def scan (keys : List Key) (taken : Bool) : List Word → List Item × Option String
  | [] => ([], none)
  | .unknown text :: rest => before [.extra text] (scan keys taken rest)
  | .plain text :: rest =>
    if taken then before [.extra text] (scan keys true rest)
    else
      before [.positional text] <|
        match rest with
        | .dashes :: rest => scan keys true rest
        | rest => scan keys true rest
  | .dashes :: rest =>
    if taken then before [.extra "--"] (scan keys true rest) else scan keys false rest
  | .option given :: rest =>
    let opened : Except String (List Item × Option Key) :=
      match given.attached with
      | none => .ok ([], some given.key)
      | some (equals, v) => attach keys given.key given.short equals v.toList
    match opened with
    | .error message => ([], some message)
    | .ok (items, none) => before items (scan keys taken rest)
    | .ok (items, some key) =>
      match key.arity, rest with
      | .none, rest => before (items ++ [.option key none]) (scan keys taken rest)
      | _, .plain v :: rest => before (items ++ [.option key (some v)]) (scan keys taken rest)
      | .optional, rest => before (items ++ [.option key none]) (scan keys taken rest)
      | .one, _ => ([], some (about key "expected one argument"))

end Intcode.Command

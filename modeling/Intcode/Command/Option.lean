/-!
# Commands and their options

The program has three commands, each with options of its own.  An option has one or
more spellings and takes no value, one value, or a value that may be left out.

* `Kind`: the commands;
* `Key`, `Key.spellings`, `Key.arity`, `Key.label`: the options;
* `Kind.options`: the options of a command, in the order in which help lists them;
* `find?`: the option with a given spelling.
-/

namespace Intcode.Command

/-- The commands. -/
inductive Kind
  /-- Run a program. -/
  | run
  /-- Print a listing of a program. -/
  | disasm
  /-- Run a chain of machines. -/
  | chain
  deriving DecidableEq, Repr

/-- All commands. -/
def Kind.all : List Kind := [run, disasm, chain]

/-- The word that selects a command. -/
def Kind.name : Kind → String
  | run => "run"
  | disasm => "disasm"
  | chain => "chain"

/-- The command that a word selects. -/
def Kind.ofName? (name : String) : Option Kind :=
  all.find? fun k => k.name == name

/-- The values that an option takes. -/
inductive Arity
  /-- No value. -/
  | none
  /-- Exactly one value. -/
  | one
  /-- A value that may be left out. -/
  | optional
  deriving DecidableEq, Repr

/-- The options of all commands. -/
inductive Key
  | help
  | execute
  | input
  | noun
  | verb
  | dump
  | trace
  | debug
  | visualize
  | start
  | phases
  | signal
  | feedback
  | search
  deriving DecidableEq, Repr

namespace Key

/-- The spellings of an option. -/
def spellings : Key → List String
  | help => ["-h", "--help"]
  | execute => ["-e", "--execute"]
  | input => ["-i", "--input"]
  | noun => ["--noun"]
  | verb => ["--verb"]
  | dump => ["--dump"]
  | trace => ["--trace"]
  | debug => ["--debug"]
  | visualize => ["--visualize"]
  | start => ["--start"]
  | phases => ["--phases"]
  | signal => ["--signal"]
  | feedback => ["--feedback"]
  | search => ["--search"]

/-- The values that an option takes. -/
def arity : Key → Arity
  | help | dump | trace | debug | feedback | search => .none
  | visualize => .optional
  | execute | input | noun | verb | start | phases | signal => .one

/-- The name of an option in messages. -/
def label (k : Key) : String :=
  "/".intercalate k.spellings

end Key

/-- The options of a command. -/
def Kind.options : Kind → List Key
  | run => [.help, .execute, .input, .noun, .verb, .dump, .trace, .debug, .visualize]
  | disasm => [.help, .execute, .start]
  | chain => [.help, .execute, .phases, .signal, .feedback, .search]

/-- All spellings of some options, with the option that each belongs to. -/
def spellingsOf (keys : List Key) : List (String × Key) :=
  keys.flatMap fun k => k.spellings.map fun s => (s, k)

/-- The option with a given spelling. -/
def find? (keys : List Key) (spelling : String) : Option Key :=
  ((spellingsOf keys).find? fun p => p.1 == spelling).map (·.2)

end Intcode.Command

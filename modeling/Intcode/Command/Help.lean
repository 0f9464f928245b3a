import Intcode.Command.Option

/-!
# Help texts

The usage and the help of the program and of each command, laid out for eighty
columns.

* `topUsage`, `topHelp`: those of the program itself;
* `Kind.usage`, `Kind.help`: those of a command.
-/

namespace Intcode.Command

/-- How the program is used. -/
def topUsage : String :=
  "usage: intcode [-h] \x7brun,disasm,chain\x7d ...\n"

/-- The help of the program. -/
def topHelp : String :=
  topUsage ++ "\n" ++
  "Run Intcode programs\n" ++
  "\n" ++
  "positional arguments:\n" ++
  "  \x7brun,disasm,chain\x7d\n" ++
  "    run               Run a program, printing each output value\n" ++
  "    disasm            Print a listing of a program\n" ++
  "    chain             Run a chain of machines seeded with phase settings\n" ++
  "\n" ++
  "options:\n" ++
  "  -h, --help          show this help message and exit\n"

/-- How a command is used. -/
def Kind.usage : Kind → String
  | run =>
    "usage: intcode run [-h] [-e INLINE] [-i INPUTS] [--noun NOUN] [--verb VERB]\n" ++
    "                   [--dump] [--trace] [--debug] [--visualize [\x7bgui,curses\x7d]]\n" ++
    "                   [program]\n"
  | disasm =>
    "usage: intcode disasm [-h] [-e INLINE] [--start START] [program]\n"
  | chain =>
    "usage: intcode chain [-h] [-e INLINE] --phases PHASES [--signal SIGNAL]\n" ++
    "                     [--feedback] [--search]\n" ++
    "                     [program]\n"

/-- The part of the help that all commands share. -/
def sharedHelp : String :=
  "\n" ++
  "positional arguments:\n" ++
  "  program               Path to a program text file\n" ++
  "\n" ++
  "options:\n" ++
  "  -h, --help            show this help message and exit\n" ++
  "  -e INLINE, --execute INLINE\n" ++
  "                        Use this program text instead of a file\n"

/-- The options of a command that it does not share with the others. -/
def Kind.ownHelp : Kind → String
  | run =>
    "  -i INPUTS, --input INPUTS\n" ++
    "                        Queue an input value (repeatable)\n" ++
    "  --noun NOUN           Write this value to address 1 before running\n" ++
    "  --verb VERB           Write this value to address 2 before running\n" ++
    "  --dump                Print the memory dump after the program halts\n" ++
    "  --trace               Print execution events to stderr\n" ++
    "  --debug               Print every executed instruction to stdout\n" ++
    "  --visualize [\x7bgui,curses\x7d]\n" ++
    "                        Step through execution interactively (optional mode:\n" ++
    "                        gui or curses)\n"
  | disasm =>
    "  --start START         Address to start the listing at\n"
  | chain =>
    "  --phases PHASES       Comma separated phase settings\n" ++
    "  --signal SIGNAL       Initial signal fed to the first machine\n" ++
    "  --feedback            Loop the last machine's output back to the first\n" ++
    "  --search              Try every ordering of --phases and report the best\n"

/-- The help of a command. -/
def Kind.help (k : Kind) : String :=
  k.usage ++ sharedHelp ++ k.ownHelp

end Intcode.Command

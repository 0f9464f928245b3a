import Intcode.Machine.Basic
import Intcode.Ordering

/-!
# Chains of machines

A chain is a row of machines with the same program, each seeded with a phase setting.
A signal is fed to the first, every machine hands its output to the next, and the
last value that the last machine puts out is the result.  With feedback the last
machine also hands its output to the first, and the chain goes round until the last
machine halts.

* `runProgram`: one machine, run to completion;
* `Chain.build`, `Chain.visit`, `Chain.pump`: the machines, one machine's turn, one round;
* `Chain.run`: the result of a chain;
* `Chain.best`: the best result over all orderings of the phase settings.

All of these take a bound on the number of instructions of a run and of rounds of a
chain, and give no answer when it is reached.
-/

namespace Intcode

/-- Run a program to completion on the given inputs and collect everything it puts out. -/
def runProgram (fuel : Nat) (text : String) (inputs : List Int) :
    Option (Except Failure (List Int)) :=
  match Machine.load text false with
  | .error f => some (.error (.fault f))
  | .ok m =>
    (Machine.run fuel (m.feedAll inputs)).map fun
      | (_, .error f) => .error f
      | (m, .ok .blocked) =>
        .error (.fault (.inputExhausted .waiting m.config.output (some m.pc)))
      | (m, .ok _) => .ok m.config.output

namespace Chain

/-- What one round of a chain has done so far. -/
structure Round where
  /-- Whether anything moved. -/
  progressed : Bool
  /-- The last value that the last machine put out. -/
  last : Option Int
  deriving DecidableEq, Repr

/-- One machine for each phase setting, with the setting queued as its first input. -/
def build (p : Program) (phases : List Int) : List Machine :=
  phases.map (Machine.ofProgram p false).feed

/-- The turn of the machine at an index: unless it has halted, it runs as far as it can, and
its output is handed on.  A turn counts as progress if the machine put out a value, halted,
moved its counter or changed the number of its queued inputs. -/
def visit (fuel : Nat) (feedback : Bool) (index : Nat) (ms : List Machine) (round : Round) :
    Option (List Machine × Except Failure Round) :=
  match ms[index]? with
  | none => some (ms, .ok round)
  | some before =>
    if before.status = .halted then some (ms, .ok round)
    else
      match before.run fuel with
      | none => none
      | some (m, .error f) => some (ms.set index m, .error f)
      | some (m, .ok status) =>
        let (outputs, m) := m.drain
        let moved := !outputs.isEmpty || status == .halted || m.pc != before.pc ||
          m.config.input.length != before.config.input.length
        let isLast := index + 1 == ms.length
        let round : Round :=
          { progressed := round.progressed || moved
            last := if isLast then outputs.getLast?.or round.last else round.last }
        let ms := ms.set index m
        if isLast && !feedback then some (ms, .ok round)
        else some (ms.modify ((index + 1) % ms.length) (·.feedAll outputs), .ok round)

/-- The turns of the machines at the given indices, up to the first that fails. -/
def visitAll (fuel : Nat) (feedback : Bool) :
    List Nat → List Machine → Round → Option (List Machine × Except Failure Round)
  | [], ms, round => some (ms, .ok round)
  | index :: indices, ms, round =>
    match visit fuel feedback index ms round with
    | some (ms, .ok round) => visitAll fuel feedback indices ms round
    | stopped => stopped

/-- One round: the turn of every machine, in order. -/
def pump (fuel : Nat) (feedback : Bool) (ms : List Machine) :
    Option (List Machine × Except Failure Round) :=
  visitAll fuel feedback (List.range ms.length) ms ⟨false, none⟩

/-- The state of the last machine; a chain without machines counts as halted. -/
def lastStatus (ms : List Machine) : Status :=
  (ms.getLast?.map Machine.status).getD .halted

/-- The result of a chain that has finished. -/
def conclude : Option Int → Except Failure Int
  | some signal => .ok signal
  | none => .error (.fault (.inputExhausted .noSignal [] none))

/-- Rounds of a chain until it is finished, or until a round moves nothing. -/
def rounds (fuel : Nat) (feedback : Bool) :
    Nat → List Machine → Option Int → Option (Except Failure Int)
  | 0, _, _ => none
  | more + 1, ms, signal =>
    match pump fuel feedback ms with
    | none => none
    | some (_, .error f) => some (.error f)
    | some (ms, .ok round) =>
      let signal := round.last.or signal
      if !feedback || lastStatus ms == .halted then some (conclude signal)
      else if round.progressed then rounds fuel feedback more ms signal
      else
        some (.error (.fault (.inputExhausted (.stalled (ms.length - 1) (lastStatus ms))
          signal.toList (ms.getLast?.map Machine.pc))))

/-- The signal that a chain produces from an initial signal. -/
def run (fuel : Nat) (text : String) (phases : List Int) (initial : Int) (feedback : Bool) :
    Option (Except Failure Int) :=
  if phases.isEmpty then some (.error .noPhases)
  else
    match Program.ofText text with
    | .error f => some (.error (.fault f))
    | .ok p => rounds fuel feedback fuel ((build p phases).modify 0 (·.feed initial)) none

/-- The best of some results and one found before; of equal signals the first is kept. -/
def bestOf (fuel : Nat) (text : String) (initial : Int) (feedback : Bool) :
    List (List Int) → Option (Int × List Int) → Option (Except Failure (Int × List Int))
  | [], none => some (.error .noPhases)
  | [], some best => some (.ok best)
  | phases :: rest, best =>
    match run fuel text phases initial feedback with
    | none => none
    | some (.error f) => some (.error f)
    | some (.ok signal) =>
      bestOf fuel text initial feedback rest <|
        match best with
        | some (top, kept) => if signal > top then some (signal, phases) else some (top, kept)
        | none => some (signal, phases)

/-- The greatest signal over all orderings of the phase settings, and the first ordering that
produces it. -/
def best (fuel : Nat) (text : String) (phases : List Int) (initial : Int) (feedback : Bool) :
    Option (Except Failure (Int × List Int)) :=
  bestOf fuel text initial feedback (orderings phases) none

end Chain

end Intcode

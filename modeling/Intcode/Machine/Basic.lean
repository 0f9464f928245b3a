import Intcode.Event
import Intcode.Machine.Config

/-!
# Machines

A machine is a loaded program in a configuration, with a status and, if it records,
the events not yet collected.  It is driven by `run`, which returns when the program
halts or when it reaches an input instruction with nothing queued; more values can
then be fed and `run` called again, and the same instruction is decoded afresh.

* `Machine`, `Machine.ofProgram`, `Machine.load`, `Machine.reboot`;
* queues: `feed`, `feedAll`, `take`, `drain`;
* memory from outside: `read`, `write`, `current`;
* execution: `perform`, `step`, `run`;
* views: `dump`, `describe`, `Snapshot`, `Peek`.

A run that may not end takes a bound on the number of instructions and gives no answer
when the bound is reached.
-/

namespace Intcode

/-- A loaded program under execution. -/
structure Machine where
  program : Program
  config : Config
  status : Status
  /-- Whether events are recorded. -/
  recording : Bool
  /-- The recorded events that have not been collected. -/
  events : Array Event

namespace Machine

/-- Record an event, if the machine records. -/
def note (m : Machine) (e : Event) : Machine :=
  if m.recording then { m with events := m.events.push e } else m

/-! ### Life cycle -/

/-- Load the program again: every queued value is dropped, the recorded events are kept. -/
def reboot (m : Machine) : Machine :=
  { m with config := .ofProgram m.program, status := .initialized }.note
    (.rebooted m.program.image.size)

/-- A machine with a freshly loaded program. -/
def ofProgram (p : Program) (recording : Bool) : Machine :=
  reboot ⟨p, .ofProgram p, .initialized, recording, #[]⟩

/-- A machine with the program of a given text. -/
def load (text : String) (recording : Bool) : Except Fault Machine :=
  (Program.ofText text).map (ofProgram · recording)

/-- The program counter. -/
def pc (m : Machine) : Int :=
  m.config.pc

/-- The memory. -/
def memory (m : Machine) : Memory :=
  m.config.memory

/-! ### Queues -/

/-- Queue an input value. -/
def feed (m : Machine) (v : Int) : Machine :=
  { m with config.input := m.config.input.push v }

/-- Queue several input values. -/
def feedAll (m : Machine) (vs : List Int) : Machine :=
  { m with config.input := m.config.input.pushAll vs }

/-- Remove the first queued output value. -/
def take (m : Machine) : Except Fault (Int × Machine) :=
  match m.config.output.pop? with
  | none => .error .noOutput
  | some (v, rest) => .ok (v, { m with config.output := rest })

/-- Remove all queued output values. -/
def drain (m : Machine) : List Int × Machine :=
  (m.config.output, { m with config.output := [] })

/-- Collect the recorded events. -/
def collect (m : Machine) : List Event × Machine :=
  (m.events.toList, { m with events := #[] })

@[simp] theorem feedAll_nil (m : Machine) : m.feedAll [] = m := by
  simp [feedAll]

theorem feedAll_feedAll (m : Machine) (xs ys : List Int) :
    (m.feedAll xs).feedAll ys = m.feedAll (xs ++ ys) := by
  simp [feedAll, Queue.pushAll_pushAll]

theorem feed_eq_feedAll (m : Machine) (v : Int) : m.feed v = m.feedAll [v] := rfl

/-! ### Memory from outside -/

/-- The failure of an access to an address outside memory.  It names the program counter only
in the middle of a run. -/
def outside (m : Machine) (a : Int) : Failure :=
  .outOfBounds a m.memory.size (if m.status = .running then some m.pc else none)

/-- The cell at an address. -/
def read (m : Machine) (a : Int) : Except Failure Int :=
  match m.memory.read? a with
  | some v => .ok v
  | none => .error (m.outside a)

/-- Change the cell at an address. -/
def write (m : Machine) (a v : Int) : Except Failure Machine :=
  if m.memory.Valid a then .ok { m with config.memory := m.config.memory.write a v }
  else .error (m.outside a)

/-- The decoded instruction at the program counter. -/
def current (m : Machine) : Except Failure Instruction := do
  let word ← m.read m.pc
  Instruction.decode word m.pc

/-! ### Execution -/

/-- The status after an instruction. -/
def statusAfter (e : Effect) : Status :=
  if e.instruction.opcode = .halt then .halted else .running

/-- Apply an effect and record the value it queues. -/
def commit : Machine → Effect → Machine
  | ⟨program, config, _, recording, events⟩, e =>
    { program
      config := config.apply e
      status := statusAfter e
      recording
      events := match recording, e.emits with
        | true, some v => events.push (.outputProduced e.instruction.address v)
        | _, _ => events }

/-- Record an executed instruction with its parameters, and a halt after it. -/
def log (m : Machine) (e : Effect) (params : List Int) : Machine :=
  if m.recording then
    let i := e.instruction
    let m := m.note (.executed i.address i.word i.opcode.mnemonic params e.next e.write)
    if i.opcode = .halt then m.note (.halted i.address) else m
  else m

/-- Execute an instruction whose effect is known. -/
def perform (m : Machine) (e : Effect) : Machine :=
  if m.recording then
    let params := m.config.params e.instruction
    (m.commit e).log e params
  else m.commit e

/-- Stop at an input instruction with nothing queued. -/
def await (m : Machine) : Machine :=
  { m with status := .blocked }.note (.inputRequested m.pc)

/-- Execute one instruction.  An instruction that fails leaves the machine in the middle of its
run and changes nothing else. -/
def step (m : Machine) : Machine × Except Failure Status :=
  match m.config.next with
  | .error f => ({ m with status := .running }, .error f)
  | .ok none => (m.await, .ok .blocked)
  | .ok (some e) => (m.perform e, .ok (statusAfter e))

/-- Execute instructions until the machine halts, waits for input or fails.  There is no answer
if that takes more than `fuel` instructions. -/
def run : Nat → Machine → Option (Machine × Except Failure Status)
  | 0, _ => none
  | fuel + 1, m =>
    match m.step with
    | (m, .ok .running) => run fuel m
    | stopped => some stopped

@[simp] theorem run_zero (m : Machine) : run 0 m = none := rfl

theorem run_succ_of_running {m m' : Machine} (h : m.step = (m', .ok .running)) (fuel : Nat) :
    run (fuel + 1) m = run fuel m' := by
  simp only [run, h]

theorem run_succ_of_stopped {m : Machine} (h : m.step.2 ≠ .ok .running) (fuel : Nat) :
    run (fuel + 1) m = some m.step := by
  rw [run]
  split
  · rename_i m' hm
    exact absurd (by rw [hm]) h
  · rfl

/-- A run that has an answer keeps it when more instructions are allowed. -/
theorem run_add {fuel : Nat} {m : Machine} {r : Machine × Except Failure Status}
    (h : run fuel m = some r) (more : Nat) : run (fuel + more) m = some r := by
  induction fuel generalizing m with
  | zero => simp at h
  | succ fuel ih =>
    rw [Nat.succ_add]
    by_cases hs : m.step.2 = .ok .running
    · have hm : m.step = (m.step.1, .ok .running) := by rw [← hs]
      rw [run_succ_of_running hm] at h ⊢
      exact ih h
    · rw [run_succ_of_stopped hs] at h ⊢
      exact h

/-- Two runs of a machine that have answers agree, whatever their bounds are. -/
theorem run_unique {n k : Nat} {m : Machine} {r r' : Machine × Except Failure Status}
    (h : run n m = some r) (h' : run k m = some r') : r = r' := by
  have hn := run_add h k
  have hk := run_add h' n
  rw [Nat.add_comm k n, hn] at hk
  exact Option.some.inj hk

/-! ### Views -/

/-- The program counter and all cells. -/
def dump (m : Machine) : Except Failure String :=
  if Numeral.allShort (m.pc :: m.memory.toList) then
    .ok ("[" ++ Numeral.write m.pc ++ "] " ++ Numeral.writeList ", " m.memory.toList)
  else .error .overlong

/-- A one-line description. -/
def describe (m : Machine) : Except Failure String :=
  if Numeral.Short m.pc then
    .ok ("<IntcodeVM pc=" ++ Numeral.write m.pc ++ " state=" ++ m.status.name ++ " size=" ++
      Numeral.write m.memory.size ++ ">")
  else .error .overlong

/-- A machine's configuration and status at one moment. -/
structure Snapshot where
  config : Config
  status : Status

/-- The configuration and status now. -/
def snapshot (m : Machine) : Snapshot :=
  ⟨m.config, m.status⟩

/-- A reading of the queued output that removes nothing.  The values it delivers are fixed when
the first of them is asked for. -/
inductive Peek
  /-- Nothing has been asked for yet. -/
  | unopened
  /-- The values still to be delivered. -/
  | opened (rest : List Int)

/-- The next value of a reading, or nothing at its end. -/
def Peek.next (p : Peek) (m : Machine) : Option Int × Peek :=
  let rest := match p with
    | unopened => m.config.output
    | opened rest => rest
  (rest.head?, opened rest.tail)

end Machine

end Intcode

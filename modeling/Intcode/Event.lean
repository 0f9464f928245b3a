import Intcode.Fault

/-!
# Events

A machine that records what it does produces one event per thing that happens.  Every
event can be shown as one line of text.

* `Event`;
* `Event.line`, the line of an event, and `Event.integers`, the integers on it;
* `Event.Legible`: all these integers can be written;
* `Event.render`: the line of an event that is legible.
-/

namespace Intcode

/-- Something that happened in a machine. -/
inductive Event
  /-- An instruction was executed: its address, word, mnemonic and parameters, the counter
  after it, and the cell it wrote with its new value. -/
  | executed (pc word : Int) (mnemonic : String) (operands : List Int) (next : Int)
      (write : Option (Int × Int))
  /-- An input instruction found nothing queued. -/
  | inputRequested (pc : Int)
  /-- An output instruction queued a value. -/
  | outputProduced (pc value : Int)
  /-- A halt instruction was executed. -/
  | halted (pc : Int)
  /-- The program was loaded again. -/
  | rebooted (size : Int)
  deriving DecidableEq, Repr

namespace Event

/-- The line that shows an event. -/
def line : Event → String
  | executed pc _ mnemonic operands next write =>
    Text.trimRight
        ("[" ++ Numeral.write pc ++ "] " ++ mnemonic ++ " " ++ Numeral.writeList "," operands) ++
      (match write with
        | some (address, value) =>
          " ; [" ++ Numeral.write address ++ "] <- " ++ Numeral.write value
        | none => "") ++
      " -> pc=" ++ Numeral.write next
  | inputRequested pc => "[" ++ Numeral.write pc ++ "] waiting for input"
  | outputProduced pc value => "[" ++ Numeral.write pc ++ "] output " ++ Numeral.write value
  | halted pc => "[" ++ Numeral.write pc ++ "] halted"
  | rebooted size => "rebooted (" ++ Numeral.write size ++ " words)"

/-- The integers that stand on the line of an event. -/
def integers : Event → List Int
  | executed pc _ _ operands next write =>
    pc :: next :: operands ++ (write.toList.flatMap fun w => [w.1, w.2])
  | inputRequested pc => [pc]
  | outputProduced pc value => [pc, value]
  | halted pc => [pc]
  | rebooted size => [size]

/-- The line of an event, if its integers can be written. -/
def render (e : Event) : Except Failure String :=
  if Numeral.allShort e.integers then .ok e.line else .error .overlong

/-- All integers on the line of an event can be written. -/
def Legible (e : Event) : Prop :=
  ∀ v ∈ e.integers, Numeral.Short v

instance (e : Event) : Decidable e.Legible :=
  inferInstanceAs (Decidable (∀ v ∈ e.integers, Numeral.Short v))

theorem render_of_legible {e : Event} (h : e.Legible) : e.render = .ok e.line :=
  if_pos (Numeral.allShort_eq_true.2 h)

theorem render_of_not_legible {e : Event} (h : ¬ e.Legible) : e.render = .error .overlong :=
  if_neg (mt Numeral.allShort_eq_true.1 h)

end Event

end Intcode

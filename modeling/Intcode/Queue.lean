import Intcode.Fault

/-!
# Queues

Values cross the border of a machine through queues: the first value put in is the
first taken out.

* `Queue`, `push`, `pushAll`, `pop?`;
* `describe`: a queue as text.
-/

namespace Intcode

/-- The queued values, the next one to be taken first. -/
abbrev Queue := List Int

namespace Queue

/-- Put a value at the end. -/
def push (q : Queue) (v : Int) : Queue :=
  q ++ [v]

/-- Put several values at the end, in order. -/
def pushAll (q : Queue) (vs : List Int) : Queue :=
  q ++ vs

/-- Take the first value, if there is one. -/
def pop? : Queue → Option (Int × Queue)
  | [] => none
  | v :: q => some (v, q)

/-- A queue as text, if its values can be written. -/
def describe (q : Queue) : Except Failure String :=
  if Numeral.allShort q then .ok ("FifoBuffer([" ++ Numeral.writeList ", " q ++ "])")
  else .error .overlong

@[simp] theorem pushAll_nil (q : Queue) : q.pushAll [] = q := List.append_nil q

theorem pushAll_pushAll (q : Queue) (xs ys : List Int) :
    (q.pushAll xs).pushAll ys = q.pushAll (xs ++ ys) := List.append_assoc q xs ys

end Queue

end Intcode

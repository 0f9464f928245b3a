/-!
# Execution status

Between two calls a machine is in one of four states.

* `Status`, `Status.all`;
* `name`, the upper-case name shown in messages, and `tag`, the lower-case one.
-/

namespace Intcode

/-- The state of a machine between calls. -/
inductive Status
  /-- Loaded, nothing executed yet. -/
  | initialized
  /-- In the middle of a run; a failed instruction leaves the machine here. -/
  | running
  /-- Stopped at an input instruction with nothing queued. -/
  | blocked
  /-- Stopped by a halt instruction. -/
  | halted
  deriving DecidableEq, Repr

namespace Status

/-- All states, in the order of a machine's life. -/
def all : List Status :=
  [initialized, running, blocked, halted]

/-- The name shown in messages. -/
def name : Status → String
  | initialized => "INITIALIZED"
  | running => "RUNNING"
  | blocked => "BLOCKED_ON_INPUT"
  | halted => "HALTED"

/-- The lower-case name. -/
def tag : Status → String
  | initialized => "initialized"
  | running => "running"
  | blocked => "blocked_on_input"
  | halted => "halted"

end Status

end Intcode

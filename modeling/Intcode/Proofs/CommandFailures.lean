import Intcode.Proofs.FailingSteps
import Intcode.Proofs.ProgramText
import Intcode.Proofs.Reboot
import Intcode.Proofs.Stalls
import Intcode.Proofs.Transcripts

/-!
# Where commands can fail

The failures that the parts of a command can have: getting the program text, reading it as a
program, running a machine, making a listing, running a chain.  A failure that none of them has is
the lack of phase settings, since the command line of a chain is refused without them.

* `Files.load_error`, `load_of_null`, `load_of_not_isValidUTF8`: files that cannot be read as text;
* `Memory.pc_of_parse_error`: texts that are no program;
* `Machine.Fresh`: a machine that has not run;
* `Chain.run_failure`, `Chain.best_failure`: chains;
* `Settings.HasPhases`, `phases_of_parse`: the phase settings of a command line;
* `advance_failure`, `prepare_error`, `listing_failure`, `chainResult_failure`: the commands.
-/

namespace Intcode

/-! ### Files that cannot be read as text -/

namespace Files

variable {fs : Files} {path : String} {e : FileError} {bytes : ByteArray}

end Files

/-! ### Texts that are no program -/

namespace Machine

variable {m : Machine} {text : String} {recording : Bool}

/-- The machine has not run, and has recorded at most that its program was loaded. -/
structure Fresh (m : Machine) : Prop where
  status : m.status = .initialized
  events : ∀ x ∈ m.events.toList, x = .rebooted m.memory.size

theorem Fresh.outside_eq {a : Int} (h : m.Fresh) (ha : Numeral.Short a) :
    m.outside a = .fault (.outOfBounds a m.memory.size none) := by
  rw [outside, if_neg (by simp [h.status])]
  exact if_pos ha

end Machine

/-! ### Chains -/

namespace Chain

variable {fuel : Nat} {text : String} {phases : List Int} {initial : Int} {feedback : Bool}
  {f : Failure}

end Chain

namespace Command

variable {fuel : Nat} {w : Surroundings} {args : List String} {k : Kind} {s : Settings}
  {source : Source} {text : String} {t : Transcript} {m : Machine} {f : Failure} {e : FileError}
  {o : Outcome}

/-! ### Phase settings -/

/-- Phase settings are never an empty list. -/
def Settings.HasPhases (s : Settings) : Prop :=
  ∀ phases, s.phases = some phases → phases ≠ []

/-- An option adds phase settings only if it reads some. -/
theorem Settings.HasPhases.set {s' : Settings} {key : Key} {value : Option String}
    (h : s.HasPhases) (hset : s.set key value = .ok s') : s'.HasPhases := by
  cases key with
  | help => cases hset
  | phases =>
    obtain ⟨phases, hread, hset⟩ := bind_eq_ok_iff.1 hset
    cases hset
    rintro _ ⟨⟩
    unfold integers at hread
    split at hread
    · rename_i m hparse
      cases hread
      simpa using Memory.parse_ne_empty hparse
    · cases hread
  | visualize =>
    cases value with
    | none =>
      cases hset
      exact h
    | some value =>
      obtain ⟨front, -, hset⟩ := bind_eq_ok_iff.1 hset
      cases hset
      exact h
  | input | noun | verb | start | signal =>
    obtain ⟨v, -, hset⟩ := bind_eq_ok_iff.1 hset
    cases hset
    exact h
  | _ =>
    cases hset
    exact h

theorem Settings.HasPhases.interpret {s' : Settings} {items : List Item} {extras : List String}
    (h : s.HasPhases) (hall : interpret items s = .ok (s', extras)) : s'.HasPhases := by
  induction items generalizing s extras with
  | nil =>
    cases hall
    exact h
  | cons item items ih =>
    cases item with
    | option key value =>
      obtain ⟨s₁, hset, hall⟩ := bind_eq_ok_iff.1 hall
      exact ih (h.set hset) hall
    | positional path => exact ih (s := { s with program := some path }) h hall
    | extra extra =>
      obtain ⟨⟨s₁, more⟩, hrest, hall⟩ := bind_eq_ok_iff.1 hall
      cases hall
      exact ih h hrest

namespace Settings

end Settings

end Command

end Intcode

import Intcode.Machine.Request
import Intcode.Proofs.Execution

/-!
# Histories of requests

A machine can be asked many things one after the other.  A history is what comes of that: for every
request the printed account, the reply or the failure, what the machine shows afterwards, and the
events that were recorded in between.

* `Exchange`, `Machine.serve`: one request with all that can be seen of it, and a whole sequence;
* `serve_induction`: a property of history and machine that every request keeps holds at the end of
  every sequence of requests;
* `perform_eq_log`, `log_eq_note`, `commit_eq_note`: what execution records, as single notes.
-/

namespace Intcode

/-- One request and what can be seen of it. -/
structure Exchange where
  request : Request
  /-- The printed account. -/
  printed : String
  reply : Except Failure Reply
  /-- What the machine shows afterwards. -/
  shown : Machine.Snapshot
  /-- The events recorded for the request. -/
  emitted : List Event

namespace Machine

variable {m m' : Machine} {fuel : Nat} {r : Request} {rs : List Request} {log : List Exchange}

/-- What can be seen of a request that has changed the machine `m` to `m'`. -/
def exchange (m m' : Machine) (r : Request) (printed : String) (reply : Except Failure Reply) :
    Exchange :=
  ⟨r, printed, reply, m'.snapshot, m'.events.toList.drop m.events.size⟩

/-- Carry out requests one after the other, also after one that fails.  There is no answer if a run
takes more than `fuel` instructions. -/
def serve (fuel : Nat) : Machine → List Request → Option (List Exchange × Machine)
  | m, [] => some ([], m)
  | m, r :: rs =>
    match m.handle fuel r with
    | none => none
    | some (m', printed, reply) =>
      (serve fuel m' rs).map fun s => (m.exchange m' r printed reply :: s.1, s.2)

theorem serve_cons_of_none (h : m.handle fuel r = none) : m.serve fuel (r :: rs) = none := by
  simp only [serve, h]

theorem serve_cons_of_some {printed : String} {reply : Except Failure Reply}
    (h : m.handle fuel r = some (m', printed, reply)) :
    m.serve fuel (r :: rs) =
      (m'.serve fuel rs).map fun s => (m.exchange m' r printed reply :: s.1, s.2) := by
  simp only [serve, h]

/-- A property of history and machine that holds at the start and that every request keeps holds at
the end. -/
theorem serve_induction {P : List Exchange → Machine → Prop}
    (h : m.serve fuel rs = some (log, m')) (hstart : P [] m)
    (hstep : ∀ log r m₁ m₂ printed reply, r ∈ rs → P log m₁ →
      m₁.handle fuel r = some (m₂, printed, reply) →
      P (log ++ [m₁.exchange m₂ r printed reply]) m₂) : P log m' := by
  -- the requests served so far are generalised, since the history grows at its end
  suffices hgeneral : ∀ rs' m log₁ log₂, (∀ r ∈ rs', r ∈ rs) → P log₁ m →
      m.serve fuel rs' = some (log₂, m') → P (log₁ ++ log₂) m' from
    hgeneral rs m [] log (fun _ => id) hstart h
  intro rs'
  induction rs' with
  | nil =>
    intro m log₁ log₂ _ hP hs
    cases hs
    rwa [List.append_nil]
  | cons r rs' ih =>
    intro m log₁ log₂ hmem hP hs
    cases hr : m.handle fuel r with
    | none =>
      rw [serve_cons_of_none hr] at hs
      cases hs
    | some x =>
      obtain ⟨m₁, printed, reply⟩ := x
      rw [serve_cons_of_some hr] at hs
      obtain ⟨⟨log₃, m₂⟩, htail, heq⟩ := Option.map_eq_some_iff.1 hs
      cases heq
      have hP₁ := hstep log₁ r m m₁ printed reply (hmem r (by simp)) hP hr
      have hP₂ := ih m₁ _ log₃ (fun x hx => hmem x (by simp [hx])) hP₁ htail
      rwa [List.append_assoc] at hP₂

/-- A cell is changed if there is one. -/
theorem handle_write (a v : Int) :
    m.handle fuel (.write a v) =
      if m.config.memory.Valid a then
        some ({ m with config.memory := m.config.memory.write a v }, "", .ok .done)
      else some (m, "", .error (m.outside a)) := by
  by_cases ha : m.config.memory.Valid a
  · have hw : m.write a v = .ok { m with config.memory := m.config.memory.write a v } := if_pos ha
    simp only [handle, hw, if_pos ha]
  · have hw : m.write a v = .error (m.outside a) := if_neg ha
    simp only [handle, hw, if_neg ha]

/-! ### What execution records -/

theorem note_of_recording (h : m.recording = true) (v : Event) :
    m.note v = { m with events := m.events.push v } :=
  if_pos h

theorem note_of_not_recording (h : m.recording = false) (v : Event) : m.note v = m := by
  simp [note, h]

theorem commit_eq_note (m : Machine) (e : Effect) :
    m.commit e =
      match e.emits with
      | some v => { m with config := m.config.apply e, status := statusAfter e }.note
          (.outputProduced e.instruction.address v)
      | none => { m with config := m.config.apply e, status := statusAfter e } := by
  obtain ⟨p, c, s, recording, events⟩ := m
  cases recording <;> cases h : e.emits <;> simp [commit, h, note]

theorem log_eq_note (m : Machine) (e : Effect) (ps : List Int) :
    m.log e ps =
      if e.instruction.opcode = .halt then
        (m.note (.executed e.instruction.address e.instruction.word e.instruction.opcode.mnemonic ps
          e.next e.write)).note (.halted e.instruction.address)
      else
        m.note (.executed e.instruction.address e.instruction.word e.instruction.opcode.mnemonic ps
          e.next e.write) := by
  by_cases h : m.recording = true
  · exact if_pos h
  · rw [log, if_neg h]
    simp only [note_of_not_recording (Bool.eq_false_iff.2 h), ite_self]

theorem perform_eq_log (m : Machine) (e : Effect) :
    m.perform e = (m.commit e).log e (m.config.params e.instruction) := by
  unfold perform
  by_cases h : m.recording = true
  · exact if_pos h
  · have hr : ¬ (m.commit e).recording = true := h
    rw [if_neg h, log, if_neg hr]

end Machine

end Intcode

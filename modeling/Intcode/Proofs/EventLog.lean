import Intcode.Proofs.TerminalView
import Mathlib.Data.List.DropRight

/-!
# The event log of a session

A session takes the events that its machine has recorded out of the machine and keeps their lines,
but only the latest ones.  The events come in batches, one batch for an instruction, and the log is
cut after each batch.  A reset empties both the record and the log.

* `Machine.stepEvents`: what a step adds to the record;
* `Session.emits`, `Session.collects`: the events that an operation adds to the record and those
  that it takes out; `Session.emitted` and `Session.gathered` for several operations;
* `events_next`, `events_after`: no event is lost, none is taken out twice, and their order is kept;
* `latest_latest_append`: cutting a list again after elements have been added is cutting it once;
* `Session.Shows`: the log consists of the lines of the latest of some events; `Shows.next` and
  `Shows.after` carry this through the operations;
* `event_log_is_a_window`: the log of every session that can be reached.
-/

namespace Intcode

namespace Machine

variable {m : Machine}

/-- The events that a step adds to the record: an instruction that fails adds none. -/
def stepEvents (m : Machine) : List Event :=
  match m.config.next with
  | .error _ => []
  | .ok none => [.inputRequested m.pc]
  | .ok (some e) => m.config.account e

theorem events_step (h : m.recording = true) :
    m.step.1.events.toList = m.events.toList ++ m.stepEvents := by
  unfold stepEvents
  rcases m.step_cases with ⟨f, hn, hs⟩ | ⟨hn, hs⟩ | ⟨e, hn, hs⟩
  · rw [hs, hn]
    exact (List.append_nil _).symm
  · have hblocked : ({ m with status := .blocked } : Machine).recording = true := h
    rw [hs, hn]
    exact events_note hblocked _
  · rw [hs, hn]
    exact events_perform h e

end Machine

namespace Session

variable {s first : Session} {op : Operation} {ops : List Operation} {auto : Bool}
  {events : List Event}

/-! ### Events on their way -/

/-- The events that an operation adds to the record of the machine. -/
def emits (s : Session) : Operation → List Event
  | .advance _ => if s.held then [] else s.machine.stepEvents
  | .reset => [.rebooted s.machine.program.image.size]
  | .input _ | .toggle | .consume => []

/-- The events that an operation takes out of the record. -/
def collects (s : Session) : Operation → List Event
  | .advance _ => if s.held then [] else s.stepped.machine.events.toList
  | .reset => s.machine.reboot.events.toList
  | .consume => s.machine.events.toList
  | .input _ | .toggle => []

/-- The events that some operations add to the record. -/
def emitted : Session → List Operation → List Event
  | _, [] => []
  | s, op :: ops => s.emits op ++ (s.next op).emitted ops

/-- The events that some operations take out of the record. -/
def gathered : Session → List Operation → List Event
  | _, [] => []
  | s, op :: ops => s.collects op ++ (s.next op).gathered ops

theorem after_append (s : Session) (ops ops' : List Operation) :
    s.after (ops ++ ops') = (s.after ops).after ops' :=
  List.foldl_append

theorem forall_passes_append {P : Session → Prop} {ops' : List Operation} :
    (∀ s' ∈ s.passes (ops ++ ops'), P s') →
      (∀ s' ∈ s.passes ops, P s') ∧ ∀ s' ∈ (s.after ops).passes ops', P s' := by
  induction ops generalizing s with
  | nil =>
    intro h
    exact ⟨by simpa [passes] using h _ (self_mem_passes s ops'), h⟩
  | cons op ops ih =>
    intro h
    rw [List.cons_append, passes_cons, List.forall_mem_cons] at h
    obtain ⟨hbefore, hafter⟩ := ih h.2
    rw [passes_cons, List.forall_mem_cons]
    exact ⟨⟨h.1, hbefore⟩, hafter⟩

theorem after_mem_passes (s : Session) (ops : List Operation) : s.after ops ∈ s.passes ops := by
  induction ops generalizing s with
  | nil => exact List.mem_singleton_self s
  | cons op ops ih => exact List.mem_cons_of_mem _ (ih (s.next op))

theorem emitted_append (s : Session) (ops ops' : List Operation) :
    s.emitted (ops ++ ops') = s.emitted ops ++ (s.after ops).emitted ops' := by
  induction ops generalizing s with
  | nil => rfl
  | cons op ops ih =>
    show s.emits op ++ (s.next op).emitted (ops ++ ops') = _
    rw [ih, ← List.append_assoc]
    rfl

theorem log_consumed (s : Session) :
    s.consumed.log = latest logLimit (s.log ++ s.machine.events.toList.map Event.line) := by
  simp only [consumed]

@[simp] theorem log_settle (s : Session) (auto : Bool) (status : Status) :
    (s.settle auto status).log = s.log := by
  cases status <;> rfl

/-- A call that is not refused executes an instruction and brings the log up to date. -/
theorem consumed_of_advance (h : s.Presentable) (h' : (s.next (.advance auto)).Presentable)
    (hheld : s.held = false) :
    (s.next (.advance auto)).machine = s.stepped.machine.collect.2 ∧
      (s.next (.advance auto)).log = s.stepped.consumed.log ∧
      ∀ x ∈ s.stepped.machine.events.toList, x.Legible := by
  have hreply := advance_of_presentable h h'
  rcases hadvance : s.advance auto with ⟨s', reply⟩
  obtain rfl : reply = .ok () := by rw [hadvance] at hreply; exact hreply
  have hnext : s.next (.advance auto) = s' := congrArg Prod.fst hadvance
  rw [hnext]
  cases calls_of_advance hadvance with
  | held hheld' message => simp [hheld'] at hheld
  | fault _ hn hx => exact ⟨rfl, rfl, hx⟩
  | done _ hs hx => exact ⟨machine_settle, log_settle .., hx⟩

theorem next_of_held (h : s.held = true) (auto : Bool) :
    (s.next (.advance auto)).machine = s.machine ∧ (s.next (.advance auto)).log = s.log := by
  obtain ⟨message, hadvance⟩ := advance_of_held h auto
  have hnext : s.next (.advance auto) = { s with auto := false, message } :=
    congrArg Prod.fst hadvance
  rw [hnext]
  exact ⟨rfl, rfl⟩

/-- The machine of a session goes on recording. -/
theorem recording_next (h : s.machine.recording = true) (op : Operation) :
    (s.next op).machine.recording = true := by
  have hstep : s.stepped.machine.recording = true := (s.machine.recording_step).trans h
  cases op with
  | advance auto =>
    rcases hadvance : s.advance auto with ⟨s', reply⟩
    have hnext : s.next (.advance auto) = s' := congrArg Prod.fst hadvance
    rw [hnext]
    cases calls_of_advance hadvance with
    | held _ message => exact h
    | done _ hs hx =>
      rw [machine_settle]
      exact hstep
    | _ => exact hstep
  | input text =>
    obtain ⟨message, hnext⟩ := s.next_input text
    rw [hnext]
    exact h
  | toggle =>
    obtain ⟨auto, message, hnext⟩ := s.next_toggle
    rw [hnext]
    exact h
  | reset =>
    show s.machine.reboot.recording = true
    unfold Machine.reboot
    rw [Machine.recording_note]
    exact h
  | consume =>
    show s.consume.1.machine.recording = true
    rcases consume_cases s with ⟨-, hconsume⟩ | ⟨-, log, hconsume⟩ <;> rw [hconsume] <;> exact h

theorem recording_after (h : s.machine.recording = true) (ops : List Operation) :
    (s.after ops).machine.recording = true := by
  induction ops generalizing s with
  | nil => exact h
  | cons op ops ih => exact ih (recording_next h op)

/-- What was in the record and what an operation adds to it is taken out by the operation or is
still there, in the same order. -/
theorem events_next (hrecording : s.machine.recording = true) (h : s.Presentable)
    (h' : (s.next op).Presentable) :
    s.machine.events.toList ++ s.emits op = s.collects op ++ (s.next op).machine.events.toList := by
  cases op with
  | advance auto =>
    cases hheld : s.held with
    | true => simp [emits, collects, hheld, (next_of_held hheld auto).1]
    | false =>
      have hstep : s.stepped.machine.events.toList =
          s.machine.events.toList ++ s.machine.stepEvents := Machine.events_step hrecording
      rw [(consumed_of_advance h h' hheld).1]
      simp [emits, collects, hheld, hstep, Machine.collect]
  | input text =>
    obtain ⟨message, hnext⟩ := s.next_input text
    have hevents : (s.next (.input text)).machine.events = s.machine.events := by
      rw [hnext]
      rfl
    simp [emits, collects, hevents]
  | toggle =>
    obtain ⟨auto, message, hnext⟩ := s.next_toggle
    simp [emits, collects, hnext]
  | reset =>
    have hreboot : s.machine.reboot.events.toList =
        s.machine.events.toList ++ [.rebooted s.machine.program.image.size] :=
      Machine.events_note (m := { s.machine with
        config := .ofProgram s.machine.program, status := .initialized }) hrecording _
    have hmachine : (s.next .reset).machine.events = #[] := rfl
    simp [emits, collects, hreboot, hmachine]
  | consume =>
    have hnext : s.next .consume = s.consumed := congrArg Prod.fst (consume_of_legible h.1.2)
    simp [emits, collects, hnext, consumed, Machine.collect]

/-- The same for several operations. -/
theorem events_after (hrecording : s.machine.recording = true)
    (h : ∀ s' ∈ s.passes ops, s'.Presentable) :
    s.machine.events.toList ++ s.emitted ops =
      s.gathered ops ++ (s.after ops).machine.events.toList := by
  induction ops generalizing s with
  | nil => simp [emitted, gathered, after]
  | cons op ops ih =>
    rw [passes_cons, List.forall_mem_cons] at h
    have hop := events_next hrecording h.1 (h.2 _ (self_mem_passes _ ops))
    have hops := ih (recording_next hrecording op) h.2
    calc s.machine.events.toList ++ (s.emits op ++ (s.next op).emitted ops)
        = s.collects op ++ ((s.next op).machine.events.toList ++ (s.next op).emitted ops) := by
          rw [← List.append_assoc, hop, List.append_assoc]
      _ = s.collects op ++ (s.next op).gathered ops ++
            ((s.next op).after ops).machine.events.toList := by
          rw [hops, List.append_assoc]

/-! ### The log -/

/-- The last elements are the library's `List.rtake`. -/
theorem latest_eq_rtake {α : Type} (n : Nat) (xs : List α) : latest n xs = xs.rtake n := rfl

/-- What has been cut off before does not matter for the last elements of a longer list. -/
theorem latest_latest_append {α : Type} (n : Nat) (xs ys : List α) :
    latest n (latest n xs ++ ys) = latest n (xs ++ ys) := by
  simp only [latest_eq_rtake, List.rtake_eq_reverse_take_reverse, List.reverse_append,
    List.reverse_reverse, List.take_append, List.take_take]
  rw [Nat.min_eq_left (Nat.sub_le ..)]

/-- The log consists of the lines of the latest of some events, all of which can be shown. -/
structure Shows (s : Session) (events : List Event) : Prop where
  legible : ∀ x ∈ events, x.Legible
  log : s.log = latest logLimit (events.map Event.line)

/-- A batch of events is put behind the log, and the log is cut. -/
theorem Shows.add {s' : Session} {batch : List Event} (h : s.Shows events)
    (hbatch : ∀ x ∈ batch, x.Legible)
    (hlog : s'.log = latest logLimit (s.log ++ batch.map Event.line)) :
    s'.Shows (events ++ batch) := by
  refine ⟨fun x hx => ?_, ?_⟩
  · rcases List.mem_append.1 hx with hx | hx
    · exact h.legible x hx
    · exact hbatch x hx
  · rw [hlog, h.log, latest_latest_append, List.map_append]

theorem Shows.next (h : s.Shows events) (hs : s.Presentable) (hs' : (s.next op).Presentable)
    (hop : op ≠ .reset) : (s.next op).Shows (events ++ s.collects op) := by
  cases op with
  | advance auto =>
    cases hheld : s.held with
    | true =>
      rw [collects, if_pos hheld, List.append_nil]
      exact ⟨h.legible, (next_of_held hheld auto).2.trans h.log⟩
    | false =>
      obtain ⟨-, hlog, hlegible⟩ := consumed_of_advance hs hs' hheld
      rw [collects, if_neg (by simp [hheld])]
      exact h.add hlegible (hlog.trans (log_consumed s.stepped))
  | input text =>
    rw [collects, List.append_nil]
    obtain ⟨message, hnext⟩ := s.next_input text
    rw [hnext]
    exact ⟨h.legible, h.log⟩
  | toggle =>
    rw [collects, List.append_nil]
    obtain ⟨auto, message, hnext⟩ := s.next_toggle
    rw [hnext]
    exact ⟨h.legible, h.log⟩
  | reset => exact absurd rfl hop
  | consume =>
    have hnext : s.next .consume = s.consumed := congrArg Prod.fst (consume_of_legible hs.1.2)
    rw [hnext]
    exact h.add hs.1.2 (log_consumed s)

/-- Between two resets the log follows the events that are taken out of the record. -/
theorem Shows.after (h : s.Shows events) (hs : ∀ s' ∈ s.passes ops, s'.Presentable)
    (hops : .reset ∉ ops) : (s.after ops).Shows (events ++ s.gathered ops) := by
  induction ops generalizing s events with
  | nil => simpa [gathered, Session.after] using h
  | cons op ops ih =>
    rw [passes_cons, List.forall_mem_cons] at hs
    rw [List.mem_cons, not_or] at hops
    have hnext := h.next hs.1 (hs.2 _ (self_mem_passes _ ops)) (Ne.symm hops.1)
    have hafter := ih hnext hs.2 hops.2
    rwa [List.append_assoc] at hafter

/-- A session begins, or begins again after a reset, with an empty log. -/
theorem shows_of_reset (m : Machine) (maxSteps : Option Int)
    (h : ops = [] ∨ ops.getLast? = some .reset) : ((start m maxSteps).after ops).Shows [] := by
  refine ⟨by simp, ?_⟩
  rcases h with rfl | h
  · rfl
  · obtain ⟨earlier, rfl⟩ := List.getLast?_eq_some_iff.1 h
    rw [after_append]
    rfl

theorem events_of_reset (h : ops.getLast? = some .reset) : (s.after ops).machine.events = #[] := by
  obtain ⟨earlier, rfl⟩ := List.getLast?_eq_some_iff.1 h
  rw [after_append]
  rfl

/-- **The event log is a window on the events.**  Take any operations, cut after the last reset if
there is one, and let nothing on the way get too long to be shown.  All events that were recorded
before the session began or while it went on stand in a row, in the order in which they were
recorded: first those taken out of the record up to the reset, then those taken out since, then
those that are still there.  The log consists of the lines of the last 200 of those taken out since
the reset, or of all if there are fewer; all that was recorded before the reset or by it was taken
out then.  A call to execute an instruction that is not refused takes out all that is there. -/
theorem event_log_is_a_window {m : Machine} {maxSteps : Option Int} {before recent : List Operation}
    (hbefore : before = [] ∨ before.getLast? = some .reset) (hrecent : .reset ∉ recent)
    (hfirst : (start m maxSteps).after before = first) (hs : first.after recent = s)
    (hshown : ∀ s' ∈ (start m maxSteps).passes (before ++ recent), s'.Presentable) :
    s.log = latest 200 ((first.gathered recent).map Event.line) ∧
    (∀ x ∈ first.gathered recent, x.render = .ok x.line) ∧
    m.events.toList ++ (start m maxSteps).emitted (before ++ recent) =
      (start m maxSteps).gathered before ++ first.gathered recent ++ s.machine.events.toList ∧
    (before ≠ [] →
      (start m maxSteps).gathered before =
        m.events.toList ++ (start m maxSteps).emitted before) ∧
    ∀ auto, s.held = false → (s.next (.advance auto)).Presentable →
      (s.perform (.advance auto)).2 = .ok true ∧
        (s.next (.advance auto)).machine.events = #[] := by
  obtain ⟨hshown₁, hshown₂⟩ := forall_passes_append hshown
  have hevents₁ := events_after (s := start m maxSteps) rfl hshown₁
  have hrecording := recording_after (s := start m maxSteps) rfl before
  have hempty := shows_of_reset m maxSteps hbefore
  rw [hfirst] at hshown₂ hevents₁ hrecording hempty
  have hevents₂ := events_after hrecording hshown₂
  have hshows := hempty.after hshown₂ hrecent
  rw [hs] at hevents₂ hshows
  refine ⟨hshows.log, fun x hx => Event.render_of_legible (hshows.legible x hx), ?_, ?_, ?_⟩
  · calc m.events.toList ++ (start m maxSteps).emitted (before ++ recent)
        = (m.events.toList ++ (start m maxSteps).emitted before) ++ first.emitted recent := by
          rw [emitted_append, hfirst, List.append_assoc]
      _ = (start m maxSteps).gathered before ++
            (first.machine.events.toList ++ first.emitted recent) := by
          rw [← List.append_assoc]
          exact congrArg (· ++ first.emitted recent) hevents₁
      _ = (start m maxSteps).gathered before ++ first.gathered recent ++
            s.machine.events.toList := by
          rw [hevents₂, List.append_assoc]
  · intro hne
    have hnone : first.machine.events = #[] :=
      hfirst ▸ events_of_reset (hbefore.resolve_left hne)
    rw [hnone, Array.toList_empty, List.append_nil] at hevents₁
    exact hevents₁.symm
  · intro auto hheld hnext
    have hs' : s.Presentable := hs ▸ hshown₂ _ (after_mem_passes first recent)
    refine ⟨?_, ?_⟩
    · show (s.advance auto).2.map _ = _
      rw [advance_of_presentable hs' hnext]
      rfl
    · rw [(consumed_of_advance hs' hnext hheld).1]
      rfl

/-- A program that puts out a value again and again. -/
def ticking : Program :=
  ⟨"104,7,1106,0,0", #[104, 7, 1106, 0, 0], by rfl⟩

/-- A session on this program that is reset after one instruction.  Its machine has recorded since it
was loaded. -/
def ticked : Session :=
  (start (.ofProgram ticking true) none).after [.advance false, .reset]

/-- 135 instructions, with three events for every two of them. -/
def ticks : List Operation :=
  .replicate 135 (.advance true)

/-- Of the 203 lines since the reset the first three have gone; the four events from before the reset
and of the reset itself were taken out by it, and nothing is left in the record. -/
theorem ticking_log :
    (ticked.gathered ticks).length = 203 ∧
    (ticked.after ticks).log = ((ticked.gathered ticks).map Event.line).drop 3 ∧
    (start (.ofProgram ticking true) none).gathered [.advance false, .reset] =
      [.rebooted 5, .outputProduced 0 7, .executed 0 104 "OUT" [7] 2 none, .rebooted 5] ∧
    ((ticked.after ticks).next (.advance true)).machine.events = #[] := by
  have hshown : ∀ s' ∈ (start (.ofProgram ticking true) none).passes
      ([.advance false, .reset] ++ ticks), s'.Presentable := by
    decide +kernel
  have hlength : (ticked.gathered ticks).length = 203 := by decide +kernel
  have hheld : (ticked.after ticks).held = false := by decide +kernel
  have hnext : ((ticked.after ticks).next (.advance true)).Presentable := by decide +kernel
  have hreached : (start (.ofProgram ticking true) none).after [.advance false, .reset] = ticked :=
    rfl
  obtain ⟨hlog, -, -, hreset, hcall⟩ :=
    event_log_is_a_window (.inr rfl) (by decide +kernel) hreached rfl hshown
  refine ⟨hlength, ?_, (hreset (by simp)).trans ?_, (hcall true hheld hnext).2⟩
  · rw [hlog, latest, List.length_map, hlength]
  · decide +kernel

end Session

end Intcode

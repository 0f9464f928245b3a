import Intcode.Proofs.Histories

/-!
# Replaying the record

A machine that records tells enough for its execution to be replayed by somebody who has seen its
first memory and reads the events, and never runs an instruction.

* `Memory.follow`, `Memory.replay`: the memory as the events tell it;
* `Event.Chained`: every executed instruction stands where the one before it went;
* `Event.Matches`: the word and the parameters of an event are those in memory;
* `Traced`: a record that is right so far; `Traced.push` adds an event, `Traced.account` all the
  events of an instruction;
* `Machine.Recounted`: a machine with such a record; `Recounted.step`, `Recounted.run` and
  `Recounted.handle` carry it through instructions, runs and requests;
* `trace_replays_execution`: the record of a whole history.
-/

namespace Intcode

/-! ### Reading events -/

/-- The memory after an event. -/
def Memory.follow (memory : Memory) : Event → Memory
  | .executed _ _ _ _ _ (some (a, v)) => memory.write a v
  | _ => memory

/-- The memory after events, one after the other. -/
def Memory.replay (memory : Memory) (es : List Event) : Memory :=
  es.foldl Memory.follow memory

namespace Event

/-- Starting from one address, every executed instruction stands where the one before it went, and
the last of them went to the other address. -/
def Chained : Int → List Event → Int → Prop
  | pc, [], pc' => pc' = pc
  | pc, executed a _ _ _ next _ :: es, pc' => a = pc ∧ Chained next es pc'
  | pc, _ :: es, pc' => Chained pc es pc'

/-- If the event tells of an executed instruction, its word and its parameters are those that stand
at its address, the parameters cut at the end of memory, and a cell that it writes is one of the
memory. -/
def Matches (memory : Memory) : Event → Prop
  | executed pc word mnemonic operands _ write =>
    memory.read? pc = some word ∧
      (∃ i, Instruction.decode word pc = .ok i ∧ mnemonic = i.opcode.mnemonic ∧
        operands = (memory.toList.drop (pc.toNat + 1)).take i.opcode.params) ∧
      ∀ a v, write = some (a, v) → memory.Valid a
  | _ => True

/-- The address of an executed halt instruction. -/
def haltedAt? : Event → Option Int
  | executed pc word _ _ _ _ => if word % 100 = Opcode.halt.number then some pc else none
  | _ => none

/-- The address of a halt instruction, if the last event tells of one. -/
def lastHalt (es : List Event) : Option Int :=
  es.getLast?.bind haltedAt?

/-- The value that was queued as output. -/
def produced? : Event → Option Int
  | outputProduced _ v => some v
  | _ => none

end Event

/-- The values that were taken from the output queue. -/
def Exchange.delivered (x : Exchange) : List Int :=
  match x.request, x.reply with
  | .take, .ok (.value v) => [v]
  | .drain, .ok (.values vs) => vs
  | _, _ => []

/-- The requests that leave the memory to the program and the record to itself: no cell is changed
from outside, the program is not loaded again, no account is printed, and the record is neither
collected nor switched on or off. -/
def Request.isOrdinary : Request → Bool
  | .run shown => !shown
  | .step shown => !shown
  | .reboot => false
  | .write _ _ => false
  | .record _ => false
  | .events => false
  | _ => true

variable {memory₀ memory : Memory} {pc₀ pc pc' : Int} {es : List Event} {x : Event}

theorem Memory.replay_concat (memory : Memory) (es : List Event) (x : Event) :
    memory.replay (es ++ [x]) = (memory.replay es).follow x :=
  List.foldl_append

@[simp] theorem Event.lastHalt_concat (es : List Event) (x : Event) :
    lastHalt (es ++ [x]) = x.haltedAt? := by
  simp [lastHalt]

theorem Event.Chained.concat (h : Chained pc₀ es pc) (hx : Chained pc [x] pc') :
    Chained pc₀ (es ++ [x]) pc' := by
  induction es generalizing pc₀ with
  | nil =>
    obtain rfl : pc = pc₀ := h
    exact hx
  | cons y es ih =>
    cases y with
    | executed a word mnemonic operands next write => exact ⟨h.1, ih h.2⟩
    | inputRequested a => exact ih h
    | outputProduced a v => exact ih h
    | halted a => exact ih h
    | rebooted size => exact ih h

/-- A record of events, from a first memory and counter, that is right so far: it leads to the
present memory and counter, every event matches the memory before it, and an event tells of a halt
exactly if the one before it is an executed halt instruction. -/
structure Traced (memory₀ : Memory) (pc₀ : Int) (es : List Event) (memory : Memory) (pc : Int) :
    Prop where
  replayed : memory₀.replay es = memory
  chained : Event.Chained pc₀ es pc
  sound : ∀ before x after, es = before ++ x :: after → x.Matches (memory₀.replay before)
  halts : ∀ before x after, es = before ++ x :: after →
    ∀ a, x = .halted a ↔ Event.lastHalt before = some a

/-- The place of an event in a record with one event more is its place before, or the last. -/
theorem forall_split_concat {P : List Event → Event → Prop}
    (h : ∀ before y after, es = before ++ y :: after → P before y) (hx : P es x) :
    ∀ before y after, es ++ [x] = before ++ y :: after → P before y := by
  intro before y after hes
  rcases List.eq_nil_or_concat after with rfl | ⟨after, z, rfl⟩
  · obtain ⟨rfl, hy⟩ := List.append_inj' hes rfl
    cases hy
    exact hx
  · rw [List.concat_eq_append, ← List.cons_append, ← List.append_assoc] at hes
    exact h before y after (List.append_inj' hes rfl).1

namespace Traced

theorem nil (memory : Memory) (pc : Int) : Traced memory pc [] memory pc where
  replayed := rfl
  chained := rfl
  sound := by simp
  halts := by simp

/-- One event more. -/
theorem push (h : Traced memory₀ pc₀ es memory pc) (hchained : Event.Chained pc [x] pc')
    (hmatches : x.Matches memory)
    (hhalts : ∀ a, x = .halted a ↔ Event.lastHalt es = some a) :
    Traced memory₀ pc₀ (es ++ [x]) (memory.follow x) pc' where
  replayed := by rw [Memory.replay_concat, h.replayed]
  chained := h.chained.concat hchained
  sound := forall_split_concat h.sound (by rwa [h.replayed])
  halts := forall_split_concat h.halts hhalts

/-- An event that tells neither of an executed instruction nor of a halt. -/
theorem push_silent (h : Traced memory₀ pc₀ es memory pc) (hes : Event.lastHalt es = none)
    (hx : x = .inputRequested pc' ∨ ∃ v, x = .outputProduced pc' v) :
    Traced memory₀ pc₀ (es ++ [x]) memory pc ∧ Event.lastHalt (es ++ [x]) = none := by
  rcases hx with rfl | ⟨v, rfl⟩
  · exact ⟨h.push rfl trivial (by simp [hes]), Event.lastHalt_concat ..⟩
  · exact ⟨h.push rfl trivial (by simp [hes]), Event.lastHalt_concat ..⟩

/-- After an executed halt instruction the halt is told. -/
theorem halted_after {before after : List Event} {a : Int} (h : Traced memory₀ pc₀ es memory pc)
    (hlast : Event.lastHalt es = none) (hes : es = before ++ x :: after)
    (hx : x.haltedAt? = some a) : ∃ after', after = .halted a :: after' := by
  cases after with
  | nil =>
    rw [hes, Event.lastHalt_concat, hx] at hlast
    cases hlast
  | cons y after =>
    have hy : y = .halted a :=
      (h.halts (before ++ [x]) y after (by simp [hes]) a).2 (by rw [Event.lastHalt_concat, hx])
    exact ⟨after, by rw [hy]⟩

/-- A halt is told after an executed halt instruction only. -/
theorem halted_before {before after : List Event} {a : Int} (h : Traced memory₀ pc₀ es memory pc)
    (hes : es = before ++ .halted a :: after) :
    ∃ before' x, before = before' ++ [x] ∧ x.haltedAt? = some a := by
  have hbefore : Event.lastHalt before = some a := (h.halts before _ after hes a).1 rfl
  rcases List.eq_nil_or_concat before with rfl | ⟨before', x, rfl⟩
  · cases hbefore
  · rw [List.concat_eq_append, Event.lastHalt_concat] at hbefore
    exact ⟨before', x, List.concat_eq_append, hbefore⟩

end Traced

/-! ### The events of an instruction -/

namespace Config

variable {c : Config} {i : Instruction} {e : Effect}

/-- The event that tells of an instruction with a given effect. -/
def executed (c : Config) (e : Effect) : Event :=
  .executed e.instruction.address e.instruction.word e.instruction.opcode.mnemonic
    (c.params e.instruction) e.next e.write

/-- All that is recorded when an instruction with a given effect is executed. -/
def account (c : Config) (e : Effect) : List Event :=
  e.emits.toList.map (.outputProduced e.instruction.address) ++ [c.executed e] ++
    if e.instruction.opcode = .halt then [.halted e.instruction.address] else []

theorem params_eq_take (c : Config) (i : Instruction) :
    c.params i = (c.memory.toList.drop (i.address.toNat + 1)).take i.opcode.params := by
  simp [params, Memory.words]

theorem Performs.instruction_eq (h : c.Performs i e) : e.instruction = i := by
  cases h <;> rfl

/-- What is written is a cell of the memory. -/
theorem Performs.write_valid (h : c.Performs i e) {a v : Int} (hw : e.write = some (a, v)) :
    c.memory.Valid a := by
  cases h with
  | store ho ha hb hd hv =>
    cases hw
    exact hv
  | input ho hq hd hv =>
    cases hw
    exact hv
  | _ => cases hw

theorem memory_apply (c : Config) (e : Effect) :
    (c.apply e).memory = c.memory.follow (c.executed e) := by
  obtain ⟨i, write, accepts, emits, next⟩ := e
  cases write <;> rfl

theorem haltedAt?_executed (h : c.instruction = .ok e.instruction) :
    (c.executed e).haltedAt? =
      if e.instruction.opcode = .halt then some e.instruction.address else none := by
  obtain ⟨-, -, hnumber, -⟩ := instruction_eq_ok_iff.1 h
  have hiff : e.instruction.word % 100 = Opcode.halt.number ↔ e.instruction.opcode = .halt := by
    rw [← hnumber, Int.natCast_inj]
    exact ⟨fun h => Opcode.number_injective h, fun h => by rw [h]⟩
  simp only [executed, Event.haltedAt?, hiff]

/-- The event of an instruction that is executed matches the memory. -/
theorem executed_matches (hn : c.next = .ok (some e)) : (c.executed e).Matches c.memory := by
  obtain ⟨i, hi, hperforms⟩ := next_eq_ok_iff.1 hn
  obtain rfl := hperforms.instruction_eq
  obtain ⟨hread, h0, hnumber, haddress⟩ := instruction_eq_ok_iff.1 hi
  have hdecode : Instruction.decode e.instruction.word e.instruction.address =
      .ok e.instruction :=
    Instruction.decode_eq_ok_iff.2 ⟨h0, hnumber, rfl, rfl⟩
  refine ⟨?_, ⟨e.instruction, hdecode, rfl, c.params_eq_take _⟩, fun _ _ => hperforms.write_valid⟩
  rw [haddress]
  exact hread

end Config

/-- An instruction more, with all its events. -/
theorem Traced.account {c : Config} {e : Effect} (h : Traced memory₀ pc₀ es c.memory c.pc)
    (hes : Event.lastHalt es = none) (hn : c.next = .ok (some e)) :
    Traced memory₀ pc₀ (es ++ c.account e) (c.apply e).memory (c.apply e).pc ∧
      Event.lastHalt (es ++ c.account e) = none := by
  obtain ⟨i, hi, hperforms⟩ := Config.next_eq_ok_iff.1 hn
  obtain rfl : e.instruction = i := hperforms.instruction_eq
  have haddress : e.instruction.address = c.pc := (Config.instruction_eq_ok_iff.1 hi).2.2.2
  unfold Config.account
  rw [← List.append_assoc, ← List.append_assoc]
  -- the value that is queued is told before the instruction that queues it
  have houtput : Traced memory₀ pc₀
      (es ++ e.emits.toList.map (Event.outputProduced e.instruction.address)) c.memory c.pc ∧
      Event.lastHalt
        (es ++ e.emits.toList.map (Event.outputProduced e.instruction.address)) = none := by
    cases e.emits with
    | none => simpa using ⟨h, hes⟩
    | some v => exact h.push_silent hes (.inr ⟨v, rfl⟩)
  generalize es ++ e.emits.toList.map (Event.outputProduced e.instruction.address) = es₁
    at houtput ⊢
  obtain ⟨houtput, hes₁⟩ := houtput
  have hexecuted : Traced memory₀ pc₀ (es₁ ++ [c.executed e]) (c.apply e).memory
      (c.apply e).pc := by
    rw [Config.memory_apply]
    exact houtput.push ⟨haddress, rfl⟩ (Config.executed_matches hn)
      (by simp [Config.executed, hes₁])
  have hlast : Event.lastHalt (es₁ ++ [c.executed e]) =
      if e.instruction.opcode = .halt then some e.instruction.address else none := by
    rw [Event.lastHalt_concat, Config.haltedAt?_executed hi]
  by_cases ho : e.instruction.opcode = .halt
  · rw [if_pos ho] at hlast ⊢
    exact ⟨hexecuted.push rfl trivial fun a => by rw [hlast]; simp, Event.lastHalt_concat ..⟩
  · rw [if_neg ho] at hlast ⊢
    rw [List.append_nil]
    exact ⟨hexecuted, hlast⟩

namespace Machine

variable {m₀ m m' : Machine} {taken : List Int} {fuel : Nat} {e : Effect}

theorem events_note (h : m.recording = true) (v : Event) :
    (m.note v).events.toList = m.events.toList ++ [v] := by
  rw [note_of_recording h, Array.toList_push]

theorem events_commit (h : m.recording = true) (e : Effect) :
    (m.commit e).events.toList =
      m.events.toList ++ e.emits.toList.map (Event.outputProduced e.instruction.address) := by
  rw [commit_eq_note]
  cases e.emits with
  | none => exact (List.append_nil _).symm
  | some v =>
    exact events_note (m := { m with config := m.config.apply e, status := statusAfter e }) h _

theorem events_perform (h : m.recording = true) (e : Effect) :
    (m.perform e).events.toList = m.events.toList ++ m.config.account e := by
  have hcommit : (m.commit e).recording = true := h
  rw [perform_eq_log, log_eq_note]
  by_cases ho : e.instruction.opcode = .halt
  · rw [if_pos ho, events_note (by rwa [recording_note]), events_note hcommit, events_commit h]
    simp [Config.account, Config.executed, ho]
  · rw [if_neg ho, events_note hcommit, events_commit h]
    simp [Config.account, Config.executed, ho]

theorem events_perform_of_not_recording (h : m.recording = false) (e : Effect) :
    (m.perform e).events = m.events := by
  obtain ⟨p, c, s, recording, events⟩ := m
  obtain rfl : recording = false := h
  rfl

theorem events_step_of_not_recording (h : m.recording = false) : m.step.1.events = m.events := by
  rcases m.step_cases with ⟨f, -, hs⟩ | ⟨-, hs⟩ | ⟨e, -, hs⟩ <;> rw [hs]
  · have hblocked : ({ m with status := .blocked } : Machine).recording = false := h
    rw [await, note_of_not_recording hblocked]
  · exact events_perform_of_not_recording h e

/-- A machine whose record is right since the machine was `m₀`, and from which the values `taken`
have been taken in the meantime. -/
structure Recounted (m₀ : Machine) (taken : List Int) (m : Machine) : Prop where
  recording : m.recording = true
  traced : Traced m₀.memory m₀.pc m.events.toList m.memory m.pc
  lastHalt : Event.lastHalt m.events.toList = none
  delivered : taken ++ m.config.output =
    m₀.config.output ++ m.events.toList.filterMap Event.produced?

namespace Recounted

theorem start (hrecording : m.recording = true) (hevents : m.events = #[]) :
    Recounted m [] m where
  recording := hrecording
  traced := by rw [hevents]; exact .nil ..
  lastHalt := by rw [hevents]; rfl
  delivered := by simp [hevents]

theorem perform (h : Recounted m₀ taken m) (hn : m.config.next = .ok (some e)) :
    Recounted m₀ taken (m.perform e) := by
  have hevents := events_perform h.recording e
  obtain ⟨htraced, hlast⟩ := h.traced.account h.lastHalt hn
  have hproduced : (m.config.account e).filterMap Event.produced? = e.emits.toList := by
    unfold Config.account
    cases e.emits <;> split <;> simp [Config.executed, Event.produced?]
  exact {
    recording := by
      have hstep := m.recording_step
      rw [step_of_effect hn] at hstep
      exact hstep.trans h.recording
    traced := by
      unfold memory pc
      rw [hevents, config_perform]
      exact htraced
    lastHalt := by rw [hevents]; exact hlast
    delivered := by
      rw [hevents, config_perform, Config.output_apply, ← List.append_assoc, h.delivered,
        List.filterMap_append, hproduced, List.append_assoc] }

theorem await (h : Recounted m₀ taken m) : Recounted m₀ taken m.await := by
  have hevents : m.await.events.toList = m.events.toList ++ [.inputRequested m.pc] :=
    events_note (m := { m with status := .blocked }) h.recording _
  obtain ⟨htraced, hlast⟩ := hevents ▸ h.traced.push_silent h.lastHalt (.inl rfl)
  exact {
    recording := (recording_note _ _).trans h.recording
    traced := by
      unfold memory pc
      rw [config_await]
      exact htraced
    lastHalt := hlast
    delivered := by
      rw [hevents, config_await, List.filterMap_append, ← List.append_assoc, ← h.delivered]
      exact (List.append_nil _).symm }

/-- An instruction keeps the record right. -/
theorem step (h : Recounted m₀ taken m) : Recounted m₀ taken m.step.1 := by
  rcases m.step_cases with ⟨f, -, hs⟩ | ⟨-, hs⟩ | ⟨e, hn, hs⟩
  · rw [hs]
    exact ⟨h.recording, h.traced, h.lastHalt, h.delivered⟩
  · rw [hs]
    exact h.await
  · rw [hs]
    exact h.perform hn

/-- A run keeps the record right. -/
theorem run {reply : Except Failure Status} (h : Recounted m₀ taken m)
    (hr : m.run fuel = some (m', reply)) : Recounted m₀ taken m' := by
  have hreaches {m₁ : Machine} (hm₁ : Relation.ReflTransGen Advances m m₁) :
      Recounted m₀ taken m₁ := by
    induction hm₁ with
    | refl => exact h
    | tail _ hstep ih =>
      have hnext := ih.step
      rwa [hstep] at hnext
  obtain ⟨m₁, hm₁, hlast, -⟩ := ends_iff.1 ⟨fuel, hr⟩
  have hend := (hreaches hm₁).step
  rwa [hlast] at hend

/-- A change of the queues. -/
theorem setQueues (h : Recounted m₀ taken m) (input : Queue) {more : List Int} {rest : Queue}
    (hout : m.config.output = more ++ rest) :
    Recounted m₀ (taken ++ more) { m with config := ⟨m.memory, m.pc, input, rest⟩ } where
  recording := h.recording
  traced := h.traced
  lastHalt := h.lastHalt
  delivered := by rw [List.append_assoc, ← hout, h.delivered]

/-- An ordinary request keeps the record right. -/
theorem handle {r : Request} {printed : String} {reply : Except Failure Reply}
    (h : Recounted m₀ taken m) (hr : r.isOrdinary = true)
    (hm : m.handle fuel r = some (m', printed, reply)) :
    Recounted m₀ (taken ++ (m.exchange m' r printed reply).delivered) m' := by
  have hsame : Recounted m₀ (taken ++ []) m := (List.append_nil taken).symm ▸ h
  cases r with
  | run shown =>
    cases shown with
    | true => cases hr
    | false =>
      obtain ⟨⟨m₁, reply₁⟩, hrun, heq⟩ := Option.map_eq_some_iff.1 hm
      cases heq
      exact hsame.run hrun
  | step shown =>
    cases shown with
    | true => cases hr
    | false =>
      cases hm
      exact hsame.step
  | feed v =>
    cases hm
    exact h.setQueues _ (List.nil_append _).symm
  | feedAll vs =>
    cases hm
    exact h.setQueues _ (List.nil_append _).symm
  | take =>
    cases hout : m.config.output with
    | nil =>
      have htake : m.take = .error .noOutput := by simp only [Machine.take, hout, Queue.pop?]
      simp only [Machine.handle, htake] at hm
      cases hm
      exact hsame
    | cons v rest =>
      have htake : m.take = .ok (v, { m with config.output := rest }) := by
        simp only [Machine.take, hout, Queue.pop?]
      simp only [Machine.handle, htake] at hm
      cases hm
      exact h.setQueues _ hout
  | drain =>
    cases hm
    exact h.setQueues _ (List.append_nil _).symm
  | reboot => cases hr
  | write a v => cases hr
  | record on => cases hr
  | events => cases hr
  | _ =>
    cases hm
    exact hsame

end Recounted

/-- **The record replays the execution.**  Let a machine record, with nothing in its record yet, and
let it serve ordinary requests, some of which may fail.  Then for the events collected at the end:

* the written cells, put one after the other into the memory of the start, give the memory now;
* the first executed instruction stands at the counter of the start, each further one where the one
  before it went, and the last went to the counter now;
* the word and the parameters of each are those in the memory replayed up to it;
* an executed halt instruction is directly followed by the event of a halt, and only it is;
* the produced values are, in order, the values that came onto the output queue: those taken from
  it in the meantime and those still on it, less those that were there before. -/
theorem trace_replays_execution {rs : List Request} {log : List Exchange}
    (hrecording : m.recording = true) (hevents : m.events = #[])
    (hordinary : ∀ r ∈ rs, r.isOrdinary = true) (hserve : m.serve fuel rs = some (log, m')) :
    m.memory.replay m'.collect.1 = m'.memory ∧
    Event.Chained m.pc m'.collect.1 m'.pc ∧
    (∀ before x after, m'.collect.1 = before ++ x :: after →
      x.Matches (m.memory.replay before)) ∧
    (∀ before x after a, m'.collect.1 = before ++ x :: after → x.haltedAt? = some a →
      ∃ after', after = .halted a :: after') ∧
    (∀ before after a, m'.collect.1 = before ++ .halted a :: after →
      ∃ before' x, before = before' ++ [x] ∧ x.haltedAt? = some a) ∧
    log.flatMap Exchange.delivered ++ m'.config.output =
      m.config.output ++ m'.collect.1.filterMap Event.produced? := by
  have h : Recounted m (log.flatMap Exchange.delivered) m' := by
    refine serve_induction (P := fun log m' => Recounted m (log.flatMap Exchange.delivered) m')
      hserve (.start hrecording hevents) ?_
    intro log r m₁ m₂ printed reply hr h hhandle
    rw [List.flatMap_append, List.flatMap_singleton]
    exact h.handle (hordinary r hr) hhandle
  exact ⟨h.traced.replayed, h.traced.chained, h.traced.sound,
    fun _ _ _ _ => h.traced.halted_after h.lastHalt, fun _ _ _ => h.traced.halted_before,
    h.delivered⟩

/-- A program that copies a value and then writes the halt instruction that it runs into. -/
def selfHalting : Program :=
  ⟨"3,9,4,9,1101,2,97,8,0,0", #[3, 9, 4, 9, 1101, 2, 97, 8, 0, 0], by rfl⟩

/-- Its record, with a step that waits at the start and a step that fails at the end. -/
theorem selfHalting_replayed :
    ∃ log m', (⟨selfHalting, .ofProgram selfHalting, .initialized, true, #[]⟩ : Machine).serve 5
        [.step false, .feed 7, .run false, .take, .step false] = some (log, m') ∧
      m'.collect.1 =
        [.inputRequested 0, .executed 0 3 "IN" [9] 2 (some (9, 7)), .outputProduced 2 7,
          .executed 2 4 "OUT" [9] 4 none, .executed 4 1101 "ADD" [2, 97, 8] 8 (some (8, 99)),
          .executed 8 99 "HALT" [] 9 none, .halted 8] ∧
      m'.memory = #[3, 9, 4, 9, 1101, 2, 97, 8, 99, 7] ∧ m'.pc = 9 ∧ m'.status = .running ∧
      selfHalting.image.replay m'.collect.1 = m'.memory ∧ Event.Chained 0 m'.collect.1 m'.pc ∧
      log.flatMap Exchange.delivered ++ m'.config.output =
        m'.collect.1.filterMap Event.produced? := by
  have hserve : (⟨selfHalting, .ofProgram selfHalting, .initialized, true, #[]⟩ : Machine).serve 5
      [.step false, .feed 7, .run false, .take, .step false] = some (_, _) := rfl
  obtain ⟨hreplayed, hchained, -, -, -, hdelivered⟩ :=
    trace_replays_execution rfl rfl (by decide) hserve
  exact ⟨_, _, hserve, rfl, rfl, rfl, rfl, hreplayed, hchained, hdelivered⟩

end Machine

end Intcode

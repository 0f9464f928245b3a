import Intcode.Proofs.ProgramText
import Intcode.Proofs.Reboot
import Intcode.Proofs.Replay

/-!
# What the status of a machine promises

Whatever is asked of a machine, its memory keeps the size that the program text gives it.  As long
as nobody changes a cell from outside, the status also tells where the program counter stands: at
the beginning of an untouched program, on an input instruction, or right after a halt instruction.

* `tokens`, `size_of_parse`: the pieces of a program text, one for each cell;
* `Memory.HasInstruction`: a word that decodes to a given operation;
* `Machine.Transition`: all that can happen to configuration and status at once;
  `step_transition`, `stepShown_transition`, `run_transitions`, `runShown_transitions` and
  `handle_transitions` say that steps, runs and requests are made of these;
* `Machine.Consistent`: what the status promises; `Consistent.transition` keeps it;
* `status_promises_hold`: the promises after any history.
-/

namespace Intcode

/-! ### The size of a program -/

/-- The pieces of a program text between its commas. -/
def tokens (text : String) : List (List Char) :=
  text.toList.splitOn ','

theorem length_splitOn_comma (cs : List Char) : (cs.splitOn ',').length = cs.count ',' + 1 := by
  induction cs with
  | nil => rfl
  | cons c cs ih =>
    rw [List.splitOn_cons_eq_if_modifyHead, List.count_cons]
    split
    · rw [List.length_cons, ih]
    · rw [List.length_modifyHead, ih, Nat.add_zero]

theorem count_dropWhile {p : Char → Bool} {c : Char} (hc : p c = false) (cs : List Char) :
    (cs.dropWhile p).count c = cs.count c := by
  induction cs with
  | nil => rfl
  | cons d cs ih =>
    rw [List.dropWhile_cons]
    split
    · rename_i hd
      have hne : d ≠ c := by
        rintro rfl
        rw [hc] at hd
        cases hd
      rw [ih, List.count_cons_of_ne hne]
    · rfl

/-- Trimming leaves the characters alone that it does not remove. -/
theorem count_trimBy {p : Char → Bool} {c : Char} (hc : p c = false) (cs : List Char) :
    (Text.trimBy p cs).count c = cs.count c := by
  rw [Text.trimBy, Text.trimRightBy, List.count_reverse, count_dropWhile hc, List.count_reverse,
    count_dropWhile hc]

/-- A program text describes one cell for each of its pieces. -/
theorem size_of_parse {text : String} {image : Memory} (h : Memory.parse text = .ok image) :
    image.size = (tokens text).length := by
  have hcount : (Text.trimBy Text.isBlank text.toList).count ',' = text.toList.count ',' :=
    count_trimBy (by decide) _
  have hlength := congrArg List.length (Memory.parse_eq_ok h)
  rw [List.length_map, List.length_map, length_splitOn_comma, hcount] at hlength
  rw [tokens, length_splitOn_comma, hlength, Array.length_toList]

/-! ### Single changes -/

/-- The word at an address decodes to an operation. -/
def Memory.HasInstruction (memory : Memory) (a : Int) (o : Opcode) : Prop :=
  ∃ word i, memory.read? a = some word ∧ Instruction.decode word a = .ok i ∧ i.opcode = o

theorem Memory.HasInstruction.valid {memory : Memory} {a : Int} {o : Opcode}
    (h : memory.HasInstruction a o) : memory.Valid a := by
  obtain ⟨word, -, hword, -⟩ := h
  exact exists_read?_iff.1 ⟨word, hword⟩

namespace Config

variable {c : Config} {i : Instruction} {e : Effect}

theorem hasInstruction_of_instruction (h : c.instruction = .ok i) :
    c.memory.HasInstruction c.pc i.opcode := by
  obtain ⟨word, hword, hdecode⟩ := bind_eq_ok_iff.1 h
  exact ⟨word, i, fetch_eq_ok_iff.1 hword, hdecode, rfl⟩

/-- An instruction that waits is an input instruction. -/
theorem hasInstruction_of_wait (h : c.next = .ok none) : c.memory.HasInstruction c.pc .input := by
  obtain ⟨i, hi, ho, -⟩ := next_eq_wait_iff.1 h
  exact ho ▸ hasInstruction_of_instruction hi

/-- A halt instruction moves the counter past itself and changes no cell. -/
theorem hasInstruction_of_halt (h : c.next = .ok (some e)) (he : e.instruction.opcode = .halt) :
    (c.apply e).memory.HasInstruction ((c.apply e).pc - 1) .halt := by
  obtain ⟨i, hi, hp⟩ := next_eq_ok_iff.1 h
  obtain rfl := hp.instruction_eq
  have haddress : e.instruction.address = c.pc := address_of_instruction hi
  have heffect : (⟨e.instruction, none, false, none, e.instruction.address + 1⟩ : Effect) = e := by
    have hok := effect_of_performs hp
    rw [effect_of_halt he] at hok
    exact Option.some.inj (Except.ok.inj hok)
  have hpc : e.instruction.address + 1 - 1 = c.pc := by omega
  rw [← heffect]
  show c.memory.HasInstruction (e.instruction.address + 1 - 1) .halt
  rw [hpc, ← he]
  exact hasInstruction_of_instruction hi

end Config

namespace Machine

variable {p : Program} {m m' : Machine} {fuel : Nat} {r : Request} {printed : String}

/-- All that can happen at once to configuration and status of a machine with program `p`, as long
as no cell is changed from outside. -/
inductive Transition (p : Program) (m m' : Machine) : Prop
  /-- An instruction is not executed. -/
  | fails (hc : m'.config = m.config) (hs : m'.status = .running)
  /-- An input instruction finds nothing queued. -/
  | waits (hn : m.config.next = .ok none) (hc : m'.config = m.config) (hs : m'.status = .blocked)
  /-- An instruction is executed. -/
  | performs {e : Effect} (hn : m.config.next = .ok (some e)) (hc : m'.config = m.config.apply e)
      (hs : m'.status = statusAfter e)
  /-- The program is loaded again. -/
  | reloads (hc : m'.config = .ofProgram p) (hs : m'.status = .initialized)
  /-- Values are put on the input queue or taken from the output queue. -/
  | passes (hm : m'.memory = m.memory) (hpc : m'.pc = m.pc)
      (hout : m'.config.output <:+ m.config.output) (hs : m'.status = m.status)

/-- Any number of such changes. -/
abbrev Transitions (p : Program) : Machine → Machine → Prop :=
  Relation.ReflTransGen (Transition p)

theorem step_transition (p : Program) (m : Machine) : Transition p m m.step.1 := by
  rcases m.step_cases with ⟨f, -, hs⟩ | ⟨hn, hs⟩ | ⟨e, hn, hs⟩ <;> rw [hs]
  · exact .fails rfl rfl
  · exact .waits hn m.config_await m.status_await
  · exact .performs hn (m.config_perform e) (m.status_perform e)

theorem performShown_transition {e : Effect} (p : Program) (hn : m.config.next = .ok (some e)) :
    Transition p m (m.performShown e).1 := by
  unfold performShown
  dsimp only
  split
  · exact .performs hn rfl rfl
  · split
    · exact .performs hn rfl rfl
    · exact .performs hn (config_log _ _ _) (status_log _ _ _)

theorem stepShown_transition (p : Program) (m : Machine) : Transition p m m.stepShown.1 := by
  unfold stepShown
  split
  · exact .fails rfl rfl
  · rename_i i hi
    have hnext : m.config.next = m.config.effect i := by
      rw [Config.next, hi]
      rfl
    dsimp only
    split
    · rename_i he
      exact .waits (hnext.trans he) m.config_await m.status_await
    · split
      · exact .fails rfl rfl
      · exact .fails rfl rfl
    · rename_i e he
      split
      · exact performShown_transition p (hnext.trans he)
      · exact .fails rfl rfl

theorem run_transitions {reply : Except Failure Status} (p : Program)
    (h : m.run fuel = some (m', reply)) : Transitions p m m' := by
  induction fuel generalizing m with
  | zero => cases h
  | succ fuel ih =>
    have hstep := step_transition p m
    by_cases hs : m.step.2 = .ok .running
    · rw [run_succ_of_running (advances_of_running hs)] at h
      exact .head hstep (ih h)
    · rw [run_succ_of_stopped hs] at h
      rw [Option.some.inj h] at hstep
      exact .single hstep

theorem runShown_transitions {reply : Except Failure Status} {before : String} (p : Program)
    (h : m.runShown fuel before = some (m', printed, reply)) : Transitions p m m' := by
  induction fuel generalizing m before with
  | zero => cases h
  | succ fuel ih =>
    have hstep := stepShown_transition p m
    unfold runShown at h
    split at h
    · rename_i m₁ text hs
      rw [hs] at hstep
      exact .head hstep (ih h)
    · rename_i m₁ text s _ hs
      rw [hs] at hstep
      split at h
      · cases h
        exact .single hstep
      · cases h
        exact .single hstep
    · rename_i m₁ text f hs
      rw [hs] at hstep
      cases h
      exact .single hstep

end Machine

/-- A cell was changed from outside. -/
def Exchange.patches (x : Exchange) : Bool :=
  match x.request, x.reply with
  | .write _ _, .ok _ => true
  | _, _ => false

namespace Machine

variable {p : Program} {m m' : Machine} {fuel : Nat} {r : Request} {printed : String}
  {reply : Except Failure Reply}

/-- A request that changes no cell from outside is made of transitions. -/
theorem handle_transitions (hr : (m.exchange m' r printed reply).patches = false)
    (h : m.handle fuel r = some (m', printed, reply)) : Transitions m.program m m' := by
  cases r with
  | run shown =>
    cases shown with
    | true =>
      obtain ⟨⟨m₁, text, reply₁⟩, hrun, heq⟩ := Option.map_eq_some_iff.1 h
      cases heq
      exact runShown_transitions _ hrun
    | false =>
      obtain ⟨⟨m₁, reply₁⟩, hrun, heq⟩ := Option.map_eq_some_iff.1 h
      cases heq
      exact run_transitions _ hrun
  | step shown =>
    cases shown with
    | true =>
      cases h
      exact .single (stepShown_transition _ m)
    | false =>
      cases h
      exact .single (step_transition _ m)
  | reboot =>
    cases h
    exact .single (.reloads m.reboot_config (status_note _ _))
  | take =>
    cases hout : m.config.output with
    | nil =>
      have htake : m.take = .error .noOutput := by simp only [take, hout, Queue.pop?]
      simp only [handle, htake] at h
      cases h
      exact .refl
    | cons v rest =>
      have htake : m.take = .ok (v, { m with config.output := rest }) := by
        simp only [take, hout, Queue.pop?]
      simp only [handle, htake] at h
      cases h
      exact .single (.passes rfl rfl ⟨[v], by rw [hout]; rfl⟩ rfl)
  | drain =>
    cases h
    exact .single (.passes rfl rfl List.nil_suffix rfl)
  | write a v =>
    rw [handle_write] at h
    split at h
    · cases h
      cases hr
    · cases h
      exact .refl
  | _ =>
    cases h
    exact .single (.passes rfl rfl List.suffix_rfl rfl)

/-! ### The promises -/

/-- No transition changes the size of the memory. -/
theorem Transition.size_eq (h : Transition p m m') (hm : m.memory.size = p.image.size) :
    m'.memory.size = p.image.size := by
  unfold memory at hm ⊢
  cases h with
  | fails hc => rw [hc, hm]
  | waits hn hc => rw [hc, hm]
  | performs hn hc => rw [hc, Config.size_apply, hm]
  | reloads hc => rw [hc, Config.ofProgram]
  | passes hmemory => rw [show m'.config.memory = m.config.memory from hmemory, hm]

theorem Transitions.size_eq (h : Transitions p m m') (hm : m.memory.size = p.image.size) :
    m'.memory.size = p.image.size := by
  induction h with
  | refl => exact hm
  | tail _ ht ih => exact ht.size_eq ih

/-- No request changes the size of the memory. -/
theorem handle_size (h : m.handle fuel r = some (m', printed, reply))
    (hm : m.memory.size = m.program.image.size) : m'.memory.size = m.program.image.size := by
  by_cases hr : (m.exchange m' r printed reply).patches = false
  · exact Transitions.size_eq (handle_transitions hr h) hm
  · -- only a change of a cell is left
    cases r with
    | write a v =>
      rw [handle_write] at h
      split at h
      · cases h
        exact (Memory.size_write _ _ _).trans hm
      · cases h
        exact hm
    | _ => exact absurd rfl hr

/-- What the status of a machine with program `p` promises. -/
structure Consistent (p : Program) (m : Machine) : Prop where
  initialized : m.status = .initialized → m.pc = 0 ∧ m.memory = p.image ∧ m.config.output = []
  blocked : m.status = .blocked → m.memory.HasInstruction m.pc .input
  halted : m.status = .halted → m.memory.HasInstruction (m.pc - 1) .halt

/-- A machine in the middle of a run promises nothing. -/
theorem consistent_of_running (h : m.status = .running) : Consistent p m where
  initialized hs := by rw [h] at hs; cases hs
  blocked hs := by rw [h] at hs; cases hs
  halted hs := by rw [h] at hs; cases hs

theorem consistent_of_reloaded (hc : m.config = .ofProgram p) (hs : m.status = .initialized) :
    Consistent p m where
  initialized _ := by
    unfold memory pc
    rw [hc]
    exact ⟨rfl, rfl, rfl⟩
  blocked h := by rw [hs] at h; cases h
  halted h := by rw [hs] at h; cases h

theorem consistent_of_wait (hn : m.config.next = .ok none) (hs : m.status = .blocked) :
    Consistent p m where
  initialized h := by rw [hs] at h; cases h
  blocked _ := Config.hasInstruction_of_wait hn
  halted h := by rw [hs] at h; cases h

theorem consistent_of_halt {e : Effect} (hn : m.config.next = .ok (some e))
    (he : e.instruction.opcode = .halt) (hc : m'.config = m.config.apply e)
    (hs : m'.status = .halted) : Consistent p m' where
  initialized h := by rw [hs] at h; cases h
  blocked h := by rw [hs] at h; cases h
  halted _ := by
    unfold memory pc
    rw [hc]
    exact Config.hasInstruction_of_halt hn he

/-- What the status promises is kept by everything that can happen. -/
theorem Consistent.transition (hm : Consistent p m) (h : Transition p m m') : Consistent p m' := by
  cases h with
  | fails hc hs => exact consistent_of_running hs
  | waits hn hc hs => exact consistent_of_wait (hc ▸ hn) hs
  | @performs e hn hc hs =>
    by_cases he : e.instruction.opcode = .halt
    · exact consistent_of_halt hn he hc (hs.trans (if_pos he))
    · exact consistent_of_running (hs.trans (if_neg he))
  | reloads hc hs => exact consistent_of_reloaded hc hs
  | passes hmemory hpc hout hs =>
    refine ⟨fun h => ?_, fun h => ?_, fun h => ?_⟩
    · obtain ⟨h0, hp, hnil⟩ := hm.initialized (hs ▸ h)
      rw [hnil, List.suffix_nil] at hout
      exact ⟨hpc.trans h0, hmemory.trans hp, hout⟩
    · rw [hmemory, hpc]
      exact hm.blocked (hs ▸ h)
    · rw [hmemory, hpc]
      exact hm.halted (hs ▸ h)

theorem Consistent.transitions (hm : Consistent p m) (h : Transitions p m m') :
    Consistent p m' := by
  induction h with
  | refl => exact hm
  | tail _ ht ih => exact ih.transition ht

/-- **What the status promises.**  Let a machine be loaded from a text and serve any requests, some
of which may fail.  Its memory has as many cells as the text has pieces.  If no cell was changed
from outside, then a machine that is still initialized has not moved, holds the memory that the text
describes and has put nothing out; one that waits for input stands on an input instruction; and one
that has halted stands right after a halt instruction. -/
theorem status_promises_hold {text : String} {recording : Bool} {m₀ : Machine}
    {rs : List Request} {log : List Exchange} (hload : load text recording = .ok m₀)
    (hserve : m₀.serve fuel rs = some (log, m)) :
    m.memory.size = (tokens text).length ∧
    ((∀ x ∈ log, x.patches = false) →
      (m.status = .initialized →
        m.pc = 0 ∧ Memory.parse text = .ok m.memory ∧ m.config.output = []) ∧
      (m.status = .blocked →
        0 ≤ m.pc ∧ m.pc < m.memory.size ∧ m.memory.HasInstruction m.pc .input) ∧
      (m.status = .halted →
        1 ≤ m.pc ∧ m.pc ≤ m.memory.size ∧ m.memory.HasInstruction (m.pc - 1) .halt)) := by
  obtain ⟨p, hp, rfl⟩ := load_eq_ok_iff.1 hload
  have hparse : Memory.parse text = .ok p.image := (Program.ofText_eq_ok hp).2
  have hstart : (ofProgram p recording).config = .ofProgram p := reboot_config _
  -- the size is kept by every request, the promises by those that change no cell
  have hinvariant : m.program = p ∧ m.memory.size = p.image.size ∧
      ((∀ x ∈ log, x.patches = false) → Consistent p m) := by
    refine serve_induction
      (P := fun log m => m.program = p ∧ m.memory.size = p.image.size ∧
        ((∀ x ∈ log, x.patches = false) → Consistent p m))
      hserve ⟨ofProgram_program p recording, ?_, fun _ => ?_⟩ ?_
    · unfold memory
      rw [hstart, Config.ofProgram]
    · exact consistent_of_reloaded hstart (status_note _ _)
    · rintro log r m₁ m₂ printed reply - ⟨rfl, hsize, hm₁⟩ hr
      refine ⟨handle_program hr, handle_size hr hsize, fun hlog => ?_⟩
      have hold : Consistent m₁.program m₁ := hm₁ fun x hx => hlog x (by simp [hx])
      exact hold.transitions (handle_transitions (hlog _ (by simp)) hr)
  obtain ⟨-, hsize, hconsistent⟩ := hinvariant
  refine ⟨hsize.trans (size_of_parse hparse), fun hlog => ?_⟩
  have hm := hconsistent hlog
  refine ⟨fun hs => ?_, fun hs => ?_, fun hs => ?_⟩
  · obtain ⟨h0, hmemory, hout⟩ := hm.initialized hs
    exact ⟨h0, hmemory ▸ hparse, hout⟩
  · have hinput := hm.blocked hs
    exact ⟨hinput.valid.1, hinput.valid.2, hinput⟩
  · have hhalt := hm.halted hs
    obtain ⟨hlow, hhigh⟩ := hhalt.valid
    exact ⟨by omega, by omega, hhalt⟩

/-- A program that writes its own halt instruction, with an input instruction behind it. -/
def haltThenAsk : Program :=
  ⟨" 1101,98,1,4, 0,3,7,0", #[1101, 98, 1, 4, 0, 3, 7, 0], by rfl⟩

/-- After a reading of output that was not there it halts at the instruction it has written; a
change of a cell that does not exist is no change; and run on, it waits for input. -/
theorem haltThenAsk_promises :
    ∃ m₀ log m log' m', load haltThenAsk.text false = .ok m₀ ∧
      m₀.serve 2 [.take, .run false] = some (log, m) ∧ m.status = .halted ∧ m.pc = 5 ∧
      m.memory.HasInstruction (m.pc - 1) .halt ∧
      m₀.serve 2 [.take, .run false, .write 40 1, .run false] = some (log', m') ∧
      m'.status = .blocked ∧ m'.pc = 5 ∧ m'.memory.HasInstruction m'.pc .input ∧
      m'.memory.size = (tokens haltThenAsk.text).length := by
  have hload : load haltThenAsk.text false = .ok (ofProgram haltThenAsk false) := by rfl
  have hhalt : (ofProgram haltThenAsk false).serve 2 [.take, .run false] = some (_, _) := rfl
  have hwait : (ofProgram haltThenAsk false).serve 2
      [.take, .run false, .write 40 1, .run false] = some (_, _) := rfl
  obtain ⟨-, hpromises⟩ := status_promises_hold hload hhalt
  obtain ⟨-, -, hhalted⟩ := hpromises (by decide)
  obtain ⟨hsize, hpromises⟩ := status_promises_hold hload hwait
  obtain ⟨-, hblocked, -⟩ := hpromises (by decide)
  exact ⟨_, _, _, _, _, hload, hhalt, rfl, rfl, (hhalted rfl).2.2, hwait, rfl, rfl,
    (hblocked rfl).2.2, hsize⟩

end Machine

end Intcode

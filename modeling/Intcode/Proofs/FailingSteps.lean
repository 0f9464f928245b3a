import Intcode.Proofs.Execution
import Mathlib.Tactic.IntervalCases

/-!
# Failing steps

When a step fails, with which failure, and what it leaves behind.

* `Instruction.IsDestination`, `Config.Needs`, `Config.Touches`: the cells that an instruction
  touches: its parameters, the cells that its operands in position mode name, and its
  destination; the second parameter of a jump counts only if the jump is taken;
* `Misses.touches`, `Performs.valid`: an instruction fails at a cell that it touches, and one
  that succeeds touches cells of the memory only;
* `Config.Unknown`, `Config.Strays`: the word at the program counter has no operation, the
  instruction there touches a cell outside memory;
* `exists_next_eq_error_iff`, `next_eq_error_cases`: when an instruction fails, and how;
* `failure_of_next`, `Ends.failure`: an instruction and a run fail with a fault or at an integer
  that is too long;
* `failing_step_changes_nothing`: the same for a machine, with what is left of it.
-/

namespace Intcode

namespace Instruction

/-- The parameter at a place is the destination. -/
def IsDestination (i : Instruction) (k : Nat) : Prop :=
  i.opcode.writes = true ∧ k + 1 = i.opcode.params

end Instruction

namespace Opcode

variable {o : Opcode} {op : Int → Int → Int} {test : Int → Bool}

theorem Computes.params (h : o.Computes op) : o.params = 3 := by
  cases h <;> rfl

theorem Computes.writes (h : o.Computes op) : o.writes = true := by
  cases h <;> rfl

theorem Tests.params (h : o.Tests test) : o.params = 2 := by
  cases h <;> rfl

theorem Tests.writes (h : o.Tests test) : o.writes = false := by
  cases h <;> rfl

theorem Tests.unique {test' : Int → Bool} (h : o.Tests test) (h' : o.Tests test') :
    test = test' := by
  cases h <;> cases h' <;> rfl

theorem Computes.not_tests (h : o.Computes op) (h' : o.Tests test) : False := by
  cases h <;> cases h'

end Opcode

namespace Config

variable {c : Config} {i : Instruction} {e : Effect} {k : Nat} {a v x : Int}

/-! ### The cells that an instruction touches -/

/-- The instruction is a jump whose first operand lets it jump. -/
def JumpTaken (c : Config) (i : Instruction) : Prop :=
  ∃ test a, i.opcode.Tests test ∧ c.HasOperand i 0 a ∧ test a = true

/-- The instruction has a parameter at a place and looks at it: the second parameter of a jump
only if the jump is taken. -/
def Needs (c : Config) (i : Instruction) (k : Nat) : Prop :=
  k < i.opcode.params ∧ ∀ test, i.opcode.Tests test → k = 1 → c.JumpTaken i

/-- The cells that an instruction has to touch. -/
inductive Touches (c : Config) (i : Instruction) : Int → Prop
  /-- Its parameters. -/
  | parameter {k : Nat} (hk : c.Needs i k) : Touches c i (i.address + 1 + k)
  /-- The cells that its operands in position mode name. -/
  | source {k : Nat} {a : Int} (hk : c.Needs i k) (hd : ¬ i.IsDestination k)
      (hm : i.mode k = .position) (ha : c.memory.read? (i.address + 1 + k) = some a) :
      Touches c i a
  /-- Its destination. -/
  | destination {k : Nat} {a : Int} (hd : i.IsDestination k)
      (ha : c.memory.read? (i.address + 1 + k) = some a) : Touches c i a

theorem IsDestination.needs (h : i.IsDestination k) : c.Needs i k := by
  obtain ⟨hw, hk⟩ := h
  refine ⟨by omega, fun test ht => ?_⟩
  rw [ht.writes] at hw
  cases hw

/-- Only a jump does not look at all its parameters. -/
theorem needs_iff_of_not_tests (h : ∀ test, ¬ i.opcode.Tests test) :
    c.Needs i k ↔ k < i.opcode.params :=
  ⟨fun hk => hk.1, fun hk => ⟨hk, fun test ht => absurd ht (h test)⟩⟩

/-- The cells touched for an instruction are those touched for the parameters it looks at. -/
theorem touches_iff :
    c.Touches i a ↔ ∃ k, c.Needs i k ∧
      (¬ i.IsDestination k ∧ c.OperandCell i k a ∨ i.IsDestination k ∧ c.DestinationCell i k a) := by
  constructor
  · rintro (⟨hk⟩ | ⟨hk, hd, hm, ha⟩ | ⟨hd, ha⟩)
    · rename_i k
      by_cases hd : i.IsDestination k
      · exact ⟨k, hk, .inr ⟨hd, .parameter⟩⟩
      · exact ⟨k, hk, .inl ⟨hd, .parameter⟩⟩
    · exact ⟨_, hk, .inl ⟨hd, .named hm ha⟩⟩
    · exact ⟨_, IsDestination.needs hd, .inr ⟨hd, .named ha⟩⟩
  · rintro ⟨k, hk, ⟨hd, _ | ⟨hm, ha⟩⟩ | ⟨hd, _ | ha⟩⟩
    · exact .parameter hk
    · exact .source hk hd hm ha
    · exact .parameter hk
    · exact .destination hd ha

theorem touches_of_computes {op : Int → Int → Int} (ho : i.opcode.Computes op) :
    c.Touches i a ↔ c.OperandCell i 0 a ∨ c.OperandCell i 1 a ∨ c.DestinationCell i 2 a := by
  have hneeds : ∀ k, c.Needs i k ↔ k < 3 := fun k => by
    rw [needs_iff_of_not_tests fun _ => ho.not_tests, ho.params]
  have hdest : ∀ k, i.IsDestination k ↔ k = 2 := fun k => by
    simp [Instruction.IsDestination, ho.writes, ho.params]
  simp only [touches_iff, hneeds, hdest]
  constructor
  · rintro ⟨k, hk, ⟨hd, hx⟩ | ⟨rfl, hx⟩⟩
    · interval_cases k
      · exact .inl hx
      · exact .inr (.inl hx)
      · exact absurd rfl hd
    · exact .inr (.inr hx)
  · rintro (hx | hx | hx)
    · exact ⟨0, by omega, .inl ⟨by omega, hx⟩⟩
    · exact ⟨1, by omega, .inl ⟨by omega, hx⟩⟩
    · exact ⟨2, by omega, .inr ⟨rfl, hx⟩⟩

theorem touches_of_tests {test : Int → Bool} (ho : i.opcode.Tests test) :
    c.Touches i a ↔ c.OperandCell i 0 a ∨ c.JumpTaken i ∧ c.OperandCell i 1 a := by
  have hneeds : ∀ k, c.Needs i k ↔ k < 2 ∧ (k = 1 → c.JumpTaken i) := fun k =>
    ⟨fun h => ⟨ho.params ▸ h.1, h.2 test ho⟩, fun h => ⟨ho.params.symm ▸ h.1, fun _ _ => h.2⟩⟩
  have hdest : ∀ k, ¬ i.IsDestination k := fun k => by
    simp [Instruction.IsDestination, ho.writes]
  simp only [touches_iff, hneeds, hdest, not_false_eq_true, true_and, false_and, or_false]
  constructor
  · rintro ⟨k, ⟨hk, hj⟩, hx⟩
    interval_cases k
    · exact .inl hx
    · exact .inr ⟨hj rfl, hx⟩
  · rintro (hx | ⟨hj, hx⟩)
    · exact ⟨0, ⟨by omega, by omega⟩, hx⟩
    · exact ⟨1, ⟨by omega, fun _ => hj⟩, hx⟩

theorem touches_of_input (ho : i.opcode = .input) :
    c.Touches i a ↔ c.DestinationCell i 0 a := by
  have hneeds : ∀ k, c.Needs i k ↔ k = 0 := fun k => by
    rw [needs_iff_of_not_tests (by rw [ho]; rintro _ ⟨⟩), ho]
    exact Nat.lt_one_iff
  have hdest : ∀ k, i.IsDestination k ↔ k = 0 := fun k => by
    simp [Instruction.IsDestination, ho, Opcode.writes, Opcode.params]
  simp [touches_iff, hneeds, hdest]

theorem touches_of_output (ho : i.opcode = .output) :
    c.Touches i a ↔ c.OperandCell i 0 a := by
  have hneeds : ∀ k, c.Needs i k ↔ k = 0 := fun k => by
    rw [needs_iff_of_not_tests (by rw [ho]; rintro _ ⟨⟩), ho]
    exact Nat.lt_one_iff
  have hdest : ∀ k, ¬ i.IsDestination k := fun k => by
    simp [Instruction.IsDestination, ho, Opcode.writes]
  simp [touches_iff, hneeds, hdest]

theorem not_touches_of_halt (ho : i.opcode = .halt) : ¬ c.Touches i a := by
  rw [touches_iff]
  rintro ⟨k, ⟨hk, -⟩, -⟩
  rw [ho] at hk
  exact absurd hk (Nat.not_lt_zero k)

/-! ### Failure and success -/

/-- An instruction fails at a cell that it touches. -/
theorem Misses.touches (h : c.Misses i x) : c.Touches i x ∧ ¬ c.memory.Valid x := by
  cases h with
  | storeFirst ho hx hv => exact ⟨(touches_of_computes ho).2 (.inl hx), hv⟩
  | storeSecond ho ha hx hv => exact ⟨(touches_of_computes ho).2 (.inr (.inl hx)), hv⟩
  | storeDestination ho ha hb hx hv =>
    exact ⟨(touches_of_computes ho).2 (.inr (.inr hx)), hv⟩
  | jumpTest ho hx hv => exact ⟨(touches_of_tests ho).2 (.inl hx), hv⟩
  | jumpTarget ho ha hj hx hv =>
    exact ⟨(touches_of_tests ho).2 (.inr ⟨⟨_, _, ho, ha, hj⟩, hx⟩), hv⟩
  | input ho hq hx hv => exact ⟨(touches_of_input ho).2 hx, hv⟩
  | output ho hx hv => exact ⟨(touches_of_output ho).2 hx, hv⟩

/-- An instruction that fails is not one that waits. -/
theorem Misses.not_waiting (h : c.Misses i x) : ¬ (i.opcode = .input ∧ c.input = []) := by
  rw [← effect_eq_wait_iff, effect_of_misses h]
  rintro ⟨⟩

theorem valid_of_read? (h : c.memory.read? a = some v) : c.memory.Valid a :=
  exists_read?_iff.1 ⟨v, h⟩

theorem HasOperand.valid (h : c.HasOperand i k v) (hx : c.OperandCell i k x) :
    c.memory.Valid x := by
  cases hx with
  | parameter =>
    rcases h with ⟨-, hv⟩ | ⟨-, ha, -⟩
    · exact valid_of_read? hv
    · exact valid_of_read? ha
  | named hm hx =>
    rcases h with ⟨hk, -⟩ | ⟨-, ha, hv⟩
    · rw [hm] at hk
      cases hk
    · rw [ha] at hx
      cases hx
      exact valid_of_read? hv

/-- A parameter has one operand at most. -/
theorem HasOperand.unique {w : Int} (h : c.HasOperand i k v) (h' : c.HasOperand i k w) :
    v = w := by
  rw [← operand_eq_ok_iff] at h h'
  rw [h] at h'
  exact Except.ok.inj h'

theorem destinationCell_valid (hd : c.memory.read? (i.address + 1 + k) = some a)
    (hv : c.memory.Valid a) (hx : c.DestinationCell i k x) : c.memory.Valid x := by
  cases hx with
  | parameter => exact valid_of_read? hd
  | named hx =>
    rw [hd] at hx
    cases hx
    exact hv

/-- An instruction that succeeds touches cells of the memory only. -/
theorem Performs.valid (h : c.Performs i e) (hx : c.Touches i x) : c.memory.Valid x := by
  cases h with
  | store ho ha hb hd hv =>
    rcases (touches_of_computes ho).1 hx with hx | hx | hx
    · exact ha.valid hx
    · exact hb.valid hx
    · exact destinationCell_valid hd hv hx
  | jump ho ha hj ht =>
    rcases (touches_of_tests ho).1 hx with hx | ⟨-, hx⟩
    · exact ha.valid hx
    · exact ht.valid hx
  | skip ho ha hj =>
    rcases (touches_of_tests ho).1 hx with hx | ⟨⟨test, b, ho', hb, hj'⟩, -⟩
    · exact ha.valid hx
    · -- the target counts only if the jump is taken, and it is not
      rw [ho.unique ho', ha.unique hb, hj'] at hj
      cases hj
  | input ho hq hd hv => exact destinationCell_valid hd hv ((touches_of_input ho).1 hx)
  | output ho hv => exact hv.valid ((touches_of_output ho).1 hx)
  | halt ho => exact absurd hx (not_touches_of_halt ho)

/-- An instruction that has to be executed touches this address, which is outside memory. -/
def Strays (c : Config) (a : Int) : Prop :=
  ∃ i, c.instruction = .ok i ∧ ¬ (i.opcode = .input ∧ c.input = []) ∧ c.Touches i a ∧
    ¬ c.memory.Valid a

/-- The word at the program counter belongs to no operation. -/
def Unknown (c : Config) (word : Int) : Prop :=
  c.memory.read? c.pc = some word ∧ Undecodable word

theorem exists_misses_iff :
    (∃ i x, c.instruction = .ok i ∧ c.Misses i x) ↔ ∃ a, c.Strays a := by
  constructor
  · rintro ⟨i, x, hi, hx⟩
    exact ⟨x, i, hi, hx.not_waiting, hx.touches⟩
  · rintro ⟨a, i, hi, hw, ha, hv⟩
    -- the instruction neither waits nor succeeds, so it fails, though perhaps at another cell
    cases he : c.effect i with
    | error f =>
      obtain ⟨x, hx, -⟩ := effect_eq_error_iff.1 he
      exact ⟨i, x, hi, hx⟩
    | ok o =>
      cases o with
      | none => exact absurd (effect_eq_wait_iff.1 he) hw
      | some e => exact absurd ((effect_eq_ok_iff.1 he).valid ha) hv

/-- The reasons for which the instruction at the program counter fails, each with its failure. -/
theorem next_eq_error_cases {f : Failure} (h : c.next = .error f) :
    (¬ c.memory.Valid c.pc ∧ f = c.outside c.pc) ∨
    (∃ word, c.Unknown word ∧
      f = .unknownOpcode (if word < 0 then word else word % 100) word (some c.pc)) ∨
    (∃ a, c.Strays a ∧ f = c.outside a) := by
  rcases next_eq_error_iff.1 h with hi | ⟨i, x, hi, hx, hf⟩
  · rcases instruction_eq_error_iff.1 hi with hpc | hword
    · exact .inl hpc
    · exact .inr (.inl hword)
  · exact .inr (.inr ⟨x, ⟨i, hi, hx.not_waiting, hx.touches⟩, hf⟩)

theorem exists_next_eq_error_iff :
    (∃ f, c.next = .error f) ↔
      ¬ c.memory.Valid c.pc ∨ (∃ word, c.Unknown word) ∨ ∃ a, c.Strays a := by
  constructor
  · rintro ⟨f, hf⟩
    rcases next_eq_error_cases hf with ⟨hpc, -⟩ | ⟨word, hw, -⟩ | ⟨a, ha, -⟩
    · exact .inl hpc
    · exact .inr (.inl ⟨word, hw⟩)
    · exact .inr (.inr ⟨a, ha⟩)
  · rintro (hpc | ⟨word, hw⟩ | ha)
    · exact ⟨_, next_eq_error_iff.2 (.inl (instruction_eq_error_iff.2 (.inl ⟨hpc, rfl⟩)))⟩
    · exact ⟨_, next_eq_error_iff.2 (.inl (instruction_eq_error_iff.2 (.inr ⟨word, hw, rfl⟩)))⟩
    · obtain ⟨i, x, hi, hx⟩ := exists_misses_iff.2 ha
      exact ⟨_, next_eq_error_iff.2 (.inr ⟨i, x, hi, hx, rfl⟩)⟩

/-! The three reasons exclude each other. -/

theorem Unknown.valid {word : Int} (h : c.Unknown word) : c.memory.Valid c.pc :=
  valid_of_read? h.1

theorem Strays.valid (h : c.Strays a) : c.memory.Valid c.pc := by
  obtain ⟨i, hi, -⟩ := h
  exact valid_of_read? (instruction_eq_ok_iff.1 hi).1

theorem Strays.not_unknown {word : Int} (h : c.Strays a) : ¬ c.Unknown word := by
  obtain ⟨i, hi, -⟩ := h
  obtain ⟨hw, h0, hn, -⟩ := instruction_eq_ok_iff.1 hi
  rintro ⟨hw', hu⟩
  rw [hw] at hw'
  cases hw'
  rcases hu with hu | hu
  · omega
  · exact hu i.opcode hn

/-! So the reason determines the failure. -/

theorem outside_of_next_error {f : Failure} (h : c.next = .error f)
    (hpc : ¬ c.memory.Valid c.pc) : f = c.outside c.pc := by
  rcases next_eq_error_cases h with ⟨-, hf⟩ | ⟨word, hw, -⟩ | ⟨a, ha, -⟩
  · exact hf
  · exact absurd hw.valid hpc
  · exact absurd ha.valid hpc

theorem unknownOpcode_of_next_error {f : Failure} {word : Int} (h : c.next = .error f)
    (hw : c.Unknown word) :
    f = .unknownOpcode (if word < 0 then word else word % 100) word (some c.pc) := by
  rcases next_eq_error_cases h with ⟨hpc, -⟩ | ⟨word', hw', hf⟩ | ⟨a, ha, -⟩
  · exact absurd hw.valid hpc
  · have hword : word' = word := Option.some.inj (hw'.1.symm.trans hw.1)
    rw [hf, hword]
  · exact absurd hw ha.not_unknown

/-- The address that is named is one of those that the instruction touches outside memory. -/
theorem strays_of_next_error {f : Failure} (h : c.next = .error f) (ha : c.Strays a) :
    ∃ b, c.Strays b ∧ f = c.outside b := by
  rcases next_eq_error_cases h with ⟨hpc, -⟩ | ⟨word, hw, -⟩ | hb
  · exact absurd ha.valid hpc
  · exact absurd hw ha.not_unknown
  · exact hb

end Config

theorem short_emod (word : Int) : Numeral.Short (word % 100) := by
  have hlt : ∀ n, 2 ≤ n → (word % 100).natAbs < Nat.pow 10 n := by
    intro n hn
    have h100 : (word % 100).natAbs < 10 ^ 2 := by omega
    exact lt_of_lt_of_le h100 (Nat.pow_le_pow_right (by omega) hn)
  exact hlt Numeral.maxDigits (by decide)

/-- The failure of an access outside memory can be written if the address can. -/
theorem outside_eq (c : Config) (a : Int) :
    c.outside a =
      if Numeral.Short a then .fault (.outOfBounds a c.memory.size (some c.pc)) else .overlong :=
  rfl

/-- The failure of an unknown word can be written if the word can. -/
theorem unknownOpcode_eq (word pc : Int) :
    Failure.unknownOpcode (if word < 0 then word else word % 100) word (some pc) =
      if Numeral.Short word then
        .fault (.unknownOpcode (if word < 0 then word else word % 100) word (some pc))
      else .overlong := by
  have hshort : Numeral.allShort [if word < 0 then word else word % 100, word] = true ↔
      Numeral.Short word := by
    rw [Numeral.allShort_eq_true]
    constructor
    · intro h
      exact h word (by simp)
    · intro h v hv
      simp only [List.mem_cons, List.not_mem_nil, or_false] at hv
      rcases hv with rfl | rfl
      · split_ifs
        · exact h
        · exact short_emod word
      · exact h
  unfold Failure.unknownOpcode
  by_cases h : Numeral.Short word
  · rw [if_pos (hshort.2 h), if_pos h]
  · rw [if_neg (mt hshort.1 h), if_neg h]

/-- An instruction fails with a fault, or because the fault would name too long an integer. -/
theorem Config.failure_of_next {c : Config} {f : Failure} (h : c.next = .error f) :
    (∃ fault, f = .fault fault) ∨ f = .overlong := by
  have houtside : ∀ a, (∃ fault, c.outside a = .fault fault) ∨ c.outside a = .overlong := by
    intro a
    rw [outside_eq]
    split_ifs
    · exact .inl ⟨_, rfl⟩
    · exact .inr rfl
  rcases Config.next_eq_error_cases h with ⟨-, hf⟩ | ⟨word, -, hf⟩ | ⟨a, -, hf⟩
  · rw [hf]
    exact houtside c.pc
  · rw [unknownOpcode_eq] at hf
    by_cases hw : Numeral.Short word
    · exact .inl ⟨_, hf.trans (if_pos hw)⟩
    · exact .inr (hf.trans (if_neg hw))
  · rw [hf]
    exact houtside a

namespace Machine

variable {m m' : Machine} {f : Failure}

/-- A step fails as its instruction does, and leaves a machine that fails in the same way. -/
theorem step_of_step_error (h : m.step.2 = .error f) :
    m.step.1 = { m with status := .running } ∧ m.step.1.step = (m.step.1, .error f) := by
  have hs := step_of_error (next_of_step_error h)
  rw [hs]
  exact ⟨rfl, hs⟩

/-- So does a run. -/
theorem Ends.failure (h : m.Ends (m', .error f)) : (∃ fault, f = .fault fault) ∨ f = .overlong := by
  obtain ⟨m₀, -, hlast, -⟩ := ends_iff.1 h
  exact Config.failure_of_next (next_of_step_error (congrArg Prod.snd hlast))

/-- A run that fails leaves the machine as it was after its last completed instruction, ready to
fail in the same way. -/
theorem Ends.of_error (h : m.Ends (m', .error f)) :
    ∃ m₀, Relation.ReflTransGen Advances m m₀ ∧ m' = { m₀ with status := .running } ∧
      m'.step = (m', .error f) := by
  obtain ⟨m₀, h₀, hlast, -⟩ := ends_iff.1 h
  obtain ⟨hm', hstep⟩ := step_of_step_error (m := m₀) (by rw [hlast])
  rw [hlast] at hm' hstep
  exact ⟨m₀, h₀, hm', hstep⟩

/-- **A step fails for three reasons, and a failing step changes nothing.**  It fails if the
program counter points outside memory, if it points to a word without operation, or if the
instruction does not wait and touches a cell outside memory.  The failure names the address or
the word, with the program counter, unless the number is too long to be written.  Afterwards only
the status is different, so that the next step fails in the same way, and a run that fails stops
where its last completed instruction has left the machine. -/
theorem failing_step_changes_nothing (m : Machine) :
    ((∃ f, m.step.2 = .error f) ↔
      ¬ m.memory.Valid m.pc ∨ (∃ word, m.config.Unknown word) ∨ ∃ a, m.config.Strays a) ∧
    (∀ f, m.step.2 = .error f →
      (¬ m.memory.Valid m.pc →
        f = if Numeral.Short m.pc then
            .fault (.outOfBounds m.pc m.memory.size (some m.pc)) else .overlong) ∧
      (∀ word, m.config.Unknown word →
        f = if Numeral.Short word then
            .fault (.unknownOpcode (if word < 0 then word else word % 100) word (some m.pc))
          else .overlong) ∧
      ((∃ a, m.config.Strays a) → ∃ a, m.config.Strays a ∧
        f = if Numeral.Short a then
            .fault (.outOfBounds a m.memory.size (some m.pc)) else .overlong) ∧
      m.step.1 = { m with status := .running } ∧
      m.step.1.step = (m.step.1, .error f)) ∧
    (∀ m' f, m.Ends (m', .error f) →
      ∃ m₀, Relation.ReflTransGen Advances m m₀ ∧ m' = { m₀ with status := .running } ∧
        m'.step = (m', .error f) ∧ m'.Ends (m', .error f)) := by
  refine ⟨?_, ?_, ?_⟩
  · refine Iff.trans ?_ Config.exists_next_eq_error_iff
    constructor
    · rintro ⟨f, hf⟩
      exact ⟨f, next_of_step_error hf⟩
    · rintro ⟨f, hf⟩
      exact ⟨f, by rw [step_of_error hf]⟩
  · intro f hf
    have hnext := next_of_step_error hf
    refine ⟨?_, ?_, ?_, step_of_step_error hf⟩
    · intro hpc
      have h := Config.outside_of_next_error hnext hpc
      exact h.trans (outside_eq m.config m.pc)
    · intro word hw
      have h := Config.unknownOpcode_of_next_error hnext hw
      exact h.trans (unknownOpcode_eq word m.pc)
    · rintro ⟨a, ha⟩
      obtain ⟨b, hb, h⟩ := Config.strays_of_next_error hnext ha
      exact ⟨b, hb, h.trans (outside_eq m.config b)⟩
  · intro m' f h
    obtain ⟨m₀, h₀, hm', hstep⟩ := h.of_error
    have hstop : m'.step.2 ≠ .ok .running := by
      rw [hstep]
      simp
    exact ⟨m₀, h₀, hm', hstep, hstep ▸ ends_of_stopped hstop⟩

/-- An input instruction whose destination does not exist. -/
def inputAstray : Machine :=
  (ofProgram ⟨"3,50,99", #[3, 50, 99], by rfl⟩ false).feedAll [7]

/-- The value stays queued. -/
theorem inputAstray_keeps_value :
    inputAstray.step.2 = .error (.fault (.outOfBounds 50 3 (some 0))) ∧
      inputAstray.step.1.config.input = [7] := by
  have hf : inputAstray.step.2 = .error (.outOfBounds 50 3 (some 0)) := by rfl
  have hstep := ((failing_step_changes_nothing inputAstray).2.1 _ hf).2.2.2.1
  refine ⟨?_, by rw [hstep]; rfl⟩
  rw [hf, Failure.outOfBounds, if_pos (by decide +kernel)]
  rfl

end Machine

end Intcode

import Intcode.Machine.Basic
import Mathlib.Logic.Relation

/-!
# Execution of one instruction and of a whole run

What the reading functions of a configuration deliver and when they fail, what one step of a
machine can do, and how a run is made of steps.

* `Undecodable`: the words without operation;
* `Config.HasOperand`, `Config.OperandCell`, `Config.DestinationCell`: operands as a relation,
  and the cells that have to be read for them;
* `operand_eq_ok_iff`, `operand_eq_error_iff` and the same for `fetch` and `destination`;
* `Config.Performs`, `Config.Misses`: the effect of an instruction that succeeds, and the cell at
  which another one fails;
* `next_eq_ok_iff`, `next_eq_error_iff`, `next_eq_wait_iff`: an instruction succeeds, fails or
  waits;
* `step_of_error`, `step_of_wait`, `step_of_effect`: the three things that a step can do;
* `Machine.Advances`, `Machine.Ends`: one instruction after which the machine goes on, and the
  end of a run; `ends_iff` says that a run is a chain of the first with one last step.
-/

namespace Intcode

/-- A computation that continues another succeeds when both do. -/
theorem bind_eq_ok_iff {ε α β : Type} {x : Except ε α} {f : α → Except ε β} {b : β} :
    x >>= f = .ok b ↔ ∃ a, x = .ok a ∧ f a = .ok b := by
  cases x with
  | ok a => simp [bind, Except.bind]
  | error e => simp [bind, Except.bind]

/-- A computation that continues another fails when the first fails, or when the first succeeds
and the second fails. -/
theorem bind_eq_error_iff {ε α β : Type} {x : Except ε α} {f : α → Except ε β} {e : ε} :
    x >>= f = .error e ↔ x = .error e ∨ ∃ a, x = .ok a ∧ f a = .error e := by
  cases x with
  | ok a => simp [bind, Except.bind]
  | error e' => simp [bind, Except.bind]

theorem map_eq_error_iff {ε α β : Type} {x : Except ε α} {g : α → β} {e : ε} :
    x.map g = .error e ↔ x = .error e := by
  cases x <;> simp [Except.map]

theorem mapError_eq_ok_iff {ε ε' α : Type} {x : Except ε α} {g : ε → ε'} {a : α} :
    x.mapError g = .ok a ↔ x = .ok a := by
  constructor
  · intro h
    cases x with
    | ok b =>
      cases h
      rfl
    | error e => cases h
  · rintro rfl
    rfl

/-- The addresses of the memory are those that hold a value. -/
theorem exists_read?_iff {m : Memory} {a : Int} : (∃ v, m.read? a = some v) ↔ m.Valid a := by
  rw [← Memory.read?_isSome, Option.isSome_iff_exists]

/-! ### Decoding -/

/-- No operation belongs to the word. -/
def Undecodable (word : Int) : Prop :=
  word < 0 ∨ ∀ o : Opcode, (o.number : Int) ≠ word % 100

theorem decode_eq_error_iff {word address : Int} {f : Failure} :
    Instruction.decode word address = .error f ↔
      Undecodable word ∧
        f = .unknownOpcode (if word < 0 then word else word % 100) word (some address) := by
  by_cases h : word < 0
  · rw [Instruction.decode, if_pos h, if_pos h]
    constructor
    · intro hf
      exact ⟨.inl h, (Except.error.inj hf).symm⟩
    · rintro ⟨-, hf⟩
      rw [hf]
  · rw [Instruction.decode, if_neg h, if_neg h, Opcode.lookup]
    cases ho : Opcode.ofNumber? (word % 100) with
    | none =>
      have hnone : ∀ o : Opcode, (o.number : Int) ≠ word % 100 := by
        intro o hn
        rw [Opcode.ofNumber?_eq_some_iff.2 hn] at ho
        cases ho
      constructor
      · intro hf
        exact ⟨.inr hnone, (Except.error.inj hf).symm⟩
      · rintro ⟨-, hf⟩
        rw [hf]
    | some o =>
      constructor
      · intro hf
        cases hf
      · rintro ⟨hneg | hnone, -⟩
        · exact absurd hneg h
        · exact absurd (Opcode.ofNumber?_eq_some_iff.1 ho) (hnone o)

namespace Config

variable {c d : Config} {i : Instruction} {k : Nat} {a v : Int} {f : Failure} {e : Effect}

/-! ### Reading cells and operands -/

/-- The failure of reading an address outside memory while executing. -/
def outside (c : Config) (a : Int) : Failure :=
  .outOfBounds a c.memory.size (some c.pc)

theorem fetch_eq_ok_iff : c.fetch a = .ok v ↔ c.memory.read? a = some v := by
  unfold fetch
  cases c.memory.read? a <;> simp

theorem fetch_eq_error_iff : c.fetch a = .error f ↔ ¬ c.memory.Valid a ∧ f = c.outside a := by
  rw [← Memory.read?_eq_none, outside, fetch]
  cases c.memory.read? a with
  | none => simp [eq_comm]
  | some v => simp

/-- The parameter at a place has this operand. -/
inductive HasOperand (c : Config) (i : Instruction) (k : Nat) (v : Int) : Prop
  | immediate (hk : i.mode k = .immediate) (hv : c.memory.read? (i.address + 1 + k) = some v)
  | position {a : Int} (hk : i.mode k = .position)
      (ha : c.memory.read? (i.address + 1 + k) = some a) (hv : c.memory.read? a = some v)

/-- The cells that have to be read for the operand at a place. -/
inductive OperandCell (c : Config) (i : Instruction) (k : Nat) : Int → Prop
  /-- The parameter itself. -/
  | parameter : OperandCell c i k (i.address + 1 + k)
  /-- The cell that a parameter in position mode names. -/
  | named {a : Int} (hk : i.mode k = .position)
      (ha : c.memory.read? (i.address + 1 + k) = some a) : OperandCell c i k a

/-- The cells that have to exist for the destination at a place. -/
inductive DestinationCell (c : Config) (i : Instruction) (k : Nat) : Int → Prop
  /-- The parameter itself. -/
  | parameter : DestinationCell c i k (i.address + 1 + k)
  /-- The cell that the parameter names, whatever its mode digit is. -/
  | named {a : Int} (ha : c.memory.read? (i.address + 1 + k) = some a) : DestinationCell c i k a

theorem operand_eq_ok_iff : c.operand i k = .ok v ↔ c.HasOperand i k v := by
  unfold operand
  rw [bind_eq_ok_iff]
  constructor
  · rintro ⟨raw, hraw, hv⟩
    rw [fetch_eq_ok_iff] at hraw
    cases hk : i.mode k with
    | immediate =>
      rw [hk] at hv
      cases hv
      exact .immediate hk hraw
    | position =>
      rw [hk] at hv
      exact .position hk hraw (fetch_eq_ok_iff.1 hv)
  · rintro (⟨hk, hv⟩ | ⟨hk, ha, hv⟩)
    · exact ⟨v, fetch_eq_ok_iff.2 hv, by rw [hk]; rfl⟩
    · exact ⟨_, fetch_eq_ok_iff.2 ha, by rw [hk]; exact fetch_eq_ok_iff.2 hv⟩

theorem operand_eq_error_iff :
    c.operand i k = .error f ↔
      ∃ a, c.OperandCell i k a ∧ ¬ c.memory.Valid a ∧ f = c.outside a := by
  unfold operand
  rw [bind_eq_error_iff]
  constructor
  · rintro (hraw | ⟨raw, hraw, hv⟩)
    · exact ⟨_, .parameter, fetch_eq_error_iff.1 hraw⟩
    · rw [fetch_eq_ok_iff] at hraw
      cases hk : i.mode k with
      | immediate => rw [hk] at hv; cases hv
      | position =>
        rw [hk] at hv
        exact ⟨raw, .named hk hraw, fetch_eq_error_iff.1 hv⟩
  · rintro ⟨a, ha | ⟨hk, ha⟩, hf⟩
    · exact .inl (fetch_eq_error_iff.2 hf)
    · exact .inr ⟨a, fetch_eq_ok_iff.2 ha, by rw [hk]; exact fetch_eq_error_iff.2 hf⟩

theorem destination_eq_ok_iff :
    c.destination i k = .ok a ↔
      c.memory.read? (i.address + 1 + k) = some a ∧ c.memory.Valid a := by
  simp only [destination, bind_eq_ok_iff, fetch_eq_ok_iff]
  constructor
  · rintro ⟨b, hb, v, hv, h⟩
    cases h
    exact ⟨hb, exists_read?_iff.1 ⟨v, hv⟩⟩
  · rintro ⟨ha, hv⟩
    obtain ⟨v, hv⟩ := exists_read?_iff.2 hv
    exact ⟨a, ha, v, hv, rfl⟩

theorem destination_eq_error_iff :
    c.destination i k = .error f ↔
      ∃ a, c.DestinationCell i k a ∧ ¬ c.memory.Valid a ∧ f = c.outside a := by
  simp only [destination, bind_eq_error_iff, fetch_eq_ok_iff, fetch_eq_error_iff]
  constructor
  · rintro (h | ⟨b, hb, h | ⟨v, -, h⟩⟩)
    · exact ⟨_, .parameter, h⟩
    · exact ⟨b, .named hb, h⟩
    · cases h
  · rintro ⟨a, ha | ha, hf⟩
    · exact .inl hf
    · exact .inr ⟨a, ha, .inl hf⟩

/-- The decoded instruction is the word at the program counter, with its opcode. -/
theorem instruction_eq_ok_iff :
    c.instruction = .ok i ↔
      c.memory.read? c.pc = some i.word ∧ 0 ≤ i.word ∧
        (i.opcode.number : Int) = i.word % 100 ∧ i.address = c.pc := by
  unfold instruction
  simp only [bind_eq_ok_iff, fetch_eq_ok_iff, Instruction.decode_eq_ok_iff]
  constructor
  · rintro ⟨word, hw, h0, ho, ha, rfl⟩
    exact ⟨hw, h0, ho, ha⟩
  · rintro ⟨hw, h0, ho, ha⟩
    exact ⟨_, hw, h0, ho, ha, rfl⟩

theorem address_of_instruction (h : c.instruction = .ok i) : i.address = c.pc :=
  (instruction_eq_ok_iff.1 h).2.2.2

/-- There is no instruction at the program counter if it points outside memory or to a word
without operation. -/
theorem instruction_eq_error_iff :
    c.instruction = .error f ↔
      (¬ c.memory.Valid c.pc ∧ f = c.outside c.pc) ∨
      ∃ word, (c.memory.read? c.pc = some word ∧ Undecodable word) ∧
        f = .unknownOpcode (if word < 0 then word else word % 100) word (some c.pc) := by
  unfold instruction
  simp only [bind_eq_error_iff, fetch_eq_ok_iff, fetch_eq_error_iff, decode_eq_error_iff,
    and_assoc]

/-! ### What an instruction depends on -/

/-- An instruction other than input depends on memory and program counter alone. -/
theorem effect_congr (hm : c.memory = d.memory) (hpc : c.pc = d.pc) (hi : i.opcode ≠ .input) :
    c.effect i = d.effect i := by
  obtain ⟨memory, pc, input, output⟩ := c
  obtain ⟨_, _, input', output'⟩ := d
  cases hm
  cases hpc
  -- the two configurations now differ in their queues, and only input looks at one
  cases ho : i.opcode with
  | input => exact absurd ho hi
  | _ => simp only [effect, ho] <;> rfl

/-- The instruction at the program counter depends on memory and program counter alone. -/
theorem instruction_congr (hm : c.memory = d.memory) (hpc : c.pc = d.pc) :
    c.instruction = d.instruction := by
  unfold instruction fetch
  rw [hm, hpc]

end Config

/-! ### What an instruction does -/

/-- The operation of a storing opcode. -/
inductive Opcode.Computes : Opcode → (Int → Int → Int) → Prop
  | add : Computes .add (· + ·)
  | mul : Computes .mul (· * ·)
  | lessThan : Computes .lessThan fun a b => if a < b then 1 else 0
  | equals : Computes .equals fun a b => if a = b then 1 else 0

/-- The condition under which a jump opcode jumps. -/
inductive Opcode.Tests : Opcode → (Int → Bool) → Prop
  | jumpIfTrue : Tests .jumpIfTrue (· != 0)
  | jumpIfFalse : Tests .jumpIfFalse (· == 0)

/-- The opcodes by the form of what they do. -/
theorem Opcode.form_cases (o : Opcode) :
    (∃ op, o.Computes op) ∨ (∃ test, o.Tests test) ∨ o = .input ∨ o = .output ∨ o = .halt := by
  cases o with
  | add => exact .inl ⟨_, .add⟩
  | mul => exact .inl ⟨_, .mul⟩
  | lessThan => exact .inl ⟨_, .lessThan⟩
  | equals => exact .inl ⟨_, .equals⟩
  | jumpIfTrue => exact .inr (.inl ⟨_, .jumpIfTrue⟩)
  | jumpIfFalse => exact .inr (.inl ⟨_, .jumpIfFalse⟩)
  | input => simp
  | output => simp
  | halt => simp

namespace Config

variable {c d : Config} {i : Instruction} {a v : Int} {f : Failure} {e : Effect}

/-- The effects that an instruction can have. -/
inductive Performs (c : Config) (i : Instruction) : Effect → Prop
  | store {op : Int → Int → Int} {a b d : Int} (ho : i.opcode.Computes op)
      (ha : c.HasOperand i 0 a) (hb : c.HasOperand i 1 b)
      (hd : c.memory.read? (i.address + 1 + (2 : Nat)) = some d) (hv : c.memory.Valid d) :
      Performs c i ⟨i, some (d, op a b), false, none, i.address + 4⟩
  | jump {test : Int → Bool} {a t : Int} (ho : i.opcode.Tests test) (ha : c.HasOperand i 0 a)
      (hj : test a = true) (ht : c.HasOperand i 1 t) : Performs c i ⟨i, none, false, none, t⟩
  | skip {test : Int → Bool} {a : Int} (ho : i.opcode.Tests test) (ha : c.HasOperand i 0 a)
      (hj : test a = false) : Performs c i ⟨i, none, false, none, i.address + 3⟩
  | input {v d : Int} {q : Queue} (ho : i.opcode = .input) (hq : c.input = v :: q)
      (hd : c.memory.read? (i.address + 1 + (0 : Nat)) = some d) (hv : c.memory.Valid d) :
      Performs c i ⟨i, some (d, v), true, none, i.address + 2⟩
  | output {v : Int} (ho : i.opcode = .output) (hv : c.HasOperand i 0 v) :
      Performs c i ⟨i, none, false, some v, i.address + 2⟩
  | halt (ho : i.opcode = .halt) : Performs c i ⟨i, none, false, none, i.address + 1⟩

/-- The cell outside memory at which an instruction fails: operands are read from left to right,
the destination comes last, and the target of a jump only if it is taken. -/
inductive Misses (c : Config) (i : Instruction) (x : Int) : Prop
  | storeFirst {op : Int → Int → Int} (ho : i.opcode.Computes op) (hx : c.OperandCell i 0 x)
      (hv : ¬ c.memory.Valid x)
  | storeSecond {op : Int → Int → Int} {a : Int} (ho : i.opcode.Computes op)
      (ha : c.HasOperand i 0 a) (hx : c.OperandCell i 1 x) (hv : ¬ c.memory.Valid x)
  | storeDestination {op : Int → Int → Int} {a b : Int} (ho : i.opcode.Computes op)
      (ha : c.HasOperand i 0 a) (hb : c.HasOperand i 1 b) (hx : c.DestinationCell i 2 x)
      (hv : ¬ c.memory.Valid x)
  | jumpTest {test : Int → Bool} (ho : i.opcode.Tests test) (hx : c.OperandCell i 0 x)
      (hv : ¬ c.memory.Valid x)
  | jumpTarget {test : Int → Bool} {a : Int} (ho : i.opcode.Tests test) (ha : c.HasOperand i 0 a)
      (hj : test a = true) (hx : c.OperandCell i 1 x) (hv : ¬ c.memory.Valid x)
  | input (ho : i.opcode = .input) (hq : c.input ≠ []) (hx : c.DestinationCell i 0 x)
      (hv : ¬ c.memory.Valid x)
  | output (ho : i.opcode = .output) (hx : c.OperandCell i 0 x) (hv : ¬ c.memory.Valid x)

theorem counterAfter_of_computes {op : Int → Int → Int} {pc : Int} (ho : i.opcode.Computes op) :
    counterAfter i pc = pc + 4 := by
  rw [counterAfter]
  cases h : i.opcode <;> rw [h] at ho <;> cases ho <;> rfl

/-- Jumps set the program counter themselves. -/
theorem counterAfter_of_tests {test : Int → Bool} {pc : Int} (ho : i.opcode.Tests test) :
    counterAfter i pc = pc := by
  rw [counterAfter]
  cases h : i.opcode <;> rw [h] at ho <;> cases ho <;> exact Int.add_zero pc

theorem effect_of_computes {op : Int → Int → Int} (ho : i.opcode.Computes op) :
    c.effect i = c.storing i op := by
  unfold effect
  cases h : i.opcode <;> rw [h] at ho <;> cases ho <;> rfl

theorem effect_of_tests {test : Int → Bool} (ho : i.opcode.Tests test) :
    c.effect i = c.jumping i test := by
  unfold effect
  cases h : i.opcode <;> rw [h] at ho <;> cases ho <;> rfl

theorem effect_of_output (ho : i.opcode = .output) :
    c.effect i = (do
      let v ← c.operand i 0
      return some ⟨i, none, false, some v, i.address + 2⟩) := by
  simp only [effect, counterAfter, ho]
  rfl

theorem effect_of_halt (ho : i.opcode = .halt) :
    c.effect i = .ok (some ⟨i, none, false, none, i.address + 1⟩) := by
  simp only [effect, counterAfter, ho]
  rfl

/-- An input instruction with nothing queued waits. -/
theorem effect_input_nil (ho : i.opcode = .input) (hq : c.input = []) :
    c.effect i = .ok none := by
  simp only [effect, ho, hq]; rfl

/-- An input instruction with a queued value stores it. -/
theorem effect_input_cons {q : Queue} (ho : i.opcode = .input) (hq : c.input = v :: q) :
    c.effect i = (do
      let d ← c.destination i 0
      return some ⟨i, some (d, v), true, none, i.address + 2⟩) := by
  simp only [effect, counterAfter, ho, hq]
  rfl

theorem effect_of_performs (h : c.Performs i e) : c.effect i = .ok (some e) := by
  cases h with
  | store ho ha hb hd hv =>
    rw [effect_of_computes ho, storing, operand_eq_ok_iff.2 ha, operand_eq_ok_iff.2 hb,
      destination_eq_ok_iff.2 ⟨hd, hv⟩, counterAfter_of_computes ho]
    rfl
  | jump ho ha hj ht =>
    rw [effect_of_tests ho, jumping, operand_eq_ok_iff.2 ha, operand_eq_ok_iff.2 ht]
    show (if _ then _ else _) = _
    rw [if_pos hj]
    simp only [counterAfter_of_tests ho]
    rfl
  | skip ho ha hj =>
    rw [effect_of_tests ho, jumping, operand_eq_ok_iff.2 ha]
    show (if _ then _ else _) = _
    rw [if_neg (by rw [hj]; simp), counterAfter_of_tests ho]
    rfl
  | input ho hq hd hv =>
    rw [effect_input_cons ho hq, destination_eq_ok_iff.2 ⟨hd, hv⟩]
    rfl
  | output ho hv =>
    rw [effect_of_output ho, operand_eq_ok_iff.2 hv]
    rfl
  | halt ho => exact effect_of_halt ho

theorem performs_of_effect (h : c.effect i = .ok (some e)) : c.Performs i e := by
  rcases i.opcode.form_cases with ⟨op, ho⟩ | ⟨test, ho⟩ | ho | ho | ho
  · rw [effect_of_computes ho] at h
    simp only [storing, counterAfter_of_computes ho, bind_eq_ok_iff, operand_eq_ok_iff,
      destination_eq_ok_iff] at h
    obtain ⟨a, ha, b, hb, d, ⟨hd, hv⟩, h⟩ := h
    cases h
    exact .store ho ha hb hd hv
  · rw [effect_of_tests ho] at h
    simp only [jumping, counterAfter_of_tests ho, bind_eq_ok_iff, operand_eq_ok_iff] at h
    obtain ⟨a, ha, h⟩ := h
    split at h
    · rename_i hj
      obtain ⟨t, ht, h⟩ := bind_eq_ok_iff.1 h
      cases h
      exact .jump ho ha hj (operand_eq_ok_iff.1 ht)
    · rename_i hj
      cases h
      exact .skip ho ha (by simpa using hj)
  · cases hq : c.input with
    | nil => rw [effect_input_nil ho hq] at h; cases h
    | cons v q =>
      rw [effect_input_cons ho hq] at h
      obtain ⟨d, hd, h⟩ := bind_eq_ok_iff.1 h
      cases h
      obtain ⟨hd, hv⟩ := destination_eq_ok_iff.1 hd
      exact .input ho hq hd hv
  · rw [effect_of_output ho] at h
    obtain ⟨v, hv, h⟩ := bind_eq_ok_iff.1 h
    cases h
    exact .output ho (operand_eq_ok_iff.1 hv)
  · rw [effect_of_halt ho] at h
    cases h
    exact .halt ho

theorem effect_eq_ok_iff : c.effect i = .ok (some e) ↔ c.Performs i e :=
  ⟨performs_of_effect, effect_of_performs⟩

theorem effect_of_misses (h : c.Misses i a) : c.effect i = .error (c.outside a) := by
  cases h with
  | storeFirst ho hx hv =>
    rw [effect_of_computes ho, storing, operand_eq_error_iff.2 ⟨a, hx, hv, rfl⟩]
    rfl
  | storeSecond ho ha hx hv =>
    rw [effect_of_computes ho, storing, operand_eq_ok_iff.2 ha,
      operand_eq_error_iff.2 ⟨a, hx, hv, rfl⟩]
    rfl
  | storeDestination ho ha hb hx hv =>
    rw [effect_of_computes ho, storing, operand_eq_ok_iff.2 ha, operand_eq_ok_iff.2 hb,
      destination_eq_error_iff.2 ⟨a, hx, hv, rfl⟩]
    rfl
  | jumpTest ho hx hv =>
    rw [effect_of_tests ho, jumping, operand_eq_error_iff.2 ⟨a, hx, hv, rfl⟩]
    rfl
  | jumpTarget ho ha hj hx hv =>
    rw [effect_of_tests ho, jumping, operand_eq_ok_iff.2 ha,
      operand_eq_error_iff.2 ⟨a, hx, hv, rfl⟩]
    show (if _ then _ else _) = _
    rw [if_pos hj]
    rfl
  | input ho hq hx hv =>
    obtain ⟨v, q, hq⟩ := List.exists_cons_of_ne_nil hq
    rw [effect_input_cons ho hq, destination_eq_error_iff.2 ⟨a, hx, hv, rfl⟩]
    rfl
  | output ho hx hv =>
    rw [effect_of_output ho, operand_eq_error_iff.2 ⟨a, hx, hv, rfl⟩]
    rfl

theorem misses_of_effect (h : c.effect i = .error f) : ∃ a, c.Misses i a ∧ f = c.outside a := by
  rcases i.opcode.form_cases with ⟨op, ho⟩ | ⟨test, ho⟩ | ho | ho | ho
  · rw [effect_of_computes ho] at h
    simp only [storing, bind_eq_error_iff, operand_eq_ok_iff, operand_eq_error_iff,
      destination_eq_error_iff] at h
    rcases h with ⟨x, hx, hv, hf⟩ | ⟨a, ha, ⟨x, hx, hv, hf⟩ | ⟨b, hb, ⟨x, hx, hv, hf⟩ | ⟨d, -, h⟩⟩⟩
    · exact ⟨x, .storeFirst ho hx hv, hf⟩
    · exact ⟨x, .storeSecond ho ha hx hv, hf⟩
    · exact ⟨x, .storeDestination ho ha hb hx hv, hf⟩
    · cases h
  · rw [effect_of_tests ho] at h
    simp only [jumping, bind_eq_error_iff, operand_eq_ok_iff, operand_eq_error_iff] at h
    rcases h with ⟨x, hx, hv, hf⟩ | ⟨a, ha, h⟩
    · exact ⟨x, .jumpTest ho hx hv, hf⟩
    · split at h
      · rename_i hj
        rcases bind_eq_error_iff.1 h with h | ⟨t, -, h⟩
        · obtain ⟨x, hx, hv, hf⟩ := operand_eq_error_iff.1 h
          exact ⟨x, .jumpTarget ho ha hj hx hv, hf⟩
        · cases h
      · cases h
  · cases hq : c.input with
    | nil => rw [effect_input_nil ho hq] at h; cases h
    | cons v q =>
      rw [effect_input_cons ho hq] at h
      rcases bind_eq_error_iff.1 h with h | ⟨d, -, h⟩
      · obtain ⟨x, hx, hv, hf⟩ := destination_eq_error_iff.1 h
        exact ⟨x, .input ho (by rw [hq]; simp) hx hv, hf⟩
      · cases h
  · rw [effect_of_output ho] at h
    rcases bind_eq_error_iff.1 h with h | ⟨v, -, h⟩
    · obtain ⟨x, hx, hv, hf⟩ := operand_eq_error_iff.1 h
      exact ⟨x, .output ho hx hv, hf⟩
    · cases h
  · rw [effect_of_halt ho] at h
    cases h

theorem effect_eq_error_iff : c.effect i = .error f ↔ ∃ a, c.Misses i a ∧ f = c.outside a := by
  constructor
  · exact misses_of_effect
  · rintro ⟨a, ha, hf⟩
    rw [hf]
    exact effect_of_misses ha

/-- An instruction waits exactly when it is an input instruction and nothing is queued. -/
theorem effect_eq_wait_iff : c.effect i = .ok none ↔ i.opcode = .input ∧ c.input = [] := by
  refine ⟨fun h => ?_, fun h => effect_input_nil h.1 h.2⟩
  rcases i.opcode.form_cases with ⟨op, ho⟩ | ⟨test, ho⟩ | ho | ho | ho
  · simp [effect_of_computes ho, storing, bind_eq_ok_iff, pure, Except.pure] at h
  · simp only [effect_of_tests ho, jumping, bind_eq_ok_iff] at h
    obtain ⟨a, -, h⟩ := h
    split at h
    · simp [bind_eq_ok_iff, pure, Except.pure] at h
    · cases h
  · cases hq : c.input with
    | nil => exact ⟨ho, rfl⟩
    | cons v q => simp [effect_input_cons ho hq, bind_eq_ok_iff, pure, Except.pure] at h
  · simp [effect_of_output ho, bind_eq_ok_iff, pure, Except.pure] at h
  · rw [effect_of_halt ho] at h
    cases h

/-! ### The instruction at the program counter -/

theorem next_eq_wait_iff :
    c.next = .ok none ↔ ∃ i, c.instruction = .ok i ∧ i.opcode = .input ∧ c.input = [] := by
  simp only [next, bind_eq_ok_iff, effect_eq_wait_iff]

theorem next_eq_ok_iff :
    c.next = .ok (some e) ↔ ∃ i, c.instruction = .ok i ∧ c.Performs i e := by
  simp only [next, bind_eq_ok_iff, effect_eq_ok_iff]

theorem next_eq_error_iff :
    c.next = .error f ↔
      c.instruction = .error f ∨
        ∃ i a, c.instruction = .ok i ∧ c.Misses i a ∧ f = c.outside a := by
  simp only [next, bind_eq_error_iff, effect_eq_error_iff, exists_and_left]

end Config

namespace Machine

variable {m m' : Machine} {e : Effect} {f : Failure} {s : Status}

/-! ### One step -/

@[simp] theorem config_note (m : Machine) (e : Event) : (m.note e).config = m.config := by
  unfold note
  split <;> rfl

@[simp] theorem status_note (m : Machine) (e : Event) : (m.note e).status = m.status := by
  unfold note
  split <;> rfl

@[simp] theorem config_await (m : Machine) : m.await.config = m.config := by
  simp [await]

@[simp] theorem status_await (m : Machine) : m.await.status = .blocked := by
  simp [await]

@[simp] theorem config_log (m : Machine) (e : Effect) (ps : List Int) :
    (m.log e ps).config = m.config := by
  unfold log
  split
  · dsimp only
    split <;> simp
  · rfl

@[simp] theorem status_log (m : Machine) (e : Effect) (ps : List Int) :
    (m.log e ps).status = m.status := by
  unfold log
  split
  · dsimp only
    split <;> simp
  · rfl

@[simp] theorem config_perform (m : Machine) (e : Effect) :
    (m.perform e).config = m.config.apply e := by
  unfold perform
  split
  · simp [commit]
  · rfl

@[simp] theorem status_perform (m : Machine) (e : Effect) :
    (m.perform e).status = statusAfter e := by
  unfold perform
  split
  · simp [commit]
  · rfl

@[simp] theorem recording_note (m : Machine) (e : Event) : (m.note e).recording = m.recording := by
  unfold note
  split <;> rfl

@[simp] theorem recording_log (m : Machine) (e : Effect) (ps : List Int) :
    (m.log e ps).recording = m.recording := by
  unfold log
  split
  · dsimp only
    split <;> simp
  · rfl

theorem statusAfter_ne_blocked (e : Effect) : statusAfter e ≠ .blocked := by
  unfold statusAfter
  split <;> simp

/-- A failing instruction changes nothing but the status. -/
theorem step_of_error (h : m.config.next = .error f) :
    m.step = ({ m with status := .running }, .error f) := by
  simp only [step, h]

theorem step_of_wait (h : m.config.next = .ok none) : m.step = (m.await, .ok .blocked) := by
  simp only [step, h]

theorem step_of_effect (h : m.config.next = .ok (some e)) :
    m.step = (m.perform e, .ok (statusAfter e)) := by
  simp only [step, h]

/-- A step fails, waits or performs an effect. -/
theorem step_cases (m : Machine) :
    (∃ f, m.config.next = .error f ∧ m.step = ({ m with status := .running }, .error f)) ∨
    (m.config.next = .ok none ∧ m.step = (m.await, .ok .blocked)) ∨
    (∃ e, m.config.next = .ok (some e) ∧ m.step = (m.perform e, .ok (statusAfter e))) := by
  cases h : m.config.next with
  | error f => exact .inl ⟨f, rfl, step_of_error h⟩
  | ok o =>
    cases o with
    | none => exact .inr (.inl ⟨rfl, step_of_wait h⟩)
    | some e => exact .inr (.inr ⟨e, rfl, step_of_effect h⟩)

theorem next_of_step_error (h : m.step.2 = .error f) : m.config.next = .error f := by
  rcases m.step_cases with ⟨g, hn, hs⟩ | ⟨hn, hs⟩ | ⟨e, hn, hs⟩ <;> rw [hs] at h <;> cases h
  exact hn

theorem next_of_step_blocked (h : m.step.2 = .ok .blocked) : m.config.next = .ok none := by
  rcases m.step_cases with ⟨g, hn, hs⟩ | ⟨hn, hs⟩ | ⟨e, hn, hs⟩
  · rw [hs] at h
    cases h
  · exact hn
  · rw [hs] at h
    exact absurd (Except.ok.inj h) (statusAfter_ne_blocked e)

/-- A step that neither fails nor waits performs an effect. -/
theorem next_of_step_ok (h : m.step.2 = .ok s) (hs : s ≠ .blocked) :
    ∃ e, m.config.next = .ok (some e) ∧ s = statusAfter e := by
  rcases m.step_cases with ⟨g, hn, hm⟩ | ⟨hn, hm⟩ | ⟨e, hn, hm⟩ <;> rw [hm] at h <;> cases h
  · exact absurd rfl hs
  · exact ⟨e, hn, rfl⟩

theorem recording_step (m : Machine) : m.step.1.recording = m.recording := by
  rcases m.step_cases with ⟨f, -, hs⟩ | ⟨-, hs⟩ | ⟨e, -, hs⟩ <;> rw [hs]
  · simp [await]
  · show (m.perform e).recording = m.recording
    unfold perform
    split <;> simp [commit]

/-- The status that a step leaves is the one that it replies. -/
theorem status_step (h : m.step = (m', .ok s)) : m'.status = s := by
  rcases m.step_cases with ⟨f, -, hs⟩ | ⟨-, hs⟩ | ⟨e, -, hs⟩ <;> rw [hs] at h <;> cases h <;> simp

/-- A step does not depend on the status in which the machine was left. -/
theorem step_withStatus (m : Machine) (s : Status) : { m with status := s }.step = m.step := rfl

/-- Reply and following configuration and status depend on the configuration alone. -/
theorem step_congr (h : m.config = m'.config) :
    m.step.2 = m'.step.2 ∧ m.step.1.config = m'.step.1.config ∧
      m.step.1.status = m'.step.1.status := by
  rcases m.step_cases with ⟨f, hn, hs⟩ | ⟨hn, hs⟩ | ⟨e, hn, hs⟩
  · have hs' := step_of_error (h ▸ hn)
    rw [hs, hs']
    exact ⟨rfl, h, rfl⟩
  · have hs' := step_of_wait (h ▸ hn)
    rw [hs, hs']
    simp [h]
  · have hs' := step_of_effect (h ▸ hn)
    rw [hs, hs']
    simp [h]

/-! ### Runs -/

/-- One instruction is executed and the machine goes on. -/
def Advances (m m' : Machine) : Prop :=
  m.step = (m', .ok .running)

/-- A run ends with this machine and this reply. -/
def Ends (m : Machine) (r : Machine × Except Failure Status) : Prop :=
  ∃ fuel, m.run fuel = some r

theorem advances_of_running (h : m.step.2 = .ok .running) : m.Advances m.step.1 := by
  unfold Advances
  rw [← h]

theorem ends_of_stopped (h : m.step.2 ≠ .ok .running) : m.Ends m.step :=
  ⟨1, run_succ_of_stopped h 0⟩

theorem ends_iff_of_advances {r : Machine × Except Failure Status} (h : m.Advances m') :
    m.Ends r ↔ m'.Ends r := by
  constructor
  · rintro ⟨fuel, hr⟩
    cases fuel with
    | zero => cases hr
    | succ fuel => exact ⟨fuel, by rwa [run_succ_of_running h] at hr⟩
  · rintro ⟨fuel, hr⟩
    exact ⟨fuel + 1, by rwa [run_succ_of_running h]⟩

theorem ends_iff_of_reaches {r : Machine × Except Failure Status}
    (h : Relation.ReflTransGen Advances m m') : m.Ends r ↔ m'.Ends r := by
  induction h with
  | refl => rfl
  | tail _ hstep ih => exact ih.trans (ends_iff_of_advances hstep)

/-- A run is a chain of instructions after which the machine goes on, and then one step after
which it does not. -/
theorem ends_iff {r : Machine × Except Failure Status} :
    m.Ends r ↔
      ∃ m', Relation.ReflTransGen Advances m m' ∧ m'.step = r ∧ r.2 ≠ .ok .running := by
  constructor
  · -- the fuel that is enough for the run bounds the length of the chain
    rintro ⟨fuel, hr⟩
    induction fuel generalizing m with
    | zero => cases hr
    | succ fuel ih =>
      by_cases hs : m.step.2 = .ok .running
      · have hm := advances_of_running hs
        rw [run_succ_of_running hm] at hr
        obtain ⟨m', hm', hlast⟩ := ih hr
        exact ⟨m', .head hm hm', hlast⟩
      · rw [run_succ_of_stopped hs] at hr
        cases hr
        exact ⟨m, .refl, rfl, hs⟩
  · rintro ⟨m', hm', rfl, hs⟩
    exact (ends_iff_of_reaches hm').2 (ends_of_stopped hs)

end Machine

end Intcode

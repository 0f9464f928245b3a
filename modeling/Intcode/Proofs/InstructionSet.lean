import Intcode.Proofs.Execution
import Mathlib.Tactic.NormNum

/-!
# The instruction set as rules

The table of the instruction set, written down once more as a relation between configurations,
without decoding and without effects as data: each rule says which words it applies to, what has
to hold of the cells, and what the configuration is afterwards.  The interpreter is then compared
with the rules.

* `Holds`, `Outside`: what the cells of a memory are;
* `code`, `flag`: the number of the operation and the mode digits of a word;
* `Stores`, `Jumps`: the rows of the table that differ in one operation only;
* `Source`, `Destination`: operands and destinations, or the address at which they fail;
* `Rule c c' r`: from `c` one instruction leads to `c'` in the way `r`;
* `step_of_rule`, `rule_of_step`: a step does what a rule says, and there is always a rule;
* `interpreter_follows_rules`: steps and runs of a machine against the rules.
-/

namespace Intcode.InstructionSet

/-! ### The rules -/

/-- The cell at an address holds a value. -/
def Holds (m : Memory) (a v : Int) : Prop :=
  ∃ n : Nat, a = n ∧ m[n]? = some v

/-- An address is not one of the memory. -/
def Outside (m : Memory) (a : Int) : Prop :=
  a < 0 ∨ (m.size : Int) ≤ a

/-- The number of the operation: the remainder of the word by 100.  It has the sign of the word,
so that a negative word has no operation. -/
def code (word : Int) : Int :=
  word.tmod 100

/-- The mode digit of the parameter at a place, counted from zero. -/
def flag (word : Int) (k : Nat) : Int :=
  word / 10 ^ (k + 2) % 10

/-- The operations that store a result computed from two operands. -/
inductive Stores : Int → (Int → Int → Int) → Prop
  | add : Stores 1 fun a b => a + b
  | multiply : Stores 2 fun a b => a * b
  | lessThan : Stores 7 fun a b => if a < b then 1 else 0
  | equals : Stores 8 fun a b => if a = b then 1 else 0

/-- The operations that set the program counter if the first operand satisfies a condition. -/
inductive Jumps : Int → (Int → Prop) → Prop
  | nonZero : Jumps 5 fun a => a ≠ 0
  | zero : Jumps 6 fun a => a = 0

/-- The number of the operation that reads input. -/
def readInput : Int := 3

/-- The number of the operation that writes output. -/
def writeOutput : Int := 4

/-- The number of the operation that halts. -/
def halt : Int := 99

/-- The numbers in the table. -/
def Listed (n : Int) : Prop :=
  n ∈ [1, 2, readInput, writeOutput, 5, 6, 7, 8, halt]

instance (n : Int) : Decidable (Listed n) :=
  inferInstanceAs (Decidable (n ∈ [1, 2, readInput, writeOutput, 5, 6, 7, 8, halt]))

/-- The operand for the parameter at a place, or the address outside memory that it needs.  The
digit 1 makes the parameter immediate, every other digit makes it a position. -/
inductive Source (c : Config) (word : Int) (k : Nat) : Except Int Int → Prop
  | missing (h : Outside c.memory (c.pc + 1 + k)) : Source c word k (.error (c.pc + 1 + k))
  | immediate {v : Int} (hf : flag word k = 1) (hv : Holds c.memory (c.pc + 1 + k) v) :
      Source c word k (.ok v)
  | position {a v : Int} (hf : flag word k ≠ 1) (ha : Holds c.memory (c.pc + 1 + k) a)
      (hv : Holds c.memory a v) : Source c word k (.ok v)
  | dangling {a : Int} (hf : flag word k ≠ 1) (ha : Holds c.memory (c.pc + 1 + k) a)
      (hv : Outside c.memory a) : Source c word k (.error a)

/-- The destination for the parameter at a place, or the address outside memory that it needs.
It is an address whatever the digit is. -/
inductive Destination (c : Config) (k : Nat) : Except Int Int → Prop
  | missing (h : Outside c.memory (c.pc + 1 + k)) : Destination c k (.error (c.pc + 1 + k))
  | address {a v : Int} (ha : Holds c.memory (c.pc + 1 + k) a) (hv : Holds c.memory a v) :
      Destination c k (.ok a)
  | dangling {a : Int} (ha : Holds c.memory (c.pc + 1 + k) a) (hv : Outside c.memory a) :
      Destination c k (.error a)

/-- What can be wrong with an instruction. -/
inductive Violation
  /-- The word has no operation. -/
  | unknownOpcode (word : Int)
  /-- A cell that the instruction needs does not exist. -/
  | outOfBounds (address : Int)

/-- The ways in which an instruction can end. -/
inductive Result
  | proceeds
  | blocks
  | halts
  | fails (violation : Violation)

/-- The rules of the instruction set. -/
inductive Rule (c : Config) : Config → Result → Prop
  | nowhere (h : Outside c.memory c.pc) : Rule c c (.fails (.outOfBounds c.pc))
  | unknown {word : Int} (hw : Holds c.memory c.pc word) (ho : ¬ Listed (code word)) :
      Rule c c (.fails (.unknownOpcode word))
  | store {word a b d : Int} {op : Int → Int → Int} (hw : Holds c.memory c.pc word)
      (ho : Stores (code word) op) (ha : Source c word 0 (.ok a)) (hb : Source c word 1 (.ok b))
      (hd : Destination c 2 (.ok d)) :
      Rule c { c with memory := c.memory.setIfInBounds d.toNat (op a b), pc := c.pc + 4 } .proceeds
  | storeFirst {word x : Int} {op : Int → Int → Int} (hw : Holds c.memory c.pc word)
      (ho : Stores (code word) op) (hx : Source c word 0 (.error x)) :
      Rule c c (.fails (.outOfBounds x))
  | storeSecond {word a x : Int} {op : Int → Int → Int} (hw : Holds c.memory c.pc word)
      (ho : Stores (code word) op) (ha : Source c word 0 (.ok a))
      (hx : Source c word 1 (.error x)) : Rule c c (.fails (.outOfBounds x))
  | storeDestination {word a b x : Int} {op : Int → Int → Int} (hw : Holds c.memory c.pc word)
      (ho : Stores (code word) op) (ha : Source c word 0 (.ok a)) (hb : Source c word 1 (.ok b))
      (hx : Destination c 2 (.error x)) : Rule c c (.fails (.outOfBounds x))
  | jump {word a t : Int} {test : Int → Prop} (hw : Holds c.memory c.pc word)
      (ho : Jumps (code word) test) (ha : Source c word 0 (.ok a)) (hj : test a)
      (ht : Source c word 1 (.ok t)) : Rule c { c with pc := t } .proceeds
  | skip {word a : Int} {test : Int → Prop} (hw : Holds c.memory c.pc word)
      (ho : Jumps (code word) test) (ha : Source c word 0 (.ok a)) (hj : ¬ test a) :
      Rule c { c with pc := c.pc + 3 } .proceeds
  | jumpTest {word x : Int} {test : Int → Prop} (hw : Holds c.memory c.pc word)
      (ho : Jumps (code word) test) (hx : Source c word 0 (.error x)) :
      Rule c c (.fails (.outOfBounds x))
  | jumpTarget {word a x : Int} {test : Int → Prop} (hw : Holds c.memory c.pc word)
      (ho : Jumps (code word) test) (ha : Source c word 0 (.ok a)) (hj : test a)
      (hx : Source c word 1 (.error x)) : Rule c c (.fails (.outOfBounds x))
  | input {word v d : Int} {q : List Int} (hw : Holds c.memory c.pc word)
      (ho : code word = readInput) (hq : c.input = v :: q) (hd : Destination c 0 (.ok d)) :
      Rule c { c with memory := c.memory.setIfInBounds d.toNat v, pc := c.pc + 2, input := q }
        .proceeds
  | inputBlocks {word : Int} (hw : Holds c.memory c.pc word) (ho : code word = readInput)
      (hq : c.input = []) : Rule c c .blocks
  | inputDestination {word x : Int} (hw : Holds c.memory c.pc word) (ho : code word = readInput)
      (hq : c.input ≠ []) (hx : Destination c 0 (.error x)) : Rule c c (.fails (.outOfBounds x))
  | output {word v : Int} (hw : Holds c.memory c.pc word) (ho : code word = writeOutput)
      (hv : Source c word 0 (.ok v)) :
      Rule c { c with pc := c.pc + 2, output := c.output ++ [v] } .proceeds
  | outputOperand {word x : Int} (hw : Holds c.memory c.pc word) (ho : code word = writeOutput)
      (hx : Source c word 0 (.error x)) : Rule c c (.fails (.outOfBounds x))
  | halt {word : Int} (hw : Holds c.memory c.pc word) (ho : code word = halt) :
      Rule c { c with pc := c.pc + 1 } .halts

/-- The reply of a machine to an instruction that ends in a given way.  A failure names the
word or the address, unless it has too many digits to be written. -/
def Result.reply (c : Config) : Result → Except Failure Status
  | proceeds => .ok .running
  | blocks => .ok .blocked
  | halts => .ok .halted
  | fails (.unknownOpcode word) =>
    .error (.unknownOpcode (if word < 0 then word else code word) word (some c.pc))
  | fails (.outOfBounds address) => .error (.outOfBounds address c.memory.size (some c.pc))

/-- One instruction after which execution goes on. -/
def Proceeds (c c' : Config) : Prop :=
  Rule c c' .proceeds

/-! ### Words and cells -/

variable {c c' : Config} {m : Memory} {a v x n word : Int} {k : Nat} {o : Opcode} {r : Result}

theorem holds_iff : Holds m a v ↔ m.read? a = some v := by
  unfold Holds
  cases a with
  | ofNat n => simp [Memory.read?]
  | negSucc n =>
    constructor
    · rintro ⟨k, hk, -⟩
      omega
    · intro h
      cases h

theorem outside_iff : Outside m a ↔ ¬ m.Valid a := by
  unfold Outside Memory.Valid
  omega

theorem number_pos (o : Opcode) : 0 < o.number := by
  cases o <;> decide

/-- A word has an operation exactly when it is not negative and its last two digits are the
number of one. -/
theorem code_eq_number_iff : code word = o.number ↔ 0 ≤ word ∧ (o.number : Int) = word % 100 := by
  have hpos := number_pos o
  unfold code
  rcases lt_or_ge word 0 with h | h
  · -- the remainder is not positive, but all numbers of operations are
    have hneg : 0 ≤ (-word).tmod 100 := Int.tmod_nonneg 100 (by omega)
    rw [Int.neg_tmod] at hneg
    omega
  · rw [Int.tmod_eq_emod_of_nonneg h]
    omega

theorem listed_iff : Listed n ↔ ∃ o : Opcode, n = o.number := by
  constructor
  · intro h
    simp only [Listed, readInput, writeOutput, halt, List.mem_cons, List.not_mem_nil, or_false] at h
    rcases h with rfl | rfl | rfl | rfl | rfl | rfl | rfl | rfl | rfl
    · exact ⟨.add, rfl⟩
    · exact ⟨.mul, rfl⟩
    · exact ⟨.input, rfl⟩
    · exact ⟨.output, rfl⟩
    · exact ⟨.jumpIfTrue, rfl⟩
    · exact ⟨.jumpIfFalse, rfl⟩
    · exact ⟨.lessThan, rfl⟩
    · exact ⟨.equals, rfl⟩
    · exact ⟨.halt, rfl⟩
  · rintro ⟨o, rfl⟩
    cases o <;> decide

theorem Stores.opcode {op : Int → Int → Int} (h : Stores n op) :
    ∃ o : Opcode, n = o.number ∧ o.Computes op := by
  cases h with
  | add => exact ⟨.add, rfl, .add⟩
  | multiply => exact ⟨.mul, rfl, .mul⟩
  | lessThan => exact ⟨.lessThan, rfl, .lessThan⟩
  | equals => exact ⟨.equals, rfl, .equals⟩

theorem stores_of_computes {op : Int → Int → Int} (h : o.Computes op) : Stores o.number op := by
  cases h with
  | add => exact .add
  | mul => exact .multiply
  | lessThan => exact .lessThan
  | equals => exact .equals

theorem Jumps.opcode {test : Int → Prop} (h : Jumps n test) :
    ∃ (o : Opcode) (t : Int → Bool), n = o.number ∧ o.Tests t ∧ ∀ a, t a = true ↔ test a := by
  cases h with
  | nonZero => exact ⟨.jumpIfTrue, _, rfl, .jumpIfTrue, by simp⟩
  | zero => exact ⟨.jumpIfFalse, _, rfl, .jumpIfFalse, by simp⟩

theorem jumps_of_tests {t : Int → Bool} (h : o.Tests t) :
    ∃ test, Jumps o.number test ∧ ∀ a, t a = true ↔ test a := by
  cases h with
  | jumpIfTrue => exact ⟨_, .nonZero, by simp⟩
  | jumpIfFalse => exact ⟨_, .zero, by simp⟩

/-- The mode digits of a word are the digits above its last two. -/
theorem flag_eq_modeDigit (word : Int) (k : Nat) : flag word k = modeDigit (word / 100) k := by
  have h : (10 : Int) ^ (k + 2) = 100 * ((Nat.pow 10 k : Nat) : Int) := by
    rw [Nat.pow_eq, Nat.cast_pow, Int.pow_succ, Int.pow_succ]
    norm_num
    omega
  unfold flag modeDigit
  rw [h, Int.ediv_ediv_of_nonneg (by norm_num)]

theorem mode_eq_immediate_iff :
    (⟨a, word, o⟩ : Instruction).mode k = .immediate ↔ flag word k = 1 := by
  rw [flag_eq_modeDigit]
  simp only [Instruction.mode, Instruction.flags, Mode.at]
  split_ifs with h <;> simp [h]

theorem mode_eq_position_iff :
    (⟨a, word, o⟩ : Instruction).mode k = .position ↔ flag word k ≠ 1 := by
  rw [flag_eq_modeDigit]
  simp only [Instruction.mode, Instruction.flags, Mode.at]
  split_ifs with h <;> simp [h]

theorem source_ok_iff :
    Source c word k (.ok v) ↔ c.HasOperand ⟨c.pc, word, o⟩ k v := by
  constructor
  · rintro (_ | ⟨hf, hv⟩ | ⟨hf, ha, hv⟩ | _)
    · exact .immediate (mode_eq_immediate_iff.2 hf) (holds_iff.1 hv)
    · exact .position (mode_eq_position_iff.2 hf) (holds_iff.1 ha) (holds_iff.1 hv)
  · rintro (⟨hk, hv⟩ | ⟨hk, ha, hv⟩)
    · exact .immediate (mode_eq_immediate_iff.1 hk) (holds_iff.2 hv)
    · exact .position (mode_eq_position_iff.1 hk) (holds_iff.2 ha) (holds_iff.2 hv)

theorem source_error_iff :
    Source c word k (.error x) ↔
      c.OperandCell ⟨c.pc, word, o⟩ k x ∧ ¬ c.memory.Valid x := by
  constructor
  · rintro (h | _ | _ | ⟨hf, ha, hv⟩)
    · exact ⟨.parameter, outside_iff.1 h⟩
    · exact ⟨.named (mode_eq_position_iff.2 hf) (holds_iff.1 ha), outside_iff.1 hv⟩
  · rintro ⟨_ | ⟨hk, ha⟩, hv⟩
    · exact .missing (outside_iff.2 hv)
    · exact .dangling (mode_eq_position_iff.1 hk) (holds_iff.2 ha) (outside_iff.2 hv)

theorem destination_ok_iff :
    Destination c k (.ok a) ↔
      c.memory.read? (c.pc + 1 + k) = some a ∧ c.memory.Valid a := by
  constructor
  · rintro (_ | ⟨ha, hv⟩ | _)
    exact ⟨holds_iff.1 ha, exists_read?_iff.1 ⟨_, holds_iff.1 hv⟩⟩
  · rintro ⟨ha, hv⟩
    obtain ⟨v, hv⟩ := exists_read?_iff.2 hv
    exact .address (holds_iff.2 ha) (holds_iff.2 hv)

theorem destination_error_iff :
    Destination c k (.error x) ↔
      c.DestinationCell ⟨c.pc, word, o⟩ k x ∧ ¬ c.memory.Valid x := by
  constructor
  · rintro (h | _ | ⟨ha, hv⟩)
    · exact ⟨.parameter, outside_iff.1 h⟩
    · exact ⟨.named (holds_iff.1 ha), outside_iff.1 hv⟩
  · rintro ⟨_ | ha, hv⟩
    · exact .missing (outside_iff.2 hv)
    · exact .dangling (holds_iff.2 ha) (outside_iff.2 hv)

/-! ### Instructions -/

/-- A word with an operation is decoded. -/
theorem instruction_of_code (hw : Holds c.memory c.pc word) (ho : code word = o.number) :
    c.instruction = .ok ⟨c.pc, word, o⟩ := by
  obtain ⟨h0, hn⟩ := code_eq_number_iff.1 ho
  exact Config.instruction_eq_ok_iff.2 ⟨holds_iff.1 hw, h0, hn, rfl⟩

theorem instruction_of_outside (h : Outside c.memory c.pc) :
    c.instruction = .error (c.outside c.pc) :=
  Config.instruction_eq_error_iff.2 (.inl ⟨outside_iff.1 h, rfl⟩)

/-- A word without an operation is not decoded. -/
theorem instruction_of_unknown (hw : Holds c.memory c.pc word) (ho : ¬ Listed (code word)) :
    c.instruction =
      .error (.unknownOpcode (if word < 0 then word else code word) word (some c.pc)) := by
  have hu : Undecodable word := by
    by_cases h : word < 0
    · exact .inl h
    · refine .inr fun o hn => ho (listed_iff.2 ⟨o, code_eq_number_iff.2 ⟨by omega, hn⟩⟩)
  have hcode : (if word < 0 then word else code word) = if word < 0 then word else word % 100 := by
    split_ifs with h
    · rfl
    · exact Int.tmod_eq_emod_of_nonneg (by omega)
  rw [hcode]
  exact Config.instruction_eq_error_iff.2 (.inr ⟨word, ⟨holds_iff.1 hw, hu⟩, rfl⟩)

/-- Writing a cell of the memory. -/
theorem write_eq_setIfInBounds (h : m.Valid a) : m.write a v = m.setIfInBounds a.toNat v := by
  cases a with
  | ofNat n => rfl
  | negSucc n => exact absurd h Memory.not_valid_negSucc

theorem computes_ne_halt {op : Int → Int → Int} (h : o.Computes op) : o ≠ .halt := by
  rintro rfl
  cases h

theorem tests_ne_halt {t : Int → Bool} (h : o.Tests t) : o ≠ .halt := by
  rintro rfl
  cases h

section Step

variable {m : Machine} {i : Instruction} {e : Effect}

theorem step_of_performs (hi : m.config.instruction = .ok i) (hp : m.config.Performs i e) :
    m.step.1.config = m.config.apply e ∧ m.step.2 = .ok (Machine.statusAfter e) := by
  rw [Machine.step_of_effect (Config.next_eq_ok_iff.2 ⟨i, hi, hp⟩)]
  exact ⟨Machine.config_perform m e, rfl⟩

theorem step_of_misses (hi : m.config.instruction = .ok i) (hx : m.config.Misses i x) :
    m.step.1.config = m.config ∧
      m.step.2 = Result.reply m.config (.fails (.outOfBounds x)) := by
  rw [Machine.step_of_error (Config.next_eq_error_iff.2 (.inr ⟨i, x, hi, hx, rfl⟩))]
  exact ⟨rfl, rfl⟩

/-- A step does what a rule says. -/
theorem step_of_rule (h : Rule m.config c' r) :
    m.step.1.config = c' ∧ m.step.2 = r.reply m.config := by
  cases h with
  | nowhere h =>
    rw [Machine.step_of_error (Config.next_eq_error_iff.2 (.inl (instruction_of_outside h)))]
    exact ⟨rfl, rfl⟩
  | unknown hw ho =>
    rw [Machine.step_of_error (Config.next_eq_error_iff.2 (.inl (instruction_of_unknown hw ho)))]
    exact ⟨rfl, rfl⟩
  | store hw ho ha hb hd =>
    obtain ⟨o, hn, hop⟩ := ho.opcode
    obtain ⟨hd, hv⟩ := destination_ok_iff.1 hd
    obtain ⟨hc, hr⟩ := step_of_performs (instruction_of_code hw hn)
      (.store hop (source_ok_iff.1 ha) (source_ok_iff.1 hb) hd hv)
    rw [hc, hr, ← write_eq_setIfInBounds hv]
    exact ⟨rfl, by simp [Machine.statusAfter, computes_ne_halt hop, Result.reply]⟩
  | storeFirst hw ho hx =>
    obtain ⟨o, hn, hop⟩ := ho.opcode
    obtain ⟨hx, hv⟩ := source_error_iff.1 hx
    exact step_of_misses (instruction_of_code hw hn) (.storeFirst hop hx hv)
  | storeSecond hw ho ha hx =>
    obtain ⟨o, hn, hop⟩ := ho.opcode
    obtain ⟨hx, hv⟩ := source_error_iff.1 hx
    exact step_of_misses (instruction_of_code hw hn)
      (.storeSecond hop (source_ok_iff.1 ha) hx hv)
  | storeDestination hw ho ha hb hx =>
    obtain ⟨o, hn, hop⟩ := ho.opcode
    obtain ⟨hx, hv⟩ := destination_error_iff.1 hx
    exact step_of_misses (instruction_of_code hw hn)
      (.storeDestination hop (source_ok_iff.1 ha) (source_ok_iff.1 hb) hx hv)
  | jump hw ho ha hj ht =>
    obtain ⟨o, t, hn, hop, htest⟩ := ho.opcode
    obtain ⟨hc, hr⟩ := step_of_performs (instruction_of_code hw hn)
      (.jump hop (source_ok_iff.1 ha) ((htest _).2 hj) (source_ok_iff.1 ht))
    rw [hc, hr]
    exact ⟨rfl, by simp [Machine.statusAfter, tests_ne_halt hop, Result.reply]⟩
  | skip hw ho ha hj =>
    obtain ⟨o, t, hn, hop, htest⟩ := ho.opcode
    obtain ⟨hc, hr⟩ := step_of_performs (instruction_of_code hw hn)
      (.skip hop (source_ok_iff.1 ha) (Bool.eq_false_iff.2 (mt (htest _).1 hj)))
    rw [hc, hr]
    exact ⟨rfl, by simp [Machine.statusAfter, tests_ne_halt hop, Result.reply]⟩
  | jumpTest hw ho hx =>
    obtain ⟨o, t, hn, hop, -⟩ := ho.opcode
    obtain ⟨hx, hv⟩ := source_error_iff.1 hx
    exact step_of_misses (instruction_of_code hw hn) (.jumpTest hop hx hv)
  | jumpTarget hw ho ha hj hx =>
    obtain ⟨o, t, hn, hop, htest⟩ := ho.opcode
    obtain ⟨hx, hv⟩ := source_error_iff.1 hx
    exact step_of_misses (instruction_of_code hw hn)
      (.jumpTarget hop (source_ok_iff.1 ha) ((htest _).2 hj) hx hv)
  | input hw ho hq hd =>
    obtain ⟨hd, hv⟩ := destination_ok_iff.1 hd
    obtain ⟨hc, hr⟩ := step_of_performs (instruction_of_code (o := .input) hw ho)
      (.input rfl hq hd hv)
    rw [hc, hr, ← write_eq_setIfInBounds hv]
    exact ⟨by simp [Config.apply, hq], rfl⟩
  | inputBlocks hw ho hq =>
    have hi := instruction_of_code (o := .input) hw ho
    rw [Machine.step_of_wait (Config.next_eq_wait_iff.2 ⟨_, hi, rfl, hq⟩)]
    exact ⟨Machine.config_await m, rfl⟩
  | inputDestination hw ho hq hx =>
    obtain ⟨hx, hv⟩ := destination_error_iff.1 hx
    exact step_of_misses (instruction_of_code (o := .input) hw ho) (.input rfl hq hx hv)
  | output hw ho hv =>
    obtain ⟨hc, hr⟩ := step_of_performs (instruction_of_code (o := .output) hw ho)
      (.output rfl (source_ok_iff.1 hv))
    rw [hc, hr]
    exact ⟨rfl, rfl⟩
  | outputOperand hw ho hx =>
    obtain ⟨hx, hv⟩ := source_error_iff.1 hx
    exact step_of_misses (instruction_of_code (o := .output) hw ho) (.output rfl hx hv)
  | halt hw ho =>
    obtain ⟨hc, hr⟩ := step_of_performs (instruction_of_code (o := .halt) hw ho) (.halt rfl)
    rw [hc, hr]
    exact ⟨rfl, rfl⟩

end Step

/-! ### There is always a rule -/

theorem holds_or_outside (m : Memory) (a : Int) : (∃ v, Holds m a v) ∨ Outside m a := by
  by_cases h : m.Valid a
  · obtain ⟨v, hv⟩ := exists_read?_iff.2 h
    exact .inl ⟨v, holds_iff.2 hv⟩
  · exact .inr (outside_iff.2 h)

theorem source_total (c : Config) (word : Int) (k : Nat) :
    (∃ v, Source c word k (.ok v)) ∨ ∃ x, Source c word k (.error x) := by
  rcases holds_or_outside c.memory (c.pc + 1 + k) with ⟨a, ha⟩ | h
  · by_cases hf : flag word k = 1
    · exact .inl ⟨a, .immediate hf ha⟩
    · rcases holds_or_outside c.memory a with ⟨v, hv⟩ | hv
      · exact .inl ⟨v, .position hf ha hv⟩
      · exact .inr ⟨a, .dangling hf ha hv⟩
  · exact .inr ⟨_, .missing h⟩

theorem destination_total (c : Config) (k : Nat) :
    (∃ a, Destination c k (.ok a)) ∨ ∃ x, Destination c k (.error x) := by
  rcases holds_or_outside c.memory (c.pc + 1 + k) with ⟨a, ha⟩ | h
  · rcases holds_or_outside c.memory a with ⟨v, hv⟩ | hv
    · exact .inl ⟨a, .address ha hv⟩
    · exact .inr ⟨a, .dangling ha hv⟩
  · exact .inr ⟨_, .missing h⟩

theorem rule_of_stores {op : Int → Int → Int} (hw : Holds c.memory c.pc word)
    (ho : Stores (code word) op) : ∃ c' r, Rule c c' r := by
  rcases source_total c word 0 with ⟨a, ha⟩ | ⟨x, hx⟩
  · rcases source_total c word 1 with ⟨b, hb⟩ | ⟨x, hx⟩
    · rcases destination_total c 2 with ⟨d, hd⟩ | ⟨x, hx⟩
      · exact ⟨_, _, .store hw ho ha hb hd⟩
      · exact ⟨_, _, .storeDestination hw ho ha hb hx⟩
    · exact ⟨_, _, .storeSecond hw ho ha hx⟩
  · exact ⟨_, _, .storeFirst hw ho hx⟩

theorem rule_of_jumps {test : Int → Prop} (hw : Holds c.memory c.pc word)
    (ho : Jumps (code word) test) : ∃ c' r, Rule c c' r := by
  rcases source_total c word 0 with ⟨a, ha⟩ | ⟨x, hx⟩
  · by_cases hj : test a
    · rcases source_total c word 1 with ⟨t, ht⟩ | ⟨x, hx⟩
      · exact ⟨_, _, .jump hw ho ha hj ht⟩
      · exact ⟨_, _, .jumpTarget hw ho ha hj hx⟩
    · exact ⟨_, _, .skip hw ho ha hj⟩
  · exact ⟨_, _, .jumpTest hw ho hx⟩

theorem rule_of_input (hw : Holds c.memory c.pc word) (ho : code word = readInput) :
    ∃ c' r, Rule c c' r := by
  cases hq : c.input with
  | nil => exact ⟨_, _, .inputBlocks hw ho hq⟩
  | cons v q =>
    rcases destination_total c 0 with ⟨d, hd⟩ | ⟨x, hx⟩
    · exact ⟨_, _, .input hw ho hq hd⟩
    · exact ⟨_, _, .inputDestination hw ho (by rw [hq]; simp) hx⟩

theorem rule_total (c : Config) : ∃ c' r, Rule c c' r := by
  rcases holds_or_outside c.memory c.pc with ⟨word, hw⟩ | h
  · by_cases hl : Listed (code word)
    · obtain ⟨o, hn⟩ := listed_iff.1 hl
      rcases o.form_cases with ⟨op, hop⟩ | ⟨t, ht⟩ | rfl | rfl | rfl
      · exact rule_of_stores hw (hn ▸ stores_of_computes hop)
      · obtain ⟨test, htest, -⟩ := jumps_of_tests ht
        exact rule_of_jumps hw (hn ▸ htest)
      · exact rule_of_input hw hn
      · rcases source_total c word 0 with ⟨v, hv⟩ | ⟨x, hx⟩
        · exact ⟨_, _, .output hw hn hv⟩
        · exact ⟨_, _, .outputOperand hw hn hx⟩
      · exact ⟨_, _, .halt hw hn⟩
    · exact ⟨_, _, .unknown hw hl⟩
  · exact ⟨_, _, .nowhere h⟩

section Run

variable {m m' : Machine} {reply : Except Failure Status}

/-- What a step does is what some rule says. -/
theorem rule_of_step (m : Machine) :
    ∃ r, Rule m.config m.step.1.config r ∧ r.reply m.config = m.step.2 := by
  obtain ⟨c', r, h⟩ := rule_total m.config
  obtain ⟨hc, hr⟩ := step_of_rule h
  exact ⟨r, hc ▸ h, hr.symm⟩

theorem step_iff_rule :
    m.step.1.config = c ∧ m.step.2 = reply ↔
      ∃ r, Rule m.config c r ∧ r.reply m.config = reply := by
  constructor
  · rintro ⟨rfl, rfl⟩
    exact rule_of_step m
  · rintro ⟨r, h, rfl⟩
    exact step_of_rule h

theorem reply_eq_running_iff : r.reply c = .ok .running ↔ r = .proceeds := by
  cases r with
  | fails v => cases v <;> simp [Result.reply]
  | _ => simp [Result.reply]

theorem proceeds_of_advances (h : m.Advances m') : Proceeds m.config m'.config := by
  obtain ⟨r, hrule, hr⟩ := rule_of_step m
  rw [show m.step = (m', .ok .running) from h] at hrule hr
  rwa [reply_eq_running_iff.1 hr] at hrule

/-- A machine can follow the rules as long as they let it go on. -/
theorem reaches_of_proceeds (h : Relation.ReflTransGen Proceeds m.config c) :
    ∃ m', Relation.ReflTransGen Machine.Advances m m' ∧ m'.config = c := by
  induction h with
  | refl => exact ⟨m, .refl, rfl⟩
  | tail _ hrule ih =>
    obtain ⟨m', hm', rfl⟩ := ih
    obtain ⟨hc, hr⟩ := step_of_rule hrule
    exact ⟨_, hm'.tail (Machine.advances_of_running hr), hc⟩

theorem ends_iff_rules :
    (∃ m', m.Ends (m', reply) ∧ m'.config = c) ↔
      ∃ d r, Relation.ReflTransGen Proceeds m.config d ∧ Rule d c r ∧ r ≠ .proceeds ∧
        r.reply d = reply := by
  constructor
  · rintro ⟨m', h, rfl⟩
    obtain ⟨m₀, h₀, hlast, hs⟩ := Machine.ends_iff.1 h
    obtain ⟨r, hrule, hr⟩ := rule_of_step m₀
    rw [hlast] at hrule hr
    refine ⟨m₀.config, r, h₀.lift Machine.config fun _ _ => proceeds_of_advances, hrule, ?_, hr⟩
    rintro rfl
    exact hs hr.symm
  · rintro ⟨d, r, hd, hrule, hr, rfl⟩
    obtain ⟨m₀, h₀, rfl⟩ := reaches_of_proceeds hd
    obtain ⟨hc, hreply⟩ := step_of_rule hrule
    refine ⟨m₀.step.1, Machine.ends_iff.2 ⟨m₀, h₀, Prod.ext rfl hreply, ?_⟩, hc⟩
    exact mt reply_eq_running_iff.1 hr

/-- **The interpreter follows the rules.**  A step leads to a configuration with a reply exactly
when a rule does, and a run ends in a configuration with a reply exactly when finitely many rules
that go on, and then one that does not, lead there. -/
theorem interpreter_follows_rules (m : Machine) (c : Config) (reply : Except Failure Status) :
    (m.step.1.config = c ∧ m.step.2 = reply ↔
      ∃ r, Rule m.config c r ∧ r.reply m.config = reply) ∧
    ((∃ m', m.Ends (m', reply) ∧ m'.config = c) ↔
      ∃ d r, Relation.ReflTransGen Proceeds m.config d ∧ Rule d c r ∧ r ≠ .proceeds ∧
        r.reply d = reply) :=
  ⟨step_iff_rule, ends_iff_rules⟩

end Run

end Intcode.InstructionSet

import Intcode.Proofs.FailingSteps
import Intcode.Proofs.PrintedLines

/-!
# A listing says what the machine does

The line of a listing that starts at the program counter can be carried out by somebody who has the
printed line and not the instruction word: the mnemonic names the operation, and the last operand of
an operation that writes is its destination.

* `Statement.execute`: what a mnemonic with operands means;
* `execute_statement`: the statement that stands for an instruction has its effect;
* `Performs.overruns`: an instruction that succeeds without having all its parameters is a jump that
  is not taken;
* `Memory.Listable`, `disassemble_of_listable`, `disassemble_of_short`: when a listing can be made;
* `disassemble_eq_cons`, `lineAt_of_fits`, `lineAt_of_overruns`: the first line of a listing;
* `listing_says_what_step_does`: the line at the program counter against the step.
-/

namespace Intcode

/-! ### The meaning of a statement -/

/-- The value of an operand, if there is such a cell. -/
def Operand.eval? (memory : Memory) : Operand → Option Int
  | value n => some n
  | cell n => memory.read? n

namespace Statement

/-- Put the result of an operation on two operands into a cell. -/
def store (op : Int → Int → Int) (a b : Operand) (d : Int) (c : Config) : Option Config := do
  let x ← a.eval? c.memory
  let y ← b.eval? c.memory
  if c.memory.Valid d then
    some { c with memory := c.memory.write d (op x y), pc := c.pc + 4 }
  else none

/-- Go to the second operand if the first one satisfies a condition. -/
def jump (test : Int → Bool) (a target : Operand) (c : Config) : Option Config := do
  let x ← a.eval? c.memory
  if test x then
    let t ← target.eval? c.memory
    some { c with pc := t }
  else some { c with pc := c.pc + 3 }

/-- Put the next input value into a cell. -/
def accept (d : Int) (c : Config) : Option Config :=
  match c.input with
  | [] => none
  | v :: q =>
    if c.memory.Valid d then
      some { c with memory := c.memory.write d v, pc := c.pc + 2, input := q }
    else none

/-- Queue an operand as output. -/
def emit (a : Operand) (c : Config) : Option Config := do
  let v ← a.eval? c.memory
  some { c with pc := c.pc + 2, output := c.output ++ [v] }

/-- The configuration after a statement, if it can be carried out. -/
def execute : Statement → Config → Option Config
  | ⟨"ADD", [a, b, .cell d]⟩ => store (fun x y => x + y) a b d
  | ⟨"MUL", [a, b, .cell d]⟩ => store (fun x y => x * y) a b d
  | ⟨"LT", [a, b, .cell d]⟩ => store (fun x y => if x < y then 1 else 0) a b d
  | ⟨"EQ", [a, b, .cell d]⟩ => store (fun x y => if x = y then 1 else 0) a b d
  | ⟨"IN", [.cell d]⟩ => accept d
  | ⟨"OUT", [a]⟩ => emit a
  | ⟨"JNZ", [a, t]⟩ => jump (· != 0) a t
  | ⟨"JZ", [a, t]⟩ => jump (· == 0) a t
  | ⟨"HALT", []⟩ => fun c => some { c with pc := c.pc + 1 }
  | _ => fun _ => none

theorem execute_of_computes {o : Opcode} {op : Int → Int → Int} (h : o.Computes op)
    (a b : Operand) (d : Int) : execute ⟨o.mnemonic, [a, b, .cell d]⟩ = store op a b d := by
  cases h <;> rfl

theorem execute_of_tests {o : Opcode} {test : Int → Bool} (h : o.Tests test) (a t : Operand) :
    execute ⟨o.mnemonic, [a, t]⟩ = jump test a t := by
  cases h <;> rfl

end Statement

/-! ### The parameters on a line -/

theorem Memory.getElem?_words (m : Memory) (a n k : Nat) :
    (m.words a n)[k]? = if k < n then m[a + k]? else none := by
  simp only [words, Array.getElem?_toList, Array.getElem?_extract]
  split_ifs <;> grind

theorem Memory.mem_of_mem_words {m : Memory} {a n : Nat} {v : Int} (h : v ∈ m.words a n) :
    v ∈ m.toList := by
  obtain ⟨k, hk⟩ := List.getElem?_of_mem h
  rw [getElem?_words] at hk
  split_ifs at hk
  exact Array.mem_toList_iff.2 (Array.mem_of_getElem? hk)

theorem Memory.words_succ {m : Memory} {a : Nat} {v : Int} (h : m[a]? = some v) (n : Nat) :
    m.words a (n + 1) = v :: m.words (a + 1) n := by
  apply List.ext_getElem?
  intro k
  cases k with
  | zero => simp [getElem?_words, h]
  | succ k => simp [getElem?_words, Nat.add_assoc, Nat.add_comm 1 k]

theorem Memory.words_one {m : Memory} {a : Nat} {v : Int} (h : m[a]? = some v) :
    m.words a 1 = [v] := by
  rw [words_succ h]
  simp [words]

theorem Opcode.Computes.operandModes {i : Instruction} {op : Int → Int → Int}
    (h : i.opcode.Computes op) : i.operandModes = [i.mode 0, i.mode 1, .position] := by
  simp [Instruction.operandModes, h.params, h.writes, List.range_succ]

theorem Opcode.Tests.eq_or {o : Opcode} {test : Int → Bool} (h : o.Tests test) :
    o = .jumpIfTrue ∨ o = .jumpIfFalse := by
  cases h <;> simp

theorem Opcode.Tests.operandModes {i : Instruction} {test : Int → Bool}
    (h : i.opcode.Tests test) : i.operandModes = [i.mode 0, i.mode 1] := by
  simp [Instruction.operandModes, h.params, h.writes, List.range_succ]

namespace Config

variable {c : Config} {i : Instruction} {e : Effect} {k : Nat} {v : Int}

/-- The parameters are the cells after the instruction word. -/
theorem params_eq {xs : List Int} (h0 : 0 ≤ i.address) (hlength : xs.length = i.opcode.params)
    (hxs : ∀ p ∈ xs.zipIdx, c.memory.read? (i.address + 1 + p.2) = some p.1) :
    c.params i = xs := by
  obtain ⟨a, ha⟩ := Int.eq_ofNat_of_zero_le h0
  apply List.ext_getElem?
  intro k
  rw [params, Memory.getElem?_words, ha, Int.toNat_natCast]
  by_cases hk : k < xs.length
  · have hread := hxs (xs[k], k) (by simp [List.mk_mem_zipIdx_iff_getElem?])
    rw [ha] at hread
    rw [if_pos (by omega), List.getElem?_eq_getElem hk]
    exact hread
  · rw [if_neg (by omega), List.getElem?_eq_none (by omega)]

/-- An operand of the machine is the value of what its parameter is written as. -/
theorem HasOperand.eval?_reading (h : c.HasOperand i k v) :
    ∃ raw, c.memory.read? (i.address + 1 + k) = some raw ∧
      ((i.mode k).reading raw).eval? c.memory = some v := by
  rcases h with ⟨hk, hv⟩ | ⟨hk, ha, hv⟩
  · exact ⟨v, hv, by rw [hk]; rfl⟩
  · exact ⟨_, ha, by rw [hk]; exact hv⟩

theorem address_nonneg (hi : c.instruction = .ok i) : 0 ≤ i.address := by
  obtain ⟨hw, -, -, ha⟩ := instruction_eq_ok_iff.1 hi
  rw [ha]
  exact (valid_of_read? hw).1

/-- A jump whose parameters lie inside memory is written with both of them, taken or not. -/
theorem statement_of_tests {test : Int → Bool} {x y : Int} (ho : i.opcode.Tests test)
    (h0 : 0 ≤ i.address) (hx : c.memory.read? (i.address + 1 + (0 : Nat)) = some x)
    (hy : c.memory.read? (i.address + 1 + (1 : Nat)) = some y) :
    (i.statement (c.params i)).execute =
      Statement.jump test ((i.mode 0).reading x) ((i.mode 1).reading y) := by
  have hparams : c.params i = [x, y] :=
    params_eq h0 (by rw [ho.params]; rfl) (by simpa using And.intro hx hy)
  rw [Instruction.statement, hparams, ho.operandModes]
  exact Statement.execute_of_tests ho _ _

/-- A statement has the effect of the instruction that it stands for. -/
theorem execute_statement (hi : c.instruction = .ok i) (hp : c.Performs i e)
    (hfits : i.address + i.opcode.width ≤ c.memory.size) :
    (i.statement (c.params i)).execute c = some (c.apply e) := by
  have h0 := address_nonneg hi
  have hpc := address_of_instruction hi
  cases hp with
  | @store op a b d ho ha hb hd hv =>
    obtain ⟨x, hx, ha⟩ := ha.eval?_reading
    obtain ⟨y, hy, hb⟩ := hb.eval?_reading
    have hparams : c.params i = [x, y, d] :=
      params_eq h0 (by rw [ho.params]; rfl) (by simpa using And.intro hx (And.intro hy hd))
    rw [Instruction.statement, hparams, ho.operandModes]
    refine (congrFun (Statement.execute_of_computes ho _ _ d) c).trans ?_
    simp [Statement.store, ha, hb, hv, apply, hpc]
  | jump ho ha hj ht =>
    obtain ⟨x, hx, ha⟩ := ha.eval?_reading
    obtain ⟨y, hy, ht⟩ := ht.eval?_reading
    rw [statement_of_tests ho h0 hx hy]
    simp [Statement.jump, ha, hj, ht, apply]
  | skip ho ha hj =>
    obtain ⟨x, hx, ha⟩ := ha.eval?_reading
    -- the machine does not look at the target, but the listing shows it
    have hsecond : c.memory.Valid (i.address + 1 + (1 : Nat)) := by
      rw [Opcode.width, ho.params] at hfits
      constructor <;> omega
    obtain ⟨y, hy⟩ := exists_read?_iff.2 hsecond
    rw [statement_of_tests ho h0 hx hy]
    simp [Statement.jump, ha, hj, apply, hpc]
  | @input v d q ho hq hd hv =>
    have hparams : c.params i = [d] := params_eq h0 (by rw [ho]; rfl) (by simpa using hd)
    have hmodes : i.operandModes = [.position] := by
      simp [Instruction.operandModes, ho, Opcode.params, Opcode.writes]
    rw [Instruction.statement, hparams, hmodes, ho]
    show Statement.accept d c = _
    simp [Statement.accept, hq, hv, apply, hpc]
  | @output v ho hv =>
    obtain ⟨x, hx, hv⟩ := hv.eval?_reading
    have hparams : c.params i = [x] := params_eq h0 (by rw [ho]; rfl) (by simpa using hx)
    have hmodes : i.operandModes = [i.mode 0] := by
      simp [Instruction.operandModes, ho, Opcode.params, Opcode.writes]
    rw [Instruction.statement, hparams, hmodes, ho]
    show Statement.emit _ c = _
    simp [Statement.emit, hv, apply, hpc, Queue.push]
  | halt ho =>
    have hparams : c.params i = [] := params_eq h0 (by rw [ho]; rfl) (by simp)
    rw [Instruction.statement, hparams, ho]
    show some _ = _
    simp [apply, hpc]

/-- Only a jump that is not taken succeeds without having all its parameters. -/
theorem Performs.overruns (hi : c.instruction = .ok i) (hp : c.Performs i e)
    (h : ¬ i.address + i.opcode.width ≤ c.memory.size) :
    (i.opcode = .jumpIfTrue ∨ i.opcode = .jumpIfFalse) ∧ ¬ c.JumpTaken i := by
  obtain ⟨hw, -, -, ha⟩ := instruction_eq_ok_iff.1 hi
  have hword : i.address < c.memory.size := by
    rw [ha]
    exact (valid_of_read? hw).2
  have hwidth : i.opcode.width = i.opcode.params + 1 := rfl
  have hparams : i.opcode.params - 1 < i.opcode.params := by omega
  -- the last parameter is outside memory, so the instruction does not look at it
  have hnot : ¬ c.Needs i (i.opcode.params - 1) := by
    intro hneeds
    have hvalid := (hp.valid (.parameter hneeds)).2
    omega
  simp only [Needs, hparams, true_and, not_forall] at hnot
  obtain ⟨test, ht, -, hj⟩ := hnot
  exact ⟨ht.eq_or, hj⟩

end Config

/-! ### The line at the program counter -/

theorem mem_words_of_mem_operandWords {l : Line} {v : Int} (h : v ∈ l.operandWords) :
    v ∈ l.words := by
  unfold Line.operandWords at h
  split at h
  · exact h
  · exact List.mem_of_mem_tail h

@[simp] theorem address_lineAt (m : Memory) (a : Nat) : (lineAt m a).address = a := by
  unfold lineAt
  split <;> rfl

theorem mem_of_mem_words_lineAt {m : Memory} {a : Nat} {v : Int} (h : v ∈ (lineAt m a).words) :
    v ∈ m.toList := by
  unfold lineAt at h
  split at h <;> exact Memory.mem_of_mem_words h

/-- The lines of a listing are those that start at addresses of the memory. -/
theorem exists_lineAt_of_mem_sweep {m : Memory} {a : Nat} {l : Line} (h : l ∈ sweep m a) :
    ∃ b < m.size, l = lineAt m b := by
  fun_induction sweep m a with
  | case1 a ha ih =>
    rcases List.mem_cons.1 h with rfl | h
    · exact ⟨a, ha, rfl⟩
    · exact ih h
  | case2 a ha => cases h

/-- All words that the listing from an address shows as operands can be written. -/
def Memory.Listable (m : Memory) (a : Nat) : Prop :=
  ∀ l ∈ sweep m a, ∀ v ∈ l.operandWords, Numeral.Short v

theorem disassemble_of_listable {m : Memory} {a : Int} (ha : m.Valid a) (h : m.Listable a.toNat) :
    disassemble m a = .ok (sweep m a.toNat) := by
  have hshort : ((sweep m a.toNat).all fun l => Numeral.allShort l.operandWords) = true := by
    simpa [Memory.Listable] using h
  rw [disassemble, if_pos ha]
  exact if_pos hshort

theorem disassemble_of_not_listable {m : Memory} {a : Int} (ha : m.Valid a)
    (h : ¬ m.Listable a.toNat) : disassemble m a = .error .overlong := by
  have hshort : ¬ ((sweep m a.toNat).all fun l => Numeral.allShort l.operandWords) = true := by
    simpa [Memory.Listable] using h
  rw [disassemble, if_pos ha]
  exact if_neg hshort

theorem listable_of_short {m : Memory} (hm : ∀ v ∈ m.toList, Numeral.Short v) (a : Nat) :
    m.Listable a := by
  intro l hl v hv
  obtain ⟨b, -, rfl⟩ := exists_lineAt_of_mem_sweep hl
  exact hm v (mem_of_mem_words_lineAt (mem_words_of_mem_operandWords hv))

/-- A memory whose words can be written can be listed from each of its addresses. -/
theorem disassemble_of_short {m : Memory} {a : Int} (hm : ∀ v ∈ m.toList, Numeral.Short v)
    (ha : m.Valid a) : disassemble m a = .ok (sweep m a.toNat) :=
  disassemble_of_listable ha (listable_of_short hm _)

/-- The listing from an address on starts with the line there. -/
theorem disassemble_eq_cons {m : Memory} {a : Int} (hm : ∀ v ∈ m.toList, Numeral.Short v)
    (ha : m.Valid a) : ∃ rest, disassemble m a = .ok (lineAt m a.toNat :: rest) := by
  refine ⟨sweep m (a.toNat + spanAt m a.toNat), ?_⟩
  rw [disassemble_of_short hm ha, sweep, if_pos ha.toNat_lt]

namespace Config

variable {c : Config} {i : Instruction}

theorem toNat_pc (hi : c.instruction = .ok i) : (c.pc.toNat : Int) = c.pc :=
  Int.toNat_of_nonneg (valid_of_read? (instruction_eq_ok_iff.1 hi).1).1

theorem getElem?_pc (hi : c.instruction = .ok i) : c.memory[c.pc.toNat]? = some i.word := by
  have hw := (instruction_eq_ok_iff.1 hi).1
  rw [← toNat_pc hi] at hw
  exact hw

/-- The instruction of the machine is found for the listing if its parameters lie inside memory. -/
theorem instructionAt?_pc (hi : c.instruction = .ok i) :
    instructionAt? c.memory c.pc.toNat =
      if c.pc + i.opcode.width ≤ c.memory.size then some i else none := by
  obtain ⟨-, h0, hn, ha⟩ := instruction_eq_ok_iff.1 hi
  have hpc := toNat_pc hi
  have hdecode : Instruction.decode i.word c.pc.toNat = .ok i :=
    Instruction.decode_eq_ok_iff.2 ⟨h0, hn, ha.trans hpc.symm, rfl⟩
  have hfits : c.pc + i.opcode.width ≤ c.memory.size ↔
      c.pc.toNat + i.opcode.width ≤ c.memory.size := by
    omega
  simp only [instructionAt?, getElem?_pc hi, hdecode, Option.bind_eq_bind, Option.bind_some, hfits]

theorem lineAt_of_fits (hi : c.instruction = .ok i)
    (h : c.pc + i.opcode.width ≤ c.memory.size) :
    lineAt c.memory c.pc.toNat =
      ⟨c.pc, c.memory.words c.pc.toNat i.opcode.width, i.opcode.mnemonic,
        i.operands (c.params i)⟩ := by
  rw [lineAt, instructionAt?_pc hi, if_pos h]
  simp only [params, address_of_instruction hi, toNat_pc hi]

theorem lineAt_of_overruns (hi : c.instruction = .ok i)
    (h : ¬ c.pc + i.opcode.width ≤ c.memory.size) :
    lineAt c.memory c.pc.toNat = ⟨c.pc, [i.word], Line.data, [Numeral.write i.word]⟩ := by
  have hwords := Memory.words_one (getElem?_pc hi)
  rw [lineAt, instructionAt?_pc hi, if_neg h]
  simp only [hwords, List.map_cons, List.map_nil, toNat_pc hi]

/-- The line of an instruction with all its parameters reads as its statement. -/
theorem read?_text_lineAt (hi : c.instruction = .ok i)
    (hm : ∀ v ∈ c.memory.toList, Numeral.Short v)
    (h : c.pc + i.opcode.width ≤ c.memory.size) :
    Statement.read? (lineAt c.memory c.pc.toNat).text = some (i.statement (c.params i)) := by
  have hwords : c.memory.words c.pc.toNat i.opcode.width ≠ [] := by
    rw [Opcode.width, Memory.words_succ (getElem?_pc hi)]
    simp
  rw [lineAt_of_fits hi h]
  exact read?_text hwords fun v hv => hm v (Memory.mem_of_mem_words hv)

end Config

namespace Machine

/-- **A listing says what the machine does.**  If a step executes the instruction at the program
counter, then the listing from there can be made, and somebody who carries out its first line as it
is printed gets the memory, the program counter and the queues that the step leaves.  The exception
is an instruction that is cut off by the end of memory: it is then a jump that is not taken, and
listed as data. -/
theorem listing_says_what_step_does {m m' : Machine} {s : Status}
    (hm : ∀ v ∈ m.memory.toList, Numeral.Short v) (hstep : m.step = (m', .ok s))
    (hs : s ≠ .blocked) :
    ∃ i line rest, m.config.instruction = .ok i ∧
      disassemble m.memory m.pc = .ok (line :: rest) ∧
      (m.pc + i.opcode.width ≤ m.memory.size →
        ∃ st, Statement.read? line.text = some st ∧ st.execute m.config = some m'.config) ∧
      (¬ m.pc + i.opcode.width ≤ m.memory.size →
        (i.opcode = .jumpIfTrue ∨ i.opcode = .jumpIfFalse) ∧ ¬ m.config.JumpTaken i ∧
        line = ⟨m.pc, [i.word], Line.data, [Numeral.write i.word]⟩) := by
  obtain ⟨e, hnext, -⟩ := next_of_step_ok (by rw [hstep]) hs
  obtain ⟨i, hi, hp⟩ := Config.next_eq_ok_iff.1 hnext
  have hm' : m'.config = m.config.apply e := by
    rw [step_of_effect hnext] at hstep
    cases hstep
    exact config_perform m e
  obtain ⟨hw, -, -, ha⟩ := Config.instruction_eq_ok_iff.1 hi
  obtain ⟨rest, hlist⟩ := disassemble_eq_cons hm (Config.valid_of_read? hw)
  refine ⟨i, _, rest, hi, hlist, fun hfits => ?_, fun hover => ?_⟩
  · have hexecute := Config.execute_statement hi hp (ha ▸ hfits)
    rw [← hm'] at hexecute
    exact ⟨_, Config.read?_text_lineAt hi hm hfits, hexecute⟩
  · obtain ⟨hjump, hnot⟩ := hp.overruns hi (ha ▸ hover)
    exact ⟨hjump, hnot, Config.lineAt_of_overruns hi hover⟩

/-- The sum of an immediate value and a cell, with mode digits 1, 2 and, for the destination, 1. -/
def oddDigits : Machine :=
  ofProgram ⟨"12101,5,0,3", #[12101, 5, 0, 3], by rfl⟩ false

/-- A jump without target, for which there is no room. -/
def targetless : Machine :=
  ofProgram ⟨"1105,0", #[1105, 0], by rfl⟩ false

/-- The sum is carried out from its line, and the jump stands as data and moves on. -/
theorem oddDigits_listed :
    ((∀ v ∈ oddDigits.memory.toList, Numeral.Short v) ∧ oddDigits.step.2 = .ok .running ∧
      oddDigits.step.1.memory = #[12101, 5, 0, 12106] ∧
      ∃ line rest st, disassemble oddDigits.memory 0 = .ok (line :: rest) ∧
        Statement.read? line.text = some st ∧
        st.execute oddDigits.config = some oddDigits.step.1.config) ∧
    ((∀ v ∈ targetless.memory.toList, Numeral.Short v) ∧ targetless.step.2 = .ok .running ∧
      targetless.step.1.pc = 3 ∧
      ∃ rest, disassemble targetless.memory 0 =
        .ok (⟨0, [1105], Line.data, [Numeral.write 1105]⟩ :: rest)) := by
  have hsum : ∀ v ∈ oddDigits.memory.toList, Numeral.Short v := by decide +kernel
  have hjump : ∀ v ∈ targetless.memory.toList, Numeral.Short v := by decide +kernel
  have hstep : oddDigits.step = (oddDigits.step.1, .ok .running) := rfl
  have hskip : targetless.step = (targetless.step.1, .ok .running) := rfl
  have hadd : oddDigits.config.instruction = .ok ⟨0, 12101, .add⟩ := rfl
  have hjnz : targetless.config.instruction = .ok ⟨0, 1105, .jumpIfTrue⟩ := rfl
  refine ⟨⟨hsum, rfl, rfl, ?_⟩, hjump, rfl, rfl, ?_⟩
  · obtain ⟨i, line, rest, hi, hlist, hfits, -⟩ :=
      listing_says_what_step_does hsum hstep (by decide)
    rw [hadd] at hi
    cases hi
    obtain ⟨st, hread, hexecute⟩ := hfits (by decide)
    exact ⟨line, rest, st, hlist, hread, hexecute⟩
  · obtain ⟨i, line, rest, hi, hlist, -, hover⟩ :=
      listing_says_what_step_does hjump hskip (by decide)
    rw [hjnz] at hi
    cases hi
    obtain ⟨-, -, rfl⟩ := hover (by decide)
    exact ⟨rest, hlist⟩

end Machine

end Intcode

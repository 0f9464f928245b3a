/-!
# Memory

The memory of a machine is a fixed row of unbounded integers, addressed from zero.

* `Memory`, `Memory.Valid m a`: `a` is an address of `m`;
* `read?`, `write`, and their laws;
* `words`: consecutive cells, cut at the end of memory.
-/

namespace Intcode

/-- The cells of a machine. -/
abbrev Memory := Array Int

namespace Memory

/-- The addresses of a memory: from zero up to, and without, its size. -/
def Valid (m : Memory) (a : Int) : Prop :=
  0 ≤ a ∧ a < m.size

instance (m : Memory) (a : Int) : Decidable (Valid m a) :=
  inferInstanceAs (Decidable (0 ≤ a ∧ a < m.size))

/-- The cell at an address, if there is one. -/
def read? (m : Memory) : Int → Option Int
  | .ofNat n => m[n]?
  | .negSucc _ => none

/-- Change the cell at an address; nothing changes if there is none. -/
def write (m : Memory) (a v : Int) : Memory :=
  match a with
  | .ofNat n => m.setIfInBounds n v
  | .negSucc _ => m

/-- The `count` cells from `start` on, or as many of them as there are. -/
def words (m : Memory) (start count : Nat) : List Int :=
  (m.extract start (start + count)).toList

@[simp] theorem size_write (m : Memory) (a v : Int) : (m.write a v).size = m.size := by
  cases a <;> simp [write]

@[simp] theorem valid_natCast {m : Memory} {n : Nat} : m.Valid (n : Int) ↔ n < m.size := by
  simp [Valid]

@[simp] theorem not_valid_negSucc {m : Memory} {n : Nat} : ¬ m.Valid (.negSucc n) := by
  simp [Valid]

theorem Valid.toNat_lt {m : Memory} {a : Int} (h : m.Valid a) : a.toNat < m.size := by
  obtain ⟨h0, hlt⟩ := h
  omega

/-- A cell can be read exactly at the addresses of the memory. -/
theorem read?_isSome {m : Memory} {a : Int} : (m.read? a).isSome ↔ m.Valid a := by
  cases a with
  | ofNat n => simp [read?]
  | negSucc n => simp [read?]

theorem read?_eq_none {m : Memory} {a : Int} : m.read? a = none ↔ ¬ m.Valid a := by
  rw [← read?_isSome]; simp

/-- Writing keeps the addresses of the memory. -/
@[simp] theorem valid_write {m : Memory} {a v b : Int} : (m.write a v).Valid b ↔ m.Valid b := by
  simp [Valid]

/-- A written cell holds the written value. -/
theorem read?_write_self {m : Memory} {a v : Int} (h : m.Valid a) :
    (m.write a v).read? a = some v := by
  cases a with
  | ofNat n => simp [read?, write, valid_natCast.1 h]
  | negSucc n => exact absurd h not_valid_negSucc

/-- The other cells keep their values. -/
theorem read?_write_of_ne {m : Memory} {a b v : Int} (h : a ≠ b) :
    (m.write a v).read? b = m.read? b := by
  cases a with
  | negSucc n => rfl
  | ofNat n =>
    cases b with
    | negSucc k => rfl
    | ofNat k =>
      have hk : n ≠ k := fun e => h (by rw [e])
      simp [read?, write, Array.getElem?_setIfInBounds_ne hk]

end Memory

end Intcode

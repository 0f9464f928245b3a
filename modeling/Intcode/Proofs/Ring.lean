import Intcode.Chain
import Intcode.Proofs.Resumption
import Mathlib.Tactic.SplitIfs

/-!
# Rings of machines and their moves

In a ring every machine hands its output to the next one, and the last to the first.  Here the
machines do not take turns: a move is one instruction of any machine that is able to execute
one, and what it puts out is handed on at once.

* `Ring`, `Ring.move?`, `Ring.follow?`: a ring, one move, a whole schedule;
* `Ring.pass`: a machine is replaced and its output handed on; what becomes of the machine at a
  place is `getElem?_pass`, with `Ring.gift` for the values that reach it;
* `pass_comm`, `move?_comm`: moves of different machines commute, since every queue has one
  writer and one reader;
* `moves_confluent`: schedules can be continued to a common ring;
* `emitted_unique`: all schedules that leave the last machine halted have made it put out the
  same values.
-/

namespace Intcode.Chain

/-- A row of machines closed to a ring, and the values that its last machine has put out. -/
structure Ring where
  machines : List Machine
  emitted : List Int

namespace Ring

variable {r r' r₁ r₂ : Ring} {i j k : Nat} {m m' x : Machine}

/-- The machine at a place becomes `m`, whose output is handed to the next machine. -/
def pass (r : Ring) (i : Nat) (m : Machine) : Ring where
  machines := (r.machines.set i m.drain.2).modify ((i + 1) % r.machines.length)
    (·.feedAll m.drain.1)
  emitted := if i + 1 = r.machines.length then r.emitted ++ m.drain.1 else r.emitted

/-- One instruction of the machine at a place, unless the machine has halted, waits or fails. -/
def move? (r : Ring) (i : Nat) : Option Ring :=
  match r.machines[i]? with
  | none => none
  | some m =>
    if m.status = .halted then none
    else
      match m.step with
      | (_, .error _) => none
      | (m', .ok s) => if s = .blocked then none else some (r.pass i m')

/-- The moves of the machines at the given places, one after the other. -/
def follow? (r : Ring) : List Nat → Option Ring
  | [] => some r
  | i :: schedule => (r.move? i).bind (follow? · schedule)

/-- The last machine has halted. -/
def LastHalted (r : Ring) : Prop :=
  ∃ m, r.machines.getLast? = some m ∧ m.status = .halted

/-- Some machine can move. -/
def Move (r r' : Ring) : Prop :=
  ∃ i, r.move? i = some r'

/-- Any number of moves. -/
abbrev Moves : Ring → Ring → Prop :=
  Relation.ReflTransGen Move

theorem move?_eq_some_iff :
    r.move? i = some r' ↔
      ∃ m m' s, r.machines[i]? = some m ∧ m.status ≠ .halted ∧ m.step = (m', .ok s) ∧
        s ≠ .blocked ∧ r' = r.pass i m' := by
  constructor
  · intro h
    unfold move? at h
    split at h
    · cases h
    · rename_i m hm
      split_ifs at h with hh
      split at h
      · cases h
      · rename_i m' s hs
        split_ifs at h with hb
        cases h
        exact ⟨m, m', s, hm, hh, hs, hb, rfl⟩
  · rintro ⟨m, m', s, hm, hh, hs, hb, rfl⟩
    simp only [move?, hm, hs, if_neg hh, if_neg hb]

theorem moves_of_follow? {schedule : List Nat} (h : r.follow? schedule = some r') :
    Moves r r' := by
  induction schedule generalizing r with
  | nil =>
    cases h
    exact .refl
  | cons i schedule ih =>
    obtain ⟨r₁, hi, h⟩ := Option.bind_eq_some_iff.1 h
    exact .head ⟨i, hi⟩ (ih h)

/-! ### Handing on -/

/-- The values that reach the place `k` when the machine at the place `i` becomes `m`. -/
def gift (r : Ring) (i : Nat) (m : Machine) (k : Nat) : List Int :=
  if k = (i + 1) % r.machines.length then m.config.output else []

@[simp] theorem length_pass (r : Ring) (i : Nat) (m : Machine) :
    (r.pass i m).machines.length = r.machines.length := by
  simp [pass]

@[simp] theorem gift_pass (r : Ring) (i j k : Nat) (m m' : Machine) :
    (r.pass j m').gift i m k = r.gift i m k := by
  simp [gift]

theorem getElem?_pass (r : Ring) (i k : Nat) (m : Machine) :
    (r.pass i m).machines[k]? =
      (r.machines.set i m.drain.2)[k]?.map (·.feedAll (r.gift i m k)) := by
  by_cases hk : k = (i + 1) % r.machines.length
  · simp [pass, gift, ← hk, Machine.drain]
  · simp [pass, gift, hk, Ne.symm hk, Machine.drain]

theorem getElem?_pass_self (hi : i < r.machines.length) :
    (r.pass i m).machines[i]? = some (m.drain.2.feedAll (r.gift i m i)) := by
  rw [getElem?_pass, List.getElem?_set_self hi]
  rfl

theorem getElem?_pass_of_ne (hk : k ≠ i) :
    (r.pass i m).machines[k]? = r.machines[k]?.map (·.feedAll (r.gift i m k)) := by
  rw [getElem?_pass, List.getElem?_set_ne hk.symm]

/-- Different machines hand on to different places. -/
theorem gift_eq_nil_or (hij : i ≠ j) (hi : i < r.machines.length) (hj : j < r.machines.length)
    (m m' : Machine) (k : Nat) : r.gift i m k = [] ∨ r.gift j m' k = [] := by
  have hne : (i + 1) % r.machines.length ≠ (j + 1) % r.machines.length := by
    intro h
    rcases Nat.lt_or_ge (i + 1) r.machines.length with hi' | hi' <;>
      rcases Nat.lt_or_ge (j + 1) r.machines.length with hj' | hj'
    · rw [Nat.mod_eq_of_lt hi', Nat.mod_eq_of_lt hj'] at h
      omega
    · rw [Nat.mod_eq_of_lt hi', show j + 1 = r.machines.length by omega, Nat.mod_self] at h
      omega
    · rw [show i + 1 = r.machines.length by omega, Nat.mod_self, Nat.mod_eq_of_lt hj'] at h
      omega
    · omega
  unfold gift
  by_cases hk : k = (i + 1) % r.machines.length
  · exact .inr (if_neg fun h => hne (hk.symm.trans h))
  · exact .inl (if_neg hk)

/-- So it does not matter in which order two machines hand on. -/
theorem feedAll_gift_comm (hij : i ≠ j) (hi : i < r.machines.length)
    (hj : j < r.machines.length) (k : Nat) (x : Machine) :
    (x.feedAll (r.gift i m k)).feedAll (r.gift j m' k) =
      (x.feedAll (r.gift j m' k)).feedAll (r.gift i m k) := by
  rcases gift_eq_nil_or hij hi hj m m' k with h | h <;> simp [h]

/-- A machine that is fed puts out the same values. -/
@[simp] theorem gift_feedAll (r : Ring) (i k : Nat) (m : Machine) (vs : List Int) :
    r.gift i (m.feedAll vs) k = r.gift i m k := rfl

/-- Two machines that are replaced, each fed with what the other has put out in the meantime:
the order makes no difference. -/
theorem pass_comm (hij : i ≠ j) (hi : i < r.machines.length) (hj : j < r.machines.length) :
    (r.pass i m).pass j (m'.feedAll (r.gift i m j)) =
      (r.pass j m').pass i (m.feedAll (r.gift j m' i)) := by
  have hmachines : ((r.pass i m).pass j (m'.feedAll (r.gift i m j))).machines =
      ((r.pass j m').pass i (m.feedAll (r.gift j m' i))).machines := by
    -- place by place: one of the two machines, or a third one that may be fed by either
    apply List.ext_getElem?
    intro k
    by_cases hki : k = i
    · subst hki
      rw [getElem?_pass_of_ne hij, getElem?_pass_self hi, getElem?_pass_self (by simpa using hi)]
      simp only [Option.map_some, gift_pass, gift_feedAll]
      exact congrArg some (feedAll_gift_comm hij hi hj k m.drain.2)
    · by_cases hkj : k = j
      · subst hkj
        rw [getElem?_pass_of_ne hki, getElem?_pass_self hj,
          getElem?_pass_self (by simpa using hj)]
        simp only [Option.map_some, gift_pass, gift_feedAll]
        exact congrArg some (feedAll_gift_comm hij hi hj k m'.drain.2)
      · rw [getElem?_pass_of_ne hkj, getElem?_pass_of_ne hki, getElem?_pass_of_ne hki,
          getElem?_pass_of_ne hkj]
        simp only [Option.map_map, gift_pass, gift_feedAll]
        congr 1
        funext x
        exact feedAll_gift_comm hij hi hj k x
  have hemitted : ((r.pass i m).pass j (m'.feedAll (r.gift i m j))).emitted =
      ((r.pass j m').pass i (m.feedAll (r.gift j m' i))).emitted := by
    -- only one of the two machines can be the last one
    by_cases hil : i + 1 = r.machines.length
    · have hjl : j + 1 ≠ r.machines.length := by omega
      simp [pass, hil, hjl, Machine.drain, Machine.feedAll]
    · simp [pass, hil, Machine.drain, Machine.feedAll]
  exact congrArg₂ Ring.mk hmachines hemitted

/-! ### Moves commute -/

theorem lt_length_of_move? (h : r.move? i = some r') : i < r.machines.length := by
  obtain ⟨m, m', s, hm, -⟩ := move?_eq_some_iff.1 h
  exact (List.getElem?_eq_some_iff.1 hm).1

/-- A machine that can move can still make the same move after another machine has moved. -/
theorem move?_pass {s : Status} (hij : i ≠ j) (hm : r.machines[j]? = some m)
    (hh : m.status ≠ .halted) (hs : m.step = (m', .ok s)) (hb : s ≠ .blocked) :
    (r.pass i x).move? j = some ((r.pass i x).pass j (m'.feedAll (r.gift i x j))) := by
  have hm' : (r.pass i x).machines[j]? = some (m.feedAll (r.gift i x j)) := by
    rw [getElem?_pass_of_ne hij.symm, hm]
    rfl
  have hs' : (m.feedAll (r.gift i x j)).step = (m'.feedAll (r.gift i x j), .ok s) := by
    rw [Machine.step_feedAll (by rw [hs]; simpa using hb), hs]
  exact move?_eq_some_iff.2 ⟨_, _, s, hm', hh, hs', hb, rfl⟩

theorem move?_comm (hij : i ≠ j) (hi : r.move? i = some r₁) (hj : r.move? j = some r₂) :
    ∃ r₃, r₁.move? j = some r₃ ∧ r₂.move? i = some r₃ := by
  have hil := lt_length_of_move? hi
  have hjl := lt_length_of_move? hj
  obtain ⟨a, a', s, ha, hah, has, hab, rfl⟩ := move?_eq_some_iff.1 hi
  obtain ⟨b, b', t, hb, hbh, hbs, hbb, rfl⟩ := move?_eq_some_iff.1 hj
  refine ⟨_, move?_pass hij hb hbh hbs hbb, ?_⟩
  rw [pass_comm hij hil hjl]
  exact move?_pass hij.symm ha hah has hab

/-- Two moves from one ring are the same move, or each can be completed by the other. -/
theorem move_diamond (h₁ : Move r r₁) (h₂ : Move r r₂) :
    r₁ = r₂ ∨ ∃ r₃, Move r₁ r₃ ∧ Move r₂ r₃ := by
  obtain ⟨i, hi⟩ := h₁
  obtain ⟨j, hj⟩ := h₂
  by_cases hij : i = j
  · subst hij
    rw [hi] at hj
    exact .inl (Option.some.inj hj)
  · obtain ⟨r₃, h₁, h₂⟩ := move?_comm hij hi hj
    exact .inr ⟨r₃, ⟨j, h₁⟩, ⟨i, h₂⟩⟩

/-- Whatever moves have been made, they can be continued to a common ring. -/
theorem moves_confluent (h₁ : Moves r r₁) (h₂ : Moves r r₂) :
    Relation.Join Moves r₁ r₂ := by
  refine Relation.church_rosser ?_ h₁ h₂
  intro r s t hs ht
  rcases move_diamond hs ht with hst | ⟨u, hsu, htu⟩
  · rw [hst]
    exact ⟨t, .refl, .refl⟩
  · exact ⟨u, .single hsu, .single htu⟩

theorem Moves.length_eq (h : Moves r r') : r'.machines.length = r.machines.length := by
  induction h with
  | refl => rfl
  | tail _ hmove ih =>
    obtain ⟨i, hi⟩ := hmove
    obtain ⟨m, m', s, -, -, -, -, rfl⟩ := move?_eq_some_iff.1 hi
    rw [length_pass, ih]

/-! ### Halted machines -/

theorem lastHalted_iff :
    r.LastHalted ↔
      ∃ m, r.machines[r.machines.length - 1]? = some m ∧ m.status = .halted := by
  unfold LastHalted
  rw [List.getLast?_eq_getElem?]

/-- The last machine, once halted, stays halted and puts nothing out any more. -/
theorem Move.lastHalted (h : Move r r') (hr : r.LastHalted) :
    r'.LastHalted ∧ r'.emitted = r.emitted := by
  obtain ⟨i, hi⟩ := h
  have hil := lt_length_of_move? hi
  obtain ⟨m, m', s, hm, hh, hs, hb, rfl⟩ := move?_eq_some_iff.1 hi
  obtain ⟨last, hlast, hhalted⟩ := lastHalted_iff.1 hr
  -- the machine that moves has not halted, so it is not the last one
  have hne : r.machines.length - 1 ≠ i := by
    rintro rfl
    rw [hlast] at hm
    cases hm
    exact hh hhalted
  constructor
  · rw [lastHalted_iff, length_pass, getElem?_pass_of_ne hne, hlast]
    exact ⟨_, rfl, hhalted⟩
  · exact if_neg (by omega)

theorem Moves.lastHalted (h : Moves r r') (hr : r.LastHalted) :
    r'.LastHalted ∧ r'.emitted = r.emitted := by
  induction h with
  | refl => exact ⟨hr, rfl⟩
  | tail _ hmove ih =>
    obtain ⟨hhalted, hemitted⟩ := hmove.lastHalted ih.1
    exact ⟨hhalted, hemitted.trans ih.2⟩

/-- All schedules that leave the last machine halted have made it put out the same values. -/
theorem emitted_unique (h₁ : Moves r r₁) (hr₁ : r₁.LastHalted) (h₂ : Moves r r₂)
    (hr₂ : r₂.LastHalted) : r₁.emitted = r₂.emitted := by
  obtain ⟨r₃, h₁₃, h₂₃⟩ := moves_confluent h₁ h₂
  have he₁ := (Moves.lastHalted h₁₃ hr₁).2
  have he₂ := (Moves.lastHalted h₂₃ hr₂).2
  rw [← he₁, ← he₂]

end Ring

end Intcode.Chain

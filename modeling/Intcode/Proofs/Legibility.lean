import Intcode.Proofs.FailingSteps
import Intcode.Proofs.Stepping

/-!
# Runs of which everything can be written

If no integer that a machine holds in the course of a run is too long to be written, then neither is
any integer that the run has to report: not in its events, and not in the fault that ends it.

* `Legible.short_of_touches`, `Legible.next_ne_overlong`, `Legible.short_of_fault`: the integers
  that a fault of an instruction names;
* `Machine.Writable`: nothing in the course of a run is too long;
* `Writable.step`, `Writable.run`: one instruction, and by induction the whole run.
-/

namespace Intcode

theorem Numeral.Short.of_natAbs_le {v w : Int} (h : Numeral.Short v) (hle : w.natAbs ≤ v.natAbs) :
    Numeral.Short w :=
  lt_of_le_of_lt hle h

theorem Opcode.params_le (o : Opcode) : o.params ≤ 3 := by
  cases o <;> decide

namespace Config

variable {c : Config} {i : Instruction} {a : Int}

/-- An instruction touches its parameters, which start in memory, and cells that they name. -/
theorem Legible.short_of_touches (h : c.Legible) (hsize : Numeral.Short (c.memory.size + 2))
    (hi : c.instruction = .ok i) (ha : c.Touches i a) : Numeral.Short a := by
  cases ha with
  | @parameter k hk =>
    obtain ⟨h0, hlt⟩ : c.memory.Valid i.address := by
      rw [address_of_instruction hi]
      exact valid_of_read? (instruction_eq_ok_iff.1 hi).1
    have hparams := i.opcode.params_le
    have hk := hk.1
    exact hsize.of_natAbs_le (by omega)
  | source hk hd hm ha => exact h.1 a (Memory.mem_of_read? ha)
  | destination hd ha => exact h.1 a (Memory.mem_of_read? ha)

/-- The fault of an instruction names no integer that is too long. -/
theorem Legible.next_ne_overlong (h : c.Legible) (hsize : Numeral.Short (c.memory.size + 2)) :
    c.next ≠ .error .overlong := by
  have houtside : ∀ a, Numeral.Short a → Failure.overlong ≠ c.outside a := by
    intro a ha
    rw [outside_eq, if_pos ha]
    simp
  intro hn
  rcases next_eq_error_cases hn with ⟨-, hf⟩ | ⟨word, hword, hf⟩ | ⟨a, ⟨i, hi, -, ha, -⟩, hf⟩
  · exact houtside c.pc h.2.1 hf
  · rw [unknownOpcode_eq, if_pos (h.1 word (Memory.mem_of_read? hword.1))] at hf
    cases hf
  · exact houtside a (h.short_of_touches hsize hi ha) hf

/-- The program counter that a fault names is that of the configuration. -/
theorem Legible.short_of_fault {fault : Fault} (h : c.Legible)
    (hn : c.next = .error (.fault fault)) {pc : Int} (hpc : fault.pc = some pc) :
    Numeral.Short pc := by
  have hpc' : fault.pc = some c.pc := by
    rcases next_eq_error_cases hn with ⟨-, hf⟩ | ⟨word, -, hf⟩ | ⟨a, -, hf⟩
    · rw [outside_eq] at hf
      split_ifs at hf
      cases hf
      rfl
    · rw [unknownOpcode_eq] at hf
      split_ifs at hf <;> cases hf <;> rfl
    · rw [outside_eq] at hf
      split_ifs at hf
      cases hf
      rfl
  rw [hpc] at hpc'
  cases hpc'
  exact h.2.1

end Config

namespace Machine

variable {m m' : Machine} {fuel : Nat} {reply : Except Failure Status}

/-- Nothing in the course of a run is too long to be written, and no address in memory or up to
three places behind it, where an instruction may look for a parameter. -/
structure Writable (fuel : Nat) (m : Machine) : Prop where
  course : ∀ c ∈ m.course fuel, c.Legible
  size : Numeral.Short (m.memory.size + 2)

theorem size_step (m : Machine) : m.step.1.memory.size = m.memory.size := by
  unfold memory
  rcases m.step_cases with ⟨f, -, hs⟩ | ⟨-, hs⟩ | ⟨e, -, hs⟩
  · rw [hs]
  · rw [hs, config_await]
  · rw [hs, config_perform, Config.size_apply]

theorem Writable.step (h : m.Writable (fuel + 1)) (hs : m.step.2 = .ok .running) :
    m.step.1.Writable fuel := by
  refine ⟨fun c hc => h.course c ?_, by rw [size_step]; exact h.size⟩
  rw [course_succ_of_running (advances_of_running hs)]
  exact List.mem_cons_of_mem _ hc

/-- What a run leaves behind and what it reports can be written. -/
theorem Writable.run (h : m.Writable fuel) (hevents : ∀ x ∈ m.events.toList, x.Legible)
    (hrun : m.run fuel = some (m', reply)) :
    m'.config.Legible ∧ (∀ x ∈ m'.events.toList, x.Legible) ∧
      ∀ f, reply = .error f →
        ∃ fault, f = .fault fault ∧ ∀ pc, fault.pc = some pc → Numeral.Short pc := by
  induction fuel generalizing m with
  | zero => cases hrun
  | succ fuel ih =>
    have hstart : m.config.Legible := h.course _ (config_mem_course _ m)
    have hnext : m.step.1.config.Legible := h.course _ (config_step_mem_course fuel m)
    have hevents' := legible_events_step hevents hstart hnext
    by_cases hs : m.step.2 = .ok .running
    · rw [run_succ_of_running (advances_of_running hs)] at hrun
      exact ih (h.step hs) hevents' hrun
    · rw [run_succ_of_stopped hs] at hrun
      obtain ⟨rfl, rfl⟩ := Prod.ext_iff.1 (Option.some.inj hrun)
      refine ⟨hnext, hevents', fun f hf => ?_⟩
      have hn := next_of_step_error hf
      rcases Config.failure_of_next hn with ⟨fault, rfl⟩ | rfl
      · exact ⟨fault, rfl, fun pc => hstart.short_of_fault hn⟩
      · exact absurd hn (hstart.next_ne_overlong h.size)

end Machine

end Intcode

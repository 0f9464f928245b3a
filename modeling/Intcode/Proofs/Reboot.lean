import Intcode.Proofs.Observers

/-!
# A rebooted machine is a fresh one

Whatever has been asked of a machine, and however that has ended, loading its program again leaves
nothing of it behind but the recorded events that nobody has collected.

* `serve_program`: a machine keeps its program;
* `reboot_alike`, `reboot_preceded`: the rebooted machine against a freshly loaded one;
* `reboot_equivalent_to_fresh`: the same histories follow.
-/

namespace Intcode

namespace Machine

variable {m m' : Machine} {fuel : Nat} {rs : List Request} {log : List Exchange}

theorem serve_program (h : m.serve fuel rs = some (log, m')) : m'.program = m.program :=
  serve_induction h rfl fun _ _ _ _ _ _ _ hp hr => (handle_program hr).trans hp

theorem load_eq_ok_iff {text : String} {recording : Bool} :
    load text recording = .ok m ↔
      ∃ p, Program.ofText text = .ok p ∧ m = ofProgram p recording := by
  unfold load
  cases Program.ofText text with
  | error f => simp [Except.map]
  | ok p => simp [Except.map, eq_comm]

theorem ofProgram_program (p : Program) (recording : Bool) :
    (ofProgram p recording).program = p :=
  program_note _ _

theorem reboot_config (m : Machine) : m.reboot.config = .ofProgram m.program :=
  config_note _ _

theorem reboot_alike (m : Machine) (recording : Bool) :
    Alike m.reboot (ofProgram m.program recording) := by
  simp [Alike, reboot, ofProgram]

theorem reboot_preceded (m : Machine) :
    Preceded m.events m.reboot (ofProgram m.program m.recording) := by
  obtain ⟨p, c, s, recording, events⟩ := m
  cases recording <;> simp [Preceded, reboot, ofProgram, note]

/-- **Reboot against fresh construction.**  Take a machine that was loaded from a text and has
served any requests, some of which may have failed.  Loading its program again never fails, and
reading the text once more gives its memory.  Whatever is asked afterwards is then answered as by a
machine loaded from the text just now: with the same printed accounts, replies and failures, and
with the same configuration and status after each request.  If both machines record or neither does,
every request records the same events too, and the only difference is that events from before the
reboot, if they have not been collected, come out in front of the first collected ones. -/
theorem reboot_equivalent_to_fresh {text : String} {recording : Bool} {m₀ : Machine}
    {fuel₀ : Nat} {before : List Request} (hload : load text recording = .ok m₀)
    (hbefore : m₀.serve fuel₀ before = some (log, m)) :
    (∀ fuel, m.handle fuel .reboot = some (m.reboot, "", .ok .done)) ∧
    Memory.parse text = .ok m.reboot.memory ∧
    ∀ recording', ∃ fresh, load text recording' = .ok fresh ∧
      (∀ fuel after,
        (m.reboot.serve fuel after).map (fun s => s.1.map Exchange.visible) =
          (fresh.serve fuel after).map fun s => s.1.map Exchange.visible) ∧
      (recording' = m.recording → ∀ fuel after,
        (m.reboot.serve fuel after).map Prod.fst =
          (fresh.serve fuel after).map fun s => olderFirst m.events.toList s.1) := by
  obtain ⟨p, hp, rfl⟩ := load_eq_ok_iff.1 hload
  obtain rfl : m.program = p := (serve_program hbefore).trans (ofProgram_program p recording)
  refine ⟨fun _ => rfl, ?_, fun recording' => ?_⟩
  · have hmemory : m.reboot.memory = m.program.image := congrArg Config.memory m.reboot_config
    rw [hmemory]
    exact (Program.ofText_eq_ok hp).2
  · refine ⟨ofProgram m.program recording', load_eq_ok_iff.2 ⟨_, hp, rfl⟩, ?_, ?_⟩
    · exact fun _ after => (m.reboot_alike recording').serve after
    · rintro rfl _ after
      exact m.reboot_preceded.serve after

/-- A program that doubles its first word and halts. -/
def doubling : Program :=
  ⟨"1,0,0,0,99", #[1, 0, 0, 0, 99], by rfl⟩

/-- A machine that has been made to fail: its last word was changed, so that the second step finds
an instruction whose parameters lie outside memory.  After the reboot it runs to its end. -/
theorem doubling_rebooted :
    ∃ m₀ log m, load doubling.text true = .ok m₀ ∧
      m₀.serve 2 [.feed 6, .write 4 7, .step false, .step false] = some (log, m) ∧
      m.memory = #[2, 0, 0, 0, 7] ∧ m.pc = 4 ∧ m.status = .running ∧
      ∃ fresh, load doubling.text true = .ok fresh ∧
        (m.reboot.serve 2 [.run false, .events]).map Prod.fst =
          (fresh.serve 2 [.run false, .events]).map fun s => olderFirst m.events.toList s.1 := by
  have hload : load doubling.text true = .ok (ofProgram doubling true) := by rfl
  have hserve : (ofProgram doubling true).serve 2
      [.feed 6, .write 4 7, .step false, .step false] = some (_, _) := rfl
  obtain ⟨-, -, hfresh⟩ := reboot_equivalent_to_fresh hload hserve
  obtain ⟨fresh, hload', -, hhistory⟩ := hfresh true
  exact ⟨_, _, _, hload, hserve, rfl, rfl, rfl, fresh, hload', hhistory rfl 2 _⟩

end Machine

end Intcode

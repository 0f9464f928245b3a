import Intcode.Proofs.Reboot
import Intcode.Proofs.Stalls
import Intcode.Proofs.Transcripts

/-!
# Where the inputs of a program come from

A command that runs a program is given some inputs at once and reads the others from lines, one
whenever the program waits.  This module shows that for a program that halts the division makes no
difference, and that no line is read before it is asked for.

* `Machine.run_of_run_feedAll`: a run on more input, seen from the run without it;
* `Machine.length_input_of_wait`: a machine that waits takes a value before it halts;
* `Settings.turn_of_run`: one turn of a command without options;
* `Settings.attend_of_run_feedAll`: turn after turn, from the run on all inputs;
* `Settings.attend_congr`: lines that are not read have no effect;
* `input_source_is_irrelevant`: the command and the run on all inputs.
-/

namespace Intcode

/-- An input instruction that is executed takes a value. -/
theorem Config.length_consumed_of_input {c : Config} {i : Instruction} {e : Effect}
    (hi : c.instruction = .ok i) (ho : i.opcode = .input) (h : c.next = .ok (some e)) :
    e.consumed.length = 1 := by
  obtain ⟨i', hi', hp⟩ := next_eq_ok_iff.1 h
  rw [hi] at hi'
  cases hi'
  cases hp with
  | store hother => exact absurd ho hother.ne_input
  | jump hother => exact absurd ho hother.ne_input
  | skip hother => exact absurd ho hother.ne_input
  | input => simp [Effect.consumed, ho]
  | output hother => simp [ho] at hother
  | halt hother => simp [ho] at hother

namespace Machine

variable {m m' : Machine} {fuel : Nat} {reply : Except Failure Status} {v : Int} {vs : List Int}

/-! ### A run on more input -/

theorem run_withStatus (m : Machine) (s : Status) (fuel : Nat) :
    run fuel { m with status := s } = m.run fuel := by
  cases fuel with
  | zero => rfl
  | succ fuel => rw [run, run, step_withStatus]

/-- A run on more input either passes the point at which the run without it waits, and goes on from
there, or comes to the same end and leaves that input queued. -/
theorem run_of_run_feedAll (hr : m.recording = false)
    (h : (m.feedAll vs).run fuel = some (m', reply)) :
    (∃ m₁, m.run fuel = some (m₁, .ok .blocked) ∧ (m₁.feedAll vs).run fuel = some (m', reply)) ∨
    ∃ m₁, m.run fuel = some (m₁, reply) ∧ m' = m₁.feedAll vs := by
  induction fuel generalizing m with
  | zero => cases h
  | succ fuel ih =>
    by_cases hb : m.step.2 = .ok .blocked
    · -- waiting changes nothing but the status
      have hstep := step_of_wait (next_of_step_blocked hb)
      have hblocked : ({ m with status := .blocked } : Machine).recording = false := hr
      have hawait : m.await.feedAll vs = { m.feedAll vs with status := .blocked } := by
        rw [await, note_of_not_recording hblocked]
        rfl
      refine .inl ⟨m.await, ?_, ?_⟩
      · rw [run_succ_of_stopped (by rw [hb]; simp), hstep]
      · rw [hawait, run_withStatus, h]
    · have hfed := step_feedAll hb vs
      by_cases hs : m.step.2 = .ok .running
      · rw [hs] at hfed
        rw [run_succ_of_running hfed] at h
        rw [run_succ_of_running (advances_of_running hs)]
        rcases ih (by rw [recording_step, hr]) h with ⟨m₁, hrun, hrest⟩ | ⟨m₁, hrun, hm'⟩
        · exact .inl ⟨m₁, hrun, run_add hrest 1⟩
        · exact .inr ⟨m₁, hrun, hm'⟩
      · rw [run_succ_of_stopped (by rw [hfed]; exact hs), hfed] at h
        cases h
        exact .inr ⟨m.step.1, run_succ_of_stopped hs fuel, rfl⟩

theorem next_of_run_blocked (h : m.run fuel = some (m', .ok .blocked)) :
    m'.config.next = .ok none := by
  obtain ⟨-, hhalted | ⟨-, hn⟩⟩ := Ends.stuck ⟨fuel, h⟩
  · cases hhalted
  · exact hn

/-- A machine that waits takes the first value that it is fed before it halts. -/
theorem length_input_of_wait (hn : m.config.next = .ok none)
    (h : (m.feedAll (v :: vs)).run fuel = some (m', .ok .halted)) :
    m'.config.input.length ≤ vs.length := by
  obtain ⟨i, hi, ho, hq⟩ := Config.next_eq_wait_iff.1 hn
  have hfed : (m.feedAll (v :: vs)).config.instruction = .ok i :=
    (Config.instruction_congr rfl rfl).trans hi
  have hinput : (m.feedAll (v :: vs)).config.input = v :: vs := by
    simp [feedAll, Queue.pushAll, hq]
  obtain ⟨hqueue, -⟩ := run_queues h
  cases fuel with
  | zero => cases h
  | succ fuel =>
    rcases (m.feedAll (v :: vs)).step_cases with ⟨f, hn', hs⟩ | ⟨hn', hs⟩ | ⟨e, hn', hs⟩
    · rw [run_succ_of_stopped (by rw [hs]; simp), hs] at h
      cases h
    · rw [run_succ_of_stopped (by rw [hs]; simp), hs] at h
      cases h
    · have htaken := Config.length_consumed_of_input hfed ho hn'
      rw [hinput, effects_of_effect hn', consumed_cons] at hqueue
      have hlength := congrArg List.length hqueue
      simp only [List.length_cons, List.length_append] at hlength
      omega

/-- A machine goes on in the same way after its output has been taken away. -/
theorem run_emptied_feedAll (hevents : m.events = #[])
    (h : (m.feedAll vs).run fuel = some (m', reply)) :
    ∃ m₁, (m.emptied.feedAll vs).run fuel = some (m₁, reply) ∧
      m'.config.output = m.config.output ++ m₁.config.output ∧
      m₁.config.input = m'.config.input := by
  have hdrain : m.feedAll vs = (m.emptied.feedAll vs).prepend m.config.output := by
    simp [feedAll, emptied, drain, collect, prepend, mapConfig, Config.prepend, hevents]
  rw [hdrain, run_prepend] at h
  obtain ⟨⟨m₁, reply₁⟩, hrun, heq⟩ := Option.map_eq_some_iff.1 h
  cases heq
  exact ⟨m₁, hrun, rfl, rfl⟩

end Machine

namespace Command

namespace Settings

variable {s : Settings} {fuel : Nat} {t : Transcript} {m m' : Machine} {status : Status}
  {o : Outcome}

/-! ### Turn after turn -/

/-- A turn of a command without options prints what the machine has put out. -/
theorem turn_of_run (hdump : s.dump = false) (htrace : s.trace = false) (hdebug : s.debug = false)
    (hw : s.Watches m) (hrun : m.run fuel = some (m', .ok status))
    (hshort : ∀ v ∈ m'.config.output, Numeral.Short v) :
    s.turn fuel t m = some (if status = .halted then
      .ended ⟨⟨t.out ++ asLines (m'.config.output.map Numeral.write), t.err⟩, .exit 0, [], []⟩
      else .waiting ⟨t.out ++ asLines (m'.config.output.map Numeral.write), t.err⟩ m'.emptied) := by
  have hw' : s.Watches m' := hw.run hrun
  have hevents : m'.events = #[] := hw'.2 htrace
  have hadvance : s.advance fuel m = some (m', "", .ok status) := by
    simp [advance, hdebug, hrun]
  have hp : m'.Printable := ⟨hshort, by simp [hevents]⟩
  have hreport : t.report "" m' =
      ⟨t.out ++ asLines (m'.config.output.map Numeral.write), t.err⟩ := by
    simp [Transcript.report, hevents]
  rw [turn_of_printable hadvance hw' hp, hreport, finish, hdump]
  rfl

/-- If a machine halts when it is fed some values at once, then it halts with the same output when
it is given a line for each of them, and the lines that it does not need are not read. -/
theorem attend_of_run_feedAll (hdump : s.dump = false) (htrace : s.trace = false)
    (hdebug : s.debug = false) {lines : List String} {ys : List Int} (rest : List String)
    (hlines : lines.map Numeral.readTyped? = ys.map some) (hw : s.Watches m)
    (hrun : (m.feedAll ys).run fuel = some (m', .ok .halted))
    (hshort : ∀ v ∈ m'.config.output, Numeral.Short v) :
    s.attend fuel (lines ++ rest) t m =
      some (⟨⟨t.out ++ asLines (m'.config.output.map Numeral.write), t.err⟩, .exit 0, [], []⟩,
        (lines ++ rest).drop (ys.length - m'.config.input.length)) := by
  induction lines generalizing ys m m' t with
  | nil =>
    obtain rfl : ys = [] := by simpa using hlines
    rw [Machine.feedAll_nil] at hrun
    rw [attend_of_ended (turn_of_run hdump htrace hdebug hw hrun hshort)]
    simp
  | cons line lines ih =>
    cases ys with
    | nil => cases hlines
    | cons y ys =>
      obtain ⟨hline, hlines⟩ : Numeral.readTyped? line = some y ∧
          lines.map Numeral.readTyped? = ys.map some := by simpa using hlines
      rcases Machine.run_of_run_feedAll (hw.1.trans htrace) hrun with
        ⟨m₁, hfirst, hrest⟩ | ⟨m₁, hfirst, rfl⟩
      · -- the machine waits, and the line is what it waits for
        have hw₁ : s.Watches m₁ := hw.run hfirst
        have htaken : m'.config.input.length ≤ ys.length :=
          Machine.length_input_of_wait (Machine.next_of_run_blocked hfirst) hrest
        obtain ⟨m₂, hrest, hvalues, hqueue⟩ := Machine.run_emptied_feedAll (hw₁.2 htrace) hrest
        rw [hvalues] at hshort
        have hshort₁ : ∀ v ∈ m₁.config.output, Numeral.Short v := fun v hv =>
          hshort v (List.mem_append_left _ hv)
        have hshort₂ : ∀ v ∈ m₂.config.output, Numeral.Short v := fun v hv =>
          hshort v (List.mem_append_right _ hv)
        have hfed : (m₁.emptied.feed y).feedAll ys = m₁.emptied.feedAll (y :: ys) := by
          rw [Machine.feed_eq_feedAll, Machine.feedAll_feedAll, List.singleton_append]
        have hw₂ : s.Watches (m₁.emptied.feed y) := ⟨hw₁.1, fun _ => rfl⟩
        have hcount : (y :: ys).length - m'.config.input.length =
            ys.length - m'.config.input.length + 1 := by
          rw [List.length_cons]
          omega
        rw [List.cons_append,
          attend_of_accepted (turn_of_run hdump htrace hdebug hw hfirst hshort₁) hline,
          ih hlines hw₂ (by rwa [hfed]) hshort₂, hqueue, hcount,
          List.drop_succ_cons, hvalues, List.map_append, asLines_append, String.append_assoc]
      · -- the machine does not wait, and no line is read
        have hcount : (y :: ys).length - (m₁.feedAll (y :: ys)).config.input.length = 0 := by
          simp only [Machine.feedAll, Queue.pushAll, List.length_append]
          omega
        rw [attend_of_ended (turn_of_run hdump htrace hdebug hw hfirst hshort), hcount,
          List.drop_zero]
        rfl

/-- A command that succeeds reads lines from the front, and depends on no other line. -/
theorem attend_congr {lines left : List String} (h : s.attend fuel lines t m = some (o, left))
    (ho : o.ending = .exit 0) :
    ∃ read, lines = read ++ left ∧
      ∀ other, s.attend fuel (read ++ other) t m = some (o, other) := by
  fun_induction attend s fuel lines t m with
  | case1 lines t m hturn => cases h
  | case2 lines t m outcome hturn =>
    cases h
    exact ⟨[], rfl, fun other => attend_of_ended hturn⟩
  | case3 t m t' m' hturn =>
    cases h
    cases ho
  | case4 t m t' m' hturn line lines m₁ haccept ih =>
    obtain ⟨read, rfl, hread⟩ := ih h
    obtain ⟨v, hline, rfl⟩ := accept_eq_ok haccept
    refine ⟨line :: read, rfl, fun other => ?_⟩
    rw [List.cons_append, attend_of_accepted hturn hline]
    exact hread other
  | case5 t m t' m' hturn line lines outcome haccept =>
    obtain ⟨-, rfl⟩ := accept_eq_error haccept
    cases h
    cases ho

end Settings

/-- The command without options prepares a fresh machine with its inputs queued. -/
theorem prepare_of_load {program inline : Option String} {xs : List Int} {text : String}
    {m : Machine} (h : Machine.load text false = .ok m) :
    ({ program, inline, inputs := xs } : Settings).prepare text = .ok (m.feedAll xs) := by
  simp only [Settings.prepare, h, patch]
  rfl

/-- **It makes no difference where the inputs come from.**  Let a program halt on the inputs
`xs ++ ys` with outputs that can be written.  Give the command `xs` and no other option, and on the
standard input a line for each of `ys`, followed by any text.  Then

* a run to completion on `xs ++ ys` delivers the outputs;
* the command succeeds, writes the outputs, one on a line, and writes no error;
* it reads as many lines as the program takes values beyond `xs`, and leaves the others;
* what stands after these lines makes no difference. -/
theorem input_source_is_irrelevant {fuel : Nat} {text rest : String} {m m' : Machine}
    {xs ys : List Int} {lines : List String} {w : Surroundings} (program inline : Option String)
    (hload : Machine.load text false = .ok m)
    (hrun : (m.feedAll (xs ++ ys)).run fuel = some (m', .ok .halted))
    (hshort : ∀ v ∈ m'.config.output, Numeral.Short v)
    (hsingle : ∀ line ∈ lines, '\n' ∉ line.toList)
    (hlines : lines.map Numeral.readTyped? = ys.map some)
    (hw : w.lines = linesOf (asLines lines ++ rest)) :
    let s : Settings := { program, inline, inputs := xs }
    let asked := (consumed ((m.feedAll (xs ++ ys)).effects fuel)).length - xs.length
    let outcome : Outcome :=
      ⟨⟨asLines (m'.config.output.map Numeral.write), ""⟩, .exit 0, [], []⟩
    runProgram fuel text (xs ++ ys) = some (.ok m'.config.output) ∧
    Kind.run.perform fuel w s text = some outcome ∧
    (s.prepare text = .ok (m.feedAll xs) ∧
      s.attend fuel w.lines {} (m.feedAll xs) = some (outcome, w.lines.drop asked)) ∧
    ∀ w' : Surroundings, w'.lines.take asked = w.lines.take asked →
      Kind.run.perform fuel w' s text = some outcome := by
  intro s asked outcome
  obtain ⟨p, -, rfl⟩ := Machine.load_eq_ok_iff.1 hload
  have hprepare : s.prepare text = .ok ((Machine.ofProgram p false).feedAll xs) :=
    prepare_of_load hload
  have hasked : asked = ys.length - m'.config.input.length := by
    have hlength := congrArg List.length (Machine.run_queues hrun).1
    have hqueue : ((Machine.ofProgram p false).feedAll (xs ++ ys)).config.input = xs ++ ys := rfl
    rw [hqueue, List.length_append, List.length_append] at hlength
    omega
  have hattend : s.attend fuel w.lines {} ((Machine.ofProgram p false).feedAll xs) =
      some (outcome, w.lines.drop asked) := by
    rw [← Machine.feedAll_feedAll] at hrun
    rw [hw, linesOf_asLines_append hsingle, hasked,
      Settings.attend_of_run_feedAll rfl rfl rfl _ hlines ⟨rfl, fun _ => rfl⟩ hrun hshort]
    simp [outcome]
  refine ⟨?_, ?_, ⟨hprepare, hattend⟩, ?_⟩
  · simp only [runProgram, hload, hrun, Option.map_some]
  · rw [Settings.perform_of_prepare hprepare rfl, hattend]
    rfl
  · intro w' hsame
    obtain ⟨read, hread, hother⟩ := Settings.attend_congr hattend rfl
    have hsplit : read ++ w.lines.drop asked = w.lines.take asked ++ w.lines.drop asked := by
      rw [← hread, List.take_append_drop]
    obtain rfl : read = w'.lines.take asked := by
      rw [hsame]
      exact List.append_cancel_right hsplit
    have hperform := hother (w'.lines.drop asked)
    rw [List.take_append_drop] at hperform
    rw [Settings.perform_of_prepare hprepare rfl, hperform]
    rfl

/-- Of three inputs one is given and one is read from a line; the last line and what follows it are
left. -/
theorem echoTwo_from_lines :
    runProgram 5 Machine.echoTwo.program.text [5, -7, 8] = some (.ok [5, -7]) ∧
    Kind.run.perform 5 (.piped " -7\t\n+8\nno number") { inputs := [5] }
      Machine.echoTwo.program.text = some ⟨⟨"5\n-7\n", ""⟩, .exit 0, [], []⟩ ∧
    Kind.run.perform 5 (.piped " -7\t\nno number") { inputs := [5] }
      Machine.echoTwo.program.text = some ⟨⟨"5\n-7\n", ""⟩, .exit 0, [], []⟩ ∧
    Settings.attend { inputs := [5] } 5 [" -7\t", "+8", "no number"] {}
      (Machine.echoTwo.feedAll [5]) =
        some (⟨⟨"5\n-7\n", ""⟩, .exit 0, [], []⟩, ["+8", "no number"]) := by
  have hload : Machine.load Machine.echoTwo.program.text false = .ok Machine.echoTwo := by rfl
  have hrun : (Machine.echoTwo.feedAll ([5] ++ [-7, 8])).run 5 =
      some (⟨Machine.echoTwo.program, ⟨#[3, 9, 4, 9, 3, 9, 4, 9, 99, -7], 9, [8], [5, -7]⟩, .halted,
        false, #[]⟩, .ok .halted) := by rfl
  have hshort : ∀ v ∈ [5, -7], Numeral.Short v := by decide +kernel
  have hsingle : ∀ line ∈ [" -7\t", "+8"], '\n' ∉ line.toList := by decide +kernel
  have hlines : [" -7\t", "+8"].map Numeral.readTyped? = [-7, 8].map some := by decide +kernel
  have hw : (Surroundings.piped " -7\t\n+8\nno number").lines =
      linesOf (asLines [" -7\t", "+8"] ++ "no number") := by decide +kernel
  have hprinted : asLines ([5, -7].map Numeral.write) = "5\n-7\n" := by decide +kernel
  have hleft : (Surroundings.piped " -7\t\n+8\nno number").lines =
      [" -7\t", "+8", "no number"] := by decide +kernel
  have hother : (Surroundings.piped " -7\t\nno number").lines = [" -7\t", "no number"] := by
    decide +kernel
  obtain ⟨hprogram, hperform, ⟨-, hattend⟩, hsame⟩ :=
    input_source_is_irrelevant none none hload hrun hshort hsingle hlines hw
  rw [hprinted] at hperform hattend hsame
  rw [hleft] at hattend hsame
  exact ⟨hprogram, hperform, hsame _ (by rw [hother]; rfl), hattend⟩

end Command

end Intcode

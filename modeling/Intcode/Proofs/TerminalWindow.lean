import Mathlib.Data.List.Basic
import Mathlib.Tactic.Common
import Intcode.Terminal

/-!
# What is done to the terminal's window

The terminal asks its window for one action after another.  The window may refuse any of them; a
refused write is passed over, and any other refusal breaks the sitting off.

* `Action.Draws`: what drawing does, `draws_of_mem_draw`;
* `Action.Vital`, `Surface.Obliging`: the actions whose refusal breaks a sitting off, and the
  windows that do not refuse them;
* `carryOut_eq_error`: where carrying out breaks off;
* `View.requests`, `carryOut_of_show`, `show_eq_error`: what is asked for to show a view;
* `run_cases`, `inside_of_mem_run`, `refused_of_loop`: a whole sitting stays inside the window, and
  breaks off only for a reason, which on an obliging window is a failure, `failure_eq_none_iff`;
* `keysRead`, `keysRead_of_show`, `keysRead_of_refused`: the keys that have been read.
-/

namespace Intcode

namespace Terminal

variable {screen : Screen} {v v' : View} {y x : Int} {style : Style} {code : Int}
  {keys : List Int} {answers : List (List UInt8)}

/-! ### Drawing -/

/-- What drawing does: clear the window, write in its rows and make the result visible. -/
def Action.Draws (screen : Screen) : Action → Prop
  | .erase | .refresh => True
  | .write y _ _ _ _ => 0 ≤ y ∧ y < screen.height
  | _ => False

theorem draws_of_mem_put {text : String} {a : Action} (h : a ∈ put screen y x style text) :
    a.Draws screen := by
  unfold put at h
  split_ifs at h with hy
  · cases List.mem_singleton.1 h
    exact hy
  · cases h

theorem draws_of_mem_map_put {text : String} {a : Action}
    (h : .ok a ∈ (put screen y x style text).map (.ok : Action → Except Failure Action)) :
    a.Draws screen := by
  obtain ⟨b, hb, hba⟩ := List.mem_map.1 h
  cases hba
  exact draws_of_mem_put hb

theorem draws_of_mem_putText {text : Except Failure String} {a : Action}
    (h : .ok a ∈ putText screen y x style text) : a.Draws screen := by
  cases text with
  | error f => simp [putText] at h
  | ok text => exact draws_of_mem_map_put h

theorem draws_of_mem_drawListing {row : Int} {lines : List Line} {cursor : Int} {a : Action}
    (h : .ok a ∈ drawListing screen row lines cursor) : a.Draws screen := by
  obtain ⟨rows, hrows, hr⟩ := List.mem_flatten.1 h
  obtain ⟨l, -, rfl⟩ := List.mem_map.1 hrows
  exact draws_of_mem_putText hr

theorem draws_of_mem_drawEvents {row : Int} {log : List String} {a : Action}
    (h : a ∈ drawEvents screen row log) : a.Draws screen := by
  rcases List.mem_append.1 h with h | h
  · exact draws_of_mem_put h
  · obtain ⟨rows, hrows, hr⟩ := List.mem_flatten.1 h
    obtain ⟨line, -, rfl⟩ := List.mem_map.1 hrows
    exact draws_of_mem_put hr

theorem draws_of_mem_drawPanels {row : Int} {a : Action}
    (h : .ok a ∈ v.drawPanels screen row) : a.Draws screen := by
  simp only [View.drawPanels, List.mem_append] at h
  rcases h with (((h | h) | h) | h) | h
  · exact draws_of_mem_putText h
  · exact draws_of_mem_map_put h
  · exact draws_of_mem_putText h
  · split_ifs at h
    · obtain ⟨b, hb, hba⟩ := List.mem_map.1 h
      cases hba
      exact draws_of_mem_drawEvents hb
    · exact draws_of_mem_map_put h
  · exact draws_of_mem_map_put h

/-- Drawing stays inside the window and reads no key. -/
theorem draws_of_mem_draw {a : Action} (h : a ∈ (v.draw screen).1) : a.Draws screen := by
  have h := mem_of_mem_untilFailure h
  simp only [List.mem_append, List.mem_cons, Except.ok.injEq] at h
  rcases h with ((rfl | h) | h) | rfl | h
  · trivial
  · exact draws_of_mem_map_put h
  · split at h
    · simp at h
    · rcases List.mem_append.1 h with h | h
      · exact draws_of_mem_drawListing h
      · exact draws_of_mem_drawPanels h
  · trivial
  · cases h

/-! ### Carrying out actions -/

/-- A sitting cannot go on without the action. -/
def Action.Vital : Action → Prop
  | .cursor _ | .echo _ | .erase | .refresh | .timeout _ => True
  | .key _ | .readLine .. | .write .. | .writeFailed .. => False

/-- The window refuses nothing but writes: it can clear itself, show and hide the cursor, and so
on. -/
def Surface.Obliging (surface : Surface) : Prop :=
  ∀ before (action : Action), action.Vital → surface.refuses before action = false

theorem obliging_surface (screen : Screen) : screen.surface.Obliging := by
  intro before action h
  cases action with
  | write => exact h.elim
  | _ => rfl

variable {surface : Surface} {before before' done actions : List Action} {b : Breakdown}
  {action : Action}

theorem answer_eq_none_iff :
    surface.answer before action = none ↔
      action.Vital ∧ surface.refuses before action = true := by
  unfold Surface.answer
  split_ifs with h
  · cases action <;> simp [Action.Vital, h]
  · simp [h]

/-- Carrying out breaks off at an action that is refused and vital; all actions before it are
carried out. -/
theorem carryOut_eq_error (h : surface.carryOut before actions = .error (done, b)) :
    ∃ first action rest, actions = first ++ action :: rest ∧
      surface.carryOut before first = .ok done ∧ b = .refused action ∧ action.Vital ∧
      surface.refuses done action = true := by
  induction actions generalizing before with
  | nil => cases h
  | cons action actions ih =>
    rw [Surface.carryOut] at h
    split at h
    · rename_i done' hanswer
      obtain ⟨first, refused, rest, rfl, hfirst, hb⟩ := ih h
      refine ⟨action :: first, refused, rest, rfl, ?_, hb⟩
      rw [Surface.carryOut, hanswer]
      exact hfirst
    · rename_i hanswer
      cases h
      obtain ⟨hvital, hrefuses⟩ := answer_eq_none_iff.1 hanswer
      exact ⟨[], action, actions, rfl, rfl, rfl, hvital, hrefuses⟩

theorem carryOut_append (surface : Surface) (before xs ys : List Action) :
    surface.carryOut before (xs ++ ys) =
      surface.carryOut before xs >>= fun done => surface.carryOut done ys := by
  induction xs generalizing before with
  | nil => rfl
  | cons action xs ih =>
    rw [List.cons_append, Surface.carryOut, Surface.carryOut]
    split
    · exact ih _
    · rfl

/-! ### Inside the window -/

/-- A write is in a row of the window. -/
def Action.Inside (screen : Screen) : Action → Prop
  | .write y _ _ _ _ => 0 ≤ y ∧ y < screen.height
  | .writeFailed y _ => 0 ≤ y ∧ y < screen.height
  | _ => True

theorem Action.Draws.inside {a : Action} (h : a.Draws screen) : a.Inside screen := by
  cases a <;> first | exact h | trivial

theorem inside_of_mem_promptActions {a : Action} (h : a ∈ promptActions screen) :
    a.Inside screen := by
  rcases List.mem_append.1 h with h | h
  · exact (draws_of_mem_put h).inside
  · simp only [List.mem_cons, List.not_mem_nil, or_false] at h
    rcases h with rfl | rfl | rfl | rfl | rfl | rfl <;> trivial

/-- A refusal is recorded in the row of the write. -/
theorem inside_of_answer {a : Action} (h : action.Inside surface.toScreen)
    (ha : surface.answer before action = some a) : a.Inside surface.toScreen := by
  unfold Surface.answer at ha
  split_ifs at ha
  · cases action <;> cases ha <;> exact h
  · cases ha
    exact h

/-- What is carried out stays inside the window. -/
theorem inside_of_carryOut (hbefore : ∀ a ∈ before, a.Inside surface.toScreen)
    (hactions : ∀ a ∈ actions, a.Inside surface.toScreen)
    (h : surface.carryOut before actions = .ok done) : ∀ a ∈ done, a.Inside surface.toScreen := by
  induction actions generalizing before with
  | nil =>
    cases h
    exact hbefore
  | cons action actions ih =>
    rw [List.forall_mem_cons] at hactions
    rw [Surface.carryOut] at h
    split at h
    · rename_i done' hanswer
      have hdone := inside_of_answer hactions.1 hanswer
      exact ih (List.forall_mem_cons.2 ⟨hdone, hbefore⟩) hactions.2 h
    · cases h

/-! ### Showing -/

/-- What is asked of the window to show a view and read a key. -/
def View.requests (screen : Screen) (v : View) (code : Int) : List Action :=
  (v.draw screen).1 ++ .timeout v.patience :: .key code ::
    if Command.ofKey code = .input then promptActions screen else []

theorem inside_of_mem_requests {a : Action} (h : a ∈ v.requests screen code) : a.Inside screen := by
  rcases List.mem_append.1 h with h | h
  · exact (draws_of_mem_draw h).inside
  · rcases List.mem_cons.1 h with rfl | h
    · trivial
    · rcases List.mem_cons.1 h with rfl | h
      · trivial
      · split_ifs at h
        · exact inside_of_mem_promptActions h
        · cases h

/-- A view that is shown has been granted all requests. -/
theorem carryOut_of_show (h : v.show surface before code = .ok done) :
    surface.carryOut before (v.requests surface.toScreen code) = .ok done := by
  cases hdraw : v.draw surface.toScreen with
  | mk drawn failure =>
    simp only [View.show, hdraw] at h
    cases hdrawn : surface.carryOut before drawn with
    | error broken =>
      simp only [hdrawn] at h
      cases h
    | ok shown =>
      simp only [hdrawn] at h
      cases failure with
      | some f => cases h
      | none =>
        rw [View.requests, hdraw, carryOut_append, hdrawn]
        exact h

/-- A view that is not shown has been granted some of the requests; the next is refused, or what is
to be drawn cannot be written. -/
theorem show_eq_error (h : v.show surface before code = .error (done, b)) :
    ∃ granted rest, v.requests surface.toScreen code = granted ++ rest ∧
      surface.carryOut before granted = .ok done ∧
      ((∃ f, b = .failed f ∧ (v.draw surface.toScreen).2 = some f) ∨
        ∃ action rest', rest = action :: rest' ∧ b = .refused action ∧ action.Vital ∧
          surface.refuses done action = true) := by
  cases hdraw : v.draw surface.toScreen with
  | mk drawn failure =>
    simp only [View.show, hdraw] at h
    simp only [View.requests, hdraw]
    cases hdrawn : surface.carryOut before drawn with
    | error broken =>
      simp only [hdrawn] at h
      cases h
      obtain ⟨granted, action, rest, hparts, hgranted, hrefused⟩ := carryOut_eq_error hdrawn
      subst hparts
      exact ⟨granted, _, List.append_assoc _ _ _, hgranted, .inr ⟨action, _, rfl, hrefused⟩⟩
    | ok shown =>
      simp only [hdrawn] at h
      cases failure with
      | some f =>
        cases h
        exact ⟨drawn, _, rfl, hdrawn, .inl ⟨f, rfl, rfl⟩⟩
      | none =>
        obtain ⟨granted, action, rest, hparts, hgranted, hrefused⟩ := carryOut_eq_error h
        refine ⟨drawn ++ granted, action :: rest, ?_, ?_, .inr ⟨action, rest, rfl, hrefused⟩⟩
        · rw [hparts, List.append_assoc]
        · rw [carryOut_append, hdrawn]
          exact hgranted

/-- What is done to show a view stays inside the window. -/
theorem inside_of_granted {granted rest : List Action}
    (hbefore : ∀ a ∈ before, a.Inside surface.toScreen)
    (hparts : v.requests surface.toScreen code = granted ++ rest)
    (h : surface.carryOut before granted = .ok done) : ∀ a ∈ done, a.Inside surface.toScreen :=
  inside_of_carryOut hbefore
    (fun _ ha => inside_of_mem_requests (hparts ▸ List.mem_append_left rest ha)) h

theorem inside_of_show (hbefore : ∀ a ∈ before, a.Inside surface.toScreen)
    (h : v.show surface before code = .ok done) : ∀ a ∈ done, a.Inside surface.toScreen :=
  inside_of_granted hbefore (List.append_nil _).symm (carryOut_of_show h)

/-- All actions of a sitting stay inside the window. -/
theorem inside_of_mem_loop (hbefore : ∀ a ∈ before, a.Inside surface.toScreen) :
    ∀ a ∈ (View.loop surface before keys answers v).actions, a.Inside surface.toScreen := by
  fun_induction View.loop surface before keys answers v with
  | case1 before keys answers v done b hshow =>
    obtain ⟨granted, rest, hparts, hgranted, -⟩ := show_eq_error hshow
    simpa using inside_of_granted hbefore hparts hgranted
  | case2 before answers v done hshow => simpa using inside_of_show hbefore hshow
  | case3 before answers v done code keys hquit hshow => simpa using inside_of_show hbefore hshow
  | case4 before answers v done code keys v' f hobey hshow hquit =>
    simpa using inside_of_show hbefore hshow
  | case5 before answers v done code keys v' hobey hshow hquit ih =>
    exact ih (inside_of_show hbefore hshow)

/-- A sitting that breaks off for a refusal is refused an action without which it cannot go on. -/
theorem refused_of_loop
    (h : (View.loop surface before keys answers v).breakdown = some (.refused action)) :
    action.Vital ∧
      surface.refuses (View.loop surface before keys answers v).actions.reverse action = true := by
  fun_induction View.loop surface before keys answers v with
  | case1 before keys answers v done b hshow =>
    cases h
    obtain ⟨granted, rest, -, -, ⟨f, hfailed, -⟩ | ⟨refused, rest', -, hrefused, hvital⟩⟩ :=
      show_eq_error hshow
    · cases hfailed
    · cases hrefused
      simpa using hvital
  | case2 before answers v done hshow => cases h
  | case3 before answers v done code keys hquit hshow => cases h
  | case4 before answers v done code keys v' f hobey hshow hquit => cases h
  | case5 before answers v done code keys v' hobey hshow hquit ih => exact ih h

section

variable {m : Machine} {maxSteps : Option Int}

/-- A sitting begins when the cursor is hidden, and breaks off at once if the window refuses that. -/
theorem run_cases (surface : Surface) (keys : List Int) (answers : List (List UInt8)) (m : Machine)
    (maxSteps : Option Int) :
    (surface.refuses [] (.cursor false) = false ∧
      run surface keys answers m maxSteps =
        View.loop surface [.cursor false] keys answers ⟨.start m maxSteps, true⟩) ∨
    (surface.refuses [] (.cursor false) = true ∧
      run surface keys answers m maxSteps =
        ⟨[], ⟨.start m maxSteps, true⟩, some (.refused (.cursor false))⟩) := by
  cases hrefuses : surface.refuses [] (.cursor false) with
  | false => exact .inl ⟨rfl, by simp [run, Surface.carryOut, Surface.answer, hrefuses]⟩
  | true => exact .inr ⟨rfl, by simp [run, Surface.carryOut, Surface.answer, hrefuses]⟩

theorem inside_of_mem_run :
    ∀ a ∈ (run surface keys answers m maxSteps).actions, a.Inside surface.toScreen := by
  rcases run_cases surface keys answers m maxSteps with ⟨-, h⟩ | ⟨-, h⟩
  · rw [h]
    exact inside_of_mem_loop (List.forall_mem_singleton.2 trivial)
  · rw [h]
    exact List.forall_mem_nil _

/-- On an obliging window a sitting breaks off for failures only. -/
theorem failure_eq_none_iff (h : surface.Obliging) :
    (run surface keys answers m maxSteps).failure = none ↔
      (run surface keys answers m maxSteps).breakdown = none := by
  have hnot (action : Action) :
      (run surface keys answers m maxSteps).breakdown ≠ some (.refused action) := by
    intro hrefused
    rcases run_cases surface keys answers m maxSteps with ⟨-, hrun⟩ | ⟨hrefuses, -⟩
    · rw [hrun] at hrefused
      obtain ⟨hvital, hrefuses⟩ := refused_of_loop hrefused
      rw [h _ _ hvital] at hrefuses
      cases hrefuses
    · rw [h [] (.cursor false) trivial] at hrefuses
      cases hrefuses
  unfold Sitting.failure
  cases hbreakdown : (run surface keys answers m maxSteps).breakdown with
  | none => simp
  | some b =>
    cases b with
    | failed f => simp
    | refused action => exact absurd hbreakdown (hnot action)

end

/-! ### The keys of a sitting -/

/-- The key that an action reads. -/
def Action.code? : Action → Option Int
  | .key code => some code
  | _ => none

/-- The keys that have been read. -/
def keysRead (actions : List Action) : List Int :=
  actions.filterMap Action.code?

theorem code?_of_answer {a : Action} (h : surface.answer before action = some a) :
    a.code? = action.code? := by
  unfold Surface.answer at h
  split_ifs at h
  · cases action <;> cases h <;> rfl
  · cases h
    rfl

/-- Carrying out reads the keys that are to be read. -/
theorem keysRead_of_carryOut (h : surface.carryOut before actions = .ok done) :
    keysRead done.reverse = keysRead before.reverse ++ keysRead actions := by
  induction actions generalizing before with
  | nil =>
    cases h
    exact (List.append_nil _).symm
  | cons action actions ih =>
    rw [Surface.carryOut] at h
    split at h
    · rename_i a hanswer
      rw [ih h, List.reverse_cons, keysRead, keysRead, keysRead, keysRead, List.filterMap_append,
        List.append_assoc, ← List.filterMap_append, List.singleton_append, List.filterMap_cons,
        List.filterMap_cons, code?_of_answer hanswer]
    · cases h

theorem keysRead_draw (screen : Screen) (v : View) : keysRead (v.draw screen).1 = [] := by
  refine List.filterMap_eq_nil_iff.2 fun a ha => ?_
  have hdraws := draws_of_mem_draw ha
  cases a with
  | key code => exact hdraws.elim
  | _ => rfl

theorem keysRead_promptActions (screen : Screen) : keysRead (promptActions screen) = [] := by
  unfold promptActions put
  split_ifs <;> rfl

/-- To show a view, one key is read. -/
theorem keysRead_requests (screen : Screen) (v : View) (code : Int) :
    keysRead (v.requests screen code) = [code] := by
  have hasked :
      keysRead (if Command.ofKey code = .input then promptActions screen else []) = [] := by
    split_ifs
    · exact keysRead_promptActions screen
    · rfl
  rw [View.requests, keysRead, List.filterMap_append, ← keysRead, keysRead_draw, List.nil_append]
  exact congrArg (code :: ·) hasked

theorem keysRead_of_show (h : v.show surface before code = .ok done) :
    keysRead done.reverse = keysRead before.reverse ++ [code] := by
  rw [keysRead_of_carryOut (carryOut_of_show h), keysRead_requests]

/-- A view that can be drawn is not shown because of a refusal.  No key has been read then, unless
it is one that asks for a value. -/
theorem keysRead_of_refused (hdraw : (v.draw surface.toScreen).2 = none)
    (h : v.show surface before code = .error (done, b)) :
    ∃ action, b = .refused action ∧
      (keysRead done.reverse = keysRead before.reverse ∨
        Command.ofKey code = .input ∧
          keysRead done.reverse = keysRead before.reverse ++ [code]) := by
  obtain ⟨granted, rest, hparts, hgranted, ⟨f, -, hf⟩ | ⟨action, rest', hrest, hb, hvital, -⟩⟩ :=
    show_eq_error h
  · rw [hdraw] at hf
    cases hf
  refine ⟨action, hb, ?_⟩
  have hkeys : keysRead granted ++ keysRead rest = [code] := by
    rw [keysRead, keysRead, ← List.filterMap_append, ← hparts]
    exact keysRead_requests _ v code
  rw [keysRead_of_carryOut hgranted]
  rcases List.append_eq_singleton_iff.1 hkeys with ⟨hnone, -⟩ | ⟨hone, hnone⟩
  · left
    rw [hnone, List.append_nil]
  · refine .inr ⟨?_, by rw [hone]⟩
    -- otherwise reading the key is the last request, and so among those not granted
    by_contra hask
    have hlast : rest.getLast? = some (.key code) := by
      have hends := congrArg List.getLast? hparts
      rw [View.requests, if_neg hask, List.getLast?_append, List.getLast?_append] at hends
      simpa [hrest] using hends.symm
    have hread : code ∈ keysRead rest :=
      List.mem_filterMap.2 ⟨_, List.mem_of_getLast? hlast, rfl⟩
    rw [hnone] at hread
    cases hread

end Terminal

end Intcode

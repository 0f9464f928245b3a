import Intcode.Proofs.Histories

/-!
# Machines that differ in what they record

Whether a machine records, and what it has recorded, has no influence on what it does.  This is
shown once for all relations between machines that have program, configuration and status in
common and that survive a note, a change of configuration and status and a change of the recording
flag.

* `Machine.Unobserved`: such a relation; `Unobserved.step`, `Unobserved.run` and
  `Unobserved.stepShown`, `Unobserved.runShown` say that it survives execution, and
  `Unobserved.handle` that it survives every request but the collection of events, with the same
  printed account and the same reply;
* `handle_keeps`: in particular what survives these changes survives every request, such as the
  program (`handle_program`);
* `Machine.Alike`: everything but the record is the same;
* `Machine.Preceded`: the record of one machine has older events in front;
* `Exchange.visible`, `Alike.serve`: the histories of machines that are alike are the same, apart
  from events;
* `olderFirst`, `Preceded.serve`: older events come out in front of the first collected ones, and
  nothing else is different.
-/

namespace Intcode

namespace Machine

variable {R : Machine → Machine → Prop} {m n : Machine} {fuel : Nat} {e : Effect}

/-- A relation between machines that may differ in their records only, and that execution cannot
break. -/
structure Unobserved (R : Machine → Machine → Prop) : Prop where
  same : ∀ {m n}, R m n → m.program = n.program ∧ m.config = n.config ∧ m.status = n.status
  note : ∀ {m n}, R m n → ∀ v, R (m.note v) (n.note v)
  change : ∀ {m n}, R m n → ∀ c s,
    R { m with config := c, status := s } { n with config := c, status := s }
  record : ∀ {m n}, R m n → ∀ on, R { m with recording := on } { n with recording := on }

/-- Related machines, each with the same result. -/
def Paired (R : Machine → Machine → Prop) {α : Type} (x y : Machine × α) : Prop :=
  R x.1 y.1 ∧ x.2 = y.2

namespace Unobserved

/-! ### Execution -/

theorem setStatus (hR : Unobserved R) (h : R m n) (s : Status) :
    R { m with status := s } { n with status := s } := by
  have hm : ({ m with config := n.config, status := s } : Machine) = { m with status := s } := by
    rw [← (hR.same h).2.1]
  exact hm ▸ hR.change h n.config s

theorem setConfig (hR : Unobserved R) (h : R m n) (c : Config) :
    R { m with config := c } { n with config := c } := by
  have hm : ({ m with config := c, status := n.status } : Machine) = { m with config := c } := by
    rw [← (hR.same h).2.2]
  exact hm ▸ hR.change h c n.status

theorem await (hR : Unobserved R) (h : R m n) : R m.await n.await := by
  have hpc : m.pc = n.pc := congrArg Config.pc (hR.same h).2.1
  unfold Machine.await
  rw [hpc]
  exact hR.note (hR.setStatus h .blocked) _

theorem commit (hR : Unobserved R) (h : R m n) (e : Effect) : R (m.commit e) (n.commit e) := by
  have hchange := hR.change h (n.config.apply e) (statusAfter e)
  rw [commit_eq_note, commit_eq_note, (hR.same h).2.1]
  cases e.emits with
  | none => exact hchange
  | some v => exact hR.note hchange _

theorem log (hR : Unobserved R) (h : R m n) (e : Effect) (ps : List Int) :
    R (m.log e ps) (n.log e ps) := by
  rw [log_eq_note, log_eq_note]
  split
  · exact hR.note (hR.note h _) _
  · exact hR.note h _

theorem perform (hR : Unobserved R) (h : R m n) (e : Effect) : R (m.perform e) (n.perform e) := by
  rw [perform_eq_log, perform_eq_log, (hR.same h).2.1]
  exact hR.log (hR.commit h e) e _

theorem step (hR : Unobserved R) (h : R m n) : Paired R m.step n.step := by
  have hc := (hR.same h).2.1
  rcases m.step_cases with ⟨f, hn, hs⟩ | ⟨hn, hs⟩ | ⟨e, hn, hs⟩
  · rw [hs, step_of_error (hc ▸ hn)]
    exact ⟨hR.setStatus h .running, rfl⟩
  · rw [hs, step_of_wait (hc ▸ hn)]
    exact ⟨hR.await h, rfl⟩
  · rw [hs, step_of_effect (hc ▸ hn)]
    exact ⟨hR.perform h e, rfl⟩

theorem run (hR : Unobserved R) (h : R m n) :
    Option.Rel (Paired R) (m.run fuel) (n.run fuel) := by
  induction fuel generalizing m n with
  | zero => exact .none
  | succ fuel ih =>
    obtain ⟨hstep, hreply⟩ := hR.step h
    by_cases hs : m.step.2 = .ok .running
    · rw [run_succ_of_running (advances_of_running hs),
        run_succ_of_running (advances_of_running (hreply ▸ hs))]
      exact ih hstep
    · rw [run_succ_of_stopped hs, run_succ_of_stopped (hreply ▸ hs)]
      exact .some ⟨hstep, hreply⟩

theorem performShown (hR : Unobserved R) (h : R m n) (e : Effect) :
    Paired R (m.performShown e) (n.performShown e) := by
  have hcommit := hR.commit h e
  have hc := (hR.same h).2.1
  have hc' := (hR.same hcommit).2.1
  unfold Machine.performShown
  simp only [hc, hc']
  split
  · exact ⟨hcommit, rfl⟩
  · split
    · exact ⟨hcommit, rfl⟩
    · exact ⟨hR.log hcommit e _, rfl⟩

theorem stepShown (hR : Unobserved R) (h : R m n) : Paired R m.stepShown n.stepShown := by
  have hc := (hR.same h).2.1
  have hfailed := hR.change h n.config .running
  unfold Machine.stepShown
  simp only [hc]
  split
  · exact ⟨hfailed, rfl⟩
  · split
    · exact ⟨hR.await h, rfl⟩
    · split
      · exact ⟨hfailed, rfl⟩
      · exact ⟨hfailed, rfl⟩
    · split
      · exact hR.performShown h _
      · exact ⟨hfailed, rfl⟩

theorem runShown (hR : Unobserved R) (h : R m n) (printed : String) :
    Option.Rel (Paired R) (m.runShown fuel printed) (n.runShown fuel printed) := by
  induction fuel generalizing m n printed with
  | zero => exact .none
  | succ fuel ih =>
    unfold Machine.runShown
    obtain ⟨hstep, hresult⟩ := hR.stepShown h
    generalize m.stepShown = x at hstep hresult
    generalize n.stepShown = y at hstep hresult
    obtain ⟨m', text, reply⟩ := x
    obtain ⟨n', text', reply'⟩ := y
    cases hresult
    cases reply with
    | error f => exact .some ⟨hstep, rfl⟩
    | ok s =>
      have hpc : m'.pc = n'.pc := congrArg Config.pc (hR.same hstep).2.1
      cases s with
      | running => exact ih hstep _
      | _ =>
        simp only [statusLine, hpc]
        split
        · exact .some ⟨hstep, rfl⟩
        · exact .some ⟨hstep, rfl⟩

/-! ### Requests -/

theorem reboot (hR : Unobserved R) (h : R m n) : R m.reboot n.reboot := by
  have hchange := hR.change h (.ofProgram n.program) .initialized
  unfold Machine.reboot
  rw [show Config.ofProgram m.program = .ofProgram n.program by rw [(hR.same h).1],
    show m.program.image = n.program.image by rw [(hR.same h).1]]
  exact hR.note hchange _

/-- Paired results can be changed alike. -/
theorem map_paired {α β : Type} {x y : Option (Machine × α)} (h : Option.Rel (Paired R) x y)
    (f : α → β) :
    Option.Rel (Paired R) (x.map fun r => (r.1, f r.2)) (y.map fun r => (r.1, f r.2)) := by
  cases h with
  | none => exact .none
  | some hxy => exact .some ⟨hxy.1, congrArg f hxy.2⟩

/-- A request other than the collection of events is carried out alike. -/
theorem handle (hR : Unobserved R) (h : R m n) {r : Request} (hr : r ≠ .events) :
    Option.Rel (Paired R) (m.handle fuel r) (n.handle fuel r) := by
  obtain ⟨p, c, s, recording, events⟩ := m
  obtain ⟨p', c', s', recording', events'⟩ := n
  obtain ⟨hp, hc, hs⟩ := hR.same h
  dsimp only at hp hc hs
  subst hp hc hs
  cases r with
  | run shown =>
    cases shown with
    | true => exact map_paired (hR.runShown h "") fun r => (r.1, r.2.map Reply.status)
    | false => exact map_paired (hR.run h) fun r => ("", r.map Reply.status)
  | step shown =>
    cases shown with
    | true => exact map_paired (.some (hR.stepShown h)) fun r => (r.1, r.2.map Reply.status)
    | false => exact map_paired (.some (hR.step h)) fun r => ("", r.map Reply.status)
  | reboot => exact .some ⟨hR.reboot h, rfl⟩
  | feed v => exact .some ⟨hR.setConfig h _, rfl⟩
  | feedAll vs => exact .some ⟨hR.setConfig h _, rfl⟩
  | take =>
    obtain ⟨memory, pc, input, output⟩ := c
    cases output with
    | nil => exact .some ⟨h, rfl⟩
    | cons v rest => exact .some ⟨hR.setConfig h _, rfl⟩
  | drain => exact .some ⟨hR.setConfig h _, rfl⟩
  | write a v =>
    rw [handle_write, handle_write]
    by_cases ha : c.memory.Valid a
    · rw [if_pos ha, if_pos ha]
      exact .some ⟨hR.setConfig h _, rfl⟩
    · rw [if_neg ha, if_neg ha]
      exact .some ⟨h, rfl⟩
  | record on => exact .some ⟨hR.record h on, rfl⟩
  | events => exact absurd rfl hr
  | _ => exact .some ⟨h, rfl⟩

end Unobserved

/-- What survives notes, changes of configuration and status and the switch of recording survives
every request but the collection of events. -/
theorem handle_keeps {P : Machine → Prop} (hnote : ∀ m v, P m → P (m.note v))
    (hchange : ∀ m c s, P m → P { m with config := c, status := s })
    (hrecord : ∀ m on, P m → P { m with recording := on }) {r : Request} (hr : r ≠ .events)
    {m' : Machine} {printed : String} {reply : Except Failure Reply} (hm : P m)
    (h : m.handle fuel r = some (m', printed, reply)) : P m' := by
  -- a machine is paired with itself
  have hR : Unobserved fun m n => m = n ∧ P m := {
    same := by
      rintro m _ ⟨rfl, -⟩
      exact ⟨rfl, rfl, rfl⟩
    note := by
      rintro m _ ⟨rfl, hm⟩ v
      exact ⟨rfl, hnote m v hm⟩
    change := by
      rintro m _ ⟨rfl, hm⟩ c s
      exact ⟨rfl, hchange m c s hm⟩
    record := by
      rintro m _ ⟨rfl, hm⟩ on
      exact ⟨rfl, hrecord m on hm⟩ }
  have hrel : Option.Rel (Paired fun m n => m = n ∧ P m) (m.handle fuel r) (m.handle fuel r) :=
    hR.handle ⟨rfl, hm⟩ hr
  rw [h] at hrel
  cases hrel with
  | some hpaired => exact hpaired.1.2

@[simp] theorem program_note (m : Machine) (v : Event) : (m.note v).program = m.program := by
  unfold note
  split <;> rfl

/-- No request changes the program. -/
theorem handle_program {r : Request} {m' : Machine} {printed : String}
    {reply : Except Failure Reply} (h : m.handle fuel r = some (m', printed, reply)) :
    m'.program = m.program := by
  by_cases hr : r = .events
  · subst hr
    cases h
    rfl
  · exact handle_keeps (P := fun n => n.program = m.program)
      (fun n v hn => (program_note n v).trans hn) (fun _ _ _ hn => hn) (fun _ _ hn => hn) hr rfl h

/-- Everything but the record is the same. -/
def Alike (m n : Machine) : Prop :=
  m.program = n.program ∧ m.config = n.config ∧ m.status = n.status

/-- The machines are the same, but the first has older events in front of those of the second. -/
def Preceded (old : Array Event) (m n : Machine) : Prop :=
  m = { n with events := old ++ n.events }

theorem unobserved_alike : Unobserved Alike where
  same h := h
  note h v := by simpa [Alike] using h
  change h _ _ := ⟨h.1, rfl, rfl⟩
  record h _ := h

theorem unobserved_preceded (old : Array Event) : Unobserved (Preceded old) where
  same := by
    rintro _ n rfl
    exact ⟨rfl, rfl, rfl⟩
  note := by
    rintro _ n rfl v
    obtain ⟨p, c, s, recording, events⟩ := n
    cases recording <;> simp [Preceded, note]
  change := by
    rintro _ n rfl c s
    rfl
  record := by
    rintro _ n rfl on
    rfl

end Machine

/-! ### Histories -/

/-- An exchange without events: those of a reply and those recorded are left out. -/
def Exchange.visible (x : Exchange) : Exchange :=
  { x with
    reply := match x.reply with
      | .ok (.events _) => .ok (.events [])
      | reply => reply
    emitted := [] }

/-- A history in which older events come out in front of the first collected ones. -/
def olderFirst (old : List Event) : List Exchange → List Exchange
  | [] => []
  | x :: log =>
    match x.request, x.reply with
    | .events, .ok (.events es) => { x with reply := .ok (.events (old ++ es)) } :: log
    | _, _ => x :: olderFirst old log

theorem olderFirst_cons_of_ne {x : Exchange} (hx : x.request ≠ .events) (old : List Event)
    (log : List Exchange) : olderFirst old (x :: log) = x :: olderFirst old log := by
  rw [olderFirst]
  split
  · rename_i hevents _
    exact absurd hevents hx
  · rfl

namespace Machine

variable {m n : Machine} {fuel : Nat}

/-- Collecting the events takes them away and answers with them. -/
theorem serve_events (rs : List Request) :
    m.serve fuel (.events :: rs) =
      (m.collect.2.serve fuel rs).map fun s =>
        (⟨.events, "", .ok (.events m.events.toList), m.snapshot, []⟩ :: s.1, s.2) := by
  have hdrop : ([] : List Event).drop m.events.size = [] := List.drop_nil
  have hhandle : m.handle fuel .events =
    some (m.collect.2, "", .ok (.events m.events.toList)) := rfl
  rw [serve_cons_of_some hhandle]
  simp only [exchange, collect, hdrop, snapshot]

/-- What is seen of the first exchange stands in front of what is seen of the others. -/
theorem map_visible_cons (x : Exchange) (rest : Option (List Exchange × Machine)) :
    (rest.map fun s => (x :: s.1, s.2)).map (fun s => s.1.map Exchange.visible) =
      (rest.map fun s => s.1.map Exchange.visible).map (x.visible :: ·) := by
  cases rest <;> rfl

/-- The histories of machines that are alike are the same, apart from events. -/
theorem Alike.serve (h : Alike m n) (rs : List Request) :
    (m.serve fuel rs).map (fun s => s.1.map Exchange.visible) =
      (n.serve fuel rs).map fun s => s.1.map Exchange.visible := by
  induction rs generalizing m n with
  | nil => rfl
  | cons r rs ih =>
    by_cases hr : r = .events
    · subst hr
      have hnext : Alike m.collect.2 n.collect.2 := h
      have hshown : m.snapshot = n.snapshot := congrArg₂ Snapshot.mk h.2.1 h.2.2
      rw [serve_events, serve_events, map_visible_cons, map_visible_cons, ih hnext, hshown]
      rfl
    · have hrel : Option.Rel (Paired Alike) (m.handle fuel r) (n.handle fuel r) :=
        unobserved_alike.handle h hr
      simp only [Machine.serve]
      generalize m.handle fuel r = x at hrel
      generalize n.handle fuel r = y at hrel
      cases hrel with
      | none => rfl
      | @some x y hxy =>
        obtain ⟨hnext, hresult⟩ := hxy
        have hshown : x.1.snapshot = y.1.snapshot := congrArg₂ Snapshot.mk hnext.2.1 hnext.2.2
        simp only [map_visible_cons, ih hnext, exchange, hshown, hresult, Exchange.visible]

theorem Preceded.exchange {old : Array Event} {m' n' : Machine} (h : Preceded old m n)
    (h' : Preceded old m' n') (r : Request) (printed : String) (reply : Except Failure Reply) :
    m.exchange m' r printed reply = n.exchange n' r printed reply := by
  have hdrop : (old.toList ++ n'.events.toList).drop (old.size + n.events.size) =
      n'.events.toList.drop n.events.size := by
    rw [← Array.length_toList, List.drop_length_add_append]
  rw [h, h']
  simp [Machine.exchange, snapshot, hdrop]

/-- Older events come out in front of the first collected ones, and nothing else is different. -/
theorem Preceded.serve {old : Array Event} (h : Preceded old m n) (rs : List Request) :
    (m.serve fuel rs).map Prod.fst =
      (n.serve fuel rs).map fun s => olderFirst old.toList s.1 := by
  induction rs generalizing m n with
  | nil => rfl
  | cons r rs ih =>
    by_cases hr : r = .events
    · subst hr
      have hevents : m.events.toList = old.toList ++ n.events.toList := by
        rw [h, Array.toList_append]
      have hnext : m.collect.2 = n.collect.2 := by rw [h]; rfl
      have hshown : m.snapshot = n.snapshot := by rw [h]; rfl
      rw [serve_events, serve_events, hnext, hevents, hshown, Option.map_map, Option.map_map]
      rfl
    · have hrel : Option.Rel (Paired (Preceded old)) (m.handle fuel r) (n.handle fuel r) :=
        (unobserved_preceded old).handle h hr
      simp only [Machine.serve]
      generalize m.handle fuel r = x at hrel
      generalize n.handle fuel r = y at hrel
      cases hrel with
      | none => rfl
      | @some x y hxy =>
        obtain ⟨hnext, hresult⟩ := hxy
        have hne (log : List Exchange) :
            olderFirst old.toList (n.exchange y.1 r y.2.1 y.2.2 :: log) =
              n.exchange y.1 r y.2.1 y.2.2 :: olderFirst old.toList log :=
          olderFirst_cons_of_ne hr old.toList log
        calc ((x.1.serve fuel rs).map fun s => (m.exchange x.1 r x.2.1 x.2.2 :: s.1, s.2)).map
              Prod.fst
          _ = ((x.1.serve fuel rs).map Prod.fst).map (m.exchange x.1 r x.2.1 x.2.2 :: ·) := by
            rw [Option.map_map, Option.map_map]
            rfl
          _ = ((y.1.serve fuel rs).map fun s => olderFirst old.toList s.1).map
                (n.exchange y.1 r y.2.1 y.2.2 :: ·) := by
            rw [ih hnext, h.exchange hnext, hresult]
          _ = _ := by
            rw [Option.map_map, Option.map_map]
            simp only [Function.comp_def, hne]

end Machine

end Intcode

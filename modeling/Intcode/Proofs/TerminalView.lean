import Intcode.Proofs.Containment
import Intcode.Proofs.Decoding
import Intcode.Proofs.Legibility
import Intcode.Proofs.TerminalWindow

/-!
# The terminal is only a view

The terminal draws the session before every key, on a window that may be too small for it and may
refuse what is asked of it.  None of this reaches the session: a sitting ends with the session that
the keys stand for, and one that breaks off with the session of the keys before.

* `Session.Presentable`: whatever may have to be shown of a session can be written; then no
  operation fails, `advance_of_presentable`, and the listing can be drawn,
  `listingWindow_of_presentable`;
* `draw_of_presentable`: drawing does not fail;
* `Typed`: the text that a user types, given by its bytes;
* `Command.codes`: the keys of a command;
* `Deed`, `deeds`, `heed`: what a script of keys does to a session, without any window;
* `loop_heeds`, by induction on the keys: the session at the end of a sitting, or where it breaks
  off, `Sitting.BreaksOff`;
* `terminal_is_only_a_view`: all this for a whole sitting.
-/

namespace Intcode

/-! ### Sessions that can be shown -/

theorem eq_sweep_of_disassemble {m : Memory} {a : Int} {lines : List Line}
    (h : disassemble m a = .ok lines) : lines = sweep m a.toNat := by
  unfold disassemble at h
  split_ifs at h with hvalid
  · dsimp only at h
    split_ifs at h
    cases h
    rfl

namespace Session

variable {s : Session} {auto : Bool} {height : Int}

/-- Whatever may have to be shown of the session can be written: what is in its machine, and every
address in memory or up to three places behind it, where an instruction may look for a parameter. -/
def Presentable (s : Session) : Prop :=
  s.Legible ∧ Numeral.Short (s.machine.memory.size + 2)

instance (s : Session) : Decidable s.Presentable :=
  inferInstanceAs (Decidable (_ ∧ _))

theorem advance_of_presentable (h : s.Presentable) (h' : (s.next (.advance auto)).Presentable) :
    (s.advance auto).2 = .ok () := by
  cases hreply : (s.advance auto).2 with
  | ok u => rfl
  | error f =>
    obtain ⟨-, hbreaks⟩ := advance_eq_error_iff.1 hreply
    cases hbreaks with
    | naming hheld hn => exact absurd hn (h.1.1.next_ne_overlong h.2)
    | logging hheld hx hl =>
      have hconfig : (s.next (.advance auto)).machine.config = s.stepped.machine.config := by
        simp [config_next, completed, hheld, Operation.typed, config_step]
      exact absurd (legible_stepped h.1 (hconfig ▸ h'.1.1) _ hx) hl

/-- The lines of a listing window are lines of a listing. -/
theorem mem_sweep_of_listingWindow {lines : List Line} {cursor : Int} {l : Line}
    (h : s.listingWindow height = .ok (lines, cursor)) (hl : l ∈ lines) :
    ∃ a, l ∈ sweep s.machine.memory a := by
  obtain ⟨whole, hwhole, h⟩ := bind_eq_ok_iff.1 h
  split_ifs at h with hpc
  · dsimp only at h
    split at h
    · rw [pure_bind] at h
      cases h
      exact ⟨_, eq_sweep_of_disassemble hwhole ▸ mem_of_mem_slice hl⟩
    · obtain ⟨anew, hanew, h⟩ := bind_eq_ok_iff.1 h
      rw [pure_bind] at h
      cases h
      exact ⟨_, eq_sweep_of_disassemble hanew ▸ mem_of_mem_slice hl⟩
  · cases h
    exact ⟨_, eq_sweep_of_disassemble hwhole ▸ mem_of_mem_slice hl⟩

/-- The lines of a listing of a presentable session can be written. -/
theorem render_of_presentable (h : s.Presentable) {a : Nat} {l : Line}
    (hl : l ∈ sweep s.machine.memory a) : l.render = .ok l.text := by
  obtain ⟨b, hb, rfl⟩ := exists_lineAt_of_mem_sweep hl
  refine if_pos (Numeral.allShort_eq_true.2 (List.forall_mem_cons.2 ⟨?_, fun v hv => ?_⟩))
  · rw [address_lineAt]
    exact h.2.of_natAbs_le (by omega)
  · exact h.1.1.1 v (mem_of_mem_words_lineAt hv)

/-- A presentable session can be listed. -/
theorem listingWindow_of_presentable (hm : 0 < s.machine.memory.size) (h : s.Presentable)
    (height : Int) :
    ∃ lines cursor, s.listingWindow height = .ok (lines, cursor) ∧
      ∀ l ∈ lines, l.render = .ok l.text := by
  cases hwindow : s.listingWindow height with
  | error f =>
    obtain ⟨-, hlist | ⟨-, -, hlist⟩⟩ := (listingWindow_eq_error_iff hm).1 hwindow
    · exact absurd (listable_of_short h.1.1.1 _) hlist
    · exact absurd (listable_of_short h.1.1.1 _) hlist
  | ok window =>
    refine ⟨window.1, window.2, rfl, fun l hl => ?_⟩
    obtain ⟨a, ha⟩ := mem_sweep_of_listingWindow hwindow hl
    exact render_of_presentable h ha

end Session

namespace Terminal

variable {screen : Screen} {v v' : View} {y x : Int} {style : Style} {code : Int}
  {keys : List Int} {answers : List (List UInt8)}

/-! ### Drawing -/

theorem isOk_putText {text : Except Failure String} (h : text.isOk = true) :
    ∀ r ∈ putText screen y x style text, r.isOk = true := by
  cases text with
  | error f => cases h
  | ok text =>
    intro r hr
    obtain ⟨a, -, rfl⟩ := List.mem_map.1 hr
    rfl

theorem isOk_map_ok {actions : List Action} :
    ∀ r ∈ actions.map (.ok : Action → Except Failure Action), r.isOk = true := by
  intro r hr
  obtain ⟨a, -, rfl⟩ := List.mem_map.1 hr
  rfl

/-- A presentable session can be drawn on every window. -/
theorem draw_of_presentable (screen : Screen) (hm : 0 < v.session.machine.memory.size)
    (h : v.session.Presentable) : ∃ drawn, v.draw screen = (drawn, none) := by
  obtain ⟨lines, cursor, hwindow, hlines⟩ :=
    Session.listingWindow_of_presentable hm h (listingRows screen)
  have hlisting : ∀ r ∈ drawListing screen 2 lines cursor, r.isOk = true := by
    intro r hr
    obtain ⟨rows, hrows, hr⟩ := List.mem_flatten.1 hr
    obtain ⟨⟨l, index⟩, hl, rfl⟩ := List.mem_map.1 hrows
    refine isOk_putText ?_ r hr
    rw [hlines l (List.fst_mem_of_mem_zipIdx hl)]
    rfl
  have hstatus : v.session.statusLine.isOk = true := by
    have hpc : Numeral.Short v.session.machine.pc := h.1.1.2.1
    rw [Session.statusLine, if_pos hpc]
    rfl
  have houtput : v.session.outputLine.isOk = true := by
    have hshort : Numeral.allShort v.session.machine.config.output = true :=
      Numeral.allShort_eq_true.2 h.1.1.2.2
    dsimp only [Session.outputLine]
    rw [if_pos hshort]
    rfl
  have hpanels : ∀ r ∈ v.drawPanels screen (3 + lines.length), r.isOk = true := by
    simp only [View.drawPanels, List.forall_mem_append]
    exact ⟨⟨⟨⟨isOk_putText hstatus, isOk_map_ok⟩, isOk_putText houtput⟩, isOk_map_ok⟩, isOk_map_ok⟩
  refine ⟨_, Prod.ext rfl (untilFailure_of_isOk ?_)⟩
  rw [hwindow]
  simp only [List.forall_mem_append, List.forall_mem_cons]
  exact ⟨⟨⟨rfl, isOk_map_ok⟩, hlisting, hpanels⟩, rfl, by simp⟩

/-! ### What is typed -/

/-- A user who types these bytes types this text: what can be read from the first twenty of them. -/
def Typed (bytes : List UInt8) (text : String) : Prop :=
  Text.Reads (bytes.take 20) text.toList

theorem typed_iff {bytes : List UInt8} {text : String} :
    Typed bytes text ↔ text = typedText bytes := by
  rw [Typed, Text.reads_iff, String.toList_inj]
  rfl

/-- One text is typed, whatever the bytes are. -/
theorem existsUnique_typed (bytes : List UInt8) : ∃! text, Typed bytes text :=
  ⟨typedText bytes, typed_iff.2 rfl, fun _ => typed_iff.1⟩

/-! ### What the keys stand for -/

/-- The keys of a command. -/
def Command.codes : Command → List Int
  | .quit => ['q', 'Q'].map fun c => (c.toNat : Int)
  | .idle => [-1]
  | .toggle => [' ', 'p', 'P'].map fun c => (c.toNat : Int)
  | .step => (['n'].map fun c => (c.toNat : Int)) ++ [rightArrow]
  | .input => ['i', 'I'].map fun c => (c.toNat : Int)
  | .reset => ['r', 'R'].map fun c => (c.toNat : Int)
  | .events => ['e', 'E'].map fun c => (c.toNat : Int)
  | .unknown => []

/-- Every key has one command, and those without one are unknown. -/
theorem Command.ofKey_eq_iff {c : Command} (hc : c ≠ .unknown) :
    Command.ofKey code = c ↔ code ∈ c.codes := by
  constructor
  · have hmem : ∀ letters : List Char, (letters.any fun c => (c.toNat : Int) == code) = true →
        code ∈ letters.map fun c => (c.toNat : Int) := by
      intro letters h
      simpa using h
    rintro rfl
    unfold Command.ofKey at hc ⊢
    dsimp only at hc ⊢
    split_ifs at hc ⊢ with hidle hquit htoggle hstep hinput hreset hevents
    · simpa [Command.codes] using hidle
    · exact hmem _ hquit
    · exact hmem _ htoggle
    · rw [Bool.or_eq_true] at hstep
      rcases hstep with h | h
      · exact List.mem_append_left _ (hmem _ h)
      · exact List.mem_append_right _ (by simpa using h)
    · exact hmem _ hinput
    · exact hmem _ hreset
    · exact hmem _ hevents
    · exact absurd rfl hc
  · have hall : ∀ code ∈ c.codes, Command.ofKey code = c := by cases c <;> decide
    exact hall code

/-- What a key can do to a session. -/
inductive Deed
  /-- Carry out an operation. -/
  | operate (op : Session.Operation)
  /-- Execute an instruction if the session runs by itself. -/
  | goOn
  /-- Tell the user something. -/
  | say (message : String)

/-- The session after a deed. -/
def heed (s : Session) : Deed → Session
  | .operate op => s.next op
  | .goOn => if s.auto then s.next (.advance true) else s
  | .say message => { s with message }

/-- What the keys stand for, up to the first one that ends the sitting.  A key that asks for a value
takes the next text; `shown` tells whether the event log is visible. -/
def deeds : (shown : Bool) → (texts : List String) → List Int → List Deed
  | _, _, [] => []
  | shown, texts, code :: keys =>
    match Command.ofKey code with
    | .quit => []
    | .idle => .goOn :: deeds shown texts keys
    | .toggle => .operate .toggle :: deeds shown texts keys
    | .step => .operate (.advance false) :: deeds shown texts keys
    | .input => .operate (.input (texts.headD "")) :: deeds shown texts.tail keys
    | .reset => .operate .reset :: deeds shown texts keys
    | .events =>
      .say (if shown then "Events hidden." else "Events visible.") :: deeds (!shown) texts keys
    | .unknown => .say ("Unhandled key: " ++ Numeral.write code ++ ".") :: deeds shown texts keys

/-! ### Sittings -/

/-- Nothing is typed when there are no answers left. -/
theorem headD_of_typed {texts : List String} (h : List.Forall₂ Typed answers texts) :
    typedText (answers.headD []) = texts.headD "" := by
  cases h with
  | nil => rfl
  | cons hhead htail => exact (typed_iff.1 hhead).symm

theorem tail_of_typed {texts : List String} (h : List.Forall₂ Typed answers texts) :
    List.Forall₂ Typed answers.tail texts.tail := by
  cases h with
  | nil => exact .nil
  | cons hhead htail => exact htail

/-- A key does to a presentable session what it stands for, and nothing else. -/
theorem obey_heeds {texts : List String} (v : View) (hquit : Command.ofKey code ≠ .quit)
    (htyped : List.Forall₂ Typed answers texts) :
    ∃ deed shown,
      (∀ keys, deeds v.showEvents texts (code :: keys) =
        deed :: deeds shown (if Command.ofKey code = .input then texts.tail else texts) keys) ∧
      (v.session.Presentable → (heed v.session deed).Presentable →
        v.obey code (answers.headD []) = (⟨heed v.session deed, shown⟩, none)) := by
  have hadvance : ∀ auto, v.session.Presentable → (v.session.next (.advance auto)).Presentable →
      v.session.advance auto = (v.session.next (.advance auto), .ok ()) :=
    fun auto h h' => Prod.ext rfl (Session.advance_of_presentable h h')
  cases hcommand : Command.ofKey code with
  | quit => exact absurd hcommand hquit
  | idle =>
    refine ⟨.goOn, v.showEvents, fun keys => by simp [deeds, hcommand], fun h h' => ?_⟩
    unfold heed at h' ⊢
    dsimp only at h' ⊢
    split_ifs at h' ⊢ with hauto
    · simp only [View.obey, hcommand, hauto, hadvance true h h', if_true]
    · simp only [View.obey, hcommand, if_neg hauto]
  | step =>
    refine ⟨.operate (.advance false), v.showEvents, fun keys => by simp [deeds, hcommand],
      fun h h' => ?_⟩
    simp only [View.obey, hcommand, hadvance false h h', heed]
  | toggle =>
    refine ⟨.operate .toggle, v.showEvents, fun keys => by simp [deeds, hcommand], fun _ _ => ?_⟩
    simp only [View.obey, hcommand]
    rfl
  | input =>
    refine ⟨.operate (.input (texts.headD "")), v.showEvents, fun keys => by simp [deeds, hcommand],
      fun _ _ => ?_⟩
    simp only [View.obey, hcommand, headD_of_typed htyped]
    rfl
  | reset =>
    refine ⟨.operate .reset, v.showEvents, fun keys => by simp [deeds, hcommand], fun _ _ => ?_⟩
    simp only [View.obey, hcommand]
    rfl
  | events =>
    refine ⟨.say (if v.showEvents then "Events hidden." else "Events visible."), !v.showEvents,
      fun keys => by simp [deeds, hcommand], fun _ _ => ?_⟩
    simp only [View.obey, hcommand, heed]
    cases v.showEvents <;> rfl
  | unknown =>
    refine ⟨.say ("Unhandled key: " ++ Numeral.write code ++ "."), v.showEvents,
      fun keys => by simp [deeds, hcommand], fun _ _ => ?_⟩
    simp only [View.obey, hcommand, heed]

theorem nonempty_heed {s : Session} (h : 0 < s.machine.memory.size) (deed : Deed) :
    0 < (heed s deed).machine.memory.size := by
  cases deed with
  | operate op => exact Session.nonempty_next h op
  | goOn =>
    dsimp only [heed]
    split_ifs
    · exact Session.nonempty_next h _
    · exact h
  | say message => exact h

theorem mem_scanl_self (s : Session) (ds : List Deed) : s ∈ ds.scanl heed s := by
  cases ds <;> simp

/-- A sitting breaks off because the window refuses it an action that it cannot do without.  Of a
script, of which `earlier` keys have been read before, it has read some keys.  It has obeyed all of
these, except that the last may ask for a value and the window refuses to ask for it. -/
structure Sitting.BreaksOff (surface : Surface) (shown : Bool) (texts : List String)
    (keys : List Int) (s : Session) (earlier : List Int) (r : Sitting) : Prop where
  refused : ∃ action, r.breakdown = some (.refused action) ∧ action.Vital ∧
    surface.refuses r.actions.reverse action = true
  obeyed : ∃ read obeyed, read <+: keys ∧ keysRead r.actions = earlier ++ read ∧
    (read = obeyed ∨ ∃ code ∈ Command.input.codes, read = obeyed ++ [code]) ∧
    r.view.session = (deeds shown texts obeyed).foldl heed s

section

variable {surface : Surface} {before done : List Action} {texts : List String}

/-- A view that is not shown breaks the sitting off: no key is obeyed any more. -/
theorem breaksOff_of_show {b : Breakdown} (hdraw : (v.draw surface.toScreen).2 = none)
    (hshow : v.show surface before (keys.headD 'q'.toNat) = .error (done, b)) :
    (View.loop surface before keys answers v).BreaksOff surface v.showEvents texts keys v.session
      (keysRead before.reverse) := by
  have hloop : View.loop surface before keys answers v = ⟨done.reverse, v, some b⟩ := by
    rw [View.loop, hshow]
  obtain ⟨action, rfl, hread⟩ := keysRead_of_refused hdraw hshow
  have hbreakdown : (View.loop surface before keys answers v).breakdown = some (.refused action) :=
    by rw [hloop]
  refine ⟨⟨action, hbreakdown, refused_of_loop hbreakdown⟩, ?_⟩
  rw [hloop]
  rcases hread with hread | ⟨hask, hread⟩
  · exact ⟨[], [], List.nil_prefix, hread.trans (List.append_nil _).symm, .inl rfl, rfl⟩
  · cases keys with
    | nil => exact absurd hask (by decide)
    | cons code keys =>
      have hcode := (Command.ofKey_eq_iff (by decide)).1 hask
      exact ⟨[code], [], ⟨keys, rfl⟩, hread, .inr ⟨code, hcode, rfl⟩, rfl⟩

/-- The terminal goes on with what a key has made of the session. -/
theorem loop_cons (keys : List Int) (hshow : v.show surface before code = .ok done)
    (hquit : Command.ofKey code ≠ .quit) (hobey : v.obey code (answers.headD []) = (v', none)) :
    View.loop surface before (code :: keys) answers v =
      View.loop surface done keys (if Command.ofKey code = .input then answers.tail else answers)
        v' := by
  rw [View.loop, List.headD_cons, hshow]
  dsimp only
  split
  · exact absurd ‹_› hquit
  · rw [hobey]

/-- The terminal ends with the session that the keys stand for, or breaks off: the keys are obeyed
one by one, and what is drawn before each of them is the session that the keys before have left. -/
theorem loop_heeds (hm : 0 < v.session.machine.memory.size)
    (htyped : List.Forall₂ Typed answers texts)
    (h : ∀ s ∈ (deeds v.showEvents texts keys).scanl heed v.session, s.Presentable) :
    (View.loop surface before keys answers v).breakdown = none ∧
        (View.loop surface before keys answers v).view.session =
          (deeds v.showEvents texts keys).foldl heed v.session ∨
      (View.loop surface before keys answers v).BreaksOff surface v.showEvents texts keys v.session
        (keysRead before.reverse) := by
  -- the answers and the visibility of the log change with the keys, so the view is generalized too
  induction keys generalizing before answers texts v with
  | nil =>
    obtain ⟨drawn, hdraw⟩ := draw_of_presentable surface.toScreen hm (h _ (mem_scanl_self _ _))
    cases hshow : v.show surface before 'q'.toNat with
    | error broken => exact .inr (breaksOff_of_show (by rw [hdraw]) hshow)
    | ok done =>
      left
      rw [View.loop, List.headD_nil, hshow]
      exact ⟨rfl, rfl⟩
  | cons code keys ih =>
    have hself := h _ (mem_scanl_self _ _)
    obtain ⟨drawn, hdraw⟩ := draw_of_presentable surface.toScreen hm hself
    cases hshow : v.show surface before code with
    | error broken => exact .inr (breaksOff_of_show (by rw [hdraw]) hshow)
    | ok done =>
      by_cases hquit : Command.ofKey code = .quit
      · left
        rw [View.loop, List.headD_cons, hshow]
        simp only [deeds, hquit, List.foldl_nil, and_self]
      · -- the session after the key is on the way too, so that obeying the key does not fail
        obtain ⟨deed, shown, hdeeds, hobey⟩ := obey_heeds v hquit htyped
        rw [hdeeds, List.scanl_cons, List.forall_mem_cons] at h
        have hnext := h.2 _ (mem_scanl_self _ _)
        rw [loop_cons keys hshow hquit (hobey hself hnext), hdeeds]
        have htyped' : List.Forall₂ Typed
            (if Command.ofKey code = .input then answers.tail else answers)
            (if Command.ofKey code = .input then texts.tail else texts) := by
          split_ifs
          · exact tail_of_typed htyped
          · exact htyped
        rcases ih (v := ⟨heed v.session deed, shown⟩) (nonempty_heed hm deed) htyped' h.2 with
          hends | hbreaks
        · exact .inl hends
        · obtain ⟨read, obeyed, hkeys, hread, hobeyed, hsession⟩ := hbreaks.obeyed
          refine .inr ⟨hbreaks.refused, code :: read, code :: obeyed,
            List.prefix_cons_inj code |>.2 hkeys, ?_, ?_, ?_⟩
          · rw [hread, keysRead_of_show hshow, List.append_assoc, List.singleton_append]
          · rcases hobeyed with rfl | ⟨asks, hasks, rfl⟩
            · exact .inl rfl
            · exact .inr ⟨asks, hasks, rfl⟩
          · rw [hdeeds]
            exact hsession

/-- A sitting whose first request is refused breaks off before any key. -/
theorem run_heeds {m : Machine} {maxSteps : Option Int} (screen : Surface)
    (hm : 0 < m.memory.size) (htyped : List.Forall₂ Typed answers texts)
    (h : ∀ s ∈ (deeds true texts keys).scanl heed (.start m maxSteps), s.Presentable) :
    (run screen keys answers m maxSteps).breakdown = none ∧
        (run screen keys answers m maxSteps).view.session =
          (deeds true texts keys).foldl heed (.start m maxSteps) ∨
      (run screen keys answers m maxSteps).BreaksOff screen true texts keys
        (.start m maxSteps) [] := by
  rcases run_cases screen keys answers m maxSteps with ⟨-, hrun⟩ | ⟨hrefuses, hrun⟩
  · rw [hrun]
    exact loop_heeds (v := ⟨.start m maxSteps, true⟩) hm htyped h
  · rw [hrun]
    exact .inr ⟨⟨.cursor false, rfl, trivial, hrefuses⟩, [], [], List.nil_prefix, rfl, .inl rfl, rfl⟩

end

/-- An obliging window breaks no sitting off. -/
theorem Sitting.BreaksOff.not_obliging {surface : Surface} {r : Sitting} {shown : Bool}
    {texts : List String} {s : Session} {earlier : List Int}
    (h : r.BreaksOff surface shown texts keys s earlier) : ¬ surface.Obliging := by
  intro hobliging
  obtain ⟨action, -, hvital, hrefuses⟩ := h.refused
  rw [hobliging _ _ hvital] at hrefuses
  cases hrefuses

/-- **The terminal is only a view.**  Take any script of keys and answers, and any machine with a
memory, such that nothing on the way of the session gets too long to be shown.  On every window,
whatever its size and whichever writes it refuses, a sitting writes only in rows of the window.  It
ends with the session that the keys stand for, unless the window refuses it an action that it cannot
do without; then the sitting breaks off, with the session that the keys obeyed so far stand for.  So
on windows that refuse nothing but writes, the window does not matter for the session. -/
theorem terminal_is_only_a_view {m : Machine} {maxSteps : Option Int} {keys : List Int}
    {answers : List (List UInt8)} {texts : List String} (hm : 0 < m.memory.size)
    (htyped : List.Forall₂ Typed answers texts)
    (h : ∀ s ∈ (deeds true texts keys).scanl heed (.start m maxSteps), s.Presentable) :
    (∀ screen : Surface,
      ((run screen keys answers m maxSteps).breakdown = none ∧
          (run screen keys answers m maxSteps).view.session =
            (deeds true texts keys).foldl heed (.start m maxSteps) ∨
        (run screen keys answers m maxSteps).BreaksOff screen true texts keys
          (.start m maxSteps) []) ∧
      ∀ a ∈ (run screen keys answers m maxSteps).actions, a.Inside screen.toScreen) ∧
    (∀ screen : Surface, screen.Obliging →
      (run screen keys answers m maxSteps).breakdown = none ∧
      (run screen keys answers m maxSteps).view.session =
        (deeds true texts keys).foldl heed (.start m maxSteps)) ∧
    (∀ screen screen' : Surface, screen.Obliging → screen'.Obliging →
      (run screen keys answers m maxSteps).view.session =
        (run screen' keys answers m maxSteps).view.session) ∧
    (∀ code c, c ≠ .unknown → (Command.ofKey code = c ↔ code ∈ c.codes)) ∧
    ∀ bytes, ∃! text, Typed bytes text := by
  have hobliging : ∀ screen : Surface, screen.Obliging →
      (run screen keys answers m maxSteps).breakdown = none ∧
      (run screen keys answers m maxSteps).view.session =
        (deeds true texts keys).foldl heed (.start m maxSteps) := by
    intro screen hscreen
    rcases run_heeds screen hm htyped h with hends | hbreaks
    · exact hends
    · exact absurd hscreen hbreaks.not_obliging
  refine ⟨fun screen => ⟨run_heeds screen hm htyped h, inside_of_mem_run⟩, hobliging, ?_,
    fun code c => Command.ofKey_eq_iff, existsUnique_typed⟩
  intro screen screen' hscreen hscreen'
  rw [(hobliging screen hscreen).2, (hobliging screen' hscreen').2]

/-- A program that reads a value and writes it. -/
def echoing : Program :=
  ⟨"3,0,4,0,99", #[3, 0, 4, 0, 99], by rfl⟩

/-- A window of one place that refuses every write. -/
def pinhole : Surface where
  height := 1
  width := 1
  refuses
    | _, .write .. => true
    | _, _ => false

theorem obliging_pinhole : pinhole.Obliging := by
  intro before action h
  cases action with
  | write => exact h.elim
  | _ => rfl

/-- The user types a value, lets the session run, hides the log, presses a key without meaning and
leaves; the last key is not read. -/
def glance : List Int :=
  ['i'.toNat, 'p'.toNat, -1, 'E'.toNat, -1, 'x'.toNat, 'q'.toNat, 'r'.toNat]

/-- The session of this user, who types a seven and a byte that is no character, has executed two
instructions, also behind a pinhole. -/
theorem glance_through_pinhole :
    (run pinhole glance [[0x37, 0xff]] (.ofProgram echoing false) none).view.session.steps = 2 ∧
      (run pinhole glance [[0x37, 0xff]] (.ofProgram echoing false) none).view.session =
        (run (Screen.mk 24 80) glance [[0x37, 0xff]] (.ofProgram echoing false)
          none).view.session := by
  have hm : 0 < (Machine.ofProgram echoing false).memory.size := by decide +kernel
  have htyped : List.Forall₂ Typed [[0x37, 0xff]] ["7"] :=
    .cons (typed_iff.2 (by decide +kernel)) .nil
  have hpresentable : ∀ s ∈ (deeds true ["7"] glance).scanl heed
      (.start (.ofProgram echoing false) none), s.Presentable := by
    decide +kernel
  have hsteps : ((deeds true ["7"] glance).foldl heed
      (.start (.ofProgram echoing false) none)).steps = 2 := by
    decide +kernel
  obtain ⟨-, hview, hsame, -⟩ := terminal_is_only_a_view hm htyped hpresentable
  exact ⟨(congrArg Session.steps (hview pinhole obliging_pinhole).2).trans hsteps,
    hsame pinhole (Screen.mk 24 80) obliging_pinhole (obliging_surface _)⟩

/-- On a terminal that cannot hide its cursor no key is read. -/
example :
    run ⟨⟨24, 80⟩, fun _ action => action == .cursor false⟩ glance [] (.ofProgram echoing false) none =
      ⟨[], ⟨.start (.ofProgram echoing false) none, true⟩, some (.refused (.cursor false))⟩ := rfl

end Terminal

end Intcode

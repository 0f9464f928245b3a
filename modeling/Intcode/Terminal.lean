import Intcode.Session
import Intcode.Text.Utf8

/-!
# The terminal front end

A session shown on a text screen and driven by keys.  The screen redraws before every
key.  What the front end does to the screen is a list of actions; the session changes
only by the operations that the keys stand for.

* `Screen`, `Action`: the size of the window and what can be done to it;
* `Surface`, `Breakdown`, `Surface.carryOut`: a window that may refuse what is asked of it, and what
  becomes of the actions there;
* `Command`, `Command.ofKey`: what the keys stand for;
* `View`, `View.draw`: the session and the drawing of it;
* `View.show`, `View.obey`: what is done to the window for one key, and to the session;
* `View.loop`, `run`: all keys, a whole sitting.
-/

namespace Intcode.Terminal

/-- The size of the window, in rows and columns. -/
structure Screen where
  height : Int
  width : Int

/-- How text is shown. -/
inductive Style
  | normal
  | reverse
  deriving DecidableEq, Repr

/-- One thing done to the window or the keyboard. -/
inductive Action
  /-- Show or hide the cursor. -/
  | cursor (visible : Bool)
  /-- Show what is typed, or stop showing it. -/
  | echo (on : Bool)
  /-- Clear the window. -/
  | erase
  /-- Make the drawing visible. -/
  | refresh
  /-- Set how long to wait for a key, in milliseconds; a negative time is without end. -/
  | timeout (ms : Int)
  /-- A key was read. -/
  | key (code : Int)
  /-- A line of at most `limit` bytes was read at a place. -/
  | readLine (y x limit : Int)
  /-- At most `limit` characters of a text were written at a place. -/
  | write (y x limit : Int) (style : Style) (text : String)
  /-- Writing failed. -/
  | writeFailed (y x : Int)
  deriving DecidableEq, Repr

/-- A window.  It may refuse what is asked of it, at any time and for any reason. -/
structure Surface extends Screen where
  /-- Whether an action fails, after the actions `before`, of which the latest comes first. -/
  refuses (before : List Action) (action : Action) : Bool

/-- The window of a given size that refuses to be written on right of it, and nothing else. -/
def Screen.surface (s : Screen) : Surface where
  toScreen := s
  refuses
    | _, .write _ x _ _ _ => decide (s.width ≤ x)
    | _, _ => false

instance : Coe Screen Surface := ⟨Screen.surface⟩

/-- Why a sitting breaks off. -/
inductive Breakdown
  /-- A text cannot be written, or an operation fails. -/
  | failed (failure : Failure)
  /-- The window refuses something other than a write. -/
  | refused (action : Action)
  deriving DecidableEq, Repr

/-- What becomes of an action on a window.  A refused write is recorded as such, and keys and lines
are always delivered; without the other actions there is no going on. -/
def Surface.answer (screen : Surface) (before : List Action) (action : Action) : Option Action :=
  if screen.refuses before action then
    match action with
    | .cursor _ | .echo _ | .erase | .refresh | .timeout _ => none
    | .write y x _ _ _ => some (.writeFailed y x)
    | .key _ | .readLine .. | .writeFailed .. => some action
  else some action

/-- Carry out actions on a window, up to the first without which there is no going on.  A refused
write is passed over: the actions after it are carried out as they are without it.  The answer is
all that has been done, the latest first. -/
def Surface.carryOut (screen : Surface) (before : List Action) :
    List Action → Except (List Action × Breakdown) (List Action)
  | [] => .ok before
  | action :: actions =>
    match screen.answer before action with
    | some done => screen.carryOut (done :: before) actions
    | none => .error (before, .refused action)

/-- What a key stands for. -/
inductive Command
  /-- End the sitting. -/
  | quit
  /-- No key came in time: a running session goes on. -/
  | idle
  /-- Start or pause running. -/
  | toggle
  /-- Execute one instruction. -/
  | step
  /-- Ask for an input value. -/
  | input
  /-- Start again. -/
  | reset
  /-- Show or hide the event log. -/
  | events
  /-- The key has no meaning. -/
  | unknown
  deriving DecidableEq, Repr

/-- The code of the right arrow key. -/
def rightArrow : Int := 261

/-- The command of a key code. -/
def Command.ofKey (code : Int) : Command :=
  let isOneOf (keys : List Char) := keys.any fun c => (c.toNat : Int) == code
  if code == -1 then idle
  else if isOneOf ['q', 'Q'] then quit
  else if isOneOf [' ', 'p', 'P'] then toggle
  else if isOneOf ['n'] || code == rightArrow then step
  else if isOneOf ['i', 'I'] then input
  else if isOneOf ['r', 'R'] then reset
  else if isOneOf ['e', 'E'] then events
  else unknown

/-- A session as the terminal shows it. -/
structure View where
  session : Session
  /-- Whether the event log is visible. -/
  showEvents : Bool

/-! ### Drawing -/

/-- Write a text at a place.  Rows outside the window are skipped. -/
def put (screen : Screen) (y x : Int) (style : Style) (text : String) : List Action :=
  if 0 ≤ y ∧ y < screen.height then [.write y x (max 0 (screen.width - x - 1)) style text] else []

/-- Write a text that may be impossible to write. -/
def putText (screen : Screen) (y x : Int) (style : Style) :
    Except Failure String → List (Except Failure Action)
  | .ok text => (put screen y x style text).map .ok
  | .error f => [.error f]

/-- The help line at the top. -/
def titleText : String :=
  "Intcode (SPACE: run/pause, n: step, i: input, r: reboot, q: quit)"

/-- The number of listing rows that fit a window. -/
def listingRows (screen : Screen) : Int :=
  min 14 (max 1 (screen.height - 12))

/-- The lines of a listing from a row on, the one at the cursor marked. -/
def drawListing (screen : Screen) (row : Int) (lines : List Line) (cursor : Int) :
    List (Except Failure Action) :=
  (lines.zipIdx.map fun (line, index) =>
    let marked : Bool := (index : Int) == cursor
    putText screen (row + index) 0 (if marked then .reverse else .normal)
      (line.render.map ((if marked then "→" else " ") ++ ·))).flatten

/-- The event log from a row on, the latest line first. -/
def drawEvents (screen : Screen) (row : Int) (log : List String) : List Action :=
  put screen row 0 .normal "Events:" ++
    ((latest 6 log).reverse.zipIdx.map fun (text, index) =>
      put screen (row + 1 + index) 2 .normal text).flatten

/-- Everything below the listing, from a row on. -/
def View.drawPanels (v : View) (screen : Screen) (row : Int) : List (Except Failure Action) :=
  let s := v.session
  putText screen row 0 .normal s.statusLine ++
    (put screen (row + 2) 0 .normal "Output:").map .ok ++
    putText screen (row + 3) 2 .normal s.outputLine ++
    (if v.showEvents then drawEvents screen (row + 5) s.log
      else put screen (row + 5) 0 .normal "Events: <hidden>").map .ok ++
    (put screen (screen.height - 2) 0 .normal
      (String.ofList (slice s.message.toList 0 (screen.width - 1)))).map .ok

/-- The drawing of a view, up to the first text that cannot be written. -/
def View.draw (v : View) (screen : Screen) : List Action × Option Failure :=
  untilFailure <|
    .ok .erase :: (put screen 0 0 .normal titleText).map .ok ++
      (match v.session.listingWindow (listingRows screen) with
        | .error f => [.error f]
        | .ok (lines, cursor) =>
          drawListing screen 2 lines cursor ++ v.drawPanels screen (3 + lines.length)) ++
      [.ok .refresh]

/-! ### Keys -/

/-- The text before a typed value. -/
def promptText : String := "Input value: "

/-- The number of bytes that a typed value may have. -/
def promptLimit : Nat := 20

/-- The actions of asking for a value. -/
def promptActions (screen : Screen) : List Action :=
  put screen (screen.height - 1) 0 .normal promptText ++
    [.echo true, .cursor true, .timeout (-1),
      .readLine (screen.height - 1) promptText.length promptLimit, .echo false, .cursor false]

/-- How long to wait for a key: a running session goes on by itself. -/
def View.patience (v : View) : Int :=
  if v.session.auto then 120 else -1

/-- Show a view and read a key, and a value if the key asks for one. -/
def View.show (screen : Surface) (before : List Action) (v : View) (code : Int) :
    Except (List Action × Breakdown) (List Action) :=
  let (drawn, failure) := v.draw screen.toScreen
  match screen.carryOut before drawn, failure with
  | .error broken, _ => .error broken
  | .ok before, some f => .error (before, .failed f)
  | .ok before, none =>
    let asked := if Command.ofKey code = .input then promptActions screen.toScreen else []
    screen.carryOut before (.timeout v.patience :: .key code :: asked)

/-- The text that a user typed at a prompt. -/
def typedText (bytes : List UInt8) : String :=
  Text.decodeLossy (bytes.take promptLimit)

/-- Carry out a command that does not end the sitting; `answer` is what the user types if asked. -/
def View.obey (v : View) (code : Int) (answer : List UInt8) : View × Option Failure :=
  let s := v.session
  match Command.ofKey code with
  | .idle =>
    if s.auto then
      match s.advance true with
      | (s, .ok ()) => ({ v with session := s }, none)
      | (s, .error f) => ({ v with session := s }, some f)
    else (v, none)
  | .toggle => ({ v with session := s.toggleAuto }, none)
  | .step =>
    match s.advance false with
    | (s, .ok ()) => ({ v with session := s }, none)
    | (s, .error f) => ({ v with session := s }, some f)
  | .input => ({ v with session := (s.provideInput (typedText answer)).1 }, none)
  | .reset => ({ v with session := s.reset }, none)
  | .events =>
    let shown := !v.showEvents
    let message := if shown then "Events visible." else "Events hidden."
    ({ v with session := { s with message }, showEvents := shown }, none)
  | .unknown =>
    let message := "Unhandled key: " ++ Numeral.write code ++ "."
    ({ v with session := { s with message } }, none)
  | .quit => (v, none)

/-- A sitting: what was done to the window, the view at the end, and why it broke off. -/
structure Sitting where
  actions : List Action
  view : View
  breakdown : Option Breakdown

/-- The failure that a sitting broke off with, if it was not refused anything. -/
def Sitting.failure (r : Sitting) : Option Failure :=
  match r.breakdown with
  | some (.failed f) => some f
  | _ => none

/-- Draw, read a key and obey it, until one of the keys ends the sitting.  When the keys have run
out, the next one read is the one that ends it. -/
def View.loop (screen : Surface) (before : List Action) :
    List Int → List (List UInt8) → View → Sitting
  | keys, answers, v =>
    match v.show screen before (keys.headD 'q'.toNat) with
    | .error (before, breakdown) => ⟨before.reverse, v, some breakdown⟩
    | .ok before =>
      match keys with
      | [] => ⟨before.reverse, v, none⟩
      | code :: keys =>
        match Command.ofKey code with
        | .quit => ⟨before.reverse, v, none⟩
        | command =>
          match v.obey code (answers.headD []) with
          | (v, some f) => ⟨before.reverse, v, some (.failed f)⟩
          | (v, none) =>
            View.loop screen before keys (if command = .input then answers.tail else answers) v

/-- A whole sitting on a machine. -/
def run (screen : Surface) (keys : List Int) (answers : List (List UInt8)) (m : Machine)
    (maxSteps : Option Int) : Sitting :=
  let v : View := ⟨.start m maxSteps, true⟩
  match screen.carryOut [] [.cursor false] with
  | .error (before, breakdown) => ⟨before.reverse, v, some breakdown⟩
  | .ok before => View.loop screen before keys answers v

end Intcode.Terminal

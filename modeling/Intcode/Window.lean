import Intcode.Session

/-!
# The window front end

A session shown in a window and driven by events that arrive frame by frame.  While
the program waits for input, digits typed into the window are collected and queued by
the enter key; all other keys are commands.

* `Input`: what can happen between two frames;
* `Action`: what the front end does to the window;
* `View`, `View.key`, `View.input`: the session and what one event does to it;
* `View.draw`: the drawing of a frame;
* `View.loop`, `run`: frame after frame, and a whole sitting.
-/

namespace Intcode.Window

/-- Something that happened in the window. -/
inductive Input
  /-- The window is to be closed. -/
  | close
  /-- A key was pressed: its code, and the text it stands for. -/
  | key (code : Int) (text : String)
  /-- Anything else. -/
  | other
  deriving DecidableEq, Repr

/-- A colour: red, green and blue. -/
abbrev Color := Nat × Nat × Nat

/-- One thing done to the window. -/
inductive Action
  /-- Start up. -/
  | init
  /-- Open the window. -/
  | setMode (width height : Int)
  /-- Give the window a title. -/
  | caption (text : String)
  /-- Choose the letters. -/
  | font (name : String) (size : Int)
  /-- Fill the window with a colour. -/
  | fill (color : Color)
  /-- Draw a text, on a coloured background or none. -/
  | text (x y : Int) (text : String) (color : Color) (background : Option Color)
  /-- Draw a rectangle with rounded corners. -/
  | rect (color : Color) (x y width height : Int) (radius : Int)
  /-- Make the drawing visible. -/
  | flip
  /-- Wait for the next frame. -/
  | tick (rate : Int)
  /-- Shut down. -/
  | quit
  deriving DecidableEq, Repr

/-- A session as the window shows it. -/
structure View where
  session : Session
  /-- The digits typed so far. -/
  typed : String
  /-- Whether the window stays open. -/
  running : Bool

/-! ### Measures and colours -/

/-- The width of the window. -/
def screenWidth : Int := 1200

/-- The height of the window. -/
def screenHeight : Int := 760

/-- The size of the letters. -/
def fontSize : Int := 18

/-- The distance between two lines of text. -/
def lineHeight : Int := 22

/-- The distance from the edges and between panels. -/
def margin : Int := 20

/-- The number of listing lines shown. -/
def listingRows : Int := 24

/-- The number of frames in a second. -/
def frameRate : Int := 10

/-- The colour of the window. -/
def backgroundColor : Color := (240, 240, 240)

/-- The usual colour of text. -/
def fontColor : Color := (10, 10, 10)

/-- The background of the line at the program counter. -/
def cursorColor : Color := (200, 255, 200)

/-- The background of the input prompt. -/
def inputColor : Color := (255, 240, 170)

/-- The colour of an error message. -/
def errorColor : Color := (180, 30, 30)

/-- The colour of a panel. -/
def panelColor : Color := (220, 220, 220)

/-- The colour behind the title of a panel. -/
def titleColor : Color := (180, 180, 180)

/-- The colour of a message that is no error. -/
def messageColor : Color := (100, 100, 100)

/-! ### Events -/

/-- The key that closes the window. -/
def keyQ : Int := 113

/-- The key that executes one instruction. -/
def keySpace : Int := 32

/-- The key that starts and pauses running. -/
def keyP : Int := 112

/-- The key that resets the session. -/
def keyR : Int := 114

/-- The key that queues the typed digits. -/
def keyReturn : Int := 13

/-- The enter key of the number pad, with the same meaning. -/
def keyEnter : Int := 1073741912

/-- The key that removes the last typed character. -/
def keyBackspace : Int := 8

/-- Whether a key's text may be added to what is typed: digits, or a minus sign at the start. -/
def accepts (typed text : String) : Bool :=
  (!text.isEmpty && text.toList.all Text.isDigitLike) || (text == "-" && typed.isEmpty)

/-- What a key does while the program waits for input; nothing if the key is a command. -/
def View.typing? (v : View) (code : Int) (text : String) : Option View :=
  if code == keyReturn || code == keyEnter then
    let (session, accepted) := v.session.provideInput v.typed
    some { v with session, typed := if accepted then "" else v.typed }
  else if code == keyBackspace then
    some { v with typed := String.ofList v.typed.toList.dropLast }
  else if accepts v.typed text then some { v with typed := v.typed ++ text }
  else none

/-- What a command key does. -/
def View.command (v : View) (code : Int) : View × Option Failure :=
  if code == keyQ then ({ v with running := false }, none)
  else if code == keySpace then
    match { v.session with auto := false }.advance false with
    | (session, .ok ()) => ({ v with session }, none)
    | (session, .error f) => ({ v with session }, some f)
  else if code == keyP then ({ v with session := v.session.toggleAuto }, none)
  else if code == keyR then ({ v with typed := "", session := v.session.reset }, none)
  else (v, none)

/-- What a pressed key does. -/
def View.key (v : View) (code : Int) (text : String) : View × Option Failure :=
  match if v.session.blocked then v.typing? code text else none with
  | some v => (v, none)
  | none => v.command code

/-- What one event does. -/
def View.input (v : View) : Input → View × Option Failure
  | .close => ({ v with running := false }, none)
  | .key code text => v.key code text
  | .other => (v, none)

/-- What the events of a frame do, up to the first failure. -/
def View.inputs : List Input → View → View × Option Failure
  | [], v => (v, none)
  | i :: is, v =>
    match v.input i with
    | (v, none) => View.inputs is v
    | failed => failed

/-- A session that runs by itself executes one instruction in each frame. -/
def View.advance (v : View) : View × Option Failure :=
  if v.session.auto then
    match v.session.advance true with
    | (session, .ok ()) => ({ v with session }, none)
    | (session, .error f) => ({ v with session }, some f)
  else (v, none)

/-! ### Drawing -/

/-- Text at a place, in the usual colour. -/
def label (x y : Int) (text : String) (background : Option Color) : Action :=
  .text x y text fontColor background

/-- The height of a panel with a number of lines. -/
def panelHeight (lines : Nat) : Int :=
  lineHeight * (lines + 1) + 10

/-- A panel with a title and lines of text. -/
def panel (title : String) (lines : List String) (x y width : Int) : List Action :=
  [.rect panelColor x y width (panelHeight lines.length) 5,
    .rect titleColor x y width (lineHeight + 4) 5,
    label (x + 8) (y + 2) title none] ++
    lines.zipIdx.map fun (line, index) =>
      label (x + 8) (y + lineHeight * (index + 1) + 6) line none

/-- The listing on the left, the line at the cursor marked. -/
def drawListing (lines : List Line) (cursor : Int) : List (Except Failure Action) :=
  .ok (label margin margin "Listing" none) ::
    lines.zipIdx.map fun (line, index) =>
      line.render.map fun text =>
        label margin (margin + lineHeight + 4 + lineHeight * index) text
          (if (index : Int) == cursor then some cursorColor else none)

/-- The prompt shown while the program waits for input. -/
def View.prompt (v : View) : String :=
  "Input> " ++ v.typed ++ "_"

/-- The panels on the right and the message at the bottom. -/
def View.drawPanels (v : View) : List (Except Failure Action) :=
  let s := v.session
  let x := screenWidth / 2 + margin
  let width := screenWidth - x - margin
  let recent := (latest 10 s.log).reverse
  let events := if recent.isEmpty then ["<none>"] else recent
  let panelAt (title : String) (lines : Except Failure (List String)) (y : Int) :
      List (Except Failure Action) :=
    match lines with
    | .ok lines => (panel title lines x y width).map .ok
    | .error f => [.error f]
  let second := margin + panelHeight 1 + margin
  let third := second + panelHeight 1 + margin
  let fourth := third + panelHeight events.length + margin
  panelAt "Status" (s.statusLine.map ([·])) margin ++
    panelAt "Output" (s.outputLine.map ([·])) second ++
    panelAt "Events" (.ok events) third ++
    (if s.blocked then [.ok (label x fourth v.prompt (some inputColor))] else []) ++
    [.ok (.text margin (screenHeight - lineHeight - margin) s.message
      (if s.error.isSome then errorColor else messageColor) none)]

/-- The drawing of a frame, up to the first text that cannot be written. -/
def View.draw (v : View) : List Action × Option Failure :=
  untilFailure <|
    [.ok (.fill backgroundColor)] ++
      (match v.session.listingWindow listingRows with
        | .error f => [.error f]
        | .ok (lines, cursor) => drawListing lines cursor ++ v.drawPanels) ++
      [.ok .flip]

/-! ### Frames -/

/-- A sitting: what was done to the window, the view at the end, and why it broke off. -/
structure Sitting where
  actions : List Action
  view : View
  failure : Option Failure

/-- Put actions before those of a sitting. -/
def Sitting.after (actions : List Action) (r : Sitting) : Sitting :=
  { r with actions := actions ++ r.actions }

/-- One frame: its events, an instruction if the session runs by itself, and the drawing. -/
def View.frame (v : View) (events : List Input) : Sitting :=
  match View.inputs events v with
  | (v, some f) => ⟨[], v, some f⟩
  | (v, none) =>
    match v.advance with
    | (v, some f) => ⟨[], v, some f⟩
    | (v, none) =>
      match v.draw with
      | (drawn, some f) => ⟨drawn, v, some f⟩
      | (drawn, none) => ⟨drawn ++ [.tick frameRate], v, none⟩

/-- Frame after frame until the window is closed.  When the frames have run out, the next one
closes it. -/
def View.loop : List (List Input) → View → Sitting
  | [], v =>
    let r := v.frame [.close]
    match r.failure with
    | some _ => r
    | none => { r with actions := r.actions ++ [.quit] }
  | events :: frames, v =>
    let r := v.frame events
    match r.failure with
    | some _ => r
    | none =>
      if r.view.running then (View.loop frames r.view).after r.actions
      else { r with actions := r.actions ++ [.quit] }

/-- A whole sitting on a machine. -/
def run (frames : List (List Input)) (m : Machine) (maxSteps : Option Int) : Sitting :=
  (View.loop frames ⟨.start m maxSteps, "", true⟩).after
    [.init, .setMode screenWidth screenHeight, .caption "Intcode VM Visualizer",
      .font "monospace" fontSize]

end Intcode.Window

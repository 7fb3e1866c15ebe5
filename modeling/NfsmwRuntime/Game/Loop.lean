import Mathlib.Data.Fin.VecNotation
import Mathlib.Logic.Function.Basic
import NfsmwRuntime.Library.Action

/-!
# The game loop

`nfsmw_jni_run` polls the controller once a frame and turns the six axes and fifteen
buttons into guest calls: touches of one pointer, MOGA motion and key events, and the
direct steering value. In mouse mode (`cursor_visible` nonzero) the sticks drive a
cursor and the right stick scrolls; in gameplay mode buttons go out as key events.

The frame is written as one action for each block of the source, in the source's order.
Logging and the audio pull loop touch none of this state and are left out.
-/

namespace NfsmwRuntime.Game

open Library

/-- The render size, fixed for the whole run. -/
structure Display where
  width : Int
  height : Int

/-- What one frame reads from the platform. The tick counter is read up to three times:
by the idle test and by either mode toggle. -/
structure FrameInput where
  axes : Fin 6 → Int16
  buttons : Fin 15 → Bool
  idleTicks : UInt32
  selectTicks : UInt32
  startTicks : UInt32

/-- Only the given buttons are held, and the clock stands still. -/
def pressing (held : List (Fin 15)) : FrameInput := ⟨fun _ => 0, held.contains, 0, 0, 0⟩

inductive TouchAction where
  | down | up | move
  deriving DecidableEq, Repr

inductive KeyAction where
  | down | up
  deriving DecidableEq, Repr

/-- The calls into the guest and the platform that a frame makes. The direct steering
floats are kept exact, as numerators over `32767 - 4096`. -/
inductive GuestCall where
  | touch (action : TouchAction) (x y : Int)
  | motion (axes : Fin 6 → Int16)
  | direct (steering vertical : Int)
  | key (action : KeyAction) (code : Nat)
  | tick
  | present (x y : Int) (visible : Bool)

/-- The local variables of the loop that survive a frame. -/
structure LoopState where
  previous : Fin 15 → Bool
  previousAxes : Fin 6 → Int16
  havePreviousAxes : Bool
  cursorX : Int
  cursorY : Int
  cursorVisible : Bool
  touchDown : Bool
  scrollTouchDown : Bool
  gameplayModeUsed : Bool
  lastCursorActivity : UInt32

/-- The state in which the loop is entered. -/
def LoopState.start (d : Display) (startTicks : UInt32) : LoopState where
  previous _ := false
  previousAxes _ := 0
  havePreviousAxes := false
  cursorX := d.width.tdiv 2
  cursorY := d.height.tdiv 2
  cursorVisible := true
  touchDown := false
  scrollTouchDown := false
  gameplayModeUsed := false
  lastCursorActivity := startTicks

def androidKeys : Fin 15 → Nat :=
  ![96, 97, 99, 100, 109, 0, 108, 106, 107, 102, 103, 19, 20, 21, 22]

abbrev LoopAction := Action LoopState GuestCall

namespace FrameInput

variable (f : FrameInput)

def raw (i : Fin 6) : Int := (f.axes i).toInt

/-- The right stick, whose axes scroll. -/
def rawScroll : Int × Int := (f.raw 2, f.raw 3)

def rawTriggers : Int × Int := (f.raw 4, f.raw 5)

def shoulders : Bool × Bool := (f.buttons 9, f.buttons 10)

/-- The input that keeps the cursor awake. -/
def inputActive : Bool :=
  (List.finRange 15).any f.buttons ||
  f.raw 0 > 4096 || f.raw 0 < -4096 || f.raw 1 > 4096 || f.raw 1 < -4096 ||
  f.raw 2 > 8192 || f.raw 2 < -8192 || f.raw 3 > 8192 || f.raw 3 < -8192 ||
  f.raw 4 > 12288 || f.raw 5 > 12288

/-- Back and Start together ask the loop to end after this frame. -/
def quit : Bool := f.buttons 4 && f.buttons 6

end FrameInput

/-- The buttons that switch between the modes. -/
abbrev selectButton : Fin 15 := 4
abbrev startButton : Fin 15 := 6

def touch (a : TouchAction) : LoopAction :=
  .emit fun s => .touch a s.cursorX s.cursorY

/-- Has the mouse been left alone for the 15 seconds that hide it? -/
def idleExpired (f : FrameInput) (s : LoopState) : Bool :=
  !f.inputActive && f.idleTicks - s.lastCursorActivity ≥ 15000

def idleHide (f : FrameInput) : LoopAction :=
  .when (·.cursorVisible) <|
    .ite (fun _ => f.inputActive)
      (.assign fun s => { s with lastCursorActivity := f.idleTicks })
      (.when (idleExpired f) <| .block [
        .when (fun s => s.touchDown || s.scrollTouchDown) <| .block [
          touch .up,
          .assign fun s => { s with touchDown := false, scrollTouchDown := false }],
        .assign fun s => { s with cursorVisible := false, gameplayModeUsed := true }])

/-! ## Cursor and scrolling -/

def clamp (low high v : Int) : Int :=
  let v := if v < low then low else v
  if v > high then high else v

/-- Move the cursor and keep it eight pixels inside the screen. -/
def moveCursor (d : Display) (delta : Int × Int) (s : LoopState) : LoopState :=
  { s with
    cursorX := clamp 8 (d.width - 9) (s.cursorX + delta.1)
    cursorY := clamp 8 (d.height - 9) (s.cursorY + delta.2) }

/-- The right stick, the shoulders and the triggers scroll. -/
def scrollDelta (f : FrameInput) : Int × Int :=
  let dx := (-f.raw 2).tdiv 8192
  let dy := (-f.raw 3).tdiv 8192
  let dx := if f.buttons 9 then dx - 4 else dx
  let dx := if f.buttons 10 then dx + 4 else dx
  let dy := if f.raw 4 > 12288 then dy - 4 else dy
  let dy := if f.raw 5 > 12288 then dy + 4 else dy
  (clamp (-8) 8 dx, clamp (-8) 8 dy)

/-- The left stick moves the cursor, unless the D-pad does. -/
def cursorDelta (f : FrameInput) : Int × Int :=
  let dx := (f.raw 0).tdiv 4096
  let dy := (f.raw 1).tdiv 4096
  (if f.buttons 13 then -8 else if f.buttons 14 then 8 else dx,
   if f.buttons 11 then -8 else if f.buttons 12 then 8 else dy)

def closeTouch : LoopAction :=
  .when (·.touchDown) <| .block [touch .up, .assign fun s => { s with touchDown := false }]

def closeScroll : LoopAction :=
  .when (·.scrollTouchDown) <|
    .block [touch .up, .assign fun s => { s with scrollTouchDown := false }]

def openScroll : LoopAction :=
  .when (fun s => !s.scrollTouchDown) <|
    .block [touch .down, .assign fun s => { s with scrollTouchDown := true }]

def scroll (d : Display) (f : FrameInput) : LoopAction :=
  .when (·.cursorVisible) <| .block [
    .assign (moveCursor d (cursorDelta f)),
    .ite (fun _ => scrollDelta f != (0, 0))
      (.block [closeTouch, openScroll, .assign (moveCursor d (scrollDelta f)), touch .move])
      closeScroll]

/-! ## Axes -/

/-- The axes as the loop settles on them: the sticks are always neutral, and the
triggers are neutral while the mouse is shown. -/
def settledAxes (visible : Bool) (axes : Fin 6 → Int16) : Fin 6 → Int16 :=
  ![0, 0, 0, 0, if visible then 0 else axes 4, if visible then 0 else axes 5]

def axisJumps (old new : Fin 6 → Int16) (i : Fin 6) : Bool :=
  let difference := (new i).toInt - (old i).toInt
  difference > 512 || difference < -512

def axesJump (old new : Fin 6 → Int16) : Bool := (List.finRange 6).any (axisJumps old new)

/-- The comparison of `axes` with `previous_axes` decides whether a MotionEvent is built,
while `previous_axes` itself follows the axes in every frame. -/
def motion (f : FrameInput) : LoopAction := fun s =>
  let axes := settledAxes s.cursorVisible f.axes
  let axesChanged := !s.havePreviousAxes || axesJump s.previousAxes axes
  ({ s with previousAxes := axes, havePreviousAxes := s.havePreviousAxes || axesChanged },
   if axesChanged then [.motion axes] else [])

/-- The stick past its dead zone, over `32767 - 4096`. -/
def directValue (raw : Int) : Int :=
  let magnitude := if raw < 0 then -raw else raw
  if magnitude ≤ 4096 then 0
  else
    let magnitude := if magnitude > 32767 then 32767 else magnitude
    if raw < 0 then -(magnitude - 4096) else magnitude - 4096

def direct (f : FrameInput) : LoopAction :=
  .emit fun s =>
    if s.cursorVisible then .direct 0 0
    else .direct
      (if f.buttons 13 then -(32767 - 4096) else if f.buttons 14 then 32767 - 4096
        else directValue (f.raw 0))
      (directValue (f.raw 1))

/-! ## Button edges -/

/-- Select, unless Start is held with it, switches between mouse and gameplay mode. -/
def selectToggle (f : FrameInput) (i : Fin 15) : LoopAction :=
  .when (fun _ => f.buttons i && i == 4 && !f.buttons 6) <| .block [
    .assign fun s => { s with cursorVisible := !s.cursorVisible },
    .when (·.cursorVisible) <| .assign fun s => { s with lastCursorActivity := f.selectTicks },
    .when (fun s => !s.cursorVisible) closeTouch,
    .when (fun s => !s.cursorVisible) <| .assign fun s => { s with gameplayModeUsed := true },
    closeScroll]

/-- Once gameplay mode has been used, Start switches too. -/
def startToggle (f : FrameInput) (i : Fin 15) : LoopAction :=
  .when (fun s => f.buttons i && i == 6 && s.gameplayModeUsed) <| .block [
    .assign fun s => { s with cursorVisible := !s.cursorVisible },
    .when (·.cursorVisible) <| .assign fun s => { s with lastCursorActivity := f.startTicks },
    .when (fun s => !s.cursorVisible) closeTouch,
    closeScroll]

/-- The mouse keeps every button but B and Start from the guest; Select is never sent. -/
def sendMogaKey (i : Fin 15) (s : LoopState) : Bool :=
  i != 4 && !(s.cursorVisible && i != 1 && i != 6)

def mogaKey (f : FrameInput) (i : Fin 15) : LoopAction :=
  .when (sendMogaKey i) <|
    .emit fun _ => .key (if f.buttons i then .down else .up) (androidKeys i)

def touchPress (f : FrameInput) (i : Fin 15) : LoopAction :=
  .when (fun s => f.buttons i && s.cursorVisible && i == 0 && !s.touchDown) <| .block [
    closeScroll,
    touch .down,
    .assign fun s => { s with touchDown := true }]

def touchRelease (f : FrameInput) (i : Fin 15) : LoopAction :=
  .when (fun s => i == 0 && !f.buttons i && s.touchDown) <| .block [
    touch .up,
    .assign fun s => { s with touchDown := false }]

def buttonEdge (f : FrameInput) (i : Fin 15) (s : LoopState) : Bool :=
  androidKeys i != 0 && f.buttons i != s.previous i

/-- One turn of the loop over the buttons. -/
def button (f : FrameInput) (i : Fin 15) : LoopAction :=
  .block [
    .when (buttonEdge f i) <| .block [
      selectToggle f i, startToggle f i, mogaKey f i, touchPress f i, touchRelease f i],
    .assign fun s => { s with previous := Function.update s.previous i (f.buttons i) }]

/-! ## Frames and runs -/

/-- A frame up to the loop over the buttons. -/
def poll (d : Display) (f : FrameInput) : LoopAction :=
  .block [idleHide f, scroll d f, motion f, direct f]

def frame (d : Display) (f : FrameInput) : LoopAction :=
  .block [
    poll d f,
    .each (button f) (List.finRange 15),
    .emit fun _ => .tick,
    .emit fun s => .present s.cursorX s.cursorY s.cursorVisible]

/-- The state in which the loop over the buttons takes button `i`. -/
def atTurn (d : Display) (f : FrameInput) (i : Fin 15) (s : LoopState) : LoopState :=
  (Action.each (button f) ((List.finRange 15).take i) (poll d f s).1).1

/-- The frames one after the other. -/
def frames (d : Display) : List FrameInput → LoopAction := .each (frame d)

/-- The loop of `nfsmw_jni_run` from its first frame: it stops at the frame limit, if
there is one, and after a frame in which the exit chord is held. -/
def nfsmwJniRun (d : Display) (frameLimit : Nat) : Nat → List FrameInput → LoopAction
  | _, [] => .skip
  | n, f :: fs =>
    if frameLimit = 0 ∨ n < frameLimit then
      if f.quit then frame d f else .seq (frame d f) (nfsmwJniRun d frameLimit (n + 1) fs)
    else .skip

/-- The frames that the loop gets to. -/
def executed (frameLimit : Nat) : Nat → List FrameInput → List FrameInput
  | _, [] => []
  | n, f :: fs =>
    if frameLimit = 0 ∨ n < frameLimit then
      if f.quit then [f] else f :: executed frameLimit (n + 1) fs
    else []

/-- The loop is a sequence of frames, so a law of all frame sequences is a law of it. -/
theorem nfsmwJniRun_eq_frames (d : Display) (frameLimit n : Nat) (fs : List FrameInput) :
    nfsmwJniRun d frameLimit n fs = frames d (executed frameLimit n fs) := by
  funext s
  induction fs generalizing n s with
  | nil => rfl
  | cons f fs ih =>
    unfold nfsmwJniRun executed
    split_ifs <;> simp [frames, Action.each_cons, ih]

end NfsmwRuntime.Game

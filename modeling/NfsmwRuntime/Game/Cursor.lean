import NfsmwRuntime.Display.Scaling
import NfsmwRuntime.Game.Effects
import NfsmwRuntime.Jni.ValueMethods

/-!
# The cursor stays on the screen

The loop moves the cursor twice a frame, by the stick or the D-pad and by the scroll, and
clamps it after either move. Touches go out before, between and after the clamps, but
always from a position that is eight pixels inside the screen: the one the cursor starts
from, or one that a clamp has left.

The loop computes in C's `int`. The model does not, so `checkedCursor` is the same
arithmetic with every overflow undefined (`none`).
-/

namespace NfsmwRuntime.Game

open Library

/-- The loop's display for a render size. -/
def Display.ofSize (size : Int32 × Int32) : Display := ⟨size.1.toInt, size.2.toInt⟩

/-- Eight pixels inside the screen. -/
structure OnScreen (d : Display) (x y : Int) : Prop where
  left : 8 ≤ x
  right : x ≤ d.width - 9
  top : 8 ≤ y
  bottom : y ≤ d.height - 9

def LoopState.cursor (s : LoopState) : Int × Int := (s.cursorX, s.cursorY)

/-- The cursor is where it may be touched and shown. -/
def CursorInv (d : Display) (s : LoopState) : Prop := OnScreen d s.cursorX s.cursorY

/-- A touch, or a frame that is presented, has the cursor on the screen. -/
def GuestCall.OnScreen (d : Display) : GuestCall → Prop
  | .touch _ x y => Game.OnScreen d x y
  | .present x y _ => Game.OnScreen d x y
  | _ => True

/-! ## The position -/

theorem clamp_mem {low high : Int} (h : low ≤ high) (v : Int) :
    low ≤ clamp low high v ∧ clamp low high v ≤ high := by
  simp only [clamp]
  split_ifs <;> omega

/-- Wherever a move would go, it ends on a screen that has room for the margins. -/
theorem cursorInv_moveCursor {d : Display} (hw : 17 ≤ d.width) (hh : 17 ≤ d.height)
    (delta : Int × Int) (s : LoopState) : CursorInv d (moveCursor d delta s) := by
  obtain ⟨hleft, hright⟩ := clamp_mem (show 8 ≤ d.width - 9 by omega) (s.cursorX + delta.1)
  obtain ⟨htop, hbottom⟩ := clamp_mem (show 8 ≤ d.height - 9 by omega) (s.cursorY + delta.2)
  exact ⟨hleft, hright, htop, hbottom⟩

theorem cursorInv_start {d : Display} (hw : 18 ≤ d.width) (hh : 18 ≤ d.height) (t : UInt32) :
    CursorInv d (.start d t) := by
  have hx : d.width.tdiv 2 = d.width / 2 := Int.tdiv_eq_ediv_of_nonneg (by omega)
  have hy : d.height.tdiv 2 = d.height / 2 := Int.tdiv_eq_ediv_of_nonneg (by omega)
  constructor <;> simp only [LoopState.start, hx, hy] <;> omega

/-! ## What the actions send -/

/-- Keeps the cursor on the screen, and sends it from there. -/
abbrev Steady (d : Display) (a : LoopAction) : Prop := a.Safe (CursorInv d) (GuestCall.OnScreen d)

section Actions

variable {d : Display}

theorem steady_touch (t : TouchAction) : Steady d (touch t) := .emit fun _ h => h

/-- An assignment to anything but the position. -/
theorem steady_assign {g : LoopState → LoopState} (h : ∀ s, (g s).cursor = s.cursor) :
    Steady d (.assign g) := by
  refine .assign fun s hs => ?_
  have hcursor := h s
  simp only [LoopState.cursor, Prod.mk.injEq] at hcursor
  simpa only [CursorInv, hcursor] using hs

theorem steady_closeTouch : Steady d closeTouch :=
  .when (.seq (steady_touch .up) (.seq (steady_assign fun _ => rfl) .skip))

theorem steady_closeScroll : Steady d closeScroll :=
  .when (.seq (steady_touch .up) (.seq (steady_assign fun _ => rfl) .skip))

theorem steady_openScroll : Steady d openScroll :=
  .when (.seq (steady_touch .down) (.seq (steady_assign fun _ => rfl) .skip))

theorem steady_idleHide (f : FrameInput) : Steady d (idleHide f) := by
  refine .when (.ite (steady_assign fun _ => rfl) (.when (.seq (.when ?_)
    (.seq (steady_assign fun _ => rfl) .skip))))
  exact .seq (steady_touch .up) (.seq (steady_assign fun _ => rfl) .skip)

theorem steady_scroll (hw : 17 ≤ d.width) (hh : 17 ≤ d.height) (f : FrameInput) :
    Steady d (scroll d f) := by
  have hmove : ∀ delta, Steady d (.assign (moveCursor d delta)) := fun delta =>
    .assign fun s _ => cursorInv_moveCursor hw hh delta s
  refine .when (.seq (hmove _) (.seq (.ite ?_ steady_closeScroll) .skip))
  exact .seq steady_closeTouch (.seq steady_openScroll (.seq (hmove _)
    (.seq (steady_touch .move) .skip)))

theorem steady_motion (f : FrameInput) : Steady d (motion f) := by
  refine fun s hs => ⟨hs, fun e he => ?_⟩
  simp only [motion] at he
  split_ifs at he
  · obtain rfl := List.mem_singleton.mp he
    trivial
  · simp at he

theorem steady_direct (f : FrameInput) : Steady d (direct f) := by
  refine .emit fun s _ => ?_
  split_ifs <;> trivial

theorem steady_selectToggle (f : FrameInput) (i : Fin 15) : Steady d (selectToggle f i) :=
  .when (.seq (steady_assign fun _ => rfl) (.seq (.when (steady_assign fun _ => rfl))
    (.seq (.when steady_closeTouch) (.seq (.when (steady_assign fun _ => rfl))
      (.seq steady_closeScroll .skip)))))

theorem steady_startToggle (f : FrameInput) (i : Fin 15) : Steady d (startToggle f i) :=
  .when (.seq (steady_assign fun _ => rfl) (.seq (.when (steady_assign fun _ => rfl))
    (.seq (.when steady_closeTouch) (.seq steady_closeScroll .skip))))

theorem steady_mogaKey (f : FrameInput) (i : Fin 15) : Steady d (mogaKey f i) :=
  .when (.emit fun _ _ => trivial)

theorem steady_touchPress (f : FrameInput) (i : Fin 15) : Steady d (touchPress f i) :=
  .when (.seq steady_closeScroll (.seq (steady_touch .down)
    (.seq (steady_assign fun _ => rfl) .skip)))

theorem steady_touchRelease (f : FrameInput) (i : Fin 15) : Steady d (touchRelease f i) :=
  .when (.seq (steady_touch .up) (.seq (steady_assign fun _ => rfl) .skip))

theorem steady_button (f : FrameInput) (i : Fin 15) : Steady d (button f i) := by
  refine .seq (.when ?_) (.seq (steady_assign fun _ => rfl) .skip)
  exact .seq (steady_selectToggle f i) (.seq (steady_startToggle f i) (.seq (steady_mogaKey f i)
    (.seq (steady_touchPress f i) (.seq (steady_touchRelease f i) .skip))))

theorem steady_poll (hw : 17 ≤ d.width) (hh : 17 ≤ d.height) (f : FrameInput) :
    Steady d (poll d f) :=
  .seq (steady_idleHide f) (.seq (steady_scroll hw hh f) (.seq (steady_motion f)
    (.seq (steady_direct f) .skip)))

theorem steady_frame (hw : 17 ≤ d.width) (hh : 17 ≤ d.height) (f : FrameInput) :
    Steady d (frame d f) :=
  .seq (steady_poll hw hh f) (.seq (.each (steady_button f) _) (.seq (.emit fun _ _ => trivial)
    (.seq (.emit fun _ h => h) .skip)))

theorem steady_frames (hw : 17 ≤ d.width) (hh : 17 ≤ d.height) (fs : List FrameInput) :
    Steady d (frames d fs) := .each (steady_frame hw hh) fs

end Actions

/-! ## The arithmetic in `int` -/

open Jni (cInt)

/-- `v += delta` under a condition. -/
def addWhen (condition : Bool) (v delta : Int) : Option Int :=
  if condition then cInt (v + delta) else some v

def checkedScrollDelta (f : FrameInput) : Option (Int × Int) := do
  let x ← cInt (-f.rawScroll.1)
  let y ← cInt (-f.rawScroll.2)
  let dx ← addWhen f.shoulders.1 (x.tdiv 8192) (-4)
  let dx ← addWhen f.shoulders.2 dx 4
  let dy ← addWhen (f.rawTriggers.1 > 12288) (y.tdiv 8192) (-4)
  let dy ← addWhen (f.rawTriggers.2 > 12288) dy 4
  some (clamp (-8) 8 dx, clamp (-8) 8 dy)

def checkedMove (d : Display) (delta : Int × Int) (s : LoopState) : Option LoopState := do
  let x ← cInt (s.cursorX + delta.1)
  let y ← cInt (s.cursorY + delta.2)
  let right ← cInt (d.width - 9)
  let bottom ← cInt (d.height - 9)
  some { s with cursorX := clamp 8 right x, cursorY := clamp 8 bottom y }

/-- All that a frame does to the cursor, in the order of `scroll`. -/
def checkedCursor (d : Display) (f : FrameInput) (s : LoopState) : Option (Int × Int) := do
  let delta ← checkedScrollDelta f
  let s ← checkedMove d (cursorDelta f) s
  let s ← if delta != (0, 0) then checkedMove d delta s else some s
  some s.cursor

/-- Far from the ends of an `int`. -/
theorem cInt_of_near {v : Int} (hlow : -100000 ≤ v) (hhigh : v ≤ 100000) : cInt v = some v :=
  if_pos ⟨by omega, by omega⟩

theorem addWhen_of_near {condition : Bool} {v delta : Int} (hlow : -100000 ≤ v + delta)
    (hhigh : v + delta ≤ 100000) :
    addWhen condition v delta = some (if condition then v + delta else v) := by
  cases condition
  · rfl
  · exact cInt_of_near hlow hhigh

theorem FrameInput.raw_range (f : FrameInput) (i : Fin 6) :
    -32768 ≤ f.raw i ∧ f.raw i ≤ 32767 :=
  ⟨Int16.le_toInt _, Int16.toInt_le _⟩

/-- An axis and its opposite keep within `short` and one beyond when they are divided. -/
theorem tdiv_near {v : Int} (hlow : -32768 ≤ v) (hhigh : v ≤ 32768) (k : Int) :
    -32768 ≤ v.tdiv k ∧ v.tdiv k ≤ 32768 := by
  have h := Int.natAbs_tdiv_le_natAbs v k
  omega

theorem checkedScrollDelta_eq (f : FrameInput) : checkedScrollDelta f = some (scrollDelta f) := by
  obtain ⟨hxlow, hxhigh⟩ := f.raw_range 2
  obtain ⟨hylow, hyhigh⟩ := f.raw_range 3
  have hx := tdiv_near (v := -f.raw 2) (by omega) (by omega) 8192
  have hy := tdiv_near (v := -f.raw 3) (by omega) (by omega) 8192
  have hx' : addWhen (f.buttons 9) ((-f.raw 2).tdiv 8192) (-4) = _ :=
    addWhen_of_near (by omega) (by omega)
  have hy' : addWhen (f.raw 4 > 12288) ((-f.raw 3).tdiv 8192) (-4) = _ :=
    addWhen_of_near (by omega) (by omega)
  rw [checkedScrollDelta, FrameInput.rawScroll, FrameInput.rawTriggers, FrameInput.shoulders,
    cInt_of_near (by omega) (by omega), cInt_of_near (by omega) (by omega)]
  simp only [Option.bind_eq_bind, Option.bind_some, hx', hy']
  rw [addWhen_of_near (by split_ifs <;> omega) (by split_ifs <;> omega), Option.bind_some,
    addWhen_of_near (by split_ifs <;> omega) (by split_ifs <;> omega)]
  simp [scrollDelta, Int.sub_eq_add_neg]

theorem cursorDelta_near (f : FrameInput) :
    (-32768 ≤ (cursorDelta f).1 ∧ (cursorDelta f).1 ≤ 32768) ∧
      (-32768 ≤ (cursorDelta f).2 ∧ (cursorDelta f).2 ≤ 32768) := by
  obtain ⟨hxlow, hxhigh⟩ := f.raw_range 0
  obtain ⟨hylow, hyhigh⟩ := f.raw_range 1
  have hx := tdiv_near hxlow (by omega) 4096
  have hy := tdiv_near hylow (by omega) 4096
  simp only [cursorDelta]
  constructor <;> split_ifs <;> omega

theorem scrollDelta_near (f : FrameInput) :
    (-8 ≤ (scrollDelta f).1 ∧ (scrollDelta f).1 ≤ 8) ∧
      (-8 ≤ (scrollDelta f).2 ∧ (scrollDelta f).2 ≤ 8) :=
  ⟨clamp_mem (by omega) _, clamp_mem (by omega) _⟩

/-- A move from the screen by a short way. -/
theorem checkedMove_eq {d : Display} (hw : d.width ≤ 4096) (hh : d.height ≤ 4096) {s : LoopState}
    (hs : CursorInv d s) {delta : Int × Int} (hx : -32768 ≤ delta.1 ∧ delta.1 ≤ 32768)
    (hy : -32768 ≤ delta.2 ∧ delta.2 ≤ 32768) :
    checkedMove d delta s = some (moveCursor d delta s) := by
  obtain ⟨hleft, hright, htop, hbottom⟩ := hs
  rw [checkedMove, cInt_of_near (by omega) (by omega), cInt_of_near (by omega) (by omega),
    cInt_of_near (by omega) (by omega), cInt_of_near (by omega) (by omega)]
  rfl

theorem besidesTouch_cursor : BesidesTouch LoopState.cursor := fun _ _ _ => rfl

/-- Only the position decides where a move ends. -/
theorem moveCursor_cursor (d : Display) (delta : Int × Int) {s t : LoopState}
    (h : s.cursor = t.cursor) : (moveCursor d delta s).cursor = (moveCursor d delta t).cursor := by
  simp only [LoopState.cursor, Prod.mk.injEq] at h
  simp [LoopState.cursor, moveCursor, h]

/-- A frame's cursor arithmetic is defined, and comes to what the frame does. -/
theorem checkedCursor_eq {d : Display} (hw : 17 ≤ d.width ∧ d.width ≤ 4096)
    (hh : 17 ≤ d.height ∧ d.height ≤ 4096) (f : FrameInput) {s : LoopState} (hs : CursorInv d s)
    (hvisible : s.cursorVisible = true) :
    checkedCursor d f s = some (scroll d f s).1.cursor := by
  have hmoved := cursorInv_moveCursor hw.1 hh.1 (cursorDelta f) s
  rw [checkedCursor, checkedScrollDelta_eq, Option.bind_eq_bind, Option.bind_some,
    checkedMove_eq hw.2 hh.2 hs (cursorDelta_near f).1 (cursorDelta_near f).2]
  obtain ⟨hx, hy⟩ := scrollDelta_near f
  have hsecond : checkedMove d (scrollDelta f) (moveCursor d (cursorDelta f) s) = some _ :=
    checkedMove_eq hw.2 hh.2 hmoved (by omega) (by omega)
  have hkeeps := (touchOnly_openScroll.keeps besidesTouch_cursor _).trans
    (touchOnly_closeTouch.keeps besidesTouch_cursor (moveCursor d (cursorDelta f) s))
  by_cases hscroll : scrollDelta f = (0, 0)
  · simp [scroll, Action.when_apply, Action.ite_apply, hvisible, hscroll,
      touchOnly_closeScroll.keeps besidesTouch_cursor _]
  · simp [scroll, Action.when_apply, Action.ite_apply, hvisible, hscroll, hsecond, touch,
      moveCursor_cursor d (scrollDelta f) hkeeps]

/-! ## Runs -/

/-- The state in which the loop takes a frame of the run, after the frames before it. -/
theorem cursorInv_frames {d : Display} (hw : 18 ≤ d.width) (hh : 18 ≤ d.height) (t : UInt32)
    (fs : List FrameInput) : CursorInv d (frames d fs (.start d t)).1 :=
  (steady_frames (by omega) (by omega) fs _ (cursorInv_start hw hh t)).1

/-- In every run on a display that the platform accepts, the cursor is eight pixels inside
the screen at every touch and every present, and its arithmetic never overflows. -/
theorem cursor_on_screen (scanSize : CString → Option (Int32 × Int32))
    (q : NfsmwRuntime.Display.SizeRequest) (size : Int32 × Int32)
    (hsize : NfsmwRuntime.Display.renderSize scanSize q = some size)
    (startTicks : UInt32) (frameLimit : Nat) (fs : List FrameInput) :
    let d := Display.ofSize size
    (∀ call ∈ (nfsmwJniRun d frameLimit 0 fs (.start d startTicks)).2, call.OnScreen d) ∧
    ∀ earlier f later, executed frameLimit 0 fs = earlier ++ f :: later →
      let s := (idleHide f (frames d earlier (.start d startTicks)).1).1
      CursorInv d s ∧
      (s.cursorVisible = true → checkedCursor d f s = some (scroll d f s).1.cursor) := by
  intro d
  obtain ⟨hw, hh⟩ := (NfsmwRuntime.Display.acceptedSize_iff size).mp
    (NfsmwRuntime.Display.renderSize_accepted hsize)
  have hwidth : d.width = size.1.toInt := rfl
  have hheight : d.height = size.2.toInt := rfl
  have hstart : CursorInv d (.start d startTicks) := cursorInv_start (by omega) (by omega) _
  constructor
  · rw [nfsmwJniRun_eq_frames]
    exact (steady_frames (by omega) (by omega) _ _ hstart).2
  · intro earlier f later _ s
    have hs : CursorInv d s :=
      (steady_idleHide f _ (cursorInv_frames (by omega) (by omega) _ _)).1
    exact ⟨hs, checkedCursor_eq (by omega) (by omega) f hs⟩

/-- A panel of 1280x720 is found, and the stick is held into the upper left corner. -/
theorem cursor_on_screen_panel :
    let q : NfsmwRuntime.Display.SizeRequest :=
      ⟨640, 480, none, some (1280, 720), (1280, 720)⟩
    let d := Display.ofSize (1280, 720)
    NfsmwRuntime.Display.renderSize (fun _ => none) q = some (1280, 720) ∧
      ∀ call ∈ (nfsmwJniRun d 0 0 [⟨fun _ => -32768, fun _ => false, 0, 0, 0⟩] (.start d 0)).2,
        call.OnScreen d := by
  intro q d
  have hsize : NfsmwRuntime.Display.renderSize (fun _ => none) q = some (1280, 720) := by decide
  exact ⟨hsize, (cursor_on_screen (fun _ => none) q (1280, 720) hsize 0 0 _).1⟩

end NfsmwRuntime.Game

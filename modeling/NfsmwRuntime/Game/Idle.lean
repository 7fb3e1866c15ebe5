import Mathlib.Algebra.Order.Ring.Nat
import Mathlib.Order.Bounds.Basic
import NfsmwRuntime.Game.Effects

/-!
# The idle timer

The mouse hides after 15 seconds without input. The loop measures them with a tick counter
of 32 bits, which wraps around every 49 days, and it restarts the timer at three places.

Here the counter is real time modulo `2 ^ 32`. The stored tick is that of the latest moment
at which the mouse was woken, and while the mouse is shown that moment is less than 15
seconds before the frame that was taken last. So unless the next frame comes almost a whole
wrap later, the difference of the ticks is the real one.
-/

namespace NfsmwRuntime.Game

open Library

/-- A frame with the real times, in milliseconds, at which it may read the counter. -/
structure TimedFrame where
  axes : Fin 6 → Int16
  buttons : Fin 15 → Bool
  idleTime : Nat
  selectTime : Nat
  startTime : Nat

/-- The counter at a real time. -/
def tick (time : Nat) : UInt32 := .ofNat time

/-- What the loop sees of the frame. -/
def TimedFrame.input (f : TimedFrame) : FrameInput :=
  ⟨f.axes, f.buttons, tick f.idleTime, tick f.selectTime, tick f.startTime⟩

/-- Time never goes back, `read` being the last time read, and each frame begins less than
`2 ^ 32 - 15000` milliseconds after the one before it, which began at `since`. -/
def InTime (since read : Nat) : List TimedFrame → Prop
  | [] => True
  | f :: fs =>
    (read ≤ f.idleTime ∧ f.idleTime ≤ f.selectTime ∧ f.selectTime ≤ f.startTime) ∧
    f.idleTime < since + (2 ^ 32 - 15000) ∧ InTime f.idleTime f.startTime fs

/-- No button is held, the sticks are near their centres and the triggers are released. -/
structure FrameInput.Quiet (f : FrameInput) : Prop where
  buttons : ∀ i, f.buttons i = false
  left : (-4096 ≤ f.raw 0 ∧ f.raw 0 ≤ 4096) ∧ (-4096 ≤ f.raw 1 ∧ f.raw 1 ≤ 4096)
  right : (-8192 ≤ f.raw 2 ∧ f.raw 2 ≤ 8192) ∧ (-8192 ≤ f.raw 3 ∧ f.raw 3 ≤ 8192)
  triggers : f.raw 4 ≤ 12288 ∧ f.raw 5 ≤ 12288

/-! ## The moments that wake the mouse -/

/-- Select switches from gameplay to the mouse. -/
def selectShows (d : Display) (f : FrameInput) (s : LoopState) : Bool :=
  let turn := atTurn d f selectButton s
  f.buttons selectButton && !turn.previous selectButton && !f.buttons startButton &&
    !turn.cursorVisible

/-- Start switches from gameplay to the mouse. -/
def startShows (d : Display) (f : FrameInput) (s : LoopState) : Bool :=
  let turn := atTurn d f startButton s
  f.buttons startButton && !turn.previous startButton && turn.gameplayModeUsed &&
    !turn.cursorVisible

/-- The moments of a frame at which the mouse is woken: by input while it is shown, or by
being switched to. -/
def wakings (d : Display) (s : LoopState) (f : TimedFrame) : List Nat :=
  (if s.cursorVisible && f.input.inputActive then [f.idleTime] else []) ++
  (if selectShows d f.input s then [f.selectTime] else []) ++
  (if startShows d f.input s then [f.startTime] else [])

/-- All moments of a run at which the mouse is woken. -/
def wakingTimes (d : Display) : LoopState → List TimedFrame → List Nat
  | _, [] => []
  | s, f :: fs => wakings d s f ++ wakingTimes d (frame d f.input s).1 fs

/-! ## What the actions do to the timer -/

/-- The fields that the idle test and the toggles work on. -/
def LoopState.mode (s : LoopState) : Bool × UInt32 := (s.cursorVisible, s.lastCursorActivity)

theorem besidesTouch_mode : BesidesTouch LoopState.mode := fun _ _ _ => rfl

/-- After the idle test the poll leaves the timer alone. -/
theorem poll_mode (d : Display) (f : FrameInput) (s : LoopState) :
    (poll d f s).1.mode = (idleHide f s).1.mode := by
  have hrest : (Action.block [scroll d f, motion f, direct f]).Keeps LoopState.mode :=
    .cons (keeps_scroll d f besidesTouch_mode fun _ _ => rfl)
      (.cons (fun _ => rfl) (.cons (.emit _) .nil))
  exact hrest (idleHide f s).1

/-- What follows the toggles in the turn of a button. -/
theorem keeps_mode_afterToggles (f : FrameInput) (i : Fin 15) :
    (Action.block [mogaKey f i, touchPress f i, touchRelease f i]).Keeps LoopState.mode :=
  .cons (.when (.emit _)) (.cons ((touchOnly_touchPress f i).keeps besidesTouch_mode)
    (.cons ((touchOnly_touchRelease f i).keeps besidesTouch_mode) .nil))

/-- The mode after a switch, with the tick that is read if the mouse is shown. -/
def switched (ticks : UInt32) (mode : Bool × UInt32) : Bool × UInt32 :=
  (!mode.1, if mode.1 then mode.2 else ticks)

/-- A toggle switches the mode first, and the rest of it leaves the mode alone. -/
theorem toggle_mode (ticks : UInt32) {rest : List LoopAction}
    (hrest : (Action.block rest).Keeps LoopState.mode) (s : LoopState) :
    (Action.block ((.assign fun s => { s with cursorVisible := !s.cursorVisible }) ::
      (.when (·.cursorVisible) <| .assign fun s => { s with lastCursorActivity := ticks }) ::
      rest) s).1.mode = switched ticks s.mode := by
  refine (hrest _).trans ?_
  cases hvisible : s.cursorVisible <;>
    simp [Action.when_apply, LoopState.mode, switched, hvisible]

theorem selectToggle_mode (f : FrameInput) (i : Fin 15) (s : LoopState) :
    (selectToggle f i s).1.mode =
      if f.buttons i && i == 4 && !f.buttons 6 then switched f.selectTicks s.mode else s.mode := by
  rw [selectToggle, Action.when_apply]
  split_ifs with hselect
  · have hrest : (Action.block [.when (fun s => !s.cursorVisible) closeTouch,
        .when (fun s => !s.cursorVisible) <| .assign fun s => { s with gameplayModeUsed := true },
        closeScroll]).Keeps LoopState.mode :=
      .cons (.when (touchOnly_closeTouch.keeps besidesTouch_mode))
        (.cons (.when (.assign fun _ => rfl))
          (.cons (touchOnly_closeScroll.keeps besidesTouch_mode) .nil))
    exact toggle_mode f.selectTicks hrest s
  · rfl

theorem startToggle_mode (f : FrameInput) (i : Fin 15) (s : LoopState) :
    (startToggle f i s).1.mode =
      if f.buttons i && i == 6 && s.gameplayModeUsed then switched f.startTicks s.mode
      else s.mode := by
  rw [startToggle, Action.when_apply]
  split_ifs with hstart
  · have hrest : (Action.block [.when (fun s => !s.cursorVisible) closeTouch,
        closeScroll]).Keeps LoopState.mode :=
      .cons (.when (touchOnly_closeTouch.keeps besidesTouch_mode))
        (.cons (touchOnly_closeScroll.keeps besidesTouch_mode) .nil)
    exact toggle_mode f.startTicks hrest s
  · rfl

/-- A button takes its turn through the toggles. -/
theorem button_mode (f : FrameInput) (i : Fin 15) (s : LoopState) :
    (button f i s).1.mode =
      if buttonEdge f i s then (startToggle f i (selectToggle f i s).1).1.mode else s.mode := by
  have hassign : (button f i s).1.mode =
      (Action.when (buttonEdge f i) (Action.block [selectToggle f i, startToggle f i, mogaKey f i,
        touchPress f i, touchRelease f i]) s).1.mode := rfl
  rw [hassign, Action.when_apply]
  split_ifs with hedge
  · exact keeps_mode_afterToggles f i _
  · rfl

/-- Only Select and Start touch the timer. -/
theorem button_mode_of_ne (f : FrameInput) {i : Fin 15} (hselect : i ≠ 4) (hstart : i ≠ 6) :
    (button f i).Keeps LoopState.mode := by
  intro s
  rw [button_mode, startToggle_mode, selectToggle_mode]
  simp [hselect, hstart]

theorem button_mode_select (f : FrameInput) (s : LoopState) :
    (button f 4 s).1.mode =
      if f.buttons 4 && !s.previous 4 && !f.buttons 6 then switched f.selectTicks s.mode
      else s.mode := by
  rw [button_mode, startToggle_mode, selectToggle_mode]
  cases hnow : f.buttons 4 <;> cases hbefore : s.previous 4 <;>
    simp [buttonEdge, androidKeys, hnow, hbefore]

theorem button_mode_start (f : FrameInput) (s : LoopState) :
    (button f 6 s).1.mode =
      if f.buttons 6 && !s.previous 6 && s.gameplayModeUsed then switched f.startTicks s.mode
      else s.mode := by
  have hselect : selectToggle f 6 s = (s, []) := by simp [selectToggle, Action.when_apply]
  rw [button_mode, hselect, startToggle_mode]
  cases hnow : f.buttons 6 <;> cases hbefore : s.previous 6 <;>
    simp [buttonEdge, androidKeys, hnow, hbefore]

/-- Turns of other buttons than Select and Start. -/
theorem keeps_mode_turns (f : FrameInput) {is : List (Fin 15)} (h : 4 ∉ is ∧ 6 ∉ is) :
    (Action.each (button f) is).Keeps LoopState.mode :=
  .each fun _ hi => button_mode_of_ne f (fun heq => h.1 (heq ▸ hi)) fun heq => h.2 (heq ▸ hi)

theorem beforeSelect_mode (d : Display) (f : FrameInput) (s : LoopState) :
    (atTurn d f 4 s).mode = (idleHide f s).1.mode := by
  have hothers : 4 ∉ (List.finRange 15).take (4 : Fin 15) ∧
      6 ∉ (List.finRange 15).take (4 : Fin 15) := by decide
  exact (keeps_mode_turns f hothers _).trans (poll_mode d f s)

theorem beforeStart_mode (d : Display) (f : FrameInput) (s : LoopState) :
    (atTurn d f 6 s).mode = (button f 4 (atTurn d f 4 s)).1.mode := by
  have hturns : (List.finRange 15).take (6 : Fin 15) =
      (List.finRange 15).take (4 : Fin 15) ++ [4, 5] := by decide
  have hpair : ∀ t, (Action.each (button f) [4, 5] t).1.mode = (button f 4 t).1.mode := fun t =>
    button_mode_of_ne f (by decide) (by decide) (button f 4 t).1
  rw [atTurn, hturns, Action.each_append, Action.seq_apply, hpair]
  rfl

theorem frame_mode (d : Display) (f : FrameInput) (s : LoopState) :
    (frame d f s).1.mode = (button f 6 (atTurn d f 6 s)).1.mode := by
  have hturns : List.finRange 15 =
      (List.finRange 15).take (6 : Fin 15) ++ 6 :: (List.finRange 15).drop 7 := by decide
  have hframe : (frame d f s).1 = (Action.each (button f) (List.finRange 15) (poll d f s).1).1 :=
    rfl
  have hothers : 4 ∉ (List.finRange 15).drop 7 ∧ 6 ∉ (List.finRange 15).drop 7 := by decide
  have hrest : ∀ t, (Action.each (button f) (6 :: (List.finRange 15).drop 7) t).1.mode =
      (button f 6 t).1.mode := fun t => keeps_mode_turns f hothers (button f 6 t).1
  rw [hframe, hturns, Action.each_append, Action.seq_apply, hrest]
  rfl

/-! ## The stored tick -/

/-- The difference of two ticks less than a wrap apart is that of the times. -/
theorem tick_sub_toNat {earlier later : Nat} (hle : earlier ≤ later)
    (hwrap : later < earlier + 2 ^ 32) : (tick later - tick earlier).toNat = later - earlier := by
  rw [UInt32.toNat_sub, tick, tick, UInt32.toNat_ofNat', UInt32.toNat_ofNat']
  omega

/-- `latest` is the last of the moments that woke the mouse, its tick is the one stored, and
while the mouse is shown it is less than 15 seconds before the frame that began at `since`. -/
structure Awake (moments : List Nat) (since latest : Nat) (mode : Bool × UInt32) : Prop where
  greatest : IsGreatest {t | t ∈ moments} latest
  stored : mode.2 = tick latest
  recent : mode.1 = true → since < latest + 15000

variable {moments : List Nat} {since latest time : Nat} {mode : Bool × UInt32}

/-- The mouse is woken at `time`. -/
theorem Awake.wake (h : Awake moments since latest mode) (hlatest : latest ≤ time)
    (hsince : since ≤ time) (visible : Bool) :
    Awake (moments ++ [time]) since time (visible, tick time) := by
  refine ⟨⟨by simp, fun t ht => ?_⟩, rfl, fun _ => by omega⟩
  rcases List.mem_append.mp ht with ht | ht
  · exact (h.greatest.2 ht).trans hlatest
  · exact (List.mem_singleton.mp ht).le

/-- The mouse is hidden, so that it does not matter when. -/
theorem Awake.hide (h : Awake moments since latest mode) (since' : Nat) :
    Awake moments since' latest (false, mode.2) :=
  ⟨h.greatest, h.stored, fun hshown => by simp at hshown⟩

/-- A switch of the mode at `time`, by a button that shows the mouse or hides it. -/
theorem Awake.switch (h : Awake moments since latest mode) (hlatest : latest ≤ time)
    (hsince : since ≤ time) (pressed : Bool) :
    ∃ latest', latest ≤ latest' ∧ latest' ≤ time ∧
      Awake (moments ++ if pressed && !mode.1 then [time] else []) since latest'
        (if pressed then switched (tick time) mode else mode) := by
  obtain ⟨visible, ticks⟩ := mode
  cases pressed with
  | false => exact ⟨latest, le_rfl, hlatest, by simpa using h⟩
  | true =>
    cases visible with
    | false => exact ⟨time, hlatest, le_rfl, by simpa [switched] using h.wake hlatest hsince true⟩
    | true => exact ⟨latest, le_rfl, hlatest, by simpa [switched] using h.hide since⟩

/-- Unless it is too long since the last frame, the idle test measures real time. -/
theorem Awake.idleExpired_iff {f : TimedFrame} {s : LoopState}
    (h : Awake moments since latest s.mode) (hlatest : latest ≤ f.idleTime)
    (hgap : f.idleTime < since + (2 ^ 32 - 15000)) (hvisible : s.cursorVisible = true) :
    idleExpired f.input s = true ↔
      f.input.inputActive = false ∧ latest + 15000 ≤ f.idleTime := by
  have hstored : s.lastCursorActivity = tick latest := h.stored
  have hrecent := h.recent hvisible
  have hsub := tick_sub_toNat hlatest (by omega)
  have hle : 15000 ≤ tick f.idleTime - tick latest ↔ latest + 15000 ≤ f.idleTime := by
    rw [UInt32.le_iff_toNat_le, hsub]
    simp
    omega
  simp [idleExpired, TimedFrame.input, hstored, hle]

theorem idleHide_mode (f : FrameInput) (s : LoopState) :
    (idleHide f s).1.mode =
      if s.cursorVisible then
        if f.inputActive then (true, f.idleTicks)
        else (!idleExpired f s, s.lastCursorActivity)
      else s.mode := by
  rw [idleHide, Action.when_apply]
  split_ifs with hvisible hactive
  · simp [Action.ite_apply, hactive, LoopState.mode, hvisible]
  · cases hexpired : idleExpired f s <;> cases htouch : s.touchDown || s.scrollTouchDown <;>
      simp [Action.ite_apply, Action.when_apply, hactive, LoopState.mode, hvisible, hexpired,
        htouch, touch]
  · rfl

/-! ## Frames and runs -/

/-- The idle test of a frame, which may wake the mouse or hide it. -/
theorem Awake.idle {f : TimedFrame} {s : LoopState} (h : Awake moments since latest s.mode)
    (hlatest : latest ≤ f.idleTime) (hsince : since ≤ f.idleTime)
    (hgap : f.idleTime < since + (2 ^ 32 - 15000)) :
    ∃ latest' ≤ f.idleTime,
      Awake (moments ++ if s.cursorVisible && f.input.inputActive then [f.idleTime] else [])
        f.idleTime latest' (idleHide f.input s).1.mode := by
  rw [idleHide_mode]
  cases hvisible : s.cursorVisible with
  | false =>
    have hmode : s.mode = (false, s.mode.2) := Prod.ext hvisible rfl
    refine ⟨latest, hlatest, ?_⟩
    rw [hmode]
    simpa using h.hide f.idleTime
  | true =>
    cases hactive : f.input.inputActive with
    | true =>
      refine ⟨f.idleTime, le_rfl, ?_⟩
      obtain ⟨hgreatest, hstored, -⟩ := h.wake hlatest hsince true
      exact ⟨hgreatest, hstored, fun _ => by omega⟩
    | false =>
      have hiff := h.idleExpired_iff hlatest hgap hvisible
      refine ⟨latest, hlatest, by simpa using h.greatest, h.stored, fun hshown => ?_⟩
      by_contra hlate
      have hexpired := hiff.mpr ⟨hactive, by omega⟩
      simp [hexpired] at hshown

/-- A frame adds its moments. -/
theorem Awake.frame {d : Display} {f : TimedFrame} {s : LoopState}
    (h : Awake moments since latest s.mode) (hlatest : latest ≤ f.idleTime)
    (hsince : since ≤ f.idleTime)
    (hreads : f.idleTime ≤ f.selectTime ∧ f.selectTime ≤ f.startTime)
    (hgap : f.idleTime < since + (2 ^ 32 - 15000)) :
    ∃ latest' ≤ f.startTime, Awake (moments ++ wakings d s f) f.idleTime latest'
      (frame d f.input s).1.mode := by
  obtain ⟨idle, hidle, hafterIdle⟩ := h.idle hlatest hsince hgap
  rw [← beforeSelect_mode d] at hafterIdle
  obtain ⟨select, -, hselect, hafterSelect⟩ := hafterIdle.switch (hidle.trans hreads.1) hreads.1
    (f.input.buttons 4 && !(atTurn d f.input 4 s).previous 4 && !f.input.buttons 6)
  rw [show tick f.selectTime = f.input.selectTicks from rfl, ← button_mode_select,
    ← beforeStart_mode] at hafterSelect
  obtain ⟨start, -, hstart, hafterStart⟩ := hafterSelect.switch (hselect.trans hreads.2)
    (hreads.1.trans hreads.2) (f.input.buttons 6 && !(atTurn d f.input 6 s).previous 6 &&
      (atTurn d f.input 6 s).gameplayModeUsed)
  rw [show tick f.startTime = f.input.startTicks from rfl, ← button_mode_start,
    ← frame_mode, List.append_assoc, List.append_assoc, ← List.append_assoc _ _ (ite _ _ _)]
    at hafterStart
  exact ⟨start, hstart, hafterStart⟩

/-- After the frames, the stored tick is that of the last moment before. -/
theorem awake_frames (d : Display) {s : LoopState} {read : Nat} (earlier later : List TimedFrame)
    (h : Awake moments since latest s.mode) (hlatest : latest ≤ read) (hsince : since ≤ read)
    (htime : InTime since read (earlier ++ later)) :
    ∃ since' read' latest', latest' ≤ read' ∧ since' ≤ read' ∧ InTime since' read' later ∧
      Awake (moments ++ wakingTimes d s earlier) since' latest'
        (frames d (earlier.map TimedFrame.input) s).1.mode := by
  induction earlier generalizing s moments since latest read with
  | nil =>
    refine ⟨since, read, latest, hlatest, hsince, htime, ?_⟩
    simpa [wakingTimes, frames] using h
  | cons f earlier ih =>
    obtain ⟨⟨hread, hreads⟩, hgap, hrest⟩ := htime
    obtain ⟨latest', hlatest', hframe⟩ :=
      h.frame (d := d) (hlatest.trans hread) (hsince.trans hread) hreads hgap
    have hmore := ih hframe hlatest' (hreads.1.trans hreads.2) hrest
    simpa only [wakingTimes, List.append_assoc, List.map_cons, frames, Action.each_cons,
      Action.seq_apply] using hmore

theorem inputActive_eq_false_iff (f : FrameInput) : f.inputActive = false ↔ f.Quiet := by
  have hbuttons : (List.finRange 15).any f.buttons = false ↔ ∀ i, f.buttons i = false := by simp
  simp only [FrameInput.inputActive, Bool.or_eq_false_iff, hbuttons, decide_eq_false_iff_not,
    Int.not_lt]
  constructor
  · intro h
    exact ⟨by tauto, by omega, by omega, by omega⟩
  · rintro ⟨hb, hl, hr, ht⟩
    exact ⟨⟨⟨⟨⟨⟨⟨⟨⟨⟨hb, by omega⟩, by omega⟩, by omega⟩, by omega⟩, by omega⟩, by omega⟩, by omega⟩,
      by omega⟩, by omega⟩, by omega⟩

/-- A frame that begins with the mouse shown hides it exactly when there is no input and
15 seconds of real time have passed since the loop's start and every moment that woke the
mouse. -/
theorem idle_hides_exactly (d : Display) (startTime : Nat) (earlier : List TimedFrame)
    (f : TimedFrame) (htime : InTime startTime startTime (earlier ++ [f])) :
    let start := LoopState.start d (tick startTime)
    let s := (frames d (earlier.map TimedFrame.input) start).1
    s.cursorVisible = true →
      ∃ latest, IsGreatest {t | t ∈ startTime :: wakingTimes d start earlier} latest ∧
        ((idleHide f.input s).1.cursorVisible = false ↔
          f.input.Quiet ∧ latest + 15000 ≤ f.idleTime) := by
  intro start s hvisible
  have hstart : Awake [startTime] startTime startTime start.mode :=
    ⟨⟨by simp, fun t ht => (List.mem_singleton.mp ht).le⟩, rfl, fun _ => by omega⟩
  obtain ⟨since, read, latest, hlatest, hsince, ⟨⟨hread, -⟩, hgap, -⟩, hawake⟩ :=
    awake_frames d earlier [f] hstart le_rfl le_rfl htime
  refine ⟨latest, hawake.greatest, ?_⟩
  have hexpired := hawake.idleExpired_iff (hlatest.trans hread) hgap hvisible
  have hhidden : (idleHide f.input s).1.cursorVisible =
      (f.input.inputActive || !idleExpired f.input s) := by
    have hmode := congrArg Prod.fst (idleHide_mode f.input s)
    rw [if_pos hvisible] at hmode
    cases hactive : f.input.inputActive <;> simpa [hactive, LoopState.mode] using hmode
  rw [← inputActive_eq_false_iff, ← hexpired, hhidden]
  cases hactive : f.input.inputActive <;> simp [idleExpired, hactive, s]

/-- A frame with a held stick or some buttons, and one time for all that reads the counter. -/
def timedFrame (stick : Int16) (held : List Nat) (time : Nat) : TimedFrame :=
  ⟨fun i => if i.val = 0 then stick else 0, fun i => held.contains i.val, time, time, time⟩

/-- The stick is moved, and Select leaves the mouse and comes back to it. -/
def wakingFrames : List TimedFrame :=
  [timedFrame 20000 [] 4294966496, timedFrame 0 [4] 4294966596, timedFrame 0 [] 4294966696,
    timedFrame 0 [4] 4294966796, timedFrame 0 [] 4294967396]

/-- The counter wraps around a second after the loop's start, and half a second after Select has
shown the mouse. It is hidden 15 seconds after that. -/
theorem idle_hides_across_wrap :
    let start := LoopState.start ⟨640, 480⟩ (tick 4294966296)
    let s := (frames ⟨640, 480⟩ (wakingFrames.map TimedFrame.input) start).1
    let f := timedFrame 0 [] 4294981796
    wakingTimes ⟨640, 480⟩ start wakingFrames = [4294966496, 4294966596, 4294966796] ∧
    ∃ latest, IsGreatest {t | t ∈ 4294966296 :: wakingTimes ⟨640, 480⟩ start wakingFrames}
        latest ∧
      ((idleHide f.input s).1.cursorVisible = false ↔
        f.input.Quiet ∧ latest + 15000 ≤ f.idleTime) := by
  have htime : InTime 4294966296 4294966296 (wakingFrames ++ [timedFrame 0 [] 4294981796]) := by
    simp [InTime, wakingFrames, timedFrame]
  refine ⟨by decide +kernel, ?_⟩
  exact idle_hides_exactly ⟨640, 480⟩ 4294966296 wakingFrames _ htime (by decide +kernel)

end NfsmwRuntime.Game

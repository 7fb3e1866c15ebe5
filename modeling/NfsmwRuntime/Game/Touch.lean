import Mathlib.Tactic.MkIffOfInductiveProp
import NfsmwRuntime.Game.Effects
import NfsmwRuntime.Library.Contact

/-!
# The touch protocol

The loop owns a single pointer and two flags that may hold it down: `touch_down`, set
by button A, and `scroll_touch_down`, set by scrolling. The contact the guest sees is
open exactly when one of the flags is set, and the invariant `TouchInv` ties the flags
to the mode and to button A.
-/

namespace NfsmwRuntime.Game

open Library

def touchSignal : GuestCall → Option Signal
  | .touch .down _ _ => some .opens
  | .touch .move _ _ => some .holds
  | .touch .up _ _ => some .closes
  | _ => none

/-- The `nativeTouchScreenEvent` calls among the calls made, as signals of one contact. -/
def touchSignals (calls : List GuestCall) : List Signal := calls.filterMap touchSignal

def touchMonitor : Machine Bool GuestCall := Contact.monitor.comap touchSignal

/-- The contact as the loop's flags describe it. -/
def LoopState.contact (s : LoopState) : Bool := s.touchDown || s.scrollTouchDown

@[mk_iff]
structure TouchInv (s : LoopState) : Prop where
  exclusive : ¬ (s.touchDown = true ∧ s.scrollTouchDown = true)
  hidden : s.cursorVisible = false → s.touchDown = false ∧ s.scrollTouchDown = false
  held : s.touchDown = true → s.previous 0 = true

theorem touchInv_start (d : Display) (t : UInt32) : TouchInv (.start d t) :=
  ⟨by simp [LoopState.start], by simp [LoopState.start], by simp [LoopState.start]⟩

@[simp] theorem touchMonitor_down (c : Bool) (x y : Int) :
    touchMonitor.step c (.touch .down x y) = if c then none else some true := rfl
@[simp] theorem touchMonitor_move (c : Bool) (x y : Int) :
    touchMonitor.step c (.touch .move x y) = if c then some true else none := rfl
@[simp] theorem touchMonitor_up (c : Bool) (x y : Int) :
    touchMonitor.step c (.touch .up x y) = if c then some false else none := rfl

/-! ## What each action does to the contact -/

/-- The flags, the mode and button A are all the invariant reads. -/
theorem TouchInv.congr {s t : LoopState} (h : TouchInv s) (ht : t.touchDown = s.touchDown)
    (hs : t.scrollTouchDown = s.scrollTouchDown) (hv : t.cursorVisible = s.cursorVisible)
    (hp : t.previous 0 = s.previous 0) : TouchInv t :=
  ⟨by rw [ht, hs]; exact h.exclusive, by rw [ht, hs, hv]; exact h.hidden,
    by rw [ht, hp]; exact h.held⟩

/-- An action that emits no touch and leaves what the invariant reads alone. -/
theorem drives_quiet {a : LoopAction} {P : LoopState → Prop}
    (hcalls : ∀ s, touchSignals (a s).2 = [])
    (ht : ∀ s, (a s).1.touchDown = s.touchDown)
    (hs : ∀ s, (a s).1.scrollTouchDown = s.scrollTouchDown)
    (hP : ∀ s, P s → P (a s).1) : touchMonitor.Drives LoopState.contact P P a := by
  refine fun s h => ⟨hP s h, ?_⟩
  have hrun := Machine.run_comap touchSignal Contact.monitor s.contact (a s).2
  rw [show (a s).2.filterMap touchSignal = [] from hcalls s] at hrun
  simpa [touchMonitor, LoopState.contact, ht, hs] using hrun

section Pointer

variable {P Q : LoopState → Prop}

theorem drives_closeTouch (hP : ∀ s, P s → ¬ (s.touchDown = true ∧ s.scrollTouchDown = true))
    (hQ : ∀ s, P s → Q { s with touchDown := false }) :
    touchMonitor.Drives LoopState.contact P Q closeTouch := by
  refine .when (.emit_assign (fun s h => hQ s h.1) fun s ⟨hp, ht⟩ => ?_) fun s hp ht => ?_
  · have hs : s.scrollTouchDown = false := by simpa [ht] using hP s hp
    simp [LoopState.contact, ht, hs]
  · have hsame : { s with touchDown := false } = s := by rw [← ht]
    exact hsame ▸ hQ s hp

theorem drives_closeScroll (hP : ∀ s, P s → ¬ (s.touchDown = true ∧ s.scrollTouchDown = true))
    (hQ : ∀ s, P s → Q { s with scrollTouchDown := false }) :
    touchMonitor.Drives LoopState.contact P Q closeScroll := by
  refine .when (.emit_assign (fun s h => hQ s h.1) fun s ⟨hp, hs⟩ => ?_) fun s hp hs => ?_
  · have ht : s.touchDown = false := by simpa [hs] using hP s hp
    simp [LoopState.contact, ht, hs]
  · have hsame : { s with scrollTouchDown := false } = s := by rw [← hs]
    exact hsame ▸ hQ s hp

theorem drives_openScroll (hP : ∀ s, P s → s.touchDown = false)
    (hQ : ∀ s, P s → Q { s with scrollTouchDown := true }) :
    touchMonitor.Drives LoopState.contact P Q openScroll := by
  refine .when (.emit_assign (fun s h => hQ s h.1) fun s ⟨hp, hs⟩ => ?_) fun s hp hs => ?_
  · have hs' : s.scrollTouchDown = false := by simpa using hs
    simp [LoopState.contact, hP s hp, hs']
  · have hs' : s.scrollTouchDown = true := by simpa using hs
    have hsame : { s with scrollTouchDown := true } = s := by rw [← hs']
    exact hsame ▸ hQ s hp

end Pointer

theorem TouchInv.of_released {s : LoopState} (ht : s.touchDown = false)
    (hs : s.scrollTouchDown = false) : TouchInv s :=
  ⟨by simp [ht], fun _ => ⟨ht, hs⟩, by simp [ht]⟩

theorem TouchInv.of_shown {s : LoopState} (ht : s.touchDown = false)
    (hv : s.cursorVisible = true) : TouchInv s :=
  ⟨by simp [ht], by simp [hv], by simp [ht]⟩

/-- Scrolling moves the contact from the press to the scroll before it drags. -/
theorem drives_scroll (d : Display) (f : FrameInput) :
    touchMonitor.Drives LoopState.contact TouchInv TouchInv (scroll d f) := by
  refine .when (.seq (Q := fun s => TouchInv s ∧ s.cursorVisible = true)
    (.assign (fun _ => rfl) fun s h => ⟨h.1.congr rfl rfl rfl rfl, h.2⟩)
    (.seq (.ite ?_ ?_) (.skip fun _ h => h))) fun _ h _ => h
  · refine .seq (drives_closeTouch (Q := fun s => s.touchDown = false ∧ s.cursorVisible = true)
      (fun s h => h.1.1.exclusive) fun s h => ⟨rfl, h.1.2⟩) ?_
    refine .seq (drives_openScroll (Q := fun s => (s.touchDown = false ∧ s.cursorVisible = true) ∧
      s.scrollTouchDown = true) (fun s h => h.1) fun s h => ⟨h, rfl⟩) ?_
    refine .seq (Q := fun s => TouchInv s ∧ s.contact = true) (.assign (fun _ => rfl) fun s h => ?_)
      (.seq (.emit (fun s h => h.1) fun s h => ?_) (.skip fun _ h => h))
    · exact ⟨.of_shown h.1.1 h.1.2, by simp [LoopState.contact, moveCursor, h.2]⟩
    · simp [h.2]
  · refine drives_closeScroll (fun s h => h.1.1.exclusive) fun s h => ?_
    exact ⟨by simp, by simp [h.1.2], h.1.1.held⟩

theorem drives_idleHide (f : FrameInput) :
    touchMonitor.Drives LoopState.contact TouchInv TouchInv (idleHide f) := by
  refine .when (.ite (.assign (fun _ => rfl) fun s h => h.1.1.congr rfl rfl rfl rfl)
    (.when ?_ fun _ h _ => h.1.1)) fun _ h _ => h
  refine .seq (Q := fun s => s.touchDown = false ∧ s.scrollTouchDown = false)
    (.when (.emit_assign (fun _ _ => ⟨rfl, rfl⟩) fun s h => ?_) fun s _ h => by simpa using h)
    (.seq (.assign (fun _ => rfl) fun s h => .of_released h.1 h.2) (.skip fun _ h => h))
  have hcontact : (s.touchDown || s.scrollTouchDown) = true := h.2
  simp [LoopState.contact, hcontact]

theorem drives_motion (f : FrameInput) :
    touchMonitor.Drives LoopState.contact TouchInv TouchInv (motion f) :=
  drives_quiet (fun s => by simp only [motion]; split_ifs <;> simp [touchSignals, touchSignal])
    (fun _ => rfl) (fun _ => rfl) fun _ h => h.congr rfl rfl rfl rfl

theorem drives_direct (f : FrameInput) :
    touchMonitor.Drives LoopState.contact TouchInv TouchInv (direct f) :=
  drives_quiet (fun s => by simp only [direct, Action.emit_apply]; split_ifs <;> rfl)
    (fun _ => rfl) (fun _ => rfl) fun _ h => h

theorem drives_poll (d : Display) (f : FrameInput) :
    touchMonitor.Drives LoopState.contact TouchInv TouchInv (poll d f) := by
  refine .block fun a ha => ?_
  simp only [List.mem_cons, List.not_mem_nil, or_false] at ha
  rcases ha with rfl | rfl | rfl | rfl
  exacts [drives_idleHide f, drives_scroll d f, drives_motion f, drives_direct f]

/-! ## The turn of a button -/

/-- Just after the mode has been switched: a press can only be left over from the mouse. -/
structure Switched (s : LoopState) : Prop where
  exclusive : ¬ (s.touchDown = true ∧ s.scrollTouchDown = true)
  shown : s.cursorVisible = true → s.touchDown = false

theorem drives_switch :
    touchMonitor.Drives LoopState.contact TouchInv Switched
      (.assign fun s => { s with cursorVisible := !s.cursorVisible }) :=
  .assign (fun _ => rfl) fun _ h => ⟨h.exclusive, fun hv => (h.hidden (by simpa using hv)).1⟩

theorem drives_wake (ticks : UInt32) :
    touchMonitor.Drives LoopState.contact Switched Switched
      (.when (·.cursorVisible) <| .assign fun s => { s with lastCursorActivity := ticks }) :=
  .when (.assign (fun _ => rfl) fun _ h => ⟨h.1.exclusive, h.1.shown⟩) fun _ h _ => h

theorem drives_endPress :
    touchMonitor.Drives LoopState.contact Switched (fun s => s.touchDown = false)
      (.when (fun s => !s.cursorVisible) closeTouch) :=
  .when (drives_closeTouch (fun _ h => h.1.exclusive) fun _ _ => rfl)
    fun _ h hv => h.shown (by simpa using hv)

theorem drives_endScroll :
    touchMonitor.Drives LoopState.contact (fun s => s.touchDown = false) TouchInv closeScroll :=
  drives_closeScroll (fun s h => by simp [h]) fun _ h => .of_released h rfl

theorem drives_selectToggle (f : FrameInput) (i : Fin 15) :
    touchMonitor.Drives LoopState.contact TouchInv TouchInv (selectToggle f i) := by
  refine .when (.seq (fun s h => drives_switch s h.1) (.seq (drives_wake _)
    (.seq drives_endPress (.seq ?_ (.seq drives_endScroll (.skip fun _ h => h)))))) fun _ h _ => h
  exact .when (.assign (fun _ => rfl) fun _ h => h.1) fun _ h _ => h

theorem drives_startToggle (f : FrameInput) (i : Fin 15) :
    touchMonitor.Drives LoopState.contact TouchInv TouchInv (startToggle f i) :=
  .when (.seq (fun s h => drives_switch s h.1) (.seq (drives_wake _)
    (.seq drives_endPress (.seq drives_endScroll (.skip fun _ h => h))))) fun _ h _ => h

theorem drives_mogaKey (f : FrameInput) (i : Fin 15) :
    touchMonitor.Drives LoopState.contact TouchInv TouchInv (mogaKey f i) :=
  .when (.emit (fun _ h => h.1) fun _ _ => rfl) fun _ h _ => h

/-- What holds while button `i` is taken: between a press of A and the assignment to
`previous`, `touch_down` runs ahead of `previous`. -/
structure TouchInvBut (i : Fin 15) (s : LoopState) : Prop where
  exclusive : ¬ (s.touchDown = true ∧ s.scrollTouchDown = true)
  hidden : s.cursorVisible = false → s.touchDown = false ∧ s.scrollTouchDown = false
  held : i ≠ 0 → s.touchDown = true → s.previous 0 = true

theorem drives_touchPress (f : FrameInput) (i : Fin 15) :
    touchMonitor.Drives LoopState.contact TouchInv (TouchInvBut i) (touchPress f i) := by
  refine .when ?_ fun s h _ => ⟨h.exclusive, h.hidden, fun _ => h.held⟩
  refine .seq (Q := fun s => ((i = 0 ∧ s.cursorVisible = true) ∧ s.touchDown = false) ∧
    s.scrollTouchDown = false) (drives_closeScroll (fun s h => h.1.exclusive) fun s h => ?_) ?_
  · have hguard := h.2
    simp only [Bool.and_eq_true, beq_iff_eq, Bool.not_eq_true'] at hguard
    exact ⟨⟨⟨hguard.1.2, hguard.1.1.2⟩, hguard.2⟩, rfl⟩
  · refine .emit_assign (fun s h => ?_) fun s h => ?_
    · exact ⟨by simp [h.2], by simp [h.1.1.2], by simp [h.1.1.1]⟩
    · simp [LoopState.contact, h.1.2, h.2]

/-- `touch_down` ends up following A: a release of A clears it, and a press sets it. -/
theorem drives_touchRelease (f : FrameInput) (i : Fin 15) :
    touchMonitor.Drives LoopState.contact (TouchInvBut i)
      (fun s => TouchInv { s with previous := Function.update s.previous i (f.buttons i) })
      (touchRelease f i) := by
  refine .when (.emit_assign (fun s h => ?_) fun s h => ?_) fun s h hkeep => ?_
  · have ht : s.touchDown = true := by simp_all
    exact .of_released rfl (by simpa [ht] using h.1.exclusive)
  · have ht : s.touchDown = true := by simp_all
    have hs : s.scrollTouchDown = false := by simpa [ht] using h.1.exclusive
    simp [LoopState.contact, ht, hs]
  · refine ⟨h.exclusive, h.hidden, fun ht => ?_⟩
    by_cases hi : i = 0
    · subst hi
      simpa [show s.touchDown = true from ht] using hkeep
    · simpa [Function.update_of_ne (Ne.symm hi)] using h.held hi ht

theorem drives_button (f : FrameInput) (i : Fin 15) :
    touchMonitor.Drives LoopState.contact TouchInv TouchInv (button f i) := by
  refine .seq (.when ?_ fun s h hedge => ?_) (.seq (.assign (fun _ => rfl) fun _ h => h)
    (.skip fun _ h => h))
  · exact .seq (fun s h => drives_selectToggle f i s h.1) (.seq (drives_startToggle f i)
      (.seq (drives_mogaKey f i) (.seq (drives_touchPress f i)
        (.seq (drives_touchRelease f i) (.skip fun _ h => h)))))
  · refine h.congr rfl rfl rfl ?_
    by_cases hi : i = 0
    · subst hi
      simpa [buttonEdge, androidKeys] using hedge
    · simp [Function.update_of_ne (Ne.symm hi)]

/-! ## Frames and runs -/

theorem drives_frame (d : Display) (f : FrameInput) :
    touchMonitor.Drives LoopState.contact TouchInv TouchInv (frame d f) := by
  refine .block fun a ha => ?_
  simp only [List.mem_cons, List.not_mem_nil, or_false] at ha
  rcases ha with rfl | rfl | rfl | rfl
  exacts [drives_poll d f, .each (drives_button f) _,
    drives_quiet (fun _ => rfl) (fun _ => rfl) (fun _ => rfl) fun _ h => h,
    drives_quiet (fun _ => rfl) (fun _ => rfl) (fun _ => rfl) fun _ h => h]

theorem drives_frames (d : Display) (fs : List FrameInput) :
    touchMonitor.Drives LoopState.contact TouchInv TouchInv (frames d fs) :=
  .each (drives_frame d) fs

/-- A press of A that is processed while the mouse is shown sends one down. -/
theorem button_zero_opens_once (f : FrameInput) (s : LoopState) (h : TouchInv s)
    (hp : s.previous 0 = false) (hb : f.buttons 0 = true) (hv : s.cursorVisible = true) :
    (touchSignals (button f 0 s).2).count .opens = 1 := by
  have ht : s.touchDown = false := by simpa [hp] using h.held
  cases hs : s.scrollTouchDown <;>
    simp [button, buttonEdge, androidKeys, Action.when_apply, selectToggle, startToggle, mogaKey,
      sendMogaKey, touchPress, touchRelease, closeScroll, touch, touchSignals, touchSignal,
      hp, hb, hv, ht, hs]

/-- The touch stream of every run is a well formed contact, the flags describe it between
frames, and every press of A on the shown mouse opens it exactly once. -/
theorem touch_protocol (d : Display) (startTicks : UInt32) (fs : List FrameInput) :
    let run := frames d fs (.start d startTicks)
    Contact.WellFormed (touchSignals run.2) ∧
    ¬ (run.1.touchDown = true ∧ run.1.scrollTouchDown = true) ∧
    (run.1.cursorVisible = false → run.1.touchDown = false ∧ run.1.scrollTouchDown = false) ∧
    (run.1.touchDown = true → ∃ earlier f, fs = earlier ++ [f] ∧ f.buttons 0 = true) ∧
    ∀ f, let s := (poll d f run.1).1
      s.previous 0 = false → f.buttons 0 = true → s.cursorVisible = true →
        (touchSignals (button f 0 s).2).count .opens = 1 := by
  intro run
  obtain ⟨hinv, hrun⟩ := drives_frames d fs _ (touchInv_start d startTicks)
  have hrun' : Contact.monitor.run false (touchSignals run.2) = some run.1.contact := by
    rw [touchSignals, ← Machine.run_comap]
    exact hrun
  refine ⟨Contact.wellFormed_of_run hrun', hinv.exclusive, hinv.hidden, fun ht => ?_,
    fun f => button_zero_opens_once f _ (drives_poll d f _ hinv).1⟩
  rcases List.eq_nil_or_concat' fs with rfl | ⟨earlier, f, rfl⟩
  · simp [run, frames, LoopState.start] at ht
  · have hprev := frames_concat_previous d earlier f (.start d startTicks)
    exact ⟨earlier, f, rfl, hprev ▸ hinv.held ht⟩

end NfsmwRuntime.Game

import Mathlib.Data.Fintype.Basic
import Mathlib.Tactic.FinCases
import Mathlib.Tactic.Abel
import Mathlib.Algebra.Group.Prod
import NfsmwRuntime.Game.Effects
import NfsmwRuntime.Library.Contact

/-!
# Motion events

A MotionEvent goes out when an axis has moved by more than 512 since the previous frame.
Since `previous_axes` follows the axes in every frame, sent or not, small steps can add
up unnoticed: what the guest holds is current exactly as long as they do not.
-/

namespace NfsmwRuntime.Game

open Library

def motionAxes : GuestCall → Option (Fin 6 → Int16)
  | .motion axes => some axes
  | _ => none

/-- The axes of the MotionEvents among the calls made. -/
def motions (calls : List GuestCall) : List (Fin 6 → Int16) := calls.filterMap motionAxes

/-- Is the mouse still shown once the frame's idle test is done? -/
def mouseShown (f : FrameInput) (s : LoopState) : Bool := s.cursorVisible && !idleExpired f s

/-- The axis values the loop settles on in a frame. -/
def settled (f : FrameInput) (s : LoopState) : Fin 6 → Int16 :=
  settledAxes (mouseShown f s) f.axes

def Near (a b : Fin 6 → Int16) : Prop := ∀ i, ((b i).toInt - (a i).toInt).natAbs ≤ 512

/-- At the end of every frame each settled axis is within 512 of its value in the last
MotionEvent sent. -/
def MotionFresh (d : Display) (startTicks : UInt32) (fs : List FrameInput) : Prop :=
  ∀ earlier f later, fs = earlier ++ f :: later →
    ∃ last, (motions (frames d (earlier ++ [f]) (.start d startTicks)).2).getLast? = some last ∧
      Near last (settled f (frames d earlier (.start d startTicks)).1)

/-- The triggers a frame reads; while the mouse is shown they count as released. -/
def triggers (f : FrameInput) (s : LoopState) : Int × Int :=
  if mouseShown f s then (0, 0) else f.rawTriggers

/-- The triggers of each frame of a run. -/
def triggerRows (d : Display) : List FrameInput → LoopState → List (Int × Int)
  | [], _ => []
  | f :: fs, s => triggers f s :: triggerRows d fs (frame d f s).1

/-- Neither component exceeds the 512 that the loop overlooks. -/
def Small (p : Int × Int) : Prop := p.1.natAbs ≤ 512 ∧ p.2.natAbs ≤ 512

instance (p : Int × Int) : Decidable (Small p) := inferInstanceAs (Decidable (_ ∧ _))

/-- The small steps from frame to frame never add up to more than 512; a large step of
either trigger starts the count afresh. -/
def SmallSteps (drift previous : Int × Int) : List (Int × Int) → Prop
  | [] => True
  | row :: rows =>
    if Small (row - previous) then
      Small (drift + (row - previous)) ∧ SmallSteps (drift + (row - previous)) row rows
    else SmallSteps 0 row rows

/-- The small steps of a run, counted from its first frame. -/
def SmallStepsFromFirst : List (Int × Int) → Prop
  | [] => True
  | row :: rows => SmallSteps 0 row rows

/-! ## The motion events of one frame -/

theorem PointerOnly.silent_motion {a : LoopAction} (h : PointerOnly a) : a.Silent motionAxes :=
  h.silent.mono fun e he => by cases e <;> simp_all [mogaCall, motionAxes]

theorem silent_motion_button (f : FrameInput) (i : Fin 15) : (button f i).Silent motionAxes := by
  refine .cons (.when ?_) (.cons (.assign _) .nil)
  exact .cons (pointerOnly_selectToggle f i).silent_motion
    (.cons (pointerOnly_startToggle f i).silent_motion
      (.cons (.when (.emit fun _ => rfl))
        (.cons (touchOnly_touchPress f i).pointerOnly.silent_motion
          (.cons (touchOnly_touchRelease f i).pointerOnly.silent_motion .nil))))

theorem cursorVisible_idleHide (f : FrameInput) (s : LoopState) :
    (idleHide f s).1.cursorVisible = mouseShown f s := by
  cases hv : s.cursorVisible
  · simp [idleHide, Action.when_apply, mouseShown, hv]
  cases ha : f.inputActive
  · cases he : idleExpired f s <;>
      simp [idleHide, Action.when_apply, Action.ite_apply, mouseShown, hv, ha, he]
  · have he : idleExpired f s = false := by simp [idleExpired, ha]
    simp [idleHide, Action.when_apply, Action.ite_apply, mouseShown, hv, ha, he]

/-- The state in which the axes are compared has the previous axes and the frame's mode. -/
theorem motion_entry (d : Display) (f : FrameInput) (s : LoopState) :
    let t := (scroll d f (idleHide f s).1).1
    t.history = s.history ∧ t.cursorVisible = mouseShown f s :=
  ⟨((pointerOnly_scroll d f).keeps _).trans ((pointerOnly_idleHide f).keeps s),
    (keeps_scroll d f (fun _ _ _ => rfl) (fun _ _ => rfl) _).trans (cursorVisible_idleHide f s)⟩

/-- After the motion block nothing touches `previous_axes` any more. -/
theorem frame_axes (d : Display) (f : FrameInput) (s : LoopState) :
    (frame d f s).1.previousAxes = settled f s ∧ (frame d f s).1.havePreviousAxes = true := by
  have hbuttons (t : LoopState) :
      (Action.each (button f) (List.finRange 15) t).1.previousAxes = t.previousAxes ∧
      (Action.each (button f) (List.finRange 15) t).1.havePreviousAxes = t.havePreviousAxes := by
    have hk : (Action.each (button f) (List.finRange 15)).Keeps fun s => s.history.2 :=
      .each fun i _ s => by simp only [button_history]; rfl
    simpa [LoopState.history] using hk t
  obtain ⟨hhist, hvis⟩ := motion_entry d f s
  simp only [LoopState.history, Prod.mk.injEq] at hhist
  simp only [frame, poll, Action.block_cons, Action.block_nil, Action.emit_apply, hbuttons]
  cases hp : s.havePreviousAxes <;> simp [direct, motion, settled, hvis, hhist, hp]

/-- A frame sends one MotionEvent or none. -/
theorem frame_motions (d : Display) (f : FrameInput) (s : LoopState) :
    motions (frame d f s).2 =
      if !s.havePreviousAxes || axesJump s.previousAxes (settled f s) then [settled f s]
      else [] := by
  have hdirect : (direct f).Silent motionAxes := .emit fun s => by split_ifs <;> rfl
  have hrest : (Action.block [.each (button f) (List.finRange 15), .emit fun _ => .tick,
      .emit fun s => .present s.cursorX s.cursorY s.cursorVisible]).Silent motionAxes :=
    .cons (.each fun i _ => silent_motion_button f i)
      (.cons (.emit fun _ => rfl) (.cons (.emit fun _ => rfl) .nil))
  obtain ⟨hhist, hvis⟩ := motion_entry d f s
  simp only [LoopState.history, Prod.mk.injEq] at hhist
  rw [frame, Action.block_cons, motions, List.filterMap_append, hrest _, List.append_nil]
  simp only [poll, Action.block_cons, Action.block_nil, List.append_nil, List.filterMap_append,
    (pointerOnly_idleHide f).silent_motion s, (pointerOnly_scroll d f).silent_motion _, hdirect _,
    List.nil_append]
  have hsettled : settledAxes (mouseShown f s) f.axes = settled f s := rfl
  simp only [motion, hvis, hhist, hsettled]
  split_ifs with hsent
  · rfl
  · rfl

/-! ## Small steps -/

/-- The first four axes are always neutral, so only the triggers can be stale. -/
theorem settled_sub (f g : FrameInput) (s t : LoopState) (i : Fin 6) :
    (settled g t i).toInt - (settled f s i).toInt =
      if i = 4 then (triggers g t - triggers f s).1
      else if i = 5 then (triggers g t - triggers f s).2 else 0 := by
  fin_cases i <;> cases hf : mouseShown f s <;> cases hg : mouseShown g t <;>
    simp [settled, settledAxes, triggers, FrameInput.rawTriggers, FrameInput.raw, hf,
      hg]

theorem near_settled_iff {f g : FrameInput} {s t : LoopState} :
    Near (settled f s) (settled g t) ↔ Small (triggers g t - triggers f s) := by
  simp only [Near, settled_sub]
  constructor
  · exact fun h => ⟨by simpa using h 4, by simpa using h 5⟩
  · rintro ⟨hleft, hright⟩ i
    split_ifs
    exacts [hleft, hright, by decide]

theorem axesJump_eq_false_iff {a b : Fin 6 → Int16} : axesJump a b = false ↔ Near a b := by
  simp only [axesJump, List.any_eq_false, List.mem_finRange, true_imp_iff, axisJumps, Near,
    Bool.or_eq_true, decide_eq_true_eq]
  exact forall_congr' fun i => by omega

/-- The last motion event of a run, when `held` was the last one before it. -/
def lastMotion (held : Fin 6 → Int16) (calls : List GuestCall) : Fin 6 → Int16 :=
  (motions calls).getLast?.getD held

theorem lastMotion_append (held : Fin 6 → Int16) (as bs : List GuestCall) :
    lastMotion held (as ++ bs) = lastMotion (lastMotion held as) bs := by
  simp only [lastMotion, motions, List.filterMap_append, List.getLast?_append]
  cases (List.filterMap motionAxes bs).getLast? <;> simp

theorem lastMotion_frame (d : Display) (f : FrameInput) (s : LoopState)
    (held : Fin 6 → Int16) (hs : s.havePreviousAxes = true) :
    lastMotion held (frame d f s).2 =
      if axesJump s.previousAxes (settled f s) then settled f s else held := by
  rw [lastMotion, frame_motions, hs]
  cases axesJump s.previousAxes (settled f s) <;> simp

/-- From any frame on: the guest holds the triggers of frame `m`, the loop compares with
those of frame `p`, and the difference of the two is the drift so far. -/
theorem fresh_iff_smallSteps (d : Display) (fs : List FrameInput) (s : LoopState)
    (m p : FrameInput) (sm sp : LoopState) (hprev : s.previousAxes = settled p sp)
    (hhave : s.havePreviousAxes = true) :
    (∀ earlier f later, fs = earlier ++ f :: later →
        Near (lastMotion (settled m sm) (frames d (earlier ++ [f]) s).2)
          (settled f (frames d earlier s).1)) ↔
      SmallSteps (triggers p sp - triggers m sm) (triggers p sp) (triggerRows d fs s) := by
  induction fs generalizing s m p sm sp with
  | nil => exact ⟨fun _ => trivial, fun _ earlier f later h => by simp at h⟩
  | cons f fs ih =>
    obtain ⟨hprev', hhave'⟩ := frame_axes d f s
    have hnext := fun m sm => ih (frame d f s).1 m f sm s hprev' hhave'
    have hlast := lastMotion_frame d f s (settled m sm) hhave
    have htail : ∀ earlier g, lastMotion (settled m sm) (frames d (f :: earlier ++ [g]) s).2 =
        lastMotion (lastMotion (settled m sm) (frame d f s).2)
          (frames d (earlier ++ [g]) (frame d f s).1).2 :=
      fun earlier g => lastMotion_append _ _ _
    have hnil : (frames d [] s).1 = s := rfl
    have hfirst : (frames d ([] ++ [f]) s).2 = (frame d f s).2 := by simp [frames, Action.each]
    rw [forall_split_cons]
    simp only [hfirst, htail, triggerRows, SmallSteps]
    rw [hlast, hprev]
    cases hjump : axesJump (settled p sp) (settled f s) with
    | true =>
      have hlarge : ¬ Small (triggers f s - triggers p sp) := by
        rw [← near_settled_iff, ← axesJump_eq_false_iff, hjump]
        simp
      have hrest := hnext f s
      rw [sub_self] at hrest
      rw [if_neg hlarge, ← hrest]
      exact ⟨And.right, fun h => ⟨near_settled_iff.2 (by simp [hnil, Small]), h⟩⟩
    | false =>
      have hsmall : Small (triggers f s - triggers p sp) := by
        rw [← near_settled_iff, ← axesJump_eq_false_iff, hjump]
      have hdrift : triggers p sp - triggers m sm + (triggers f s - triggers p sp) =
          triggers f s - triggers m sm := by abel
      rw [if_pos hsmall, hdrift, ← hnext m sm, ← near_settled_iff]
      exact Iff.rfl

/-- The motion state never goes stale exactly when the small steps of the triggers never
add up. -/
theorem motionFresh_iff_smallSteps (d : Display) (startTicks : UInt32) (fs : List FrameInput) :
    MotionFresh d startTicks fs ↔
      SmallStepsFromFirst (triggerRows d fs (.start d startTicks)) := by
  cases fs with
  | nil => exact ⟨fun _ => trivial, fun _ earlier f later h => by simp at h⟩
  | cons f fs =>
    generalize hstart : LoopState.start d startTicks = s
    have hhave : s.havePreviousAxes = false := by rw [← hstart]; rfl
    have hsent : motions (frame d f s).2 = [settled f s] := by simp [frame_motions, hhave]
    obtain ⟨hprev', hhave'⟩ := frame_axes d f s
    have hrest := fresh_iff_smallSteps d fs (frame d f s).1 f f s s hprev' hhave'
    rw [sub_self] at hrest
    have hlast : ∀ earlier, (motions (frames d (f :: earlier) s).2).getLast? =
        some (lastMotion (settled f s) (frames d earlier (frame d f s).1).2) := by
      intro earlier
      have hcalls : motions (frames d (f :: earlier) s).2 =
          motions (frame d f s).2 ++ motions (frames d earlier (frame d f s).1).2 :=
        List.filterMap_append
      rw [hcalls, hsent, List.singleton_append, List.getLast?_cons, lastMotion]
    rw [MotionFresh, hstart, forall_split_cons]
    simp only [triggerRows, SmallStepsFromFirst, ← hrest]
    constructor
    · rintro ⟨-, h⟩ earlier g later hfs
      obtain ⟨last, hl, hnear⟩ := h earlier g later hfs
      obtain rfl := Option.some.inj ((hlast _).symm.trans hl)
      exact hnear
    · intro h
      exact ⟨⟨_, hlast [], fun i => by simp [frames, lastMotion, motions]⟩,
        fun earlier g later hfs => ⟨_, hlast _, h earlier g later hfs⟩⟩

/-- A frame in which only the left trigger is pulled. -/
def pulling (left : Int16) : FrameInput := { pressing [] with axes := ![0, 0, 0, 0, left, 0] }

/-- After Select has left the mouse, a trigger pulled in steps of 400 goes unreported. -/
theorem motion_drifts_by_small_steps :
    ¬ MotionFresh ⟨640, 480⟩ 0 [pressing [4], pulling 400, pulling 800] := by
  intro h
  obtain ⟨last, hlast, hnear⟩ := h [pressing [4], pulling 400] (pulling 800) [] rfl
  have hheld : some (last 4) = some 0 := by
    rw [← Option.map_some (f := fun axes : Fin 6 → Int16 => axes 4), ← hlast]
    decide
  have hdrift := hnear 4
  rw [Option.some.inj hheld] at hdrift
  revert hdrift
  decide

end NfsmwRuntime.Game

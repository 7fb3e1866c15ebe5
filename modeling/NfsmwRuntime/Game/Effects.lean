import NfsmwRuntime.Game.Loop

/-!
# What the actions of a frame leave alone

A touch changes the two contacts of the pointer, and nothing else that the loop remembers.
Touches, cursor moves and mode changes neither read nor write the history the edge and
change detection work on, and they send the MOGA controller nothing. So a frame changes
`previous` only in the loop over the buttons, each button its own entry.
-/

namespace NfsmwRuntime.Game

open Library

/-! ## The contacts -/

/-- A reading of the state that the contacts of the pointer do not change. -/
def BesidesTouch {τ : Type} (g : LoopState → τ) : Prop :=
  ∀ s touchDown scrollTouchDown,
    g { s with touchDown := touchDown, scrollTouchDown := scrollTouchDown } = g s

/-- What the loop remembers of the previous frame's input. -/
def LoopState.history (s : LoopState) : (Fin 15 → Bool) × (Fin 6 → Int16) × Bool :=
  (s.previous, s.previousAxes, s.havePreviousAxes)

/-- The calls that reach the MOGA listener. -/
def mogaCall : GuestCall → Option GuestCall
  | .motion axes => some (.motion axes)
  | .key a code => some (.key a code)
  | _ => none

/-- The action changes the contacts only. -/
structure TouchOnly (a : LoopAction) : Prop where
  keeps : ∀ {τ : Type} {g : LoopState → τ}, BesidesTouch g → a.Keeps g
  silent : a.Silent mogaCall

theorem touchOnly_closeTouch : TouchOnly closeTouch where
  keeps hg := .when (.cons (.emit _) (.cons (.assign fun s => hg s false s.scrollTouchDown) .nil))
  silent := .when (.cons (.emit fun _ => rfl) (.cons (.assign _) .nil))

theorem touchOnly_closeScroll : TouchOnly closeScroll where
  keeps hg := .when (.cons (.emit _) (.cons (.assign fun s => hg s s.touchDown false) .nil))
  silent := .when (.cons (.emit fun _ => rfl) (.cons (.assign _) .nil))

theorem touchOnly_openScroll : TouchOnly openScroll where
  keeps hg := .when (.cons (.emit _) (.cons (.assign fun s => hg s s.touchDown true) .nil))
  silent := .when (.cons (.emit fun _ => rfl) (.cons (.assign _) .nil))

theorem touchOnly_touchPress (f : FrameInput) (i : Fin 15) : TouchOnly (touchPress f i) where
  keeps hg := .when (.cons (touchOnly_closeScroll.keeps hg) (.cons (.emit _)
    (.cons (.assign fun s => hg s true s.scrollTouchDown) .nil)))
  silent := .when (.cons touchOnly_closeScroll.silent (.cons (.emit fun _ => rfl)
    (.cons (.assign _) .nil)))

theorem touchOnly_touchRelease (f : FrameInput) (i : Fin 15) :
    TouchOnly (touchRelease f i) where
  keeps hg := .when (.cons (.emit _) (.cons (.assign fun s => hg s false s.scrollTouchDown) .nil))
  silent := .when (.cons (.emit fun _ => rfl) (.cons (.assign _) .nil))

/-- Scrolling moves the cursor besides. -/
theorem keeps_scroll (d : Display) (f : FrameInput) {τ : Type} {g : LoopState → τ}
    (hg : BesidesTouch g) (hmove : ∀ delta s, g (moveCursor d delta s) = g s) :
    (scroll d f).Keeps g := by
  refine .when (.cons (.assign (hmove _)) (.cons (.ite ?_ (touchOnly_closeScroll.keeps hg)) .nil))
  exact .cons (touchOnly_closeTouch.keeps hg) (.cons (touchOnly_openScroll.keeps hg)
    (.cons (.assign (hmove _)) (.cons (.emit _) .nil)))

/-! ## The pointer and the mode -/

/-- The action concerns the pointer and the mode only. -/
structure PointerOnly (a : LoopAction) : Prop where
  keeps : a.Keeps LoopState.history
  silent : a.Silent mogaCall

namespace PointerOnly

variable {a b : LoopAction} {as : List LoopAction} {p : LoopState → Bool}

theorem assign {g : LoopState → LoopState} (h : ∀ s, (g s).history = s.history) :
    PointerOnly (.assign g) := ⟨.assign h, .assign g⟩

theorem touch (t : TouchAction) : PointerOnly (touch t) := ⟨.emit _, .emit fun _ => rfl⟩

theorem ite (ha : PointerOnly a) (hb : PointerOnly b) : PointerOnly (.ite p a b) :=
  ⟨.ite ha.keeps hb.keeps, .ite ha.silent hb.silent⟩

theorem when (ha : PointerOnly a) : PointerOnly (.when p a) :=
  ⟨.when ha.keeps, .when ha.silent⟩

theorem nil : PointerOnly (.block []) := ⟨.nil, .nil⟩

theorem cons (ha : PointerOnly a) (has : PointerOnly (.block as)) :
    PointerOnly (.block (a :: as)) := ⟨.cons ha.keeps has.keeps, .cons ha.silent has.silent⟩

end PointerOnly

theorem TouchOnly.pointerOnly {a : LoopAction} (h : TouchOnly a) : PointerOnly a :=
  ⟨h.keeps fun _ _ _ => rfl, h.silent⟩

theorem pointerOnly_scroll (d : Display) (f : FrameInput) : PointerOnly (scroll d f) where
  keeps := keeps_scroll d f (fun _ _ _ => rfl) fun _ _ => rfl
  silent := .when (.cons (.assign _) (.cons (.ite
    (.cons touchOnly_closeTouch.silent (.cons touchOnly_openScroll.silent
      (.cons (.assign _) (.cons (.emit fun _ => rfl) .nil)))) touchOnly_closeScroll.silent) .nil))

theorem pointerOnly_idleHide (f : FrameInput) : PointerOnly (idleHide f) := by
  refine .when (.ite (.assign fun _ => rfl) (.when (.cons (.when ?_)
    (.cons (.assign fun _ => rfl) .nil))))
  exact .cons (.touch .up) (.cons (.assign fun _ => rfl) .nil)

theorem pointerOnly_selectToggle (f : FrameInput) (i : Fin 15) :
    PointerOnly (selectToggle f i) :=
  .when (.cons (.assign fun _ => rfl) (.cons (.when (.assign fun _ => rfl))
    (.cons (.when touchOnly_closeTouch.pointerOnly) (.cons (.when (.assign fun _ => rfl))
      (.cons touchOnly_closeScroll.pointerOnly .nil)))))

theorem pointerOnly_startToggle (f : FrameInput) (i : Fin 15) :
    PointerOnly (startToggle f i) :=
  .when (.cons (.assign fun _ => rfl) (.cons (.when (.assign fun _ => rfl))
    (.cons (.when touchOnly_closeTouch.pointerOnly)
      (.cons touchOnly_closeScroll.pointerOnly .nil))))

theorem keeps_history_mogaKey (f : FrameInput) (i : Fin 15) :
    (mogaKey f i).Keeps LoopState.history := .when (.emit _)

/-- The edge handling of a button leaves the history to the assignment after it. -/
theorem keeps_history_edge (f : FrameInput) (i : Fin 15) :
    (Action.block [selectToggle f i, startToggle f i, mogaKey f i, touchPress f i,
      touchRelease f i]).Keeps LoopState.history :=
  .cons (pointerOnly_selectToggle f i).keeps (.cons (pointerOnly_startToggle f i).keeps
    (.cons (keeps_history_mogaKey f i) (.cons (touchOnly_touchPress f i).pointerOnly.keeps
      (.cons (touchOnly_touchRelease f i).pointerOnly.keeps .nil))))

/-! ## The history over a frame -/

theorem button_history (f : FrameInput) (i : Fin 15) (s : LoopState) :
    (button f i s).1.history =
      (Function.update s.previous i (f.buttons i), s.previousAxes, s.havePreviousAxes) := by
  have h := Action.Keeps.when (p := buttonEdge f i) (keeps_history_edge f i) s
  simp only [LoopState.history, Prod.mk.injEq] at h
  simp only [button, Action.block_cons, Action.block_nil, Action.assign_apply,
    LoopState.history, h]

theorem button_previous (f : FrameInput) (i : Fin 15) (s : LoopState) :
    (button f i s).1.previous = Function.update s.previous i (f.buttons i) :=
  congrArg Prod.fst (button_history f i s)

/-- The turns taken so far have brought their entries of `previous` up to date. -/
theorem buttons_previous (f : FrameInput) (is : List (Fin 15)) (s : LoopState) (j : Fin 15) :
    (Action.each (button f) is s).1.previous j =
      if j ∈ is then f.buttons j else s.previous j := by
  induction is generalizing s with
  | nil => simp
  | cons i is ih =>
    simp only [Action.each_cons, Action.seq_apply, ih, button_previous, List.mem_cons]
    by_cases hj : j ∈ is
    · simp [hj]
    · by_cases hi : j = i
      · subst hi; simp [hj]
      · simp [hj, hi]

theorem keeps_previous_poll (d : Display) (f : FrameInput) :
    (poll d f).Keeps LoopState.previous := by
  have hp : ∀ {a : LoopAction}, PointerOnly a → a.Keeps LoopState.previous :=
    fun h s => congrArg Prod.fst (h.keeps s)
  exact .cons (hp (pointerOnly_idleHide f)) (.cons (hp (pointerOnly_scroll d f))
    (.cons (fun _ => rfl) (.cons (.emit _) .nil)))

/-- A frame leaves behind the buttons it read. -/
theorem frame_previous (d : Display) (f : FrameInput) (s : LoopState) :
    (frame d f s).1.previous = f.buttons := by
  funext j
  simp [frame, buttons_previous]

theorem frames_concat_previous (d : Display) (fs : List FrameInput) (f : FrameInput)
    (s : LoopState) : (frames d (fs ++ [f]) s).1.previous = f.buttons := by
  simp [frames, Action.each_concat, frame_previous]

end NfsmwRuntime.Game

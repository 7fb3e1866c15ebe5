import Mathlib.Data.List.Chain
import Mathlib.Data.List.Induction
import NfsmwRuntime.Game.Effects
import NfsmwRuntime.Library.Contact

/-!
# Key events

Each edge of a button is either sent to the guest or suppressed, depending on the mode
in which it is processed. The key events of one button are therefore its edges with the
suppressed ones taken out, and they pair up exactly when every release is processed in
the mode of its press.
-/

namespace NfsmwRuntime.Game

open Library

def keySignal (code : Nat) : GuestCall → Option Signal
  | .key .down c => if c = code then some .opens else none
  | .key .up c => if c = code then some .closes else none
  | _ => none

/-- The MOGA key events of button `i` among the calls made, as signals of one contact. -/
def keySignals (i : Fin 15) (calls : List GuestCall) : List Signal :=
  calls.filterMap (keySignal (androidKeys i))

/-- An edge of a button, and whether the mouse is shown when it is processed. -/
structure Edge where
  pressed : Bool
  mouse : Bool
  deriving DecidableEq, Repr

def Edge.signal (e : Edge) : Signal := if e.pressed then .opens else .closes

/-- The mouse keeps every button from the guest but B and Start. -/
def sends (i : Fin 15) (mouse : Bool) : Bool := i.val = 1 || i.val = 6 || !mouse

theorem sends_eq (i : Fin 15) (mouse : Bool) :
    sends i mouse = (decide (i = 1) || decide (i = 6) || !mouse) := by
  simp [sends, Fin.ext_iff]

def delivered (i : Fin 15) (e : Edge) : Option Signal :=
  if sends i e.mouse then some e.signal else none

/-- The edge of button `i` in a frame, if it has one. -/
def frameEdge (d : Display) (i : Fin 15) (f : FrameInput) (s : LoopState) : List Edge :=
  if f.buttons i = s.previous i then []
  else [⟨f.buttons i, (atTurn d f i s).cursorVisible⟩]

/-- The edges of button `i` over a run of frames. -/
def edges (d : Display) (i : Fin 15) : List FrameInput → LoopState → List Edge
  | [], _ => []
  | f :: fs, s => frameEdge d i f s ++ edges d i fs (frame d f s).1

/-! ## The key events are the edges that are sent -/

/-- No two buttons share a key code. -/
theorem androidKeys_ne {i j : Fin 15} (hi : androidKeys i ≠ 0) (hj : j ≠ i) :
    androidKeys j ≠ androidKeys i := by
  revert i j
  decide

theorem PointerOnly.silent_key {a : LoopAction} (h : PointerOnly a) (code : Nat) :
    a.Silent (keySignal code) :=
  h.silent.mono fun e he => by cases e <;> simp_all [mogaCall, keySignal]

theorem silent_button_of_ne (f : FrameInput) {i j : Fin 15} (hi : androidKeys i ≠ 0)
    (hj : j ≠ i) : (button f j).Silent (keySignal (androidKeys i)) := by
  have hkey : (mogaKey f j).Silent (keySignal (androidKeys i)) :=
    .when (.emit fun _ => by cases f.buttons j <;> simp [keySignal, androidKeys_ne hi hj])
  refine .cons (.when ?_) (.cons (.assign _) .nil)
  exact .cons ((pointerOnly_selectToggle f j).silent_key _)
    (.cons ((pointerOnly_startToggle f j).silent_key _) (.cons hkey
      (.cons ((touchOnly_touchPress f j).pointerOnly.silent_key _)
        (.cons ((touchOnly_touchRelease f j).pointerOnly.silent_key _) .nil))))

theorem silent_poll (d : Display) (f : FrameInput) (code : Nat) :
    (poll d f).Silent (keySignal code) := by
  refine .cons ((pointerOnly_idleHide f).silent_key code)
    (.cons ((pointerOnly_scroll d f).silent_key code) (.cons (fun s => ?_) (.cons ?_ .nil)))
  · simp only [motion]
    split_ifs <;> simp [keySignal]
  · exact .emit fun s => by split_ifs <;> rfl

theorem keySignals_mogaKey (f : FrameInput) (i : Fin 15) (s : LoopState) :
    keySignals i (mogaKey f i s).2 =
      if sendMogaKey i s then [(⟨f.buttons i, s.cursorVisible⟩ : Edge).signal] else [] := by
  rw [mogaKey, Action.when_apply]
  cases sendMogaKey i s <;> cases hb : f.buttons i <;>
    simp [keySignals, keySignal, Edge.signal]

/-- The toggles come before the test, but Select is never sent and Start always. -/
theorem sendMogaKey_startToggle (f : FrameInput) {i : Fin 15} (h4 : i ≠ 4) (s : LoopState) :
    sendMogaKey i (startToggle f i s).1 = sends i s.cursorVisible := by
  by_cases h6 : i = 6
  · simp [sendMogaKey, sends_eq, h6]
  · rw [Bool.eq_iff_iff]
    by_cases h1 : i = 1 <;>
      simp [startToggle, Action.when_apply, sendMogaKey, sends_eq, h1, h4, h6]

theorem keySignals_append (i : Fin 15) (as bs : List GuestCall) :
    keySignals i (as ++ bs) = keySignals i as ++ keySignals i bs := List.filterMap_append

/-- The turn of button `i` sends the edge it finds, unless the mouse keeps it. -/
theorem keySignals_button (f : FrameInput) {i : Fin 15} (hi : androidKeys i ≠ 0) (h4 : i ≠ 4)
    (s : LoopState) :
    keySignals i (button f i s).2 =
      (if f.buttons i = s.previous i then []
        else [(⟨f.buttons i, s.cursorVisible⟩ : Edge)]).filterMap (delivered i) := by
  by_cases hedge : f.buttons i = s.previous i
  · simp [button, Action.when_apply, buttonEdge, hedge, keySignals]
  have hselect : selectToggle f i s = (s, []) := by simp [selectToggle, Action.when_apply, h4]
  have hquiet : ∀ {a : LoopAction}, PointerOnly a → ∀ t, keySignals i (a t).2 = [] :=
    fun h t => h.silent_key (androidKeys i) t
  have hturn : keySignals i (button f i s).2 =
      keySignals i (mogaKey f i (startToggle f i s).1).2 := by
    simp [button, Action.when_apply, buttonEdge, hedge, hi, hselect, keySignals_append,
      hquiet (pointerOnly_startToggle f i), hquiet (touchOnly_touchPress f i).pointerOnly,
      hquiet (touchOnly_touchRelease f i).pointerOnly]
  rw [hturn, keySignals_mogaKey, sendMogaKey_startToggle f h4]
  cases hs : sends i s.cursorVisible <;> simp [hedge, delivered, hs, Edge.signal]

theorem finRange_split (i : Fin 15) :
    List.finRange 15 =
      (List.finRange 15).take i ++ i :: (List.finRange 15).drop (i + 1) := by
  revert i
  decide

theorem notMem_before (i : Fin 15) : i ∉ (List.finRange 15).take i := by
  revert i
  decide

theorem notMem_after (i : Fin 15) : i ∉ (List.finRange 15).drop (i + 1) := by
  revert i
  decide

/-- The buttons before and after `i` send nothing under its code. -/
theorem keySignals_frame (d : Display) (f : FrameInput) {i : Fin 15} (hi : androidKeys i ≠ 0)
    (h4 : i ≠ 4) (s : LoopState) :
    keySignals i (frame d f s).2 = (frameEdge d i f s).filterMap (delivered i) := by
  have hbefore : (Action.each (button f) ((List.finRange 15).take i)).Silent
      (keySignal (androidKeys i)) :=
    .each fun j hj => silent_button_of_ne f hi fun h => notMem_before i (h ▸ hj)
  have hafter : (Action.each (button f) ((List.finRange 15).drop (i + 1))).Silent
      (keySignal (androidKeys i)) :=
    .each fun j hj => silent_button_of_ne f hi fun h => notMem_after i (h ▸ hj)
  have hprev : (atTurn d f i s).previous i = s.previous i := by
    rw [atTurn, buttons_previous, if_neg (notMem_before i), keeps_previous_poll d f s]
  have hturn : keySignals i (frame d f s).2 = keySignals i (button f i (atTurn d f i s)).2 := by
    rw [frame, finRange_split i]
    simp [keySignals, Action.each_append, Action.each_cons, silent_poll d f _ s, hbefore _,
      hafter _, keySignal, atTurn]
  rw [hturn, keySignals_button f hi h4, hprev, frameEdge]

theorem keySignals_frames (d : Display) {i : Fin 15} (hi : androidKeys i ≠ 0) (h4 : i ≠ 4)
    (fs : List FrameInput) (s : LoopState) :
    keySignals i (frames d fs s).2 = (edges d i fs s).filterMap (delivered i) := by
  induction fs generalizing s with
  | nil => rfl
  | cons f fs ih =>
    have hcons : (frames d (f :: fs) s).2 =
        (frame d f s).2 ++ (frames d fs (frame d f s).1).2 := rfl
    rw [hcons, keySignals_append, keySignals_frame d f hi h4, ih, edges, List.filterMap_append]

/-! ## When the delivered edges pair up -/

/-- Does the button stay pressed after these edges? -/
def held (es : List Edge) : Bool := es.getLast?.any (·.pressed)

/-- Presses and releases take turns, starting with a press. -/
def Alternates (es : List Edge) : Prop :=
  ∀ before e after, es = before ++ e :: after → e.pressed = !held before

/-- The delivered edges open and close one key, and no release leaves it down. -/
def Paired (i : Fin 15) (es : List Edge) : Prop :=
  Contact.WellFormed (es.filterMap (delivered i)) ∧
  ∀ before e after, es = before ++ e :: after → e.pressed = false →
    Contact.isOpen ((before ++ [e]).filterMap (delivered i)) = false

/-- Every release is treated as the press before it was. -/
def SameDelivery (i : Fin 15) (es : List Edge) : Prop :=
  es.IsChain fun press release =>
    press.pressed = true → sends i press.mouse = sends i release.mouse

/-- Every release is processed in the mode of the press before it. -/
def SameMode (es : List Edge) : Prop :=
  es.IsChain fun press release => press.pressed = true → press.mouse = release.mouse

@[simp] theorem held_concat (es : List Edge) (e : Edge) : held (es ++ [e]) = e.pressed := by
  simp [held]

theorem alternates_concat {es : List Edge} {e : Edge} :
    Alternates (es ++ [e]) ↔ Alternates es ∧ e.pressed = !held es := forall_split_concat

theorem sameDelivery_concat {i : Fin 15} {es : List Edge} {e : Edge} :
    SameDelivery i (es ++ [e]) ↔ SameDelivery i es ∧
      ∀ p ∈ es.getLast?, p.pressed = true → sends i p.mouse = sends i e.mouse := by
  simp [SameDelivery, List.isChain_append]

/-- While the deliveries agree, the key is down after a delivered press only. -/
theorem isOpen_delivered {i : Fin 15} {es : List Edge} (halt : Alternates es)
    (hsame : SameDelivery i es) :
    Contact.isOpen (es.filterMap (delivered i)) =
      es.getLast?.any (fun e => e.pressed && sends i e.mouse) := by
  induction es using List.reverseRecOn with
  | nil => rfl
  | append_singleton es e ih =>
    obtain ⟨halt, hturn⟩ := alternates_concat.mp halt
    obtain ⟨hsame, hlast⟩ := sameDelivery_concat.mp hsame
    specialize ih halt hsame
    cases hs : sends i e.mouse
    · -- A suppressed release follows a suppressed press, so the key is up before it.
      have hup : es.getLast?.any (fun e => e.pressed && sends i e.mouse) = false := by
        cases hl : es.getLast? with
        | none => rfl
        | some p => cases hp : p.pressed <;> simp_all
      simpa [delivered, hs, hup] using ih
    · cases hp : e.pressed <;> simp [delivered, hs, Edge.signal, hp]

theorem paired_concat {i : Fin 15} {es : List Edge} {e : Edge} :
    Paired i (es ++ [e]) ↔ Paired i es ∧
      Contact.WellFormed ((es ++ [e]).filterMap (delivered i)) ∧
      (e.pressed = false → Contact.isOpen ((es ++ [e]).filterMap (delivered i)) = false) := by
  have hwf : Contact.WellFormed ((es ++ [e]).filterMap (delivered i)) →
      Contact.WellFormed (es.filterMap (delivered i)) := by
    rw [List.filterMap_append]
    exact .of_append
  rw [Paired, forall_split_concat, Paired]
  tauto

theorem filterMap_delivered_concat (i : Fin 15) (es : List Edge) (e : Edge) :
    (es ++ [e]).filterMap (delivered i) =
      es.filterMap (delivered i) ++ if sends i e.mouse then [e.signal] else [] := by
  cases hs : sends i e.mouse <;> simp [delivered, hs]

theorem paired_iff_sameDelivery {i : Fin 15} {es : List Edge} (halt : Alternates es) :
    Paired i es ↔ SameDelivery i es := by
  induction es using List.reverseRecOn with
  | nil =>
    refine ⟨fun _ => .nil, fun _ => ⟨Contact.wellFormed_nil, ?_⟩⟩
    intro before e after h
    simp at h
  | append_singleton es e ih =>
    obtain ⟨halt, hturn⟩ := alternates_concat.mp halt
    rw [paired_concat, sameDelivery_concat, ih halt]
    refine and_congr_right fun hsame => ?_
    have hwf := ((ih halt).mpr hsame).1
    have hopen := isOpen_delivered halt hsame
    rw [filterMap_delivered_concat]
    generalize es.filterMap (delivered i) = sent at hwf hopen
    cases hs : sends i e.mouse <;> cases hl : es.getLast? with
    | none => simp_all [held, Edge.signal, Contact.wellFormed_concat]
    | some p =>
      cases hp : p.pressed <;> simp_all [held, Edge.signal, Contact.wellFormed_concat]

/-! ## The key protocol of a run -/

/-- The MOGA key events of the button alternate, starting with a down, and after every
frame in which it is not pressed the guest holds no unmatched down. -/
structure KeyProtocol (d : Display) (startTicks : UInt32) (i : Fin 15)
    (fs : List FrameInput) : Prop where
  alternate : Contact.WellFormed (keySignals i (frames d fs (.start d startTicks)).2)
  released : ∀ earlier f later, fs = earlier ++ f :: later → f.buttons i = false →
    Contact.isOpen (keySignals i (frames d (earlier ++ [f]) (.start d startTicks)).2) = false

theorem edges_append (d : Display) (i : Fin 15) (fs gs : List FrameInput) (s : LoopState) :
    edges d i (fs ++ gs) s = edges d i fs s ++ edges d i gs (frames d fs s).1 := by
  induction fs generalizing s with
  | nil => rfl
  | cons f fs ih => simp [edges, ih, frames, Action.each_cons]

theorem edges_concat (d : Display) (i : Fin 15) (fs : List FrameInput) (f : FrameInput)
    (s : LoopState) :
    edges d i (fs ++ [f]) s = edges d i fs s ++ frameEdge d i f (frames d fs s).1 := by
  simp [edges_append, edges]

/-- The last edge tells whether the button is pressed. -/
theorem held_edges (d : Display) (t : UInt32) (i : Fin 15) (fs : List FrameInput) :
    held (edges d i fs (.start d t)) = (frames d fs (.start d t)).1.previous i := by
  induction fs using List.reverseRecOn with
  | nil => rfl
  | append_singleton fs f ih =>
    rw [edges_concat, frames_concat_previous, frameEdge]
    split_ifs with h
    · simpa [h] using ih
    · simp

theorem alternates_edges (d : Display) (t : UInt32) (i : Fin 15) (fs : List FrameInput) :
    Alternates (edges d i fs (.start d t)) := by
  induction fs using List.reverseRecOn with
  | nil =>
    intro before e after h
    simp [edges] at h
  | append_singleton fs f ih =>
    rw [edges_concat, frameEdge]
    split_ifs with h
    · simpa using ih
    · rw [alternates_concat, held_edges]
      exact ⟨ih, by simpa using Bool.eq_not_of_ne h⟩

/-- Every edge is found in the frame it happened in. -/
theorem exists_frame_of_edge {d : Display} {i : Fin 15} {fs : List FrameInput} {s : LoopState}
    {before after : List Edge} {e : Edge} (h : edges d i fs s = before ++ e :: after) :
    ∃ earlier f later, fs = earlier ++ f :: later ∧
      edges d i (earlier ++ [f]) s = before ++ [e] ∧ f.buttons i = e.pressed := by
  induction fs generalizing s before with
  | nil => simp [edges] at h
  | cons f fs ih =>
    rw [edges, frameEdge] at h
    split_ifs at h with hedge
    · obtain ⟨earlier, g, later, rfl, hg, hb⟩ := ih h
      exact ⟨f :: earlier, g, later, rfl, by simpa [edges, frameEdge, hedge] using hg, hb⟩
    · cases before with
      | nil =>
        simp only [List.cons_append, List.nil_append, List.cons.injEq] at h
        exact ⟨[], f, fs, rfl, by simp [edges, frameEdge, hedge, h.1], by simp [← h.1]⟩
      | cons b before =>
        simp only [List.cons_append, List.nil_append, List.cons.injEq] at h
        obtain ⟨earlier, g, later, rfl, hg, hb⟩ := ih h.2
        exact ⟨f :: earlier, g, later, rfl, by simpa [edges, frameEdge, hedge, h.1] using hg, hb⟩

theorem keyProtocol_iff_paired {d : Display} {t : UInt32} {i : Fin 15} {fs : List FrameInput}
    (hi : androidKeys i ≠ 0) (h4 : i ≠ 4) :
    KeyProtocol d t i fs ↔ Paired i (edges d i fs (.start d t)) := by
  constructor
  · rintro ⟨halt, hup⟩
    rw [keySignals_frames d hi h4] at halt
    refine ⟨halt, fun before e after h he => ?_⟩
    obtain ⟨earlier, f, later, hfs, hedges, hb⟩ := exists_frame_of_edge h
    rw [← hedges, ← keySignals_frames d hi h4]
    exact hup earlier f later hfs (hb.trans he)
  · rintro ⟨hwf, hup⟩
    refine ⟨by rwa [keySignals_frames d hi h4], fun earlier f later hfs hb => ?_⟩
    rw [keySignals_frames d hi h4]
    have hheld := held_edges d t i (earlier ++ [f])
    rw [frames_concat_previous, hb] at hheld
    rcases List.eq_nil_or_concat' (edges d i (earlier ++ [f]) (.start d t)) with hnil |
      ⟨before, e, hes⟩
    · simp [hnil]
    · rw [hes, held_concat] at hheld
      have hinit : fs = (earlier ++ [f]) ++ later := by simp [hfs]
      rw [hes]
      exact hup before e _ (by rw [hinit, edges_append, hes, List.append_assoc]; rfl) hheld

/-- B and Start reach the guest in either mode; for the others delivery is the mode. -/
theorem sameDelivery_iff {i : Fin 15} {es : List Edge} :
    SameDelivery i es ↔ i = 1 ∨ i = 6 ∨ SameMode es := by
  by_cases h : i = 1 ∨ i = 6
  · have hsends : ∀ mouse, sends i mouse = true := by
      rcases h with rfl | rfl <;> decide
    have hchain : SameDelivery i es :=
      (List.pairwise_of_forall fun p r => by simp [hsends]).isChain
    simp [hchain, ← or_assoc, h]
  · have hsends : ∀ mouse, sends i mouse = !mouse := by
      obtain ⟨h1, h6⟩ := not_or.mp h
      simp [sends_eq, h1, h6]
    simp [← or_assoc, h, SameDelivery, SameMode, hsends]

/-- No key sticks and none is phantom exactly when every release is processed in the mode
in which its press was. -/
theorem keyProtocol_iff_sameMode (d : Display) (startTicks : UInt32) (fs : List FrameInput)
    (i : Fin 15) (hi : androidKeys i ≠ 0) (h4 : i ≠ 4) :
    KeyProtocol d startTicks i fs ↔
      i = 1 ∨ i = 6 ∨ SameMode (edges d i fs (.start d startTicks)) :=
  (keyProtocol_iff_paired hi h4).trans
    ((paired_iff_sameDelivery (alternates_edges d startTicks i fs)).trans sameDelivery_iff)

/-- A release of B pairs with its press although Select switched the mode in between. -/
theorem keyProtocol_across_select :
    KeyProtocol ⟨640, 480⟩ 0 1 [pressing [1], pressing [1, 4], pressing []] :=
  (keyProtocol_iff_sameMode ⟨640, 480⟩ 0 _ 1 (by decide) (by decide)).mpr (.inl rfl)

/-- X is pressed in gameplay mode and released after Select has shown the mouse: the
release is suppressed, and the guest is left holding the key. -/
theorem key_sticks_across_select :
    ¬ KeyProtocol ⟨640, 480⟩ 0 2
      [pressing [4], pressing [2], pressing [2, 4], pressing []] := by
  intro h
  have hup := h.released [pressing [4], pressing [2], pressing [2, 4]] (pressing []) [] rfl rfl
  revert hup
  decide

end NfsmwRuntime.Game

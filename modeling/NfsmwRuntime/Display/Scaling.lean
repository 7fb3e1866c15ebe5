import Mathlib.Logic.Function.Basic
import Mathlib.Tactic.SplitIfs
import Mathlib.Tactic.Tauto
import NfsmwRuntime.Library.Bytes

/-!
# Render scaling

The game draws at the render size and the window has the drawable size. Instead of a
framebuffer of its own, `platform_probe.c` gives the guest a `glViewport` and a
`glScissor` that stretch the rectangle when framebuffer 0 is bound at the time of the
call; every other GL entry point is the host's.

A GL context keeps the rectangle it was given until the next one, whatever is bound in
between. So the guest sees through the stretching exactly when it reads a rectangle back
that was stretched, or draws under another kind of binding than it set the rectangle
under, unless the stretching leaves that rectangle alone.
-/

namespace NfsmwRuntime.Display

open Library

/-- The lower left corner and the size, as GL takes them. -/
structure Rect where
  x : Int32
  y : Int32
  width : Int32
  height : Int32
  deriving DecidableEq, Repr

inductive RectName where
  | viewport | scissor
  deriving DecidableEq, Repr

/-- The host's GL as far as the rectangles depend on it. A call that GL refuses, such as
one with a negative size, sets nothing and does not count as a call. -/
structure HostGl (σ : Type) where
  framebuffer : σ → Int32
  rect : RectName → σ → Rect
  bindFramebuffer : Int32 → σ → σ
  setRect : RectName → Rect → σ → σ
  draw : σ → σ
  framebuffer_bind : ∀ fb s, framebuffer (bindFramebuffer fb s) = fb
  framebuffer_set : ∀ name r s, framebuffer (setRect name r s) = framebuffer s
  framebuffer_draw : ∀ s, framebuffer (draw s) = framebuffer s
  rect_bind : ∀ name fb s, rect name (bindFramebuffer fb s) = rect name s
  rect_set : ∀ name r s, rect name (setRect name r s) = r
  rect_set_of_ne : ∀ name other r s, other ≠ name → rect other (setRect name r s) = rect other s
  rect_draw : ∀ name s, rect name (draw s) = rect name s

/-- What `scale_rect` and the two mapped functions read of the runtime: the sizes, and
whether the host functions they call are loaded. -/
structure PlatformRuntime where
  renderWidth : Int32
  renderHeight : Int32
  drawableWidth : Int32
  drawableHeight : Int32
  glGetIntegerV : Bool
  displayRect : RectName → Bool

/-- A runtime that `nfsmw_platform_runtime_start` has set up. -/
structure StartedRuntime extends PlatformRuntime where
  glGetIntegerV_loaded : glGetIntegerV = true
  displayRect_loaded : ∀ name, displayRect name = true
  renderWidth_range : 160 ≤ renderWidth.toInt ∧ renderWidth.toInt ≤ 4096
  renderHeight_range : 160 ≤ renderHeight.toInt ∧ renderHeight.toInt ≤ 4096
  drawableWidth_range : 160 ≤ drawableWidth.toInt ∧ drawableWidth.toInt ≤ 4096
  drawableHeight_range : 160 ≤ drawableHeight.toInt ∧ drawableHeight.toInt ≤ 4096

/-! ## The render size -/

/-- What `nfsmw_platform_runtime_start` reads before it settles on a render size: its
arguments, `NFSMW_RESOLUTION`, the display mode if SDL knows it, and the drawable size of
the window it creates. -/
structure SizeRequest where
  width : Int32
  height : Int32
  resolution : Option CString
  displayMode : Option (Int32 × Int32)
  drawable : Int32 × Int32

def SizeRequest.automatic (q : SizeRequest) : Bool :=
  q.resolution = none || q.resolution = some [] || q.resolution = some (cstr "auto")

/-- The sizes the runtime and its window may have. -/
def acceptedSize (size : Int32 × Int32) : Bool :=
  160 ≤ size.1 && 160 ≤ size.2 && size.1 ≤ 4096 && size.2 ≤ 4096

/-- The size to ask SDL for. `scanSize` is `sscanf` of a resolution that is set, if it is
exactly a width and a height. -/
def requestedSize (scanSize : CString → Option (Int32 × Int32)) (q : SizeRequest) :
    Option (Int32 × Int32) :=
  if q.automatic then some (q.displayMode.getD (q.width, q.height))
  else scanSize (q.resolution.getD [])

/-- The render size of a runtime that starts. -/
def renderSize (scanSize : CString → Option (Int32 × Int32)) (q : SizeRequest) :
    Option (Int32 × Int32) :=
  (requestedSize scanSize q).bind fun size =>
    if !acceptedSize size then none
    else if q.automatic && acceptedSize q.drawable then some q.drawable
    else some size

theorem renderSize_accepted {scanSize : CString → Option (Int32 × Int32)} {q : SizeRequest}
    {size : Int32 × Int32} (h : renderSize scanSize q = some size) : acceptedSize size := by
  obtain ⟨asked, -, h⟩ := Option.bind_eq_some_iff.mp h
  split_ifs at h with hasked hdrawable
  · obtain rfl := Option.some.inj h
    exact (Bool.and_eq_true_iff.mp hdrawable).2
  · obtain rfl := Option.some.inj h
    simpa using hasked

/-- The accepted sizes as integers. -/
theorem acceptedSize_iff (size : Int32 × Int32) :
    acceptedSize size ↔ (160 ≤ size.1.toInt ∧ size.1.toInt ≤ 4096) ∧
      (160 ≤ size.2.toInt ∧ size.2.toInt ≤ 4096) := by
  have hlow : (160 : Int32).toInt = 160 := rfl
  have hhigh : (4096 : Int32).toInt = 4096 := rfl
  simp only [acceptedSize, Bool.and_eq_true, decide_eq_true_eq, Int32.le_iff_toInt_le, hlow, hhigh]
  tauto

/-! ## The stretched rectangles -/

/-- `(int)((int64_t)v * drawable / render)`. -/
def scaleInt (v drawable render : Int32) : Int32 :=
  .ofInt ((v.toInt * drawable.toInt).tdiv render.toInt)

def stretch (rt : PlatformRuntime) (r : Rect) : Rect where
  x := scaleInt r.x rt.drawableWidth rt.renderWidth
  y := scaleInt r.y rt.drawableHeight rt.renderHeight
  width := scaleInt r.width rt.drawableWidth rt.renderWidth
  height := scaleInt r.height rt.drawableHeight rt.renderHeight

def scaleRect (rt : PlatformRuntime) (framebuffer : Int32) (r : Rect) : Rect :=
  if !rt.glGetIntegerV then r
  else if framebuffer ≠ 0 ∨ rt.drawableWidth ≤ 0 ∨ rt.drawableHeight ≤ 0 then r
  else stretch rt r

section

variable {σ : Type} (gl : HostGl σ) (rt : PlatformRuntime)

/-- `mapped_viewport` and `mapped_scissor` differ in the rectangle they set. -/
def mapped (name : RectName) (r : Rect) (s : σ) : σ :=
  if rt.displayRect name then gl.setRect name (scaleRect rt (gl.framebuffer s) r) s else s

def mappedViewport (r : Rect) (s : σ) : σ := mapped gl rt .viewport r s

def mappedScissor (r : Rect) (s : σ) : σ := mapped gl rt .scissor r s

/-- The mapped function that `nfsmw_display_resolve` answers a name with. -/
def nfsmwDisplayResolve (name : CString) : Option (Rect → σ → σ) :=
  if name = cstr "glScissor" then some (mappedScissor gl rt)
  else if name = cstr "glViewport" then some (mappedViewport gl rt)
  else none

end

/-- The guest's calls; `get` is `glGetIntegerv` of the viewport or the scissor box. -/
inductive GlCall where
  | bindFramebuffer (framebuffer : Int32)
  | set (name : RectName) (r : Rect)
  | get (name : RectName)
  | draw
  deriving DecidableEq

def RectName.symbol : RectName → CString
  | .viewport => cstr "glViewport"
  | .scissor => cstr "glScissor"

section

variable {σ : Type} (gl : HostGl σ) (rt : PlatformRuntime)

/-- A guest call, resolved by name: the display's function comes before the host's. -/
def perform (s : σ) : GlCall → σ
  | .bindFramebuffer fb => gl.bindFramebuffer fb s
  | .set name r => ((nfsmwDisplayResolve gl rt name.symbol).getD (gl.setRect name)) r s
  | .get _ => s
  | .draw => gl.draw s

end

/-- The guest's side of a run: the framebuffer bound, and for each rectangle that was set
its last value and the framebuffer bound at the time. -/
structure GuestView where
  bound : Int32
  last : RectName → Option (Int32 × Rect)

def GuestView.start (bound : Int32) : GuestView := ⟨bound, fun _ => none⟩

def GuestView.step (v : GuestView) : GlCall → GuestView
  | .bindFramebuffer fb => { v with bound := fb }
  | .set name r => { v with last := Function.update v.last name (some (v.bound, r)) }
  | .get _ => v
  | .draw => v

/-- What a default framebuffer of the render size would show the guest. -/
def Served {σ : Type} (gl : HostGl σ) (rt : PlatformRuntime) (s : σ) (v : GuestView) :
    GlCall → Prop
  | .bindFramebuffer _ => True
  | .set _ _ => True
  | .get name => ∀ fb r, v.last name = some (fb, r) → gl.rect name s = r
  | .draw => ∀ name fb r, v.last name = some (fb, r) →
      gl.rect name s = if v.bound = 0 then stretch rt r else r

/-- Every call of the sequence is served as by a framebuffer of the render size. -/
def Faithful {σ : Type} (gl : HostGl σ) (rt : PlatformRuntime) (s : σ) (calls : List GlCall) :
    Prop :=
  ∀ earlier c later, calls = earlier ++ c :: later →
    Served gl rt (earlier.foldl (perform gl rt) s)
      (earlier.foldl GuestView.step (.start (gl.framebuffer s))) c

/-- The call does not see through the stretching. -/
def Unnoticed (rt : PlatformRuntime) (v : GuestView) : GlCall → Prop
  | .bindFramebuffer _ => True
  | .set _ _ => True
  | .get name => ∀ fb r, v.last name = some (fb, r) → fb ≠ 0 ∨ stretch rt r = r
  | .draw => ∀ name fb r, v.last name = some (fb, r) →
      (fb = 0 ↔ v.bound = 0) ∨ stretch rt r = r

/-! ## The host's rectangles -/

theorem StartedRuntime.scaleRect_eq (rt : StartedRuntime) (fb : Int32) (r : Rect) :
    scaleRect rt.toPlatformRuntime fb r =
      if fb = 0 then stretch rt.toPlatformRuntime r else r := by
  obtain ⟨hw, -⟩ := rt.drawableWidth_range
  obtain ⟨hh, -⟩ := rt.drawableHeight_range
  have hwidth : ¬ rt.drawableWidth ≤ 0 := by
    rw [Int32.le_iff_toInt_le, Int32.toInt_zero]
    omega
  have hheight : ¬ rt.drawableHeight ≤ 0 := by
    rw [Int32.le_iff_toInt_le, Int32.toInt_zero]
    omega
  simp [scaleRect, rt.glGetIntegerV_loaded, hwidth, hheight]

theorem nfsmwDisplayResolve_symbol {σ : Type} (gl : HostGl σ) (rt : PlatformRuntime)
    (name : RectName) : nfsmwDisplayResolve gl rt name.symbol = some (mapped gl rt name) := by
  have hne : cstr "glViewport" ≠ cstr "glScissor" := by decide
  cases name
  · rw [nfsmwDisplayResolve, RectName.symbol, if_neg hne, if_pos rfl]
    rfl
  · rw [nfsmwDisplayResolve, RectName.symbol, if_pos rfl]
    rfl

theorem perform_set {σ : Type} (gl : HostGl σ) (rt : StartedRuntime) (s : σ) (name : RectName)
    (r : Rect) :
    perform gl rt.toPlatformRuntime s (.set name r) =
      gl.setRect name
        (if gl.framebuffer s = 0 then stretch rt.toPlatformRuntime r else r) s := by
  simp [perform, nfsmwDisplayResolve_symbol, mapped, rt.displayRect_loaded, rt.scaleRect_eq]

/-- The host holds each rectangle as it was set: stretched if framebuffer 0 was bound. -/
structure Tracks {σ : Type} (gl : HostGl σ) (rt : PlatformRuntime) (s : σ) (v : GuestView) :
    Prop where
  bound : gl.framebuffer s = v.bound
  rect : ∀ name fb r, v.last name = some (fb, r) →
    gl.rect name s = if fb = 0 then stretch rt r else r

theorem tracks_start {σ : Type} (gl : HostGl σ) (rt : PlatformRuntime) (s : σ) :
    Tracks gl rt s (.start (gl.framebuffer s)) :=
  ⟨rfl, fun _ _ _ h => nomatch h⟩

theorem Tracks.step {σ : Type} {gl : HostGl σ} {rt : StartedRuntime} {s : σ} {v : GuestView}
    (h : Tracks gl rt.toPlatformRuntime s v) (c : GlCall) :
    Tracks gl rt.toPlatformRuntime (perform gl rt.toPlatformRuntime s c) (v.step c) := by
  cases c with
  | bindFramebuffer fb =>
    refine ⟨gl.framebuffer_bind fb s, fun name fb' r hlast => ?_⟩
    rw [perform, gl.rect_bind]
    exact h.rect name fb' r hlast
  | set name r =>
    rw [perform_set, h.bound]
    refine ⟨(gl.framebuffer_set _ _ _).trans h.bound, fun other fb' r' hlast => ?_⟩
    by_cases heq : other = name
    · subst heq
      simp only [GuestView.step, Function.update_self, Option.some.injEq, Prod.mk.injEq] at hlast
      obtain ⟨rfl, rfl⟩ := hlast
      rw [gl.rect_set]
    · simp only [GuestView.step, Function.update_of_ne heq] at hlast
      rw [gl.rect_set_of_ne _ _ _ _ heq]
      exact h.rect other fb' r' hlast
  | get name => exact h
  | draw =>
    refine ⟨(gl.framebuffer_draw s).trans h.bound, fun name fb' r hlast => ?_⟩
    rw [perform, gl.rect_draw]
    exact h.rect name fb' r hlast

theorem Tracks.run {σ : Type} {gl : HostGl σ} {rt : StartedRuntime} {s : σ} {v : GuestView}
    (h : Tracks gl rt.toPlatformRuntime s v) (calls : List GlCall) :
    Tracks gl rt.toPlatformRuntime (calls.foldl (perform gl rt.toPlatformRuntime) s)
      (calls.foldl GuestView.step v) := by
  induction calls generalizing s v with
  | nil => exact h
  | cons c calls ih => exact ih (h.step c)

theorem Tracks.served_iff {σ : Type} {gl : HostGl σ} {rt : PlatformRuntime} {s : σ}
    {v : GuestView} (h : Tracks gl rt s v) (c : GlCall) :
    Served gl rt s v c ↔ Unnoticed rt v c := by
  cases c with
  | bindFramebuffer fb => exact Iff.rfl
  | set name r => exact Iff.rfl
  | get name =>
    refine forall_congr' fun fb => forall_congr' fun r => forall_congr' fun hlast => ?_
    rw [h.rect name fb r hlast]
    by_cases hfb : fb = 0 <;> simp [hfb]
  | draw =>
    refine forall_congr' fun name => forall_congr' fun fb => forall_congr' fun r =>
      forall_congr' fun hlast => ?_
    rw [h.rect name fb r hlast]
    by_cases hfb : fb = 0 <;> by_cases hbound : v.bound = 0 <;>
      simp [hfb, hbound, eq_comm]

/-- Render scaling is faithful exactly when no read-back and no draw of the run sees
through it. -/
theorem faithful_iff_unnoticed {σ : Type} (gl : HostGl σ) (rt : StartedRuntime) (s : σ)
    (calls : List GlCall) :
    Faithful gl rt.toPlatformRuntime s calls ↔
      ∀ earlier c later, calls = earlier ++ c :: later →
        Unnoticed rt.toPlatformRuntime
          (earlier.foldl GuestView.step (.start (gl.framebuffer s))) c :=
  forall_congr' fun earlier => forall_congr' fun c => forall_congr' fun _ => forall_congr' fun _ =>
    ((tracks_start gl rt.toPlatformRuntime s).run earlier).served_iff c

/-! ## A run that sees through -/

/-- A GL that holds nothing but the rectangles and the binding. -/
structure RectGl where
  framebuffer : Int32
  rect : RectName → Rect

def RectGl.host : HostGl RectGl where
  framebuffer := RectGl.framebuffer
  rect name s := s.rect name
  bindFramebuffer fb s := { s with framebuffer := fb }
  setRect name r s := { s with rect := Function.update s.rect name r }
  draw := id
  framebuffer_bind _ _ := rfl
  framebuffer_set _ _ _ := rfl
  framebuffer_draw _ := rfl
  rect_bind _ _ _ := rfl
  rect_set _ _ _ := Function.update_self ..
  rect_set_of_ne _ _ _ _ h := Function.update_of_ne h ..
  rect_draw _ _ := rfl

/-- The game renders at 640x480 onto a panel of 1280x960. -/
def doubling : StartedRuntime where
  renderWidth := 640
  renderHeight := 480
  drawableWidth := 1280
  drawableHeight := 960
  glGetIntegerV := true
  displayRect _ := true
  glGetIntegerV_loaded := rfl
  displayRect_loaded _ := rfl
  renderWidth_range := by decide
  renderHeight_range := by decide
  drawableWidth_range := by decide
  drawableHeight_range := by decide

/-- The viewport is set for the window and used for a texture: the texture is drawn with
the stretched rectangle. -/
theorem stretched_into_texture :
    ¬ Faithful RectGl.host doubling.toPlatformRuntime ⟨0, fun _ => ⟨0, 0, 1280, 960⟩⟩
      [.set .viewport ⟨0, 0, 640, 480⟩, .bindFramebuffer 1, .draw] := by
  intro h
  have hdraw := h [.set .viewport ⟨0, 0, 640, 480⟩, .bindFramebuffer 1] .draw [] rfl
    .viewport 0 ⟨0, 0, 640, 480⟩ rfl
  revert hdraw
  decide

end NfsmwRuntime.Display

import Mathlib.Algebra.Order.Ring.Unbundled.Rat
import Mathlib.Tactic.Simps.Basic
import NfsmwRuntime.Display.Tiling
import NfsmwRuntime.Library.Painting

/-!
# Drawing the cursor

The cursor is drawn into the window right before the buffers are swapped, with the context
that the guest draws with: two bars are cleared through the scissor box. What the clears
depend on is read first and put back afterwards, so the guest finds its context as it left
it, and only the bars have changed.
-/

namespace NfsmwRuntime.Display

open Library

/-- One value for each channel. -/
structure Rgba (α : Type) where
  red : α
  green : α
  blue : α
  alpha : α
  deriving DecidableEq, Repr

namespace Rgba

variable {α β : Type}

def map (f : α → β) (c : Rgba α) : Rgba β := ⟨f c.red, f c.green, f c.blue, f c.alpha⟩

/-- The new value where the mask is set. -/
def masked (mask : Rgba Bool) (new old : Rgba α) : Rgba α where
  red := if mask.red then new.red else old.red
  green := if mask.green then new.green else old.green
  blue := if mask.blue then new.blue else old.blue
  alpha := if mask.alpha then new.alpha else old.alpha

theorem map_map_of_idem {f : α → α} (hf : ∀ a, f (f a) = f a) (c : Rgba α) :
    (c.map f).map f = c.map f := by
  simp [map, hf]

theorem map_map_of_leftInverse {f : α → β} {g : β → α} (h : ∀ a, g (f a) = a) (c : Rgba α) :
    (c.map f).map g = c := by
  simp [map, h]

end Rgba

/-! ## The context -/

/-- The host's side of a GLES 2 context: colours are clamped as they are given, a colour
buffer stores what it can of them, and each framebuffer has its pixels. -/
structure Gles (Level Value : Type) where
  clamp : Level → Level
  stored : Level → Value
  extent : UInt32 → ℤ × ℤ → Bool
  clamp_clamp : ∀ v, clamp (clamp v) = clamp v

variable {Level Value : Type} {gl : Gles Level Value}

/-- What clears depend on, and the pixels of all framebuffers. -/
@[ext]
structure Gles.Context (gl : Gles Level Value) where
  framebuffer : UInt32
  scissorTest : Bool
  scissorBox : {r : Rect // 0 ≤ r.width ∧ 0 ≤ r.height}
  clearColor : {c : Rgba Level // c.map gl.clamp = c}
  colorMask : Rgba Bool
  pixels : UInt32 × (ℤ × ℤ) → Rgba Value

instance (r : Rect) : DecidablePred (· ∈ r.area) := fun p =>
  decidable_of_iff ((r.x.toInt ≤ p.1 ∧ p.1 < r.x.toInt + r.width.toInt) ∧
    r.y.toInt ≤ p.2 ∧ p.2 < r.y.toInt + r.height.toInt) Iff.rfl

namespace Gles.Context

@[simps]
def bindFramebuffer (framebuffer : UInt32) (s : gl.Context) : gl.Context :=
  { s with framebuffer := framebuffer }

/-- `glEnable` and `glDisable` of `GL_SCISSOR_TEST`. -/
@[simps]
def setScissorTest (on : Bool) (s : gl.Context) : gl.Context := { s with scissorTest := on }

/-- A negative size is an error and changes nothing. -/
@[simps]
def scissor (box : Rect) (s : gl.Context) : gl.Context :=
  { s with scissorBox := if h : 0 ≤ box.width ∧ 0 ≤ box.height then ⟨box, h⟩ else s.scissorBox }

@[simps]
def setClearColor (color : Rgba Level) (s : gl.Context) : gl.Context :=
  { s with clearColor := ⟨color.map gl.clamp, color.map_map_of_idem gl.clamp_clamp⟩ }

/-- Every byte but 0 is `GL_TRUE`. -/
@[simps]
def setColorMask (mask : Rgba UInt8) (s : gl.Context) : gl.Context :=
  { s with colorMask := mask.map (· ≠ 0) }

def getFramebuffer (s : gl.Context) : Int32 := s.framebuffer.toInt32

def getColorMask (s : gl.Context) : Rgba UInt8 := s.colorMask.map fun on => if on then 1 else 0

def isScissorTestEnabled (s : gl.Context) : UInt8 := if s.scissorTest then 1 else 0

/-- The pixels that a clear reaches. -/
def reaches (s : gl.Context) (i : UInt32 × (ℤ × ℤ)) : Bool :=
  i.1 = s.framebuffer && gl.extent i.1 i.2 && (!s.scissorTest || i.2 ∈ s.scissorBox.val.area)

/-- `glClear` of `GL_COLOR_BUFFER_BIT`. -/
@[simps]
def clear (s : gl.Context) : gl.Context :=
  { s with pixels := fun i =>
      if s.reaches i then
        Rgba.masked s.colorMask (s.clearColor.val.map gl.stored) (s.pixels i)
      else s.pixels i }

/-- The box is cleared and stays the scissor box. -/
@[simps!]
def clearBox (box : Rect) (s : gl.Context) : gl.Context := (s.scissor box).clear

end Gles.Context

/-! ## The cursor -/

/-- The bars reach 8 pixels to every side. -/
def cursorCenter (drawable v : Int32) : Int32 :=
  let v := if v < 8 then 8 else v
  if drawable - 8 ≤ v then drawable - 9 else v

def cursorColor [OfScientific Level] : Rgba Level := ⟨1.0, 0.82, 0.05, 1.0⟩

/-- The calls behind the clears, with what was read of `s`. -/
def restoreContext (s t : gl.Context) : gl.Context :=
  let t := ((t.setClearColor s.clearColor).setColorMask s.getColorMask).scissor s.scissorBox
  let t := if s.isScissorTestEnabled = 0 then t.setScissorTest false else t
  t.bindFramebuffer s.getFramebuffer.toUInt32

section

variable [OfScientific Level] (rt : PlatformRuntime)

/-- The calls before the clears. -/
def prepareCursor (s : gl.Context) : gl.Context :=
  (((s.bindFramebuffer 0).setScissorTest true).setColorMask ⟨1, 1, 1, 1⟩).setClearColor cursorColor

def runtimeDrawCursor (x y : Int32) (s : gl.Context) : gl.Context :=
  if rt.drawableWidth ≤ 0 ∨ rt.drawableHeight ≤ 0 then s
  else
    let x := cursorCenter rt.drawableWidth x
    let y := cursorCenter rt.drawableHeight y
    let glY := rt.drawableHeight - 1 - y
    restoreContext s
      (((prepareCursor s).clearBox ⟨x - 8, glY - 1, 17, 3⟩).clearBox ⟨x - 1, glY - 8, 3, 17⟩)

/-- What `nfsmw_platform_runtime_present` draws of a position on the render surface. -/
def presentCursor (x y : Int32) (visible : Bool) (s : gl.Context) : gl.Context :=
  if visible then
    runtimeDrawCursor rt (scaleInt x rt.drawableWidth rt.renderWidth)
      (scaleInt y rt.drawableHeight rt.renderHeight) s
  else s

end

/-- The rectangle of odd sides around a point. -/
def bar (center : ℤ × ℤ) (width height : ℤ) : Set (ℤ × ℤ) :=
  Set.Ico (center.1 - width / 2) (center.1 - width / 2 + width) ×ˢ
    Set.Ico (center.2 - height / 2) (center.2 - height / 2 + height)

/-! ## What is put back -/

namespace Gles.Context

theorem setClearColor_clearColor (s t : gl.Context) :
    (t.setClearColor s.clearColor).clearColor = s.clearColor :=
  Subtype.ext s.clearColor.property

theorem scissor_scissorBox_val (s t : gl.Context) :
    (t.scissor s.scissorBox).scissorBox = s.scissorBox := by
  rw [scissor_scissorBox, dif_pos s.scissorBox.property]

theorem setColorMask_getColorMask (s t : gl.Context) :
    (t.setColorMask s.getColorMask).colorMask = s.colorMask := by
  have hbyte : ∀ on : Bool, decide ((if on then (1 : UInt8) else 0) ≠ 0) = on := by decide
  exact Rgba.map_map_of_leftInverse (f := fun on : Bool => if on then (1 : UInt8) else 0)
    (g := fun v => decide (v ≠ 0)) hbyte s.colorMask

/-- Disabling the test if it was off is all that is needed, since it is on. -/
theorem disable_if_disabled (s : gl.Context) {t : gl.Context} (htest : t.scissorTest = true) :
    (if s.isScissorTestEnabled = 0 then t.setScissorTest false else t) =
      t.setScissorTest s.scissorTest := by
  cases h : s.scissorTest with
  | false => simp [isScissorTestEnabled, h]
  | true =>
    have hon : t.setScissorTest true = t := by
      rw [setScissorTest, ← htest]
    simp [isScissorTestEnabled, h, hon]

/-! ## What a clear paints -/

/-- The pixels that a framebuffer has in a set of points. -/
def ink (gl : Gles Level Value) (framebuffer : UInt32) (points : Set (ℤ × ℤ)) :
    Set (UInt32 × (ℤ × ℤ)) :=
  {i | i.1 = framebuffer ∧ gl.extent i.1 i.2 ∧ i.2 ∈ points}

theorem ink_union (framebuffer : UInt32) (A B : Set (ℤ × ℤ)) :
    ink gl framebuffer A ∪ ink gl framebuffer B = ink gl framebuffer (A ∪ B) := by
  ext i
  simp only [ink, Set.mem_union, Set.mem_ofPred_eq]
  tauto

theorem clearBox_painted {box : Rect} (hbox : 0 ≤ box.width ∧ 0 ≤ box.height) {s : gl.Context}
    (htest : s.scissorTest = true) (hmask : s.colorMask = ⟨true, true, true, true⟩) :
    Painted (s.clearColor.val.map gl.stored) Set.univ (ink gl s.framebuffer box.area) s.pixels
      (s.clearBox box).pixels := by
  intro i _
  have hreach : (s.scissor box).reaches i = true ↔ i ∈ ink gl s.framebuffer box.area := by
    simp [reaches, ink, htest, hbox, and_assoc]
  rw [clearBox_pixels, hmask]
  exact ⟨fun hi => if_pos (hreach.mpr hi), fun hi => if_neg fun h => hi (hreach.mp h)⟩

end Gles.Context

open Gles.Context

/-- Whatever has been done with the scissor test on, all but the pixels is as it was. -/
theorem restoreContext_eq (s : gl.Context) {t : gl.Context} (htest : t.scissorTest = true) :
    restoreContext s t = { s with pixels := t.pixels } := by
  have hon : ((t.setClearColor s.clearColor).setColorMask s.getColorMask |>.scissor
      s.scissorBox).scissorTest = true := htest
  simp only [restoreContext, disable_if_disabled s hon]
  ext1
  · exact UInt32.toUInt32_toInt32 s.framebuffer
  · rfl
  · exact scissor_scissorBox_val s _
  · exact setClearColor_clearColor s t
  · exact setColorMask_getColorMask s t
  · rfl

/-! ## Where the bars are -/

theorem toInt_sub_eq {v a : Int32} {n : ℤ} (ha : a.toInt = n) (hn : 0 ≤ n) (hv : n ≤ v.toInt) :
    (v - a).toInt = v.toInt - n := by
  subst ha
  exact Int32.toInt_sub_of_le _ _ (Int32.le_iff_toInt_le.mpr hn) (Int32.le_iff_toInt_le.mpr hv)

/-- The center keeps the bars inside the drawable. -/
theorem cursorCenter_range {drawable : Int32} (h : 17 ≤ drawable.toInt) (v : Int32) :
    8 ≤ (cursorCenter drawable v).toInt ∧
      (cursorCenter drawable v).toInt ≤ drawable.toInt - 9 := by
  have h8 : (drawable - 8).toInt = drawable.toInt - 8 :=
    toInt_sub_eq rfl (by decide) (by omega)
  have h9 : (drawable - 9).toInt = drawable.toInt - 9 :=
    toInt_sub_eq rfl (by decide) (by omega)
  have hlow : (8 : Int32).toInt = 8 := rfl
  simp only [cursorCenter, Int32.lt_iff_toInt_lt, Int32.le_iff_toInt_le, h8, hlow]
  split_ifs <;> omega

theorem area_eq_bar {x y a b width height : Int32} (ha : a.toInt = width.toInt / 2)
    (hb : b.toInt = height.toInt / 2) (hwidth : 0 ≤ width.toInt) (hheight : 0 ≤ height.toInt)
    (hx : width.toInt / 2 ≤ x.toInt) (hy : height.toInt / 2 ≤ y.toInt) :
    (⟨x - a, y - b, width, height⟩ : Rect).area =
      bar (x.toInt, y.toInt) width.toInt height.toInt := by
  rw [Rect.area, bar, toInt_sub_eq ha (by omega) hx, toInt_sub_eq hb (by omega) hy]

theorem clearBox_bar {s : gl.Context} (htest : s.scissorTest = true)
    (hmask : s.colorMask = ⟨true, true, true, true⟩) {x y a b width height : Int32}
    (ha : a.toInt = width.toInt / 2) (hb : b.toInt = height.toInt / 2)
    (hwidth : 0 ≤ width.toInt) (hheight : 0 ≤ height.toInt)
    (hx : width.toInt / 2 ≤ x.toInt) (hy : height.toInt / 2 ≤ y.toInt) :
    Painted (s.clearColor.val.map gl.stored) Set.univ
      (ink gl s.framebuffer (bar (x.toInt, y.toInt) width.toInt height.toInt)) s.pixels
      (s.clearBox ⟨x - a, y - b, width, height⟩).pixels := by
  rw [← area_eq_bar ha hb hwidth hheight hx hy]
  refine clearBox_painted ?_ htest hmask
  rw [Int32.le_iff_toInt_le, Int32.le_iff_toInt_le]
  exact ⟨hwidth, hheight⟩

/-! ## The whole call -/

section

variable [OfScientific Level] {rt : PlatformRuntime}

/-- Whatever the drawable is. -/
theorem runtimeDrawCursor_eq (x y : Int32) (s : gl.Context) :
    runtimeDrawCursor rt x y s = { s with pixels := (runtimeDrawCursor rt x y s).pixels } := by
  rw [runtimeDrawCursor]
  split_ifs
  · rfl
  · rw [restoreContext_eq s rfl]

theorem not_le_zero_of_le {v : Int32} (h : 17 ≤ v.toInt) : ¬ v ≤ 0 := by
  rw [Int32.le_iff_toInt_le, Int32.toInt_zero]
  omega

/-- Where the bars of a position cross, in GL's coordinates. -/
def crossing (rt : PlatformRuntime) (x y : Int32) : ℤ × ℤ :=
  ((cursorCenter rt.drawableWidth x).toInt,
    (rt.drawableHeight - 1 - cursorCenter rt.drawableHeight y).toInt)

theorem crossing_range (hw : 17 ≤ rt.drawableWidth.toInt) (hh : 17 ≤ rt.drawableHeight.toInt)
    (x y : Int32) :
    (8 ≤ (crossing rt x y).1 ∧ (crossing rt x y).1 ≤ rt.drawableWidth.toInt - 9) ∧
      (8 ≤ (crossing rt x y).2 ∧ (crossing rt x y).2 ≤ rt.drawableHeight.toInt - 9) := by
  have hx := cursorCenter_range hw x
  have hy := cursorCenter_range hh y
  have hlast : (rt.drawableHeight - 1).toInt = rt.drawableHeight.toInt - 1 :=
    toInt_sub_eq rfl (by decide) (by omega)
  have hglY : (crossing rt x y).2 =
      rt.drawableHeight.toInt - 1 - (cursorCenter rt.drawableHeight y).toInt := by
    rw [crossing, toInt_sub_eq rfl (by omega) (by omega), hlast]
  rw [hglY]
  exact ⟨hx, by omega⟩

theorem bar_subset_surface (hw : 17 ≤ rt.drawableWidth.toInt) (hh : 17 ≤ rt.drawableHeight.toInt)
    (x y : Int32) :
    bar (crossing rt x y) 17 3 ∪ bar (crossing rt x y) 3 17 ⊆
      surface rt.drawableWidth rt.drawableHeight := by
  obtain ⟨hx, hy⟩ := crossing_range hw hh x y
  rintro ⟨u, v⟩ hp
  simp only [bar, surface, Set.mem_union, Set.mem_prod, Set.mem_Ico] at hp ⊢
  omega

/-- The two bars and nothing else get the cursor's colour. -/
theorem runtimeDrawCursor_painted (hw : 17 ≤ rt.drawableWidth.toInt)
    (hh : 17 ≤ rt.drawableHeight.toInt) (x y : Int32) (s : gl.Context) :
    Painted ((cursorColor.map gl.clamp).map gl.stored) Set.univ
      (ink gl 0 (bar (crossing rt x y) 17 3 ∪ bar (crossing rt x y) 3 17)) s.pixels
      (runtimeDrawCursor rt x y s).pixels := by
  obtain ⟨⟨hx, -⟩, hy, -⟩ := crossing_range hw hh x y
  have hlong : (17 : Int32).toInt / 2 ≤ 8 := by decide
  have hshort : (3 : Int32).toInt / 2 ≤ 8 := by decide
  rw [runtimeDrawCursor, if_neg (by simp [not_le_zero_of_le hw, not_le_zero_of_le hh]),
    restoreContext_eq s rfl, ← ink_union]
  let t := (prepareCursor s).clearBox ⟨cursorCenter rt.drawableWidth x - 8,
    rt.drawableHeight - 1 - cursorCenter rt.drawableHeight y - 1, 17, 3⟩
  have hhorizontal := clearBox_bar (s := prepareCursor s) (a := 8) (b := 1) rfl rfl rfl rfl
    (by decide) (by decide) (hlong.trans hx) (hshort.trans hy)
  have hvertical := clearBox_bar (s := t) (a := 1) (b := 8) rfl rfl rfl rfl
    (by decide) (by decide) (hshort.trans hx) (hlong.trans hy)
  have h17 : (17 : Int32).toInt = 17 := rfl
  have h3 : (3 : Int32).toInt = 3 := rfl
  rw [h17, h3] at hhorizontal hvertical
  exact hhorizontal.trans hvertical

/-- The guest finds its context as it left it, and only two bars around one point of the
window have changed. -/
theorem runtimeDrawCursor_frame (hw : 17 ≤ rt.drawableWidth.toInt)
    (hh : 17 ≤ rt.drawableHeight.toInt) (x y : Int32) (s : gl.Context) :
    let t := runtimeDrawCursor rt x y s
    (t.framebuffer = s.framebuffer ∧ t.scissorTest = s.scissorTest ∧
      t.scissorBox = s.scissorBox ∧ t.clearColor = s.clearColor ∧ t.colorMask = s.colorMask) ∧
    ∃ center : ℤ × ℤ, ∀ framebuffer p, t.pixels (framebuffer, p) ≠ s.pixels (framebuffer, p) →
      framebuffer = 0 ∧ p ∈ surface rt.drawableWidth rt.drawableHeight ∧
        (p ∈ bar center 17 3 ∨ p ∈ bar center 3 17) := by
  intro t
  have hframe : t = { s with pixels := t.pixels } := runtimeDrawCursor_eq x y s
  refine ⟨?_, crossing rt x y, fun framebuffer p hchanged => ?_⟩
  · rw [hframe]
    exact ⟨rfl, rfl, rfl, rfl, rfl⟩
  · have hink : (framebuffer, p) ∈
        ink gl 0 (bar (crossing rt x y) 17 3 ∪ bar (crossing rt x y) 3 17) := by
      by_contra hout
      exact hchanged ((runtimeDrawCursor_painted hw hh x y s _ trivial).2 hout)
    obtain ⟨hwindow, -, hbars⟩ := hink
    exact ⟨hwindow, bar_subset_surface hw hh x y hbars, hbars⟩

/-- So does the guest behind a whole frame, with any cursor. -/
theorem presentCursor_eq (x y : Int32) (visible : Bool) (s : gl.Context) :
    presentCursor rt x y visible s =
      { s with pixels := (presentCursor rt x y visible s).pixels } := by
  cases visible with
  | false => rfl
  | true => exact runtimeDrawCursor_eq _ _ s

end

/-- Colours are rational and stored as they are, and only the window has pixels. -/
def exactGles : Gles ℚ ℚ where
  clamp v := max 0 (min v 1)
  stored := id
  extent framebuffer p := framebuffer = 0 && p ∈ (⟨0, 0, 720, 480⟩ : Rect).area
  clamp_clamp v := by
    rw [min_eq_left (max_le zero_le_one (min_le_right v 1)), max_eq_right (le_max_left 0 (min v 1))]

/-- The guest draws into a texture, with the scissor test off and without green. -/
def textureContext : exactGles.Context where
  framebuffer := 7
  scissorTest := false
  scissorBox := ⟨⟨0, 0, 64, 64⟩, by decide⟩
  clearColor := ⟨⟨0, 0, 0, 1⟩, by decide⟩
  colorMask := ⟨true, false, true, true⟩
  pixels _ := ⟨0, 0, 0, 0⟩

/-- The position is far outside the panel. -/
theorem runtimeDrawCursor_frame_texture :
    let t := runtimeDrawCursor widening.toPlatformRuntime 5000 (-7) textureContext
    (t.framebuffer = 7 ∧ t.scissorTest = false ∧ t.scissorBox.val = ⟨0, 0, 64, 64⟩ ∧
      t.clearColor.val = ⟨0, 0, 0, 1⟩ ∧ t.colorMask = ⟨true, false, true, true⟩) ∧
    ∃ center : ℤ × ℤ, ∀ framebuffer p, t.pixels (framebuffer, p) ≠ ⟨0, 0, 0, 0⟩ →
      framebuffer = 0 ∧ p ∈ surface 720 480 ∧ (p ∈ bar center 17 3 ∨ p ∈ bar center 3 17) := by
  obtain ⟨⟨hframebuffer, htest, hbox, hcolor, hmask⟩, center, hpixels⟩ :=
    @runtimeDrawCursor_frame _ _ exactGles _ widening.toPlatformRuntime (by decide) (by decide)
      5000 (-7) textureContext
  exact ⟨⟨hframebuffer, htest, congrArg Subtype.val hbox, congrArg Subtype.val hcolor, hmask⟩,
    center, hpixels⟩

end NfsmwRuntime.Display

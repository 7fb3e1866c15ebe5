import NfsmwRuntime.Display.Scaling
import NfsmwRuntime.Library.Stretch

/-!
# Adjacent rectangles

`scale_rect` stretches the corner and the size of a rectangle one by one. The edge at which
a rectangle ends is then the edge at which the next one begins only if the remainders of
the two divisions do not make up a whole; otherwise one column or row of pixels between
the two belongs to neither.
-/

namespace NfsmwRuntime.Display

open Library

/-- Not negative, and inside a surface of the given size. -/
structure Rect.Within (r : Rect) (width height : Int32) : Prop where
  x_nonneg : 0 ≤ r.x.toInt
  y_nonneg : 0 ≤ r.y.toInt
  width_nonneg : 0 ≤ r.width.toInt
  height_nonneg : 0 ≤ r.height.toInt
  right_le : r.x.toInt + r.width.toInt ≤ width.toInt
  top_le : r.y.toInt + r.height.toInt ≤ height.toInt

/-- The pixels of a rectangle. -/
def Rect.area (r : Rect) : Set (ℤ × ℤ) :=
  Set.Ico r.x.toInt (r.x.toInt + r.width.toInt) ×ˢ
    Set.Ico r.y.toInt (r.y.toInt + r.height.toInt)

def surface (width height : Int32) : Set (ℤ × ℤ) :=
  Set.Ico 0 width.toInt ×ˢ Set.Ico 0 height.toInt

/-- With framebuffer 0 bound, the right and the upper edge of the rectangle are where a
rectangle that starts there begins. -/
def EdgesMeet (rt : PlatformRuntime) (r : Rect) : Prop :=
  (∀ next : Rect, next.x.toInt = r.x.toInt + r.width.toInt →
    (scaleRect rt 0 r).x.toInt + (scaleRect rt 0 r).width.toInt = (scaleRect rt 0 next).x.toInt) ∧
  ∀ next : Rect, next.y.toInt = r.y.toInt + r.height.toInt →
    (scaleRect rt 0 r).y.toInt + (scaleRect rt 0 r).height.toInt = (scaleRect rt 0 next).y.toInt

/-- What the divisions leave of the corner and of the size is less than a pixel together. -/
def RemaindersFit (rt : PlatformRuntime) (r : Rect) : Prop :=
  r.x.toInt * rt.drawableWidth.toInt % rt.renderWidth.toInt +
      r.width.toInt * rt.drawableWidth.toInt % rt.renderWidth.toInt < rt.renderWidth.toInt ∧
    r.y.toInt * rt.drawableHeight.toInt % rt.renderHeight.toInt +
      r.height.toInt * rt.drawableHeight.toInt % rt.renderHeight.toInt < rt.renderHeight.toInt

/-- Both edges of a direction fall on the same pixel. -/
def Vanishes (rt : PlatformRuntime) (r : Rect) : Prop :=
  scale rt.drawableWidth.toInt rt.renderWidth.toInt (r.x.toInt + r.width.toInt) ≤
      scale rt.drawableWidth.toInt rt.renderWidth.toInt r.x.toInt ∨
    scale rt.drawableHeight.toInt rt.renderHeight.toInt (r.y.toInt + r.height.toInt) ≤
      scale rt.drawableHeight.toInt rt.renderHeight.toInt r.y.toInt

/-! ## One direction -/

section

variable {v drawable render : Int32}

/-- Nothing overflows on the surface. -/
theorem scaleInt_toInt (hrender : 0 < render.toInt) (hdrawable : 0 ≤ drawable.toInt)
    (hv : 0 ≤ v.toInt) (hle : v.toInt ≤ render.toInt) :
    (scaleInt v drawable render).toInt = scale drawable.toInt render.toInt v.toInt := by
  have hnonneg : 0 ≤ v.toInt * drawable.toInt := Int.mul_nonneg hv hdrawable
  have hlow : 0 ≤ scale drawable.toInt render.toInt v.toInt :=
    Int.ediv_nonneg hnonneg hrender.le
  have hhigh : scale drawable.toInt render.toInt v.toInt ≤ drawable.toInt := by
    refine Int.ediv_le_of_le_mul hrender ?_
    rw [Int.mul_comm drawable.toInt]
    exact Int.mul_le_mul_of_nonneg_right hle hdrawable
  have hint := drawable.toInt_lt
  rw [scaleInt, Int.tdiv_eq_ediv_of_nonneg hnonneg]
  change (Int32.ofInt (scale drawable.toInt render.toInt v.toInt)).toInt = _
  exact Int32.toInt_ofInt_of_le (by omega) (by omega)

variable {x w : Int32}

theorem scaleInt_edge_iff (hrender : 0 < render.toInt) (hdrawable : 0 ≤ drawable.toInt)
    (hx : 0 ≤ x.toInt) (hw : 0 ≤ w.toInt) (hle : x.toInt + w.toInt ≤ render.toInt) :
    (∀ next : Int32, next.toInt = x.toInt + w.toInt →
      (scaleInt x drawable render).toInt + (scaleInt w drawable render).toInt =
        (scaleInt next drawable render).toInt) ↔
      x.toInt * drawable.toInt % render.toInt + w.toInt * drawable.toInt % render.toInt <
        render.toInt := by
  rw [scaleInt_toInt hrender hdrawable hx (by omega),
    scaleInt_toInt hrender hdrawable hw (by omega), ← scale_add_eq_iff hrender]
  have hint := render.toInt_lt
  constructor
  · intro h
    have hnext : (Int32.ofInt (x.toInt + w.toInt)).toInt = x.toInt + w.toInt :=
      Int32.toInt_ofInt_of_le (by omega) (by omega)
    have hmeet := h _ hnext
    rwa [scaleInt_toInt hrender hdrawable (by omega) (by omega), hnext] at hmeet
  · intro h next hnext
    rw [scaleInt_toInt hrender hdrawable (by omega) (by omega), hnext]
    exact h

end

/-! ## Rectangles -/

section

variable (rt : StartedRuntime) {r : Rect}

theorem StartedRuntime.renderWidth_pos : 0 < rt.renderWidth.toInt := by
  have := rt.renderWidth_range
  omega

theorem StartedRuntime.renderHeight_pos : 0 < rt.renderHeight.toInt := by
  have := rt.renderHeight_range
  omega

theorem StartedRuntime.drawableWidth_pos : 0 < rt.drawableWidth.toInt := by
  have := rt.drawableWidth_range
  omega

theorem StartedRuntime.drawableHeight_pos : 0 < rt.drawableHeight.toInt := by
  have := rt.drawableHeight_range
  omega

/-- The point of the render surface that a pixel of the drawable comes from. -/
def source (rt : PlatformRuntime) : ℤ × ℤ → ℤ × ℤ :=
  Prod.map (origin rt.drawableWidth.toInt rt.renderWidth.toInt)
    (origin rt.drawableHeight.toInt rt.renderHeight.toInt)

theorem edgesMeet_iff (hr : r.Within rt.renderWidth rt.renderHeight) :
    EdgesMeet rt.toPlatformRuntime r ↔ RemaindersFit rt.toPlatformRuntime r := by
  simp only [EdgesMeet, rt.scaleRect_eq, if_true, stretch]
  refine and_congr ?_ ?_
  · rw [← scaleInt_edge_iff rt.renderWidth_pos rt.drawableWidth_pos.le hr.x_nonneg
      hr.width_nonneg hr.right_le]
    exact ⟨fun h next => h ⟨next, 0, 0, 0⟩, fun h next => h next.x⟩
  · rw [← scaleInt_edge_iff rt.renderHeight_pos rt.drawableHeight_pos.le hr.y_nonneg
      hr.height_nonneg hr.top_le]
    exact ⟨fun h next => h ⟨0, next, 0, 0⟩, fun h next => h next.y⟩

/-- The rectangle between the stretched edges. -/
theorem preimage_area (r : Rect) :
    Set.preimage (source rt.toPlatformRuntime) r.area =
      Set.Ico (scale rt.drawableWidth.toInt rt.renderWidth.toInt r.x.toInt)
          (scale rt.drawableWidth.toInt rt.renderWidth.toInt (r.x.toInt + r.width.toInt)) ×ˢ
        Set.Ico (scale rt.drawableHeight.toInt rt.renderHeight.toInt r.y.toInt)
          (scale rt.drawableHeight.toInt rt.renderHeight.toInt
            (r.y.toInt + r.height.toInt)) := by
  rw [source, Rect.area, Set.preimage_prod_map_prod,
    preimage_origin_Ico rt.drawableWidth_pos rt.renderWidth_pos,
    preimage_origin_Ico rt.drawableHeight_pos rt.renderHeight_pos]

theorem preimage_surface :
    Set.preimage (source rt.toPlatformRuntime) (surface rt.renderWidth rt.renderHeight) =
      surface rt.drawableWidth rt.drawableHeight := by
  rw [source, surface, Set.preimage_prod_map_prod,
    preimage_origin_Ico rt.drawableWidth_pos rt.renderWidth_pos,
    preimage_origin_Ico rt.drawableHeight_pos rt.renderHeight_pos, scale_zero, scale_zero,
    scale_self rt.renderWidth_pos, scale_self rt.renderHeight_pos, surface]

theorem area_scaleRect (hr : r.Within rt.renderWidth rt.renderHeight) :
    (scaleRect rt.toPlatformRuntime 0 r).area =
      Set.Ico (scale rt.drawableWidth.toInt rt.renderWidth.toInt r.x.toInt)
          (scale rt.drawableWidth.toInt rt.renderWidth.toInt r.x.toInt +
            scale rt.drawableWidth.toInt rt.renderWidth.toInt r.width.toInt) ×ˢ
        Set.Ico (scale rt.drawableHeight.toInt rt.renderHeight.toInt r.y.toInt)
          (scale rt.drawableHeight.toInt rt.renderHeight.toInt r.y.toInt +
            scale rt.drawableHeight.toInt rt.renderHeight.toInt r.height.toInt) := by
  obtain ⟨hx, hy, hw, hh, hright, htop⟩ := hr
  have hwidth := rt.renderWidth_pos
  have hheight := rt.renderHeight_pos
  rw [rt.scaleRect_eq, if_pos rfl, Rect.area, stretch,
    scaleInt_toInt hwidth rt.drawableWidth_pos.le hx (by omega),
    scaleInt_toInt hwidth rt.drawableWidth_pos.le hw (by omega),
    scaleInt_toInt hheight rt.drawableHeight_pos.le hy (by omega),
    scaleInt_toInt hheight rt.drawableHeight_pos.le hh (by omega)]

theorem area_scaleRect_subset (hr : r.Within rt.renderWidth rt.renderHeight) :
    (scaleRect rt.toPlatformRuntime 0 r).area ⊆
      Set.preimage (source rt.toPlatformRuntime) r.area := by
  rw [area_scaleRect rt hr, preimage_area]
  exact Set.prod_mono (Set.Ico_subset_Ico_right (scale_add_le rt.renderWidth_pos _ _))
    (Set.Ico_subset_Ico_right (scale_add_le rt.renderHeight_pos _ _))

/-- No pixel between the stretched edges is lost. -/
theorem area_scaleRect_eq_iff (hr : r.Within rt.renderWidth rt.renderHeight) :
    (scaleRect rt.toPlatformRuntime 0 r).area =
        Set.preimage (source rt.toPlatformRuntime) r.area ↔
      RemaindersFit rt.toPlatformRuntime r ∨ Vanishes rt.toPlatformRuntime r := by
  have hright := @scale_add_le rt.drawableWidth.toInt _ rt.renderWidth_pos r.x.toInt r.width.toInt
  have htop := @scale_add_le rt.drawableHeight.toInt _ rt.renderHeight_pos r.y.toInt r.height.toInt
  rw [area_scaleRect rt hr, preimage_area, Set.prod_eq_prod_iff, Ico_eq_of_le_iff hright,
    Ico_eq_of_le_iff htop, scale_add_eq_iff rt.renderWidth_pos,
    scale_add_eq_iff rt.renderHeight_pos]
  simp only [Set.Ico_eq_empty_iff, not_lt, RemaindersFit, Vanishes]
  constructor
  · rintro (⟨hx | hx, hy | hy⟩ | ⟨-, hx | hy⟩)
    · exact .inl ⟨hx, hy⟩
    · exact .inr (.inr hy)
    · exact .inr (.inl hx)
    · exact .inr (.inl hx)
    · exact .inr (.inl hx)
    · exact .inr (.inr hy)
  · rintro (⟨hx, hy⟩ | hx | hy)
    · exact .inl ⟨.inl hx, .inl hy⟩
    · exact .inr ⟨.inl (hright.trans hx), .inl hx⟩
    · exact .inr ⟨.inr (htop.trans hy), .inr hy⟩

theorem tiles_scaleRect_iff {ι : Type} {tile : ι → Rect}
    (hin : ∀ i, (tile i).Within rt.renderWidth rt.renderHeight)
    (h : Tiles (surface rt.renderWidth rt.renderHeight) fun i => (tile i).area) :
    Tiles (surface rt.drawableWidth rt.drawableHeight)
        (fun i => (scaleRect rt.toPlatformRuntime 0 (tile i)).area) ↔
      ∀ i, RemaindersFit rt.toPlatformRuntime (tile i) ∨
        Vanishes rt.toPlatformRuntime (tile i) := by
  have hedges := h.preimage (source rt.toPlatformRuntime)
  rw [preimage_surface] at hedges
  rw [hedges.iff_eq fun i => area_scaleRect_subset rt (hin i)]
  exact forall_congr' fun i => area_scaleRect_eq_iff rt (hin i)

end

/-- Neighbours stay neighbours, and tilings tilings, exactly as far as the remainders of
corner and size fit into one pixel. -/
theorem adjacent_iff_remainders_fit (rt : StartedRuntime) :
    (∀ r : Rect, r.Within rt.renderWidth rt.renderHeight →
      (EdgesMeet rt.toPlatformRuntime r ↔ RemaindersFit rt.toPlatformRuntime r)) ∧
    ∀ (ι : Type) (tile : ι → Rect), (∀ i, (tile i).Within rt.renderWidth rt.renderHeight) →
      Tiles (surface rt.renderWidth rt.renderHeight) (fun i => (tile i).area) →
      (Tiles (surface rt.drawableWidth rt.drawableHeight)
          (fun i => (scaleRect rt.toPlatformRuntime 0 (tile i)).area) ↔
        ∀ i, RemaindersFit rt.toPlatformRuntime (tile i) ∨
          Vanishes rt.toPlatformRuntime (tile i)) :=
  ⟨fun _ hr => edgesMeet_iff rt hr, fun _ _ hin h => tiles_scaleRect_iff rt hin h⟩

/-! ## A panel that is wider than the picture -/

/-- The game renders at 640x480 onto a panel of 720x480. -/
def widening : StartedRuntime :=
  { doubling with
    drawableWidth := 720
    drawableHeight := 480
    drawableWidth_range := by decide
    drawableHeight_range := doubling.renderHeight_range }

/-- The left half of the picture, and the right one. -/
def half : Bool → Rect
  | true => ⟨0, 0, 320, 480⟩
  | false => ⟨320, 0, 320, 480⟩

theorem half_within (left : Bool) : (half left).Within 640 480 := by
  cases left <;> constructor <;> decide

theorem half_area (left : Bool) :
    (half left).area = (if left then Set.Ico 0 320 else Set.Ico 320 640) ×ˢ Set.Ico 0 480 := by
  cases left <;> rfl

theorem tiles_half : Tiles (surface 640 480) fun left => (half left).area where
  disjoint := by
    intro left other hne
    rw [Set.disjoint_left]
    rintro ⟨u, v⟩ hp hq
    have hu := (half_area left ▸ hp).1
    have hu' := (half_area other ▸ hq).1
    revert hne hu hu'
    cases left <;> cases other <;> simp <;> omega
  cover := by
    have hsurface : surface 640 480 = Set.Ico 0 640 ×ˢ Set.Ico 0 480 := rfl
    ext ⟨u, v⟩
    rw [hsurface, Set.mem_iUnion, Bool.exists_bool, half_area, half_area]
    simp only [Bool.false_eq_true, if_true, if_false, Set.mem_prod, Set.mem_Ico]
    omega

theorem adjacent_iff_remainders_fit_half :
    EdgesMeet widening.toPlatformRuntime (half true) ∧
      Tiles (surface 720 480)
        fun left => (scaleRect widening.toPlatformRuntime 0 (half left)).area := by
  obtain ⟨hedges, htiles⟩ := adjacent_iff_remainders_fit widening
  refine ⟨(hedges _ (half_within true)).mpr ?_, (htiles Bool half half_within tiles_half).mpr ?_⟩
  · exact ⟨by decide, by decide⟩
  · rintro (_ | _)
    · exact .inl ⟨by decide, by decide⟩
    · exact .inl ⟨by decide, by decide⟩

/-- The columns 4 to 7 are stretched to 4 to 7, and what comes next begins at column 9. -/
theorem column_eight_lost :
    (⟨4, 0, 4, 480⟩ : Rect).Within 640 480 ∧
      ¬ EdgesMeet widening.toPlatformRuntime ⟨4, 0, 4, 480⟩ := by
  refine ⟨by constructor <;> decide, fun ⟨hright, _⟩ => ?_⟩
  have := hright ⟨8, 0, 4, 480⟩ (by decide)
  revert this
  decide

end NfsmwRuntime.Display

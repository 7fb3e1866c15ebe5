import NfsmwRuntime.Jni.Registry
import NfsmwRuntime.Jni.ValueMethods
import NfsmwRuntime.Library.Painting
import NfsmwRuntime.Library.Region

/-!
# Fallback text

`draw_text` draws the squares of a fixed font onto a bitmap, and two other functions say how
large a text is: `measureText`, and the fields of the font metrics.

The ink of a text is a set of pixels, which needs no bitmap. What is on the bitmap of it
becomes white and nothing else changes, and all of it is inside the box that is measured.
-/

namespace NfsmwRuntime.Jni

open Library Obb Painted

/-! ## The ink of a text -/

/-- A bit of a glyph's row, the first column being the highest one. -/
def glyphBit (character : UInt8) (row column : Nat) : Prop :=
  glyphRow character row &&& (1 <<< UInt8.ofNat (4 - column)) ≠ 0

instance (character : UInt8) (row column : Nat) : Decidable (glyphBit character row column) :=
  inferInstanceAs (Decidable (_ ≠ _))

/-- `scale` by `scale` pixels. -/
def square (scale x y : Int) : Set (Int × Int) :=
  {p | x ≤ p.1 ∧ p.1 < x + scale ∧ y ≤ p.2 ∧ p.2 < y + scale}

/-- The ink of a character with the cursor at `x` and the baseline at `y`. -/
def characterInk (scale x y : Int) (character : UInt8) : Set (Int × Int) :=
  {p | ∃ row < 7, ∃ column < 5, glyphBit character row column ∧
    p ∈ square scale (x + scale * column) (y - 7 * scale + scale * row)}

/-- The ink of a text. -/
def textInk (scale x y : Int) (text : CString) : Set (Int × Int) :=
  {p | ∃ (i : Nat) (character : UInt8), text[i]? = some character ∧
    p ∈ characterInk scale (x + 6 * scale * i) y character}

/-! ## Pixels of a bitmap -/

/-- The points of a bitmap. -/
def onBitmap (bitmap : ObjectData) : Set (Int × Int) :=
  {p | 0 ≤ p.1 ∧ p.1 < bitmap.width.toInt ∧ 0 ≤ p.2 ∧ p.2 < bitmap.height.toInt}

def pixelOffset (bitmap : ObjectData) (p : Int × Int) : Nat :=
  p.2.toNat * bitmap.stride.toNat + p.1.toNat * 4

def pixel (bitmap : ObjectData) (bytes : List UInt8) (p : Int × Int) : List UInt8 :=
  (bytes.drop (pixelOffset bitmap p)).take 4

def white : List UInt8 := [255, 255, 255, 255]

/-- The bytes are exactly the pixels of the bitmap. -/
structure Tight (bitmap : ObjectData) (bytes : List UInt8) : Prop where
  stride : bitmap.stride.toNat = 4 * bitmap.width.toInt.toNat
  length : bytes.length = bitmap.stride.toNat * bitmap.height.toInt.toNat

/-! ## Drawing -/

def InInt (x : Int) : Prop := -2 ^ 31 ≤ x ∧ x < 2 ^ 31

instance (x : Int) : Decidable (InInt x) := inferInstanceAs (Decidable (_ ∧ _))

theorem cInt_of_inInt {x : Int} (h : InInt x) : cInt x = some x := if_pos h

/-- What is computed for a text fits in an `int`: the coordinates of its ink and, if it has
ink, of the top of the line, and the cursor at and behind each character. -/
structure CoordinatesFit (scale x y : Int) (text : CString) : Prop where
  ink : ∀ p ∈ textInk scale x y text, InInt p.1 ∧ InInt p.2
  top : (textInk scale x y text).Nonempty → InInt (y - 7 * scale)
  cursor : ∀ i : Nat, i ≤ text.length → InInt (x + 6 * scale * i)

section Drawing

variable {bitmap : ObjectData} {scale x y : Int}

/-- A step of the drawing paints a set of pixels. -/
abbrev DrawsInk (bitmap : ObjectData) (A : Set (Int × Int))
    (step : List UInt8 → Option (List UInt8)) : Prop :=
  Paints (pixel bitmap) (Tight bitmap) white (onBitmap bitmap) A step

/-- The number of a pixel, row by row. -/
theorem pixelOffset_eq {bytes : List UInt8} (ht : Tight bitmap bytes) (p : Int × Int) :
    pixelOffset bitmap p = 4 * (p.1.toNat + bitmap.width.toInt.toNat * p.2.toNat) := by
  rw [pixelOffset, ht.stride, Nat.mul_add, Nat.mul_comm p.2.toNat, Nat.mul_assoc,
    Nat.mul_comm p.1.toNat, Nat.add_comm]

/-- Two pixels of a bitmap share no byte. -/
theorem pixelOffset_apart {bytes : List UInt8} (ht : Tight bitmap bytes) {p q : Int × Int}
    (hp : p ∈ onBitmap bitmap) (hq : q ∈ onBitmap bitmap) (hpq : p ≠ q) :
    pixelOffset bitmap p + 4 ≤ pixelOffset bitmap q ∨
      pixelOffset bitmap q + 4 ≤ pixelOffset bitmap p := by
  obtain ⟨hpx, hpw, hpy, -⟩ := hp
  obtain ⟨hqx, hqw, hqy, -⟩ := hq
  rw [pixelOffset_eq ht, pixelOffset_eq ht]
  set w := bitmap.width.toInt.toNat
  have hne : p.1.toNat + w * p.2.toNat ≠ q.1.toNat + w * q.2.toNat := by
    intro heq
    have hpos : 0 < w := by omega
    have hcolumn := congrArg (· % w) heq
    have hrow := congrArg (· / w) heq
    simp only [Nat.add_mul_mod_self_left, Nat.add_mul_div_left _ _ hpos] at hcolumn hrow
    rw [Nat.mod_eq_of_lt (by omega), Nat.mod_eq_of_lt (by omega)] at hcolumn
    rw [Nat.div_eq_of_lt (by omega), Nat.div_eq_of_lt (by omega)] at hrow
    exact hpq (Prod.ext (by omega) (by omega))
  omega

/-- The four bytes of a pixel are there. -/
theorem pixelOffset_fits {bytes : List UInt8} (ht : Tight bitmap bytes) {p : Int × Int}
    (hp : p ∈ onBitmap bitmap) : pixelOffset bitmap p + 4 ≤ bytes.length := by
  obtain ⟨hpx, hpw, hpy, hph⟩ := hp
  rw [pixelOffset, ht.length]
  have hrow : (p.2.toNat + 1) * bitmap.stride.toNat ≤
      bitmap.height.toInt.toNat * bitmap.stride.toNat := Nat.mul_le_mul_right _ (by omega)
  have hcolumn : p.1.toNat * 4 + 4 ≤ bitmap.stride.toNat := by
    rw [ht.stride]
    omega
  rw [Nat.add_one_mul, Nat.mul_comm bitmap.height.toInt.toNat] at hrow
  omega

/-- A byte that is in the bitmap is in one of its pixels. -/
theorem exists_pixel {bytes : List UInt8} (ht : Tight bitmap bytes) {j : Nat}
    (hj : j < bytes.length) :
    ∃ p ∈ onBitmap bitmap, pixelOffset bitmap p ≤ j ∧ j < pixelOffset bitmap p + 4 := by
  set w := bitmap.width.toInt.toNat with hw
  have hj' : j / 4 < w * bitmap.height.toInt.toNat := by
    have hlength := ht.length
    rw [ht.stride, Nat.mul_assoc, ← hw] at hlength
    omega
  have hpos : 0 < w := Nat.pos_of_mul_pos_right (Nat.zero_lt_of_lt hj')
  have hcolumn : j / 4 % w < w := Nat.mod_lt _ hpos
  have hrow : j / 4 / w < bitmap.height.toInt.toNat := Nat.div_lt_of_lt_mul hj'
  refine ⟨((j / 4 % w : Nat), (j / 4 / w : Nat)), ⟨Int.natCast_nonneg _, ?_,
    Int.natCast_nonneg _, ?_⟩, ?_⟩
  · exact Int.lt_toNat.mp hcolumn
  · exact Int.lt_toNat.mp hrow
  · rw [pixelOffset_eq ht, Int.toNat_natCast, Int.toNat_natCast, ← hw, Nat.mod_add_div]
    omega

/-- A pixel after four bytes of one have been written. -/
theorem pixel_splice {bytes : List UInt8} (ht : Tight bitmap bytes) {p q : Int × Int}
    (hp : p ∈ onBitmap bitmap) (hq : q ∈ onBitmap bitmap) :
    pixel bitmap (bytes.take (pixelOffset bitmap q) ++ white ++
        bytes.drop (pixelOffset bitmap q + white.length)) p =
      if p = q then white else pixel bitmap bytes p := by
  have hfit := pixelOffset_fits ht hq
  have hget := getElem?_splice (v := white) hfit
  refine List.ext_getElem? fun k => ?_
  rw [pixel, List.getElem?_take, List.getElem?_drop, hget]
  by_cases hk : k < 4
  · rw [if_pos hk]
    by_cases hpq : p = q
    · subst hpq
      rw [if_pos ⟨by omega, Nat.add_lt_add_left hk _⟩, if_pos rfl, Nat.add_sub_cancel_left]
    · have hapart := pixelOffset_apart ht hp hq hpq
      have hlength : white.length = 4 := rfl
      rw [if_neg (by omega), if_neg hpq, pixel, List.getElem?_take_of_lt hk, List.getElem?_drop]
  · rw [if_neg hk, eq_comm, List.getElem?_eq_none_iff]
    have hpixel : (pixel bitmap bytes p).length ≤ 4 := List.length_take_le _ _
    split
    · exact not_lt.mp hk
    · omega

theorem plot_draws : DrawsInk bitmap {(x, y)} (plot bitmap x y) := by
  intro bytes ht
  by_cases hoff : x < 0 ∨ y < 0 ∨ bitmap.width.toInt ≤ x ∨ bitmap.height.toInt ≤ y
  · refine ⟨bytes, if_pos hoff, ht, Painted.refl ?_⟩
    rintro p ⟨hx, hw, hy, hh⟩ rfl
    simp only at hx hw hy hh
    omega
  · have hmem : (x, y) ∈ onBitmap bitmap := by
      refine ⟨?_, ?_, ?_, ?_⟩ <;> simp only <;> omega
    have hfit := pixelOffset_fits ht hmem
    set o := pixelOffset bitmap (x, y) with ho
    refine ⟨bytes.take o ++ white ++ bytes.drop (o + 4), ?_, ⟨ht.stride, ?_⟩, fun p hp => ?_⟩
    · rw [plot, if_neg hoff]
      exact if_pos hfit
    · rw [← ht.length, List.length_append, List.length_append, List.length_drop,
        List.length_take_of_le (by omega), show white.length = 4 from rfl]
      omega
    · have hpixel := pixel_splice ht hp hmem
      refine ⟨fun hxy => ?_, fun hxy => ?_⟩
      · exact hpixel.trans (if_pos (Set.mem_singleton_iff.mp hxy))
      · exact hpixel.trans (if_neg fun h => hxy (Set.mem_singleton_iff.mpr h))

/-- The offsets inside a square, as the loops run through them. -/
def inner (scale : Int) : List Int := do
  let offset ← List.range scale.toNat
  return offset

theorem mem_inner {scale offset : Int} : offset ∈ inner scale ↔ 0 ≤ offset ∧ offset < scale := by
  simp only [inner, List.pure_def, List.bind_eq_flatMap, List.mem_flatMap, List.mem_range,
    List.mem_singleton]
  constructor
  · rintro ⟨n, hn, rfl⟩
    omega
  · rintro ⟨hnonneg, hlt⟩
    exact ⟨offset.toNat, by omega, by omega⟩

theorem drawBit_draws (hfit : ∀ p ∈ square scale x y, InInt p.1 ∧ InInt p.2) :
    DrawsInk bitmap (square scale x y) (drawBit bitmap scale x y) := by
  have hpixel : ∀ innerY ∈ inner scale, ∀ innerX ∈ inner scale,
      DrawsInk bitmap {(x + innerX, y + innerY)} (fun bytes => do
        let x ← cInt (x + innerX)
        let y ← cInt (y + innerY)
        plot bitmap x y bytes) := by
    intro innerY hinnerY innerX hinnerX
    rw [mem_inner] at hinnerY hinnerX
    have hmem : (x + innerX, y + innerY) ∈ square scale x y := by
      refine ⟨?_, ?_, ?_, ?_⟩ <;> simp only <;> omega
    obtain ⟨hx, hy⟩ := hfit _ hmem
    rw [cInt_of_inInt hx, cInt_of_inInt hy]
    exact plot_draws
  have hrow : ∀ innerY ∈ inner scale, DrawsInk bitmap _ _ :=
    fun innerY hinnerY => Paints.foldlM (hpixel innerY hinnerY)
  refine (Paints.foldlM hrow).congr fun p _ => ⟨?_, ?_⟩
  · rintro ⟨innerY, hinnerY, innerX, hinnerX, rfl⟩
    rw [mem_inner] at hinnerY hinnerX
    refine ⟨?_, ?_, ?_, ?_⟩ <;> simp only <;> omega
  · rintro ⟨hx, hx', hy, hy'⟩
    refine ⟨p.2 - y, mem_inner.mpr (by omega), p.1 - x, mem_inner.mpr (by omega),
      Prod.ext ?_ ?_⟩ <;> simp only <;> omega

/-- A character is drawn if the coordinates of its ink, and the top of its row if it has ink,
are ints. -/
theorem drawCharacter_draws (hscale : 0 < scale) {character : UInt8}
    (hfit : ∀ p ∈ characterInk scale x y character,
      InInt p.1 ∧ InInt p.2 ∧ InInt (y - 7 * scale)) :
    DrawsInk bitmap (characterInk scale x y character)
      (drawCharacter bitmap scale x y character) := by
  have hbit : ∀ row ∈ List.range 7, ∀ column ∈ List.range 5,
      DrawsInk bitmap {p | glyphBit character row column ∧
          p ∈ square scale (x + scale * column) (y - 7 * scale + scale * row)} (fun bytes => do
        if glyphRow character row &&& (1 <<< UInt8.ofNat (4 - column)) = 0 then return bytes
        let pixelX ← cInt (x + column * scale)
        let top ← cInt (y - 7 * scale)
        let pixelY ← cInt (top + row * scale)
        drawBit bitmap scale pixelX pixelY bytes) := by
    intro row hrow column hcolumn
    rw [List.mem_range] at hrow hcolumn
    rw [Int.mul_comm scale column, Int.mul_comm scale row]
    by_cases hclear : glyphRow character row &&& (1 <<< UInt8.ofNat (4 - column)) = 0
    · simp only [if_pos hclear]
      exact Paints.pure fun p _ hp => hp.1 hclear
    · simp only [if_neg hclear]
      have hmem : ∀ p ∈ square scale (x + column * scale) (y - 7 * scale + row * scale),
          p ∈ characterInk scale x y character := fun p hp =>
        ⟨row, hrow, column, hcolumn, hclear, by
          rwa [Int.mul_comm scale column, Int.mul_comm scale row]⟩
      have hcorner := hmem (x + column * scale, y - 7 * scale + row * scale) (by
        refine ⟨?_, ?_, ?_, ?_⟩ <;> simp only <;> omega)
      obtain ⟨hx, hy, htop⟩ := hfit _ hcorner
      rw [cInt_of_inInt hx, cInt_of_inInt htop]
      simp only [Option.bind_eq_bind, Option.bind_some, cInt_of_inInt hy]
      have hdraws := @drawBit_draws bitmap _ _ _ fun p hp =>
        ⟨(hfit p (hmem p hp)).1, (hfit p (hmem p hp)).2.1⟩
      exact hdraws.congr fun p _ => ⟨fun hp => ⟨hclear, hp⟩, fun hp => hp.2⟩
  have hrow : ∀ row ∈ List.range 7, DrawsInk bitmap _ _ :=
    fun row hrow => Paints.foldlM (hbit row hrow)
  refine (Paints.foldlM hrow).congr fun p _ => ?_
  simp only [characterInk, Set.mem_ofPred_eq, List.mem_range]

/-- The cursor at the next character. -/
theorem cursor_succ (scale x : Int) (i : Nat) :
    x + 6 * scale * (i + 1 : Nat) = x + 6 * scale + 6 * scale * i := by
  rw [Int.natCast_add, Int.mul_add, Int.natCast_one, Int.mul_one, ← Int.add_assoc,
    Int.add_right_comm]

theorem textInk_cons (scale x y : Int) (character : UInt8) (text : CString) :
    textInk scale x y (character :: text) =
      characterInk scale x y character ∪ textInk scale (x + 6 * scale) y text := by
  ext p
  constructor
  · rintro ⟨i, other, hget, hp⟩
    cases i with
    | zero =>
      obtain rfl : character = other := by simpa using hget
      exact .inl (by simpa using hp)
    | succ i =>
      refine .inr ⟨i, other, by simpa using hget, ?_⟩
      rwa [cursor_succ] at hp
  · rintro (hp | ⟨i, other, hget, hp⟩)
    · exact ⟨0, character, rfl, by simpa using hp⟩
    · refine ⟨i + 1, other, by simpa using hget, ?_⟩
      rwa [cursor_succ]

theorem drawCharacters_draws (hscale : 0 < scale) {text : CString}
    (hfit : CoordinatesFit scale x y text) :
    DrawsInk bitmap (textInk scale x y text) (drawCharacters bitmap scale y text x) := by
  induction text generalizing x with
  | nil =>
    refine Paints.pure fun p _ hp => ?_
    obtain ⟨i, character, hget, -⟩ := hp
    simp at hget
  | cons character text ih =>
    have hink := hfit.ink
    have htop := hfit.top
    rw [textInk_cons] at hink htop ⊢
    have hcharacter := @drawCharacter_draws bitmap _ _ _ hscale character fun p hp =>
      ⟨(hink p (.inl hp)).1, (hink p (.inl hp)).2, htop ⟨p, .inl hp⟩⟩
    have hcursor : InInt (x + 6 * scale) := by simpa using hfit.cursor 1 (by simp)
    have hrest : CoordinatesFit scale (x + 6 * scale) y text := by
      refine ⟨fun p hp => hink p (.inr hp), fun ⟨p, hp⟩ => htop ⟨p, .inr hp⟩, fun i hi => ?_⟩
      rw [← cursor_succ]
      exact hfit.cursor (i + 1) (Nat.succ_le_succ hi)
    have hdraws := hcharacter.bind (ih hrest)
    intro bytes ht
    obtain ⟨bytes', hbytes, hrest⟩ := hdraws bytes ht
    refine ⟨bytes', ?_, hrest⟩
    rw [drawCharacters, cInt_of_inInt hcursor]
    exact hbytes

end Drawing

/-! ## Where the ink is -/

/-- A text's ink is right of the cursor, ends a column before the width of its characters,
and stands on the baseline. -/
theorem textInk_bounds {scale x y : Int} {text : CString} {p : Int × Int}
    (hp : p ∈ textInk scale x y text) :
    x ≤ p.1 ∧ p.1 < x + 6 * scale * text.length - scale ∧ y - 7 * scale ≤ p.2 ∧ p.2 < y := by
  obtain ⟨i, character, hget, row, hrow, column, hcolumn, -, hx, hx', hy, hy'⟩ := hp
  obtain ⟨hi, -⟩ := List.getElem?_eq_some_iff.mp hget
  have hscale : 0 ≤ scale := by omega
  have hleft : 0 ≤ scale * (6 * i + column) := Int.mul_nonneg hscale (by omega)
  have hright : scale * (6 * i + column + 1) ≤ scale * (6 * text.length - 1) :=
    Int.mul_le_mul_of_nonneg_left (by omega) hscale
  have htop : 0 ≤ scale * row := Int.mul_nonneg hscale (by omega)
  have hbottom : scale * (row + 1) ≤ scale * 7 := Int.mul_le_mul_of_nonneg_left (by omega) hscale
  have hcell : ∀ n : Int, 6 * scale * n = scale * (6 * n) := fun n => by
    rw [Int.mul_comm 6, Int.mul_assoc]
  rw [hcell] at hx hx' ⊢
  rw [Int.mul_add] at hleft hbottom
  rw [Int.mul_add, Int.mul_add, Int.mul_sub] at hright
  omega

/-- A text fits if the ends of its line do. -/
theorem CoordinatesFit.of_ends {scale x y : Int} {text : CString} (hscale : 0 < scale)
    (hleft : InInt x) (hright : InInt (x + 6 * scale * text.length)) (htop : InInt (y - 7 * scale))
    (hbottom : InInt y) : CoordinatesFit scale x y text := by
  obtain ⟨hleft, -⟩ := hleft
  obtain ⟨-, hright⟩ := hright
  refine ⟨fun p hp => ?_, fun _ => htop, fun i hi => ?_⟩
  · obtain ⟨hx, hx', hy, hy'⟩ := textInk_bounds hp
    exact ⟨⟨by omega, by omega⟩, by have := htop.1; omega, by have := hbottom.2; omega⟩
  · have hnonneg : 0 ≤ 6 * scale * i := Int.mul_nonneg (by omega) (by omega)
    have hle : 6 * scale * i ≤ 6 * scale * text.length :=
      Int.mul_le_mul_of_nonneg_left (by omega) (by omega)
    exact ⟨by omega, by omega⟩

/-! ## Measuring -/

variable {φ δ : Type} (c : FloatOps φ δ) (settings : MethodSettings φ) (w : ValueWorld φ)

/-- `jni_get_int_field`. The object's text size is 16 if it is not positive. -/
def jniGetIntField (object : Option Ref) (field : Option FakeField) : Option Int32 :=
  let name := (field.map FakeMethod.name).getD []
  let textSize := textSizeOf c (w.object object)
  if name = cstr "widthPixels" then some settings.displayWidth
  else if name = cstr "heightPixels" then some settings.displayHeight
  else if name = cstr "densityDpi" then some 160
  else if name = cstr "ascent" ∨ name = cstr "top" then
    (cInt (-7 * fallbackFontScale c textSize)).map Int32.ofInt
  else if name = cstr "descent" ∨ name = cstr "bottom" then some 0
  else some 0

/-- What is relied on of `float`: products and conversions are exact for whole numbers up to
2^24, and a size from 7 on that is smaller than 56 has a quotient by 7 between 1 and 8. -/
structure FloatOps.Exact : Prop where
  positive_sixteen : c.positive c.sixteen = true
  mul_ofInt : ∀ m n : Int, 0 ≤ m → m ≤ 2 ^ 24 → 0 ≤ n → n ≤ 2 ^ 24 → m * n ≤ 2 ^ 24 →
    c.mul (c.ofInt m) (c.ofInt n) = c.ofInt (m * n)
  toInt_ofInt : ∀ n : Int, 0 ≤ n → n ≤ 2 ^ 24 → (c.toInt (c.ofInt n)).toInt = n
  toInt_div_seven : ∀ x, c.positive x = true → c.lt x c.seven = false →
    c.le c.fiftySix x = false →
    1 ≤ (c.toInt (c.div x c.seven)).toInt ∧ (c.toInt (c.div x c.seven)).toInt ≤ 8

/-- The scale that a paint's text is drawn in. -/
def scaleOf (paint : Option Ref) : Int := fallbackFontScale c (textSizeOf c (w.object paint))

def measureText : FakeMethod := ⟨cstr "measureText", cstr "(Ljava/lang/String;)F", false⟩

def getFontMetricsInt : FakeMethod :=
  ⟨cstr "getFontMetricsInt", cstr "()Landroid/graphics/Paint$FontMetricsInt;", false⟩

def intField (name : String) : FakeField := ⟨cstr name, cstr "I", false⟩

/-- What the fields of the font metrics are. -/
structure Metrics (metrics : Option Ref) (ascent descent : Int32) : Prop where
  ascent_eq : jniGetIntField c settings w metrics (some (intField "ascent")) = some ascent
  top_eq : jniGetIntField c settings w metrics (some (intField "top")) = some ascent
  descent_eq : jniGetIntField c settings w metrics (some (intField "descent")) = some descent
  bottom_eq : jniGetIntField c settings w metrics (some (intField "bottom")) = some descent

variable {c settings w}

/-- The scale is the same whether or not 16 has replaced a size that is not positive. -/
theorem fallbackFontScale_replaced (textSize : φ) :
    fallbackFontScale c (if c.positive textSize then textSize else c.sixteen) =
      fallbackFontScale c textSize := by
  cases hpositive : c.positive textSize <;> simp [fallbackFontScale, hpositive]

theorem fallbackFontScale_bounds (hc : c.Exact) (textSize : φ) :
    1 ≤ fallbackFontScale c textSize ∧ fallbackFontScale c textSize ≤ 8 := by
  obtain ⟨size, hsize, hpositive⟩ : ∃ size,
      (if c.positive textSize then textSize else c.sixteen) = size ∧ c.positive size = true := by
    cases hpositive : c.positive textSize with
    | false => exact ⟨_, rfl, hc.positive_sixteen⟩
    | true => exact ⟨_, rfl, hpositive⟩
  simp only [fallbackFontScale, hsize]
  split_ifs with hlarge hsmall
  · omega
  · omega
  · exact hc.toInt_div_seven size hpositive (by simpa using hsmall) (by simpa using hlarge)

theorem scaleOf_bounds (hc : c.Exact) (object : Option Ref) :
    1 ≤ scaleOf c w object ∧ scaleOf c w object ≤ 8 :=
  fallbackFontScale_bounds hc _

theorem toInt_ascent (hc : c.Exact) (object : Option Ref) :
    (Int32.ofInt (-7 * scaleOf c w object)).toInt = -7 * scaleOf c w object := by
  obtain ⟨hpos, hle⟩ := scaleOf_bounds hc object (w := w)
  exact Int32.toInt_ofInt_of_le (by omega) (by omega)

theorem metrics_of_scale (hc : c.Exact) (object : Option Ref) :
    Metrics c settings w object (.ofInt (-7 * scaleOf c w object)) 0 := by
  obtain ⟨hpos, hle⟩ := scaleOf_bounds hc object (w := w)
  have hfits : InInt (-7 * scaleOf c w object) := ⟨by omega, by omega⟩
  have hascent : (cInt (-7 * scaleOf c w object)).map Int32.ofInt =
      some (.ofInt (-7 * scaleOf c w object)) := by
    rw [cInt_of_inInt hfits, Option.map_some]
  exact ⟨hascent, hascent, rfl, rfl⟩

/-- `getFontMetricsInt` makes an object of the paint's scale. -/
theorem getFontMetricsInt_scale (reallocOk : Bool) (paint : Option Ref) :
    ∃ w₁ metrics, jniCallObjectMethod c.toCFloat reallocOk w.toWorld paint
        (some getFontMetricsInt) [] = some (w₁, metrics) ∧
      scaleOf c { w with toWorld := w₁ } metrics = scaleOf c w paint := by
  have hpaint : asObject w.heap paint = (w.object paint).map Prod.fst := by
    simp [asObject, ValueWorld.object, Option.map_bind, Function.comp_def]
  have hsize : (fontMetrics c.toCFloat (asObject w.heap paint)).textSize =
      textSizeOf c (w.object paint) := by
    rw [hpaint]
    cases w.object paint <;> rfl
  have hnew : ∀ object : FakeObject φ, (w.heap.alloc object).1.get (w.heap.alloc object).2 =
      some object := fun object => by simp [Heap.alloc, Heap.get]
  refine ⟨_, _, rfl, ?_⟩
  simp only [scaleOf, ValueWorld.object, Option.bind_some, hnew, Option.map_some]
  rw [textSizeOf, hsize]
  exact fallbackFontScale_replaced _

theorem jniCallFloatMethod_measureText (paint text : Option Ref) :
    jniCallFloatMethod c settings w paint (some measureText) [.object text] =
      some (c.mul (c.ofInt (stringValue w.heap text).length)
        (c.ofInt (6 * scaleOf c w paint))) := by
  simp [jniCallFloatMethod, dispatchFloat, measureText, vaObject, fallbackTextWidth, scaleOf]

theorem measureText_exact (hc : c.Exact) (paint text : Option Ref)
    (hshort : 6 * scaleOf c w paint * (stringValue w.heap text).length ≤ 2 ^ 24) :
    jniCallFloatMethod c settings w paint (some measureText) [.object text] =
      some (c.ofInt (6 * scaleOf c w paint * (stringValue w.heap text).length)) := by
  obtain ⟨hpos, hle⟩ := scaleOf_bounds hc paint (w := w)
  set scale := scaleOf c w paint with hscale
  set length := (stringValue w.heap text).length with hlength
  have hmono : 1 * (length : Int) ≤ 6 * scale * length :=
    Int.mul_le_mul_of_nonneg_right (by omega) (by omega)
  rw [Int.mul_comm (6 * scale)] at hshort hmono ⊢
  rw [jniCallFloatMethod_measureText]
  exact congrArg some (hc.mul_ofInt length (6 * scale) (by omega) (by omega) (by omega) (by omega)
    hshort)

/-- The bytes after a set of pixels has become white and nothing else has changed. -/
structure Inked (bitmap : ObjectData) (A : Set (Int × Int)) (bytes bytes' : List UInt8) :
    Prop where
  length : bytes'.length = bytes.length
  painted : Painted white (onBitmap bitmap) A (pixel bitmap bytes) (pixel bitmap bytes')
  rest : ∀ j, (∀ p ∈ onBitmap bitmap, p ∈ A →
    ¬ (pixelOffset bitmap p ≤ j ∧ j < pixelOffset bitmap p + 4)) → bytes'[j]? = bytes[j]?

/-- Every byte of a bitmap belongs to a pixel. -/
theorem Inked.of_painted {bitmap : ObjectData} {A : Set (Int × Int)} {bytes bytes' : List UInt8}
    (ht : Tight bitmap bytes) (ht' : Tight bitmap bytes')
    (h : Painted white (onBitmap bitmap) A (pixel bitmap bytes) (pixel bitmap bytes')) :
    Inked bitmap A bytes bytes' := by
  have hlength : bytes'.length = bytes.length := ht'.length.trans ht.length.symm
  refine ⟨hlength, h, fun j hj => ?_⟩
  rcases Nat.lt_or_ge j bytes.length with hlt | hge
  · obtain ⟨p, hp, hlo, hhi⟩ := exists_pixel ht hlt
    have hsame := (h p hp).2 fun hpA => hj p hp hpA ⟨hlo, hhi⟩
    have hbyte := congrArg (·[j - pixelOffset bitmap p]?) hsame
    have hfour : j - pixelOffset bitmap p < 4 := by omega
    simp only [pixel, List.getElem?_take_of_lt hfour, List.getElem?_drop] at hbyte
    rwa [Nat.add_sub_cancel' hlo] at hbyte
  · rw [List.getElem?_eq_none hge, List.getElem?_eq_none (hlength ▸ hge)]

/-- The bitmap of a graphics object, and its bytes. -/
structure DrawsOn (w : ValueWorld φ) (graphics : Option Ref) (r : Ref) (data : ObjectData)
    (bytes : List UInt8) : Prop where
  drawn : drawnBitmap (w.object graphics) = some r
  object : ∃ bitmap, w.object (some r) = some (bitmap, data) ∧ bitmap.kind = .bitmap
  bytes_eq : data.bytes = some bytes

/-- A text is drawn in the scale that it is measured in. -/
theorem drawText_eq {graphics : Option Ref} {r : Ref} {data : ObjectData} {bytes : List UInt8}
    (hgraphics : DrawsOn w graphics r data bytes) (paint : Option Ref) (text : CString)
    (originX baselineY : Int32) :
    drawText c w (w.object graphics) (w.object paint) text originX baselineY =
      (drawCharacters data (scaleOf c w paint) baselineY.toInt text originX.toInt bytes).map
        (w.setBytes r) := by
  obtain ⟨bitmap, hobject, hkind⟩ := hgraphics.object
  cases hpaint : w.object paint with
  | none => simp [drawText, hgraphics.drawn, hobject, hgraphics.bytes_eq, hkind, scaleOf, hpaint,
      textSizeOf]
  | some paint => simp [drawText, hgraphics.drawn, hobject, hgraphics.bytes_eq, hkind, scaleOf,
      hpaint, textSizeOf, fallbackFontScale_replaced]

theorem drawText_inks (hc : c.Exact) {graphics : Option Ref} {r : Ref} {data : ObjectData}
    {bytes : List UInt8} (hgraphics : DrawsOn w graphics r data bytes) (ht : Tight data bytes)
    (paint : Option Ref) {text : CString} {originX baselineY : Int32}
    (hfit : CoordinatesFit (scaleOf c w paint) originX.toInt baselineY.toInt text) :
    ∃ bytes', drawText c w (w.object graphics) (w.object paint) text originX baselineY =
        some (w.setBytes r bytes') ∧
      Inked data (textInk (scaleOf c w paint) originX.toInt baselineY.toInt text) bytes bytes' := by
  have hscale : 0 < scaleOf c w paint := (scaleOf_bounds hc paint).1
  obtain ⟨bytes', hbytes', ht', hpainted⟩ := drawCharacters_draws hscale hfit bytes ht
  refine ⟨bytes', ?_, .of_painted ht ht' hpainted⟩
  rw [drawText_eq hgraphics, hbytes', Option.map_some]

/-- A bitmap of the size of a text has room for its ink. -/
theorem textInk_subset_onBitmap {scale : Int} {text : CString} {bitmap : ObjectData}
    (hscale : 0 < scale) (hwidth : bitmap.width.toInt = 6 * scale * text.length)
    (hheight : bitmap.height.toInt = 7 * scale) :
    textInk scale 0 (7 * scale) text ⊆ onBitmap bitmap := by
  intro p hp
  obtain ⟨hleft, hright, htop, hbottom⟩ := textInk_bounds hp
  refine ⟨hleft, ?_, ?_, ?_⟩
  · rw [hwidth]
    omega
  · omega
  · rw [hheight]
    omega

/-- A text is drawn where it is measured: the pixels of its ink become white and no other byte
of the bitmap changes. The ink lies between the ascent and the descent, which the paint and its
metrics object report alike. If the width of the characters is at most 2^24, `measureText`
reports it, the ink ends a column before it, and a bitmap of the measured size loses none. -/
theorem drawText_where_measured (hc : c.Exact) {graphics : Option Ref} {r : Ref}
    {data : ObjectData} {bytes : List UInt8} (hgraphics : DrawsOn w graphics r data bytes)
    (ht : Tight data bytes) (reallocOk : Bool) (paint text : Option Ref)
    {originX baselineY : Int32}
    (hfit : CoordinatesFit (scaleOf c w paint) originX.toInt baselineY.toInt
      (stringValue w.heap text)) :
    let scale := scaleOf c w paint
    let string := stringValue w.heap text
    let ink := textInk scale originX.toInt baselineY.toInt string
    (∃ bytes', drawText c w (w.object graphics) (w.object paint) string originX baselineY =
        some (w.setBytes r bytes') ∧ Inked data ink bytes bytes') ∧
    ∃ ascent descent : Int32, Metrics c settings w paint ascent descent ∧
      (∃ w₁ metrics, jniCallObjectMethod c.toCFloat reallocOk w.toWorld paint
          (some getFontMetricsInt) [] = some (w₁, metrics) ∧
        Metrics c settings { w with toWorld := w₁ } metrics ascent descent) ∧
      (∀ p ∈ ink, baselineY.toInt + ascent.toInt ≤ p.2 ∧ p.2 < baselineY.toInt + descent.toInt) ∧
      (6 * scale * string.length ≤ 2 ^ 24 → ∃ width,
        jniCallFloatMethod c settings w paint (some measureText) [.object text] = some width ∧
        (c.toInt width).toInt = 6 * scale * string.length ∧
        (∀ p ∈ ink, originX.toInt ≤ p.1 ∧ p.1 < originX.toInt + (c.toInt width).toInt - scale) ∧
        ∀ tight : ObjectData, tight.width = c.toInt width → tight.height = descent - ascent →
          textInk scale 0 (-ascent.toInt) string ⊆ onBitmap tight) := by
  intro scale string ink
  have hascent := toInt_ascent hc paint (w := w)
  obtain ⟨w₁, metrics, hcall, hsame⟩ := getFontMetricsInt_scale reallocOk paint (c := c) (w := w)
  have hmetrics := @metrics_of_scale _ _ c settings { w with toWorld := w₁ } hc metrics
  rw [hsame] at hmetrics
  refine ⟨drawText_inks hc hgraphics ht paint hfit, _, 0, metrics_of_scale hc paint,
    ⟨w₁, metrics, hcall, hmetrics⟩, fun p hp => ?_, fun hshort => ?_⟩
  · obtain ⟨-, -, htop, hbottom⟩ := textInk_bounds hp
    rw [hascent]
    exact ⟨by omega, by simpa using hbottom⟩
  · have hwidth : 0 ≤ 6 * scale * string.length :=
      Int.mul_nonneg (by have := (scaleOf_bounds hc paint (w := w)).1; omega) (by omega)
    have hexact := hc.toInt_ofInt _ hwidth hshort
    refine ⟨_, measureText_exact hc paint text hshort, hexact, fun p hp => ?_,
      fun tight hw hh p hp => ?_⟩
    · obtain ⟨hleft, hright, -, -⟩ := textInk_bounds hp
      rw [hexact]
      exact ⟨hleft, hright⟩
    · obtain ⟨hpos, hle⟩ := scaleOf_bounds hc paint (w := w)
      have hheight : (0 - Int32.ofInt (-7 * scale)).toInt = 7 * scale := by
        rw [Int32.toInt_sub, hascent, Int32.toInt_zero]
        exact (Int.bmod_eq_of_le (by omega) (by omega)).trans (by omega)
      have hbaseline : -(Int32.ofInt (-7 * scale)).toInt = 7 * scale := by
        rw [hascent]
        omega
      rw [hbaseline] at hp
      exact textInk_subset_onBitmap hpos (hw ▸ hexact) (hh ▸ hheight) hp

/-! ## Long texts -/

/-- A whole number rounded to 24 significant bits, a tie to an even last bit. -/
def roundSingle (n : Int) : Int :=
  if n.natAbs ≤ 2 ^ 24 then n
  else
    let unit := 2 ^ (n.natAbs.log2 - 23)
    let quotient := n.natAbs / unit
    let remainder := n.natAbs % unit
    let up := unit < 2 * remainder ∨ 2 * remainder = unit ∧ quotient % 2 = 1
    n.sign * ((if up then quotient + 1 else quotient) * unit : Nat)

theorem integral_demote_promote (x : Int) :
    CFloat.integral.demote (CFloat.integral.promote x) = x := rfl

/-- Single precision, as far as whole numbers go. -/
def FloatOps.single : FloatOps Int Int where
  toCFloat := .integral
  one := 1
  seven := 7
  fiftySix := 56
  lt x y := x < y
  le x y := x ≤ y
  div x y := x / y
  mul x y := roundSingle (x * y)
  toInt := Int32.ofInt
  ofInt := roundSingle
  ofBits bits := bits.toNat
  lowWord _ := 0
  demote_promote_exact := integral_demote_promote

theorem FloatOps.single_exact : FloatOps.single.Exact := by
  have hround : ∀ n : Int, 0 ≤ n → n ≤ 2 ^ 24 → roundSingle n = n :=
    fun n hn hle => if_pos (by omega)
  refine ⟨rfl, fun m n hm hm' hn hn' _ => ?_, fun n hn hle => ?_, fun x _ hlt hle => ?_⟩
  · show roundSingle (roundSingle m * roundSingle n) = roundSingle (m * n)
    rw [hround m hm hm', hround n hn hn']
  · show (Int32.ofInt (roundSingle n)).toInt = n
    rw [hround n hn hle]
    exact Int32.toInt_ofInt_of_le (by omega) (by omega)
  · have hlo : 7 ≤ x := not_lt.mp (of_decide_eq_false hlt)
    have hhi : x < 56 := not_le.mp (of_decide_eq_false hle)
    show 1 ≤ (Int32.ofInt (x / 7)).toInt ∧ (Int32.ofInt (x / 7)).toInt ≤ 8
    rw [Int32.toInt_ofInt_of_le (by omega) (by omega)]
    omega

/-- A paint of size 7, a text, and the graphics of a bitmap of 5 by 7 pixels. -/
def textWorld (text : CString) : ValueWorld Int :=
  (newBitmapGraphics .single
    { heap := { static := fun _ => newObject .integral .generic none 0
                cells := [newPaint .integral 7, newString .integral text] }
      index := ⟨[], [], [], 0⟩
      data := fun _ => .blank } 5 7).1

def textBitmap : ObjectData := ⟨none, some (List.replicate 140 0), 5, 7, 20⟩

theorem textWorld_drawsOn (text : CString) :
    DrawsOn (textWorld text) (some (.cell 3)) (.cell 2) textBitmap (List.replicate 140 0) := by
  refine ⟨rfl, ⟨_, rfl, rfl⟩, rfl⟩

theorem textBitmap_tight : Tight textBitmap (List.replicate 140 0) := by
  refine ⟨by decide, ?_⟩
  rw [List.length_replicate]
  decide

/-- Two letters that the bitmap cuts off on either side. -/
theorem drawText_where_measured_sample :
    ∃ bytes', drawText .single (textWorld (cstr "OK"))
        ((textWorld (cstr "OK")).object (some (.cell 3)))
        ((textWorld (cstr "OK")).object (some (.cell 0))) (cstr "OK") (-4) 7 =
          some ((textWorld (cstr "OK")).setBytes (.cell 2) bytes') ∧
      Inked textBitmap (textInk 1 (-4) 7 (cstr "OK")) (List.replicate 140 0) bytes' :=
  (@drawText_where_measured Int Int .single ⟨20, 640, 480⟩ (textWorld (cstr "OK"))
    FloatOps.single_exact
    _ _ _ _ (textWorld_drawsOn (cstr "OK")) textBitmap_tight true (some (.cell 0))
    (some (.cell 1)) (-4) 7
    (.of_ends (by decide) (by decide) (by decide) (by decide) (by decide))).1

/-- The letter W 5592407 times, which is 33554442 pixels wide. -/
def longText : CString := List.replicate 5592407 87

theorem longText_length : longText.length = 5592407 := List.length_replicate

theorem longText_fits : CoordinatesFit 1 (-33554436) 7 longText := by
  refine .of_ends (by decide) (by decide) ?_ (by decide) (by decide)
  rw [longText_length]
  decide

/-- A pixel of the last letter. -/
theorem mem_longText_ink : ((4, 0) : Int × Int) ∈ textInk 1 (-33554436) 7 longText := by
  have hlast : longText[5592406]? = some 87 := List.getElem?_replicate_of_lt (by decide)
  exact ⟨5592406, 87, hlast, 0, by decide, 4, by decide, by decide,
    by decide, by decide, by decide, by decide⟩

/-- The width of a text is rounded to a float, so the end of a long one is drawn beyond it. And
a cursor that cannot be an `int` is computed behind a text that has no ink there. -/
theorem not_where_measured :
    (scaleOf .single (textWorld longText) (some (.cell 0)) = 1 ∧
      CoordinatesFit 1 (-33554436) 7 longText ∧
      jniCallFloatMethod .single ⟨20, 640, 480⟩ (textWorld longText) (some (.cell 0))
        (some measureText) [.object (some (.cell 1))] = some 33554440 ∧
      33554440 < 6 * 1 * longText.length ∧
      ∃ bytes', drawText .single (textWorld longText)
          ((textWorld longText).object (some (.cell 3)))
          ((textWorld longText).object (some (.cell 0))) longText (-33554436) 7 =
            some ((textWorld longText).setBytes (.cell 2) bytes') ∧
        pixel textBitmap (List.replicate 140 0) (4, 0) ≠ white ∧
        pixel textBitmap bytes' (4, 0) = white ∧ ¬ 4 < -33554436 + 33554440 - (1 : Int)) ∧
    (∀ p ∈ textInk 1 2147483643 7 (cstr "I"), InInt p.1 ∧ InInt p.2) ∧ InInt (7 - 7 * 1) ∧
    drawText .single (textWorld (cstr "I")) ((textWorld (cstr "I")).object (some (.cell 3)))
      ((textWorld (cstr "I")).object (some (.cell 0))) (cstr "I") 2147483643 7 = none := by
  have hscale : scaleOf .single (textWorld longText) (some (.cell 0)) = 1 := rfl
  refine ⟨⟨hscale, longText_fits, ?_, ?_, ?_⟩, fun p hp => ?_, by decide, ?_⟩
  · have hstring : stringValue (textWorld longText).heap (some (.cell 1)) = longText := rfl
    rw [jniCallFloatMethod_measureText, hstring, longText_length, hscale]
    decide +kernel
  · rw [longText_length]
    decide
  · obtain ⟨bytes', hdraw, hinked⟩ :=
      @drawText_inks _ _ _ _ FloatOps.single_exact _ _ _ _ (textWorld_drawsOn longText)
        textBitmap_tight (some (.cell 0)) longText (-33554436) 7 longText_fits
    have hon : ((4, 0) : Int × Int) ∈ onBitmap textBitmap :=
      ⟨by decide, by decide, by decide, by decide⟩
    exact ⟨bytes', hdraw, by decide, (hinked.painted _ hon).1 mem_longText_ink, by decide⟩
  · obtain ⟨hleft, hright, htop, hbottom⟩ := textInk_bounds hp
    have hone : (cstr "I").length = 1 := rfl
    rw [hone] at hright
    exact ⟨⟨by omega, by omega⟩, by omega, by omega⟩
  · rw [drawText_eq (textWorld_drawsOn (cstr "I")), Option.map_eq_none_iff]
    decide +kernel

end NfsmwRuntime.Jni

import Mathlib.Data.Nat.Bitwise
import Mathlib.Data.Set.Lattice
import Mathlib.Order.CompletePartialOrder
import NfsmwRuntime.Library.Bytes

/-!
# A 32-bit address space

A memory maps each address to a byte, and addresses wrap around. A span is given by its
start and its length: an address is in it if it is less than the length away from the
start, counted around the address space, so spans need no side condition.

Writes to disjoint spans are all there afterwards, and change nothing else.
-/

namespace NfsmwRuntime.Library

abbrev Memory := UInt32 → UInt8

/-- The `n` addresses from `a` on. -/
def span (a : UInt32) (n : Nat) : Set UInt32 := {x | (x - a).toNat < n}

theorem mem_span {a x : UInt32} {n : Nat} : x ∈ span a n ↔ (x - a).toNat < n := Iff.rfl

instance (a x : UInt32) (n : Nat) : Decidable (x ∈ span a n) :=
  inferInstanceAs (Decidable ((x - a).toNat < n))

theorem add_ofNat_sub_toNat (a : UInt32) {i : Nat} (hi : i < 2 ^ 32) :
    (a + UInt32.ofNat i - a).toNat = i := by
  rw [UInt32.add_comm, UInt32.add_sub_cancel, UInt32.toNat_ofNat', Nat.mod_eq_of_lt hi]

theorem add_mem_span {a : UInt32} {n i : Nat} (h : i < n) : a + .ofNat i ∈ span a n := by
  rw [mem_span, UInt32.add_comm, UInt32.add_sub_cancel, UInt32.toNat_ofNat']
  exact Nat.lt_of_le_of_lt (Nat.mod_le _ _) h

/-- A span inside another one, at an offset from its start. -/
theorem span_offset_subset {a : UInt32} {n m offset : Nat} (hfit : offset + m ≤ n)
    (hn : n ≤ 2 ^ 32) : span (a + .ofNat offset) m ⊆ span a n := by
  intro x hx
  have hsub : x - a = (x - (a + .ofNat offset)) + .ofNat offset := by grind
  have hlt : (x - (a + .ofNat offset)).toNat < m := hx
  rw [mem_span, hsub, UInt32.toNat_add, UInt32.toNat_ofNat', Nat.add_mod_mod,
    Nat.mod_eq_of_lt (by omega)]
  omega

/-- A table is its records. -/
theorem table_subset {a : UInt32} {size count : Nat} {s : Set UInt32}
    (h : ∀ index < count, span (a + .ofNat (size * index)) size ⊆ s) :
    span a (size * count) ⊆ s := by
  intro x hx
  have hlt : (x - a).toNat < size * count := hx
  have hpos : 0 < size := Nat.pos_of_mul_pos_right (Nat.zero_lt_of_lt hlt)
  have hindex : (x - a).toNat / size < count := Nat.div_lt_of_lt_mul hlt
  refine h _ hindex ?_
  have hdiv := Nat.div_add_mod (x - a).toNat size
  have hrest := Nat.mod_lt (x - a).toNat hpos
  have hx_lt := (x - a).toNat_lt
  generalize size * ((x - a).toNat / size) = offset at hdiv ⊢
  have hsub : x - (a + .ofNat offset) = x - a - .ofNat offset := by grind
  have hoffset : (UInt32.ofNat offset).toNat = offset := UInt32.toNat_ofNat_of_lt
    (Nat.lt_of_le_of_lt (by omega) hx_lt)
  rw [mem_span, hsub, UInt32.toNat_sub_of_le _ _ (UInt32.le_iff_toNat_le.mpr (by omega)), hoffset]
  omega

/-- A span that does not wrap. -/
theorem mem_span_iff_toNat {a x : UInt32} {n : Nat} (hn : a.toNat + n ≤ 2 ^ 32) :
    x ∈ span a n ↔ a.toNat ≤ x.toNat ∧ x.toNat < a.toNat + n := by
  have hx := x.toNat_lt
  rw [mem_span, UInt32.toNat_sub]
  omega

theorem span_mono {a : UInt32} {n m : Nat} (h : n ≤ m) : span a n ⊆ span a m :=
  fun _ hx => Nat.lt_of_lt_of_le hx h

theorem span_eq_univ {a : UInt32} {n : Nat} (h : 2 ^ 32 ≤ n) : span a n = Set.univ :=
  Set.eq_univ_of_forall fun x => (x - a).toNat_lt.trans_le h

/-- Spans meet only if one starts in the other. -/
theorem disjoint_span {a b : UInt32} {n m : Nat} (hb : b ∉ span a n) (ha : a ∉ span b m) :
    Disjoint (span a n) (span b m) := by
  rw [Set.disjoint_left]
  intro x hxa hxb
  rw [mem_span] at *
  rcases Nat.le_total (x - a).toNat (x - b).toNat with hle | hle
  · have hsub : a - b = (x - b) - (x - a) := by grind
    rw [hsub, UInt32.toNat_sub_of_le _ _ (UInt32.le_iff_toNat_le.mpr hle)] at ha
    omega
  · have hsub : b - a = (x - a) - (x - b) := by grind
    rw [hsub, UInt32.toNat_sub_of_le _ _ (UInt32.le_iff_toNat_le.mpr hle)] at hb
    omega

theorem mem_span_add {a b x : UInt32} {n : Nat} : x ∈ span (a + b) n ↔ x - a ∈ span b n := by
  rw [mem_span, mem_span, show x - (a + b) = x - a - b by grind]

/-- Spans that are moved together stay apart. -/
theorem disjoint_span_add {a b : UInt32} {n m : Nat} (base : UInt32)
    (h : Disjoint (span a n) (span b m)) : Disjoint (span (base + a) n) (span (base + b) m) := by
  rw [Set.disjoint_left] at h ⊢
  intro x hxa hxb
  exact h (mem_span_add.mp hxa) (mem_span_add.mp hxb)

namespace Memory

variable (m : Memory)

def window (a : UInt32) (n : Nat) : List UInt8 := (List.range n).map fun i => m (a + .ofNat i)

/-- `memcpy` to `a`. -/
def write (a : UInt32) (bytes : List UInt8) : Memory := fun x => bytes.getD (x - a).toNat (m x)

/-- Zeros from `a` on, as in a fresh anonymous mapping. -/
def zeroFill (a : UInt32) (n : Nat) : Memory := fun x => if (x - a).toNat < n then 0 else m x

def load32 (a : UInt32) : UInt32 := readU32 (m.window a 4)

def store32 (a : UInt32) (v : UInt32) : Memory := m.write a (le32 v)

variable {m} {m' : Memory} {a x : UInt32}

theorem write_of_notMem {bytes : List UInt8} (h : x ∉ span a bytes.length) :
    m.write a bytes x = m x :=
  List.getD_eq_default _ _ (Nat.le_of_not_lt h)

theorem write_add {bytes : List UInt8} {i : Nat} (hi : i < bytes.length) (hlt : i < 2 ^ 32) :
    m.write a bytes (a + .ofNat i) = bytes[i] := by
  rw [write, add_ofNat_sub_toNat a hlt, List.getD_eq_getElem _ _ hi]

theorem zeroFill_of_mem {n : Nat} (h : x ∈ span a n) : m.zeroFill a n x = 0 := if_pos h

theorem window_congr {n : Nat} (h : Set.EqOn m m' (span a n)) : m.window a n = m'.window a n :=
  List.map_congr_left fun _ hi => h (add_mem_span (List.mem_range.mp hi))

theorem load32_congr (h : Set.EqOn m m' (span a 4)) : m.load32 a = m'.load32 a := by
  rw [load32, load32, window_congr h]

theorem window_eq (bytes : List UInt8)
    (h : ∀ i (hi : i < bytes.length), m (a + .ofNat i) = bytes[i]) :
    m.window a bytes.length = bytes := by
  refine List.ext_getElem (by simp [window]) fun i _ hi' => ?_
  simp only [window, List.getElem_map, List.getElem_range, h i hi']

theorem load32_of_window {v : UInt32} (h : m.window a 4 = le32 v) : m.load32 a = v := by
  rw [load32, h]
  simpa using readU32_le32 v []

/-! ## Writes to disjoint spans -/

structure Write where
  start : UInt32
  bytes : List UInt8

def Write.target (w : Write) : Set UInt32 := span w.start w.bytes.length

def writeAll (m : Memory) (ws : List Write) : Memory :=
  ws.foldl (fun m w => m.write w.start w.bytes) m

@[simp] theorem writeAll_nil : m.writeAll [] = m := rfl
@[simp] theorem writeAll_cons (w : Write) (ws : List Write) :
    m.writeAll (w :: ws) = (m.write w.start w.bytes).writeAll ws := rfl

theorem writeAll_append (ws vs : List Write) :
    m.writeAll (ws ++ vs) = (m.writeAll ws).writeAll vs :=
  List.foldl_append

theorem writeAll_of_notMem {ws : List Write} (h : ∀ w ∈ ws, x ∉ w.target) :
    m.writeAll ws x = m x := by
  induction ws generalizing m with
  | nil => rfl
  | cons w ws ih =>
    rw [writeAll_cons, ih fun v hv => h v (List.mem_cons_of_mem _ hv)]
    exact write_of_notMem (h w (List.mem_cons_self ..))

theorem writeAll_eqOn {ws : List Write} {s : Set UInt32} (h : ∀ w ∈ ws, Disjoint w.target s) :
    Set.EqOn (m.writeAll ws) m s := fun _ hx =>
  writeAll_of_notMem fun w hw hxw => Set.disjoint_left.mp (h w hw) hxw hx

theorem writeAll_add {ws : List Write}
    (hdisjoint : ws.Pairwise fun w v => Disjoint w.target v.target)
    {w : Write} (hw : w ∈ ws) {i : Nat} (hi : i < w.bytes.length) (hlt : i < 2 ^ 32) :
    m.writeAll ws (w.start + .ofNat i) = w.bytes[i] := by
  induction ws generalizing m with
  | nil => cases hw
  | cons v vs ih =>
    obtain ⟨hv, hvs⟩ := List.pairwise_cons.mp hdisjoint
    rcases List.mem_cons.mp hw with rfl | hmem
    · rw [writeAll_cons, writeAll_of_notMem fun u hu => Set.disjoint_left.mp (hv u hu)
        (add_mem_span hi), write_add hi hlt]
    · rw [writeAll_cons]
      exact ih hvs hmem

theorem load32_writeAll {ws : List Write}
    (hdisjoint : ws.Pairwise fun w v => Disjoint w.target v.target) {v : UInt32}
    (hw : ⟨a, le32 v⟩ ∈ ws) : (m.writeAll ws).load32 a = v := by
  refine load32_of_window (window_eq (le32 v) fun i hi => ?_)
  exact writeAll_add hdisjoint hw hi (by simp at hi; omega)

/-- The same writes at another base, seen from that base. -/
theorem writeAll_shift {ws : List Write} (base : UInt32) (h : m (base + x) = m' x) :
    m.writeAll (ws.map fun w => ⟨base + w.start, w.bytes⟩) (base + x) = m'.writeAll ws x := by
  induction ws generalizing m m' with
  | nil => exact h
  | cons w ws ih =>
    rw [List.map_cons, writeAll_cons, writeAll_cons]
    apply ih
    have hoffset : base + x - (base + w.start) = x - w.start := by grind
    rw [write, write, hoffset, h]

end Memory

/-! ## Alignment -/

/-- Multiples of a number are apart by the number. -/
theorem multiple_add_le {n a b : Nat} (ha : n ∣ a) (hb : n ∣ b) (hab : a < b) : a + n ≤ b := by
  have hle := Nat.le_of_dvd (by omega) (Nat.dvd_sub hb ha)
  omega

/-- A window of a number's length has one of its multiples only. -/
theorem multiple_unique {n a b start : Nat} (ha : n ∣ a) (hb : n ∣ b) (hsa : start ≤ a)
    (has : a < start + n) (hsb : start ≤ b) (hbs : b < start + n) : a = b := by
  rcases Nat.lt_trichotomy a b with hab | hab | hab
  · have := multiple_add_le ha hb hab
    omega
  · exact hab
  · have := multiple_add_le hb ha hab
    omega

/-- `value & ~(alignment - 1)`. -/
def alignDown (value alignment : UInt32) : UInt32 := value &&& ~~~(alignment - 1)

/-- The value rounded up, unless the sum wraps. -/
def alignUp (value alignment : UInt32) : Option UInt32 :=
  let mask := alignment - 1
  if value > 0xffffffff - mask then none else some ((value + mask) &&& ~~~mask)

section Alignment

variable {alignment : UInt32} (h : alignment.toNat.isPowerOfTwo)

include h

theorem toNat_mask : (alignment - 1).toNat = alignment.toNat - 1 :=
  UInt32.toNat_sub_of_le _ _ (UInt32.le_iff_toNat_le.mpr (Nat.pos_of_isPowerOfTwo h))

theorem toNat_alignDown (value : UInt32) :
    (alignDown value alignment).toNat = value.toNat / alignment.toNat * alignment.toNat := by
  have hmask := toNat_mask h
  obtain ⟨k, hk⟩ := h
  rw [hk] at hmask ⊢
  refine Nat.eq_of_testBit_eq fun i => ?_
  have hvalue : value.toNat.testBit i = true → i < 32 := fun hi => by
    by_contra hge
    have hlt : value.toNat < 2 ^ i :=
      value.toNat_lt.trans_le (Nat.pow_le_pow_right (by decide) (by omega))
    rw [Nat.testBit_lt_two_pow hlt] at hi
    cases hi
  have hnot : (~~~(alignment - 1)).toNat.testBit i = (decide (i < 32) && decide (k ≤ i)) := by
    rw [← UInt32.toNat_toBitVec, UInt32.toBitVec_not, BitVec.testBit_toNat, BitVec.getLsbD_not,
      ← BitVec.testBit_toNat, UInt32.toNat_toBitVec, hmask, Nat.testBit_two_pow_sub_one]
    grind
  rw [alignDown, UInt32.toNat_and, Nat.testBit_and, hnot, Nat.testBit_mul_two_pow,
    Nat.testBit_div_two_pow]
  grind

theorem dvd_alignDown (value : UInt32) : alignment.toNat ∣ (alignDown value alignment).toNat := by
  rw [toNat_alignDown h]
  exact Nat.dvd_mul_left _ _

theorem alignDown_le (value : UInt32) : (alignDown value alignment).toNat ≤ value.toNat := by
  rw [toNat_alignDown h]
  exact Nat.div_mul_le_self _ _

theorem dvd_word : alignment.toNat ∣ 2 ^ 32 := by
  obtain ⟨k, hk⟩ := h
  have hlt := alignment.toNat_lt
  rw [hk] at hlt ⊢
  exact Nat.pow_dvd_pow 2 ((Nat.pow_lt_pow_iff_right (by decide)).mp hlt).le

/-- Rounding down after a move by whole pages. -/
theorem alignDown_add {base : UInt32} (hbase : alignment.toNat ∣ base.toNat) (value : UInt32) :
    alignDown (base + value) alignment = base + alignDown value alignment := by
  apply UInt32.toNat_inj.mp
  rw [toNat_alignDown h, UInt32.toNat_add, UInt32.toNat_add, toNat_alignDown h]
  -- both sides are the sum less its rest, which the move does not change
  have hrest : (base.toNat + value.toNat) % 2 ^ 32 % alignment.toNat =
      value.toNat % alignment.toNat := by
    rw [Nat.mod_mod_of_dvd _ (dvd_word h), Nat.add_mod, Nat.mod_eq_zero_of_dvd hbase, Nat.zero_add,
      Nat.mod_mod]
  have hsum := Nat.div_add_mod' ((base.toNat + value.toNat) % 2 ^ 32) alignment.toNat
  have hvalue := Nat.div_add_mod' value.toNat alignment.toNat
  have hwrap := Nat.div_add_mod (base.toNat + value.toNat) (2 ^ 32)
  rw [hrest] at hsum
  have hdown : base.toNat + value.toNat / alignment.toNat * alignment.toNat =
      (base.toNat + value.toNat) % 2 ^ 32 / alignment.toNat * alignment.toNat +
        2 ^ 32 * ((base.toNat + value.toNat) / 2 ^ 32) := by omega
  have hlt := Nat.mod_lt (base.toNat + value.toNat) (by decide : 2 ^ 32 > 0)
  rw [hdown, Nat.add_mul_mod_self_left]
  exact (Nat.mod_eq_of_lt (by omega)).symm

/-- Rounding up gives the first multiple from the value on, and the sum does not wrap. -/
theorem alignUp_eq_some {value result : UInt32} (hresult : alignUp value alignment = some result) :
    alignment.toNat ∣ result.toNat ∧ value.toNat ≤ result.toNat ∧
      result.toNat < value.toNat + alignment.toNat ∧ value.toNat + alignment.toNat ≤ 2 ^ 32 := by
  have hpos := Nat.pos_of_isPowerOfTwo h
  have hmask := toNat_mask h
  have hlt := alignment.toNat_lt
  have hmask_le : (0xffffffff - (alignment - 1)).toNat = 0xffffffff - (alignment.toNat - 1) := by
    rw [UInt32.toNat_sub_of_le _ _ (UInt32.le_iff_toNat_le.mpr _), hmask]
    · rfl
    · rw [hmask]
      show alignment.toNat - 1 ≤ 4294967295
      omega
  simp only [alignUp] at hresult
  split at hresult
  · cases hresult
  · rename_i hvalue
    have hle : value.toNat ≤ 0xffffffff - (alignment.toNat - 1) := by
      rw [← hmask_le]
      exact UInt32.le_iff_toNat_le.mp (UInt32.not_lt.mp hvalue)
    have hsum : (value + (alignment - 1)).toNat = value.toNat + (alignment.toNat - 1) := by
      rw [UInt32.toNat_add, hmask, Nat.mod_eq_of_lt (by omega)]
    have heq : alignDown (value + (alignment - 1)) alignment = result := Option.some.inj hresult
    have hdown := toNat_alignDown h (value + (alignment - 1))
    have hdvd := dvd_alignDown h (value + (alignment - 1))
    rw [heq] at hdown hdvd
    rw [hsum] at hdown
    have hmod := Nat.div_add_mod' (value.toNat + (alignment.toNat - 1)) alignment.toNat
    have hrest := Nat.mod_lt (value.toNat + (alignment.toNat - 1)) hpos
    refine ⟨hdvd, ?_, ?_, ?_⟩ <;> omega

/-- The addresses that share a page with one of a span. -/
def pages (alignment a : UInt32) (n : Nat) : Set UInt32 :=
  {x | ∃ y ∈ span a n, alignDown x alignment = alignDown y alignment}

theorem lt_alignDown_add (value : UInt32) :
    value.toNat < (alignDown value alignment).toNat + alignment.toNat := by
  have hmod := Nat.div_add_mod' value.toNat alignment.toNat
  have hrest := Nat.mod_lt value.toNat (Nat.pos_of_isPowerOfTwo h)
  rw [toNat_alignDown h]
  omega

theorem alignDown_alignDown (value : UInt32) :
    alignDown (alignDown value alignment) alignment = alignDown value alignment := by
  apply UInt32.toNat_inj.mp
  rw [toNat_alignDown h (alignDown value alignment), Nat.div_mul_cancel (dvd_alignDown h value)]

/-- From the start of a span's first page to the end of its last one are its pages. -/
theorem span_eq_pages {a : UInt32} {n length : Nat} (hn : 0 < n)
    (hfit : (alignDown a alignment).toNat + length ≤ 2 ^ 32)
    (hdvd : alignment.toNat ∣ (alignDown a alignment).toNat + length)
    (hle : a.toNat + n ≤ (alignDown a alignment).toNat + length)
    (hlt : (alignDown a alignment).toNat + length < a.toNat + n + alignment.toNat) :
    span (alignDown a alignment) length = pages alignment a n := by
  have hstart := dvd_alignDown h a
  have hstart_le := alignDown_le h a
  have hstart_close := lt_alignDown_add h a
  ext x
  have hx := dvd_alignDown h x
  have hx_le := alignDown_le h x
  have hx_close := lt_alignDown_add h x
  rw [mem_span_iff_toNat hfit]
  constructor
  · rintro ⟨hfrom, hto⟩
    have hlast := multiple_add_le hx hdvd (by omega)
    rcases Nat.lt_or_ge a.toNat (alignDown x alignment).toNat with hafter | hfirst
    · -- the page starts in the span
      refine ⟨alignDown x alignment, ?_, (alignDown_alignDown h x).symm⟩
      exact (mem_span_iff_toNat (by omega)).mpr ⟨hafter.le, by omega⟩
    · -- it is the first page
      refine ⟨a, (mem_span_iff_toNat (by omega)).mpr ⟨le_rfl, by omega⟩, ?_⟩
      apply UInt32.toNat_inj.mp
      by_contra hne
      rcases Nat.lt_or_gt_of_ne hne with hbefore | hbehind
      · have := multiple_add_le hx hstart hbefore
        omega
      · have := multiple_add_le hstart hx hbehind
        omega
  · rintro ⟨y, hy, hpage⟩
    rw [mem_span_iff_toNat (by omega)] at hy
    have hy_le := alignDown_le h y
    have hy_close := lt_alignDown_add h y
    rw [← hpage] at hy_le hy_close
    have hlast := multiple_add_le hx hdvd (by omega)
    refine ⟨?_, by omega⟩
    by_contra hbefore
    have := multiple_add_le hx hstart (by omega)
    omega

end Alignment

end NfsmwRuntime.Library

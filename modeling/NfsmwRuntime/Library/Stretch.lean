import Mathlib

/-!
# Stretching a grid

A line of `den` points is stretched to one of `num` by multiplying first and rounding down
afterwards. The points of a stretched interval are those whose origin is in the interval,
so a tiling stretched by its edges is a tiling again: it is the preimage of the first one.
Stretching the length of an interval by itself loses a point when the remainders of its
position and of its length make up a whole one.
-/

namespace NfsmwRuntime.Library

variable {α β ι : Type}

/-! ## Tilings -/

/-- The tiles have no point in common and cover the surface. -/
structure Tiles (surface : Set α) (tile : ι → Set α) : Prop where
  disjoint : Pairwise fun i j => Disjoint (tile i) (tile j)
  cover : ⋃ i, tile i = surface

namespace Tiles

variable {surface : Set α} {tile tile' : ι → Set α}

theorem preimage (h : Tiles surface tile) (f : β → α) :
    Tiles (Set.preimage f surface) fun i => Set.preimage f (tile i) where
  disjoint _ _ hne := (h.disjoint hne).preimage f
  cover := by rw [← Set.preimage_iUnion, h.cover]

/-- Tiles that all shrink leave a gap. -/
theorem eq_of_subset (h : Tiles surface tile) (h' : Tiles surface tile')
    (hsub : ∀ i, tile' i ⊆ tile i) (i : ι) : tile' i = tile i := by
  refine Set.Subset.antisymm (hsub i) fun p hp => ?_
  have hsurface : p ∈ surface := by
    rw [← h.cover]
    exact Set.mem_iUnion_of_mem i hp
  rw [← h'.cover] at hsurface
  obtain ⟨j, hj⟩ := Set.mem_iUnion.mp hsurface
  obtain rfl : j = i := by
    by_contra hne
    exact Set.disjoint_left.mp (h.disjoint hne) (hsub j hj) hp
  exact hj

theorem iff_eq (h : Tiles surface tile) (hsub : ∀ i, tile' i ⊆ tile i) :
    Tiles surface tile' ↔ ∀ i, tile' i = tile i := by
  refine ⟨fun h' => h.eq_of_subset h' hsub, fun heq => ?_⟩
  rw [funext heq]
  exact h

end Tiles

/-! ## One line -/

def scale (num den x : ℤ) : ℤ := x * num / den

/-- The last point that goes to `u` or before it. -/
def origin (num den u : ℤ) : ℤ := ((u + 1) * den - 1) / num

section

variable {num den : ℤ}

theorem scale_zero : scale num den 0 = 0 := by simp [scale]

theorem scale_self (hden : 0 < den) : scale num den den = num :=
  Int.mul_ediv_cancel_left num hden.ne'

theorem scale_gc (hnum : 0 < num) (hden : 0 < den) :
    GaloisConnection (scale num den) (origin num den) := by
  intro x u
  rw [scale, origin, ← Int.lt_add_one_iff, Int.ediv_lt_iff_lt_mul hden,
    Int.le_ediv_iff_mul_le hnum, Int.le_sub_one_iff]

/-- The length loses at most one point, and loses it when the remainders make up a whole. -/
theorem scale_add (hden : 0 < den) (x w : ℤ) :
    scale num den (x + w) = scale num den x + scale num den w +
      if den ≤ x * num % den + w * num % den then 1 else 0 := by
  rw [scale, Int.add_mul, Int.add_ediv_of_pos hden, scale, scale]

theorem scale_add_eq_iff (hden : 0 < den) (x w : ℤ) :
    scale num den x + scale num den w = scale num den (x + w) ↔
      x * num % den + w * num % den < den := by
  rw [scale_add hden]
  split_ifs with h <;> omega

theorem scale_add_le (hden : 0 < den) (x w : ℤ) :
    scale num den x + scale num den w ≤ scale num den (x + w) := by
  rw [scale_add hden]
  split_ifs <;> omega

/-- An interval stretched by its two ends. -/
theorem preimage_origin_Ico (hnum : 0 < num) (hden : 0 < den) (a b : ℤ) :
    Set.preimage (origin num den) (Set.Ico a b) =
      Set.Ico (scale num den a) (scale num den b) := by
  have gc := scale_gc hnum hden
  ext u
  rw [Set.mem_preimage, Set.mem_Ico, Set.mem_Ico, ← gc.le_iff_le, gc.lt_iff_lt]

end

/-- A shorter interval is the same one if its end is the same or nothing is left of both. -/
theorem Ico_eq_of_le_iff {a b c : ℤ} (hbc : b ≤ c) :
    Set.Ico a b = Set.Ico a c ↔ b = c ∨ c ≤ a := by
  constructor
  · intro h
    by_contra hne
    obtain ⟨hb, hc⟩ := not_or.mp hne
    have hlast : c - 1 ∈ Set.Ico a c := ⟨by omega, by omega⟩
    rw [← h] at hlast
    have := hlast.2
    omega
  · rintro (rfl | hca)
    · rfl
    · rw [Set.Ico_eq_empty (by omega), Set.Ico_eq_empty (by omega)]

end NfsmwRuntime.Library

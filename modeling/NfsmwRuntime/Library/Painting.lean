import Mathlib.Data.Set.Basic

/-!
# Painting with one colour

What a drawing routine does to a picture, as far as a domain of its points goes: the points
of a set have the colour afterwards, and the others are as before. Painting one set and
then another paints both, so a loop paints what its turns paint.
-/

namespace NfsmwRuntime.Library

variable {α β ι σ : Type}

/-- On the domain `D`, `g` is `f` with the colour `v` on `A`. -/
def Painted (v : β) (D A : Set ι) (f g : ι → β) : Prop :=
  ∀ i ∈ D, (i ∈ A → g i = v) ∧ (i ∉ A → g i = f i)

namespace Painted

variable {v : β} {D A B : Set ι} {f g h : ι → β}

theorem refl (hA : ∀ i ∈ D, i ∉ A) : Painted v D A f f :=
  fun i hi => ⟨fun hiA => (hA i hi hiA).elim, fun _ => rfl⟩

theorem trans (hfg : Painted v D A f g) (hgh : Painted v D B g h) : Painted v D (A ∪ B) f h := by
  refine fun i hi => ⟨fun hAB => ?_, fun hAB => ?_⟩
  · by_cases hB : i ∈ B
    · exact (hgh i hi).1 hB
    · rw [(hgh i hi).2 hB]
      exact (hfg i hi).1 (hAB.resolve_right hB)
  · obtain ⟨hA, hB⟩ := not_or.mp hAB
    exact ((hgh i hi).2 hB).trans ((hfg i hi).2 hA)

/-- Only the part of the set in the domain matters. -/
theorem congr (h : Painted v D A f g) (hAB : ∀ i ∈ D, i ∈ A ↔ i ∈ B) : Painted v D B f g :=
  fun i hi => by
    rw [← hAB i hi]
    exact h i hi

/-- A step that may fail succeeds on every state with `P`, keeps `P`, and paints a set. -/
def Paints (look : σ → ι → β) (P : σ → Prop) (v : β) (D A : Set ι) (step : σ → Option σ) : Prop :=
  ∀ s, P s → ∃ t, step s = some t ∧ P t ∧ Painted v D A (look s) (look t)

section Steps

variable {look : σ → ι → β} {P : σ → Prop}

theorem Paints.pure (hA : ∀ i ∈ D, i ∉ A) : Paints look P v D A (some : σ → Option σ) :=
  fun s hs => ⟨s, rfl, hs, refl hA⟩

theorem Paints.bind {step next : σ → Option σ} (h : Paints look P v D A step)
    (h' : Paints look P v D B next) :
    Paints look P v D (A ∪ B) fun s => (step s).bind next := by
  intro s hs
  obtain ⟨t, ht, hPt, hst⟩ := h s hs
  obtain ⟨u, hu, hPu, htu⟩ := h' t hPt
  refine ⟨u, ?_, hPu, hst.trans htu⟩
  show (step s).bind next = some u
  rw [ht, Option.bind_some, hu]

theorem Paints.congr {step : σ → Option σ} (h : Paints look P v D A step)
    (hAB : ∀ i ∈ D, i ∈ A ↔ i ∈ B) : Paints look P v D B step := by
  intro s hs
  obtain ⟨t, ht, hPt, hst⟩ := h s hs
  exact ⟨t, ht, hPt, hst.congr hAB⟩

/-- A loop paints what its turns paint. -/
theorem Paints.foldlM {step : σ → α → Option σ} {ink : α → Set ι} {l : List α}
    (h : ∀ a ∈ l, Paints look P v D (ink a) fun s => step s a) :
    Paints look P v D {i | ∃ a ∈ l, i ∈ ink a} fun s => l.foldlM step s := by
  induction l with
  | nil => exact Paints.pure (by simp)
  | cons a l ih =>
    obtain ⟨hfirst, hrest⟩ := List.forall_mem_cons.mp h
    refine (hfirst.bind (ih hrest)).congr fun i _ => ?_
    simp

end Steps

end Painted

end NfsmwRuntime.Library

import Mathlib.Order.Defs.Unbundled

/-!
# Commands

A C function that has side effects and may give up is an `EStateM`: an error comes with
the state the function had reached. A command leaves a relation if every outcome, also an
error, is related to the state it started from; this is shown part by part, and a loop
leaves what its body leaves.
-/

namespace NfsmwRuntime.Library

namespace Command

variable {α β ε σ : Type}

/-- The state of an outcome. -/
def final : EStateM.Result ε σ α → σ
  | .ok _ s => s
  | .error _ s => s

@[simp] theorem final_ok (a : α) (s : σ) : final (.ok a s : EStateM.Result ε σ α) = s := rfl
def succeeded : EStateM.Result ε σ α → Bool
  | .ok .. => true
  | .error .. => false

theorem eq_ok_of_succeeded {r : EStateM.Result ε σ Unit} (h : succeeded r) :
    r = .ok () (final r) := by
  cases r with
  | ok => rfl
  | error => cases h

/-- The result of a pure step. -/
def lift (x : Except ε α) : EStateM ε σ α := fun s =>
  match x with
  | .ok a => .ok a s
  | .error e => .error e s

/-- Run a command and keep its error for later. -/
def capture (x : EStateM ε σ α) : EStateM ε σ (Except ε α) := fun s =>
  match x.run s with
  | .ok a t => .ok (.ok a) t
  | .error e t => .ok (.error e) t

@[simp] theorem run_get_bind (f : σ → EStateM ε σ α) (s : σ) :
    (get >>= f).run s = (f s).run s := rfl

@[simp] theorem run_lift_ok_bind (a : α) (f : α → EStateM ε σ β) (s : σ) :
    (lift (.ok a) >>= f).run s = (f a).run s := rfl

theorem run_capture (x : EStateM ε σ α) (s : σ) :
    (capture x).run s = match x.run s with
      | .ok a t => .ok (.ok a) t
      | .error e t => .ok (.error e) t := rfl

@[simp] theorem final_capture (x : EStateM ε σ α) (s : σ) :
    final ((capture x).run s) = final (x.run s) := by
  rw [run_capture]
  cases x.run s <;> rfl

theorem final_bind_lift (x : EStateM ε σ α) (r : α → Except ε β) (s : σ) :
    final ((x >>= fun a => lift (r a)).run s) = final (x.run s) := by
  rw [EStateM.run_bind]
  cases x.run s with
  | ok a t =>
    change final ((lift (r a)).run t) = t
    cases r a <;> rfl
  | error e t => rfl

/-! ## Successful runs -/

theorem run_bind_eq_ok {x : EStateM ε σ α} {f : α → EStateM ε σ β} {s u : σ} {b : β} :
    (x >>= f).run s = .ok b u ↔ ∃ a t, x.run s = .ok a t ∧ (f a).run t = .ok b u := by
  rw [EStateM.run_bind]
  cases x.run s with
  | ok a t => exact ⟨fun h => ⟨a, t, rfl, h⟩, by rintro ⟨_, _, ⟨⟩, h⟩; exact h⟩
  | error e t => exact ⟨nofun, by rintro ⟨_, _, ⟨⟩, _⟩⟩

theorem run_lift_eq_ok {x : Except ε α} {s t : σ} {a : α} :
    (lift x).run s = .ok a t ↔ x = .ok a ∧ t = s := by
  cases x <;> simp [lift, EStateM.run, eq_comm]

theorem run_capture_ok {x : EStateM ε σ α} {s t : σ} {a : α}
    (h : (capture x).run s = .ok (.ok a) t) : x.run s = .ok a t := by
  rw [run_capture] at h
  cases hx : x.run s with
  | ok b u =>
    rw [hx] at h
    cases h
    rfl
  | error e u =>
    rw [hx] at h
    cases h

theorem run_forM_ok_mono {f g : α → EStateM ε σ Unit}
    (h : ∀ a s t, (f a).run s = .ok () t → (g a).run s = .ok () t) {l : List α} {s t : σ}
    (hrun : (forM l f).run s = .ok () t) : (forM l g).run s = .ok () t := by
  induction l generalizing s with
  | nil => exact hrun
  | cons a l ih =>
    obtain ⟨_, u, hu, hrest⟩ := run_bind_eq_ok.mp hrun
    exact run_bind_eq_ok.mpr ⟨(), u, h a s u hu, ih hrest⟩

/-! ## Observing a loop -/

/-- What is observed before each turn of a loop, up to the turn that fails. -/
def trace (body : α → EStateM ε σ Unit) (observe : σ → α → β) : List α → σ → List β
  | [], _ => []
  | a :: l, s => observe s a ::
    match (body a).run s with
    | .ok () t => trace body observe l t
    | .error .. => []

/-- An invariant of the turns holds at every observation. -/
theorem forall_mem_trace {body : α → EStateM ε σ Unit} {observe : σ → α → β} {I : σ → Prop}
    {P : β → Prop} {l : List α}
    (hbody : ∀ a ∈ l, ∀ s t, I s → (body a).run s = .ok () t → I t)
    (hobserve : ∀ a ∈ l, ∀ s, I s → P (observe s a)) {s : σ} (hs : I s) :
    ∀ b ∈ trace body observe l s, P b := by
  induction l generalizing s with
  | nil => exact List.forall_mem_nil _
  | cons a l ih =>
    obtain ⟨hfirst, hrest⟩ := List.forall_mem_cons.mp hbody
    obtain ⟨hobserved, hothers⟩ := List.forall_mem_cons.mp hobserve
    refine List.forall_mem_cons.mpr ⟨hobserved s hs, ?_⟩
    cases hrun : (body a).run s with
    | ok _ t => exact ih hrest hothers (hfirst s t hs hrun)
    | error e t => exact List.forall_mem_nil _

/-- A loop that ends has made an observation before each turn, in a state with the invariant
from which the turn succeeds. -/
theorem exists_mem_trace {body : α → EStateM ε σ Unit} (observe : σ → α → β) {I : σ → Prop}
    {l : List α} (hbody : ∀ a ∈ l, ∀ s t, I s → (body a).run s = .ok () t → I t) {s t : σ}
    (hs : I s) (hrun : (forM l body).run s = .ok () t) {a : α} (ha : a ∈ l) :
    ∃ u v, I u ∧ (body a).run u = .ok () v ∧ observe u a ∈ trace body observe l s := by
  induction l generalizing s with
  | nil => cases ha
  | cons b l ih =>
    obtain ⟨hfirst, hrest⟩ := List.forall_mem_cons.mp hbody
    obtain ⟨_, w, hw, hothers⟩ := run_bind_eq_ok.mp hrun
    rw [trace, hw]
    rcases List.mem_cons.mp ha with rfl | ha
    · exact ⟨s, w, hs, hw, List.mem_cons_self ..⟩
    · obtain ⟨u, v, hu, hv, hmem⟩ := ih hrest (hfirst s w hs hw) hothers ha
      exact ⟨u, v, hu, hv, List.mem_cons_of_mem _ hmem⟩

/-! ## What every outcome leaves -/

def Leaves (R : σ → σ → Prop) (x : EStateM ε σ α) : Prop := ∀ s, R s (final (x.run s))

section

variable {R : σ → σ → Prop}

theorem Leaves.of_ok {x : EStateM ε σ α} (h : Leaves R x) {s t : σ} {a : α}
    (hrun : x.run s = .ok a t) : R s t := by
  have hs := h s
  rwa [hrun] at hs

theorem leaves_modify {f : σ → σ} (h : ∀ s, R s (f s)) :
    Leaves R (modify f : EStateM ε σ PUnit) := fun s => h s

variable [IsPreorder σ R]

theorem leaves_pure (a : α) : Leaves R (pure a : EStateM ε σ α) := fun s => refl_of R s

theorem leaves_lift (x : Except ε α) : Leaves R (lift x : EStateM ε σ α) := by
  intro s
  cases x <;> exact refl_of R s

/-- One run of two commands. -/
theorem final_bind {x : EStateM ε σ α} {f : α → EStateM ε σ β} {s : σ}
    (hx : R s (final (x.run s)))
    (hf : ∀ a t, x.run s = .ok a t → R s t → R t (final ((f a).run t))) :
    R s (final ((x >>= f).run s)) := by
  rw [EStateM.run_bind]
  cases h : x.run s with
  | ok a t =>
    rw [h] at hx
    exact trans_of R hx (hf a t h hx)
  | error e t =>
    rw [h] at hx
    exact hx

/-- The continuation runs from a state that the first part has returned. -/
theorem leaves_bind {x : EStateM ε σ α} {f : α → EStateM ε σ β} (hx : Leaves R x)
    (hf : ∀ a s t, x.run s = .ok a t → R t (final ((f a).run t))) : Leaves R (x >>= f) :=
  fun s => final_bind (hx s) fun a t h _ => hf a s t h

/-- A loop whose bodies read what none of them changes can read it beforehand. -/
theorem run_forM_get {γ δ : Type} {view : σ → γ} {f : γ → α → δ} {g : δ → EStateM ε σ Unit}
    (hg : ∀ d s t, (g d).run s = .ok () t → view t = view s) (l : List α) (s : σ) :
    (forM l fun a => get >>= fun t => g (f (view t) a)).run s =
      (forM (l.map (f (view s))) g).run s := by
  induction l generalizing s with
  | nil => rfl
  | cons a l ih =>
    rw [List.forM_cons, List.map_cons, List.forM_cons, bind_assoc, run_get_bind,
      EStateM.run_bind, EStateM.run_bind]
    cases hrun : (g (f (view s) a)).run s with
    | ok _ t =>
      dsimp only
      rw [ih t, hg _ s t hrun]
    | error e t => rfl

theorem leaves_forM {l : List α} {f : α → EStateM ε σ Unit} (h : ∀ a ∈ l, Leaves R (f a)) :
    Leaves R (forM l f) := by
  induction l with
  | nil => exact leaves_pure ()
  | cons a l ih =>
    rw [List.forM_cons]
    exact leaves_bind (h a (List.mem_cons_self ..)) fun _ _ t _ =>
      ih (fun b hb => h b (List.mem_cons_of_mem _ hb)) t

end

end Command

end NfsmwRuntime.Library

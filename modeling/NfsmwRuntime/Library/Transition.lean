import Mathlib.Data.List.Basic

/-!
# Machines and their runs

A machine takes one labelled step at a time, or refuses it. Everything that holds at the
start and survives each step holds at the end of every run; a step may be assumed to meet
a condition if the condition is asked of all steps of the run.
-/

namespace NfsmwRuntime.Library

/-- A partial automaton over labels: `none` is a step that is not possible. -/
structure Machine (μ ε : Type) where
  step : μ → ε → Option μ

namespace Machine

variable {δ ε μ : Type}

def run (M : Machine μ ε) : μ → List ε → Option μ
  | m, [] => some m
  | m, e :: es => (M.step m e).bind fun n => M.run n es

@[simp] theorem run_nil (M : Machine μ ε) (m : μ) : M.run m [] = some m := rfl
@[simp] theorem run_cons (M : Machine μ ε) (m : μ) (e : ε) (es : List ε) :
    M.run m (e :: es) = (M.step m e).bind fun n => M.run n es := rfl

theorem run_append (M : Machine μ ε) (m : μ) (as bs : List ε) :
    M.run m (as ++ bs) = (M.run m as).bind fun n => M.run n bs := by
  induction as generalizing m with
  | nil => rfl
  | cons a as ih =>
    simp only [List.cons_append, run_cons, ih]
    cases M.step m a <;> rfl

/-- Watch only the events that `f` reads as inputs of the machine. -/
def comap (f : δ → Option ε) (M : Machine μ ε) : Machine μ δ where
  step m d := match f d with
    | none => some m
    | some e => M.step m e

theorem run_comap (f : δ → Option ε) (M : Machine μ ε) (m : μ) (ds : List δ) :
    (M.comap f).run m ds = M.run m (ds.filterMap f) := by
  induction ds generalizing m with
  | nil => rfl
  | cons d ds ih => cases h : f d <;> simp [comap, h] <;> simp [← ih, comap]

/-- Every step of a run is taken from a state, and with a label, that meet `ok`. -/
def Along (M : Machine μ ε) (ok : μ → ε → Prop) : μ → List ε → Prop
  | _, [] => True
  | m, e :: es => ok m e ∧ (M.step m e).elim True fun n => M.Along ok n es

instance decidableAlong (M : Machine μ ε) (ok : μ → ε → Prop) [∀ m e, Decidable (ok m e)] :
    (m : μ) → (es : List ε) → Decidable (M.Along ok m es)
  | _, [] => inferInstanceAs (Decidable True)
  | m, e :: es =>
    let _ : Decidable ((M.step m e).elim True fun n => M.Along ok n es) :=
      match M.step m e with
      | none => inferInstanceAs (Decidable True)
      | some n => decidableAlong M ok n es
    inferInstanceAs (Decidable (_ ∧ _))

/-- An invariant of the steps that meet `ok` is an invariant of the runs along `ok`. -/
theorem invariant_of_run {M : Machine μ ε} {I : μ → Prop} {ok : μ → ε → Prop}
    (hstep : ∀ m e n, I m → ok m e → M.step m e = some n → I n) {m n : μ} {es : List ε}
    (hm : I m) (halong : M.Along ok m es) (hrun : M.run m es = some n) : I n := by
  induction es generalizing m with
  | nil => exact Option.some.inj hrun ▸ hm
  | cons e es ih =>
    obtain ⟨k, hk, hrest⟩ := Option.bind_eq_some_iff.mp hrun
    obtain ⟨hok, hnext⟩ := halong
    rw [hk] at hnext
    exact ih (hstep m e k hm hok hk) hnext hrest

/-- Labels that meet `ok` in every state. -/
theorem along_of_mem {M : Machine μ ε} {ok : μ → ε → Prop} {es : List ε}
    (h : ∀ e ∈ es, ∀ m, ok m e) (m : μ) : M.Along ok m es := by
  induction es generalizing m with
  | nil => trivial
  | cons e es ih =>
    obtain ⟨hfirst, hrest⟩ := List.forall_mem_cons.mp h
    exact ⟨hfirst m, by cases M.step m e <;> simp [ih hrest]⟩

theorem along_of_forall {M : Machine μ ε} {ok : μ → ε → Prop} (h : ∀ m e, ok m e) (m : μ)
    (es : List ε) : M.Along ok m es :=
  along_of_mem (fun e _ m => h m e) m

/-- An invariant of every step is an invariant of every run. -/
theorem invariant {M : Machine μ ε} {I : μ → Prop}
    (hstep : ∀ m e n, I m → M.step m e = some n → I n) {m n : μ} {es : List ε}
    (hm : I m) (hrun : M.run m es = some n) : I n :=
  invariant_of_run (fun m e n h _ => hstep m e n h) hm
    (along_of_forall (fun _ _ => trivial) m es) hrun

/-- Labels that a view does not see can be left out of a run, if the others act on the view. -/
theorem run_filter {M : Machine μ ε} {view : μ → μ} {seen : ε → Bool}
    (hunseen : ∀ m e n, seen e = false → M.step m e = some n → view n = view m)
    (hseen : ∀ m e, seen e = true → M.step (view m) e = (M.step m e).map view) {m n : μ}
    {es : List ε} (hrun : M.run m es = some n) :
    M.run (view m) (es.filter seen) = some (view n) := by
  induction es generalizing m with
  | nil => exact congrArg (fun k => some (view k)) (Option.some.inj hrun)
  | cons e es ih =>
    obtain ⟨k, hk, hrest⟩ := Option.bind_eq_some_iff.mp hrun
    have hview := ih hrest
    cases he : seen e with
    | false => rwa [List.filter_cons_of_neg (by simp [he]), ← hunseen m e k he hk]
    | true =>
      rw [List.filter_cons_of_pos he, run_cons, hseen m e he, hk]
      exact hview

end Machine

end NfsmwRuntime.Library

import Mathlib.Init

/-!
# Fallible code

A C function that returns an error code is an `Except`: it goes on while its calls and
checks succeed, and the first failure is its result.
-/

namespace NfsmwRuntime.Library

variable {α β ε : Type}

/-- A call that may fail although its arguments are fine. -/
def attempt (ok : Bool) (result : Option α) : Option α := if ok then result else none

/-- Fail with `e` unless there is a result. -/
def require (result : Option α) (e : ε) : Except ε α :=
  match result with
  | some a => .ok a
  | none => .error e

/-- Fail with `e` unless the condition holds. -/
def check (p : Prop) [Decidable p] (e : ε) : Except ε Unit := if p then .ok () else .error e

@[simp] theorem attempt_true (result : Option α) : attempt true result = result := rfl

@[simp] theorem require_some (a : α) (e : ε) : require (some a) e = .ok a := rfl

theorem check_of {p : Prop} [Decidable p] (h : p) (e : ε) : check p e = .ok () := if_pos h

@[simp] theorem ok_bind (a : α) (f : α → Except ε β) : (Except.ok a >>= f) = f a := rfl

theorem bind_eq_ok {x : Except ε α} {f : α → Except ε β} {b : β} :
    (x >>= f) = .ok b ↔ ∃ a, x = .ok a ∧ f a = .ok b := by
  cases x with
  | error e => simp [Bind.bind, Except.bind]
  | ok a => simp

theorem require_eq_ok {result : Option α} {e : ε} {a : α} :
    require result e = .ok a ↔ result = some a := by
  cases result <;> simp [require]

theorem check_eq_ok {p : Prop} [Decidable p] {e : ε} {u : Unit} : check p e = .ok u ↔ p := by
  by_cases h : p <;> simp [check, h]

theorem forM_eq_ok {f : α → Except ε Unit} {l : List α} {u : Unit} :
    l.forM f = .ok u ↔ ∀ a ∈ l, f a = .ok () := by
  induction l with
  | nil => simp [List.forM, pure, Except.pure]
  | cons a l ih =>
    rw [List.forall_mem_cons, ← ih]
    simp only [List.forM_eq_forM, List.forM_cons, bind_eq_ok]
    exact ⟨fun ⟨_, ha, hl⟩ => ⟨ha, hl⟩, fun ⟨ha, hl⟩ => ⟨(), ha, hl⟩⟩

/-! ## Loops in which nothing fails -/

theorem mapM_eq_some {f : α → Option β} {g : α → β} {l : List α} (h : ∀ a ∈ l, f a = some (g a)) :
    l.mapM f = some (l.map g) := by
  induction l with
  | nil => rfl
  | cons a l ih =>
    rw [List.mapM_cons, h a List.mem_cons_self, ih fun b hb => h b (List.mem_cons_of_mem _ hb)]
    rfl

theorem anyM_eq_some {f : α → Option Bool} {g : α → Bool} {l : List α}
    (h : ∀ a ∈ l, f a = some (g a)) : l.anyM f = some (l.any g) := by
  induction l with
  | nil => rfl
  | cons a l ih =>
    rw [List.anyM, h a List.mem_cons_self, ih fun b hb => h b (List.mem_cons_of_mem _ hb),
      List.any_cons]
    cases g a <;> rfl

theorem findSomeM?_eq_some {f : α → Option (Option β)} {g : α → Option β} {l : List α}
    (h : ∀ a ∈ l, f a = some (g a)) : l.findSomeM? f = some (l.findSome? g) := by
  induction l with
  | nil => rfl
  | cons a l ih =>
    rw [List.findSomeM?, h a List.mem_cons_self, ih fun b hb => h b (List.mem_cons_of_mem _ hb),
      List.findSome?_cons]
    cases g a <;> rfl

end NfsmwRuntime.Library

import Mathlib.Data.List.Basic

/-!
# Searches that keep a record

A search tries candidates one after the other and stops at the first that passes. Loops in
loops that leave all of them at the first success are one search through the candidates in
the order in which the loops come to them.
-/

namespace NfsmwRuntime.Library

/-- The candidates tried, and the one found. -/
structure Search (α : Type) where
  tried : List α
  found : Option α
  deriving DecidableEq, Repr

namespace Search

variable {α β : Type}

def skip : Search α := ⟨[], none⟩

def attempt (test : α → Bool) (candidate : α) : Search α :=
  ⟨[candidate], if test candidate then some candidate else none⟩

/-- Search on if nothing has been found. -/
def orElse (first next : Search α) : Search α :=
  if first.found.isSome then first else ⟨first.tried ++ next.tried, next.found⟩

/-- A loop that is left at the first success. -/
def firstIn (loop : List β) (body : β → Search α) : Search α :=
  loop.foldr (fun b rest => (body b).orElse rest) skip

/-- The search through a list of candidates. -/
def among (test : α → Bool) (candidates : List α) : Search α := firstIn candidates (attempt test)

/-- Nothing is found that does not pass. -/
def Passes (test : α → Bool) (s : Search α) : Prop := ∀ a, s.found = some a → test a = true

variable {test : α → Bool} {candidates : List α}

@[simp] theorem firstIn_nil {body : β → Search α} : firstIn [] body = skip := rfl

@[simp] theorem firstIn_cons {b : β} {loop : List β} {body : β → Search α} :
    firstIn (b :: loop) body = (body b).orElse (firstIn loop body) := rfl

@[simp] theorem among_nil : among test [] = skip := rfl

theorem among_cons {candidate : α} :
    among test (candidate :: candidates) =
      (attempt test candidate).orElse (among test candidates) := rfl

@[simp] theorem orElse_skip (s : Search α) : s.orElse skip = s := by
  cases s with
  | mk tried found => cases found <;> simp [orElse, skip]

@[simp] theorem skip_orElse (s : Search α) : skip.orElse s = s := rfl

theorem orElse_assoc (s t u : Search α) : (s.orElse t).orElse u = s.orElse (t.orElse u) := by
  unfold orElse
  grind

theorem among_append {as bs : List α} :
    among test (as ++ bs) = (among test as).orElse (among test bs) := by
  induction as with
  | nil => rfl
  | cons a as ih => rw [List.cons_append, among_cons, among_cons, ih, orElse_assoc]

/-- Loops in a loop. -/
theorem firstIn_eq_among {loop : List β} {body : β → Search α} {g : β → List α}
    (h : ∀ b ∈ loop, body b = among test (g b)) :
    firstIn loop body = among test (loop.flatMap g) := by
  induction loop with
  | nil => rfl
  | cons b loop ih =>
    rw [List.flatMap_cons, among_append, ← h b List.mem_cons_self,
      ← ih fun c hc => h c (List.mem_cons_of_mem _ hc)]
    rfl

@[simp] theorem among_singleton {candidate : α} :
    among test [candidate] = attempt test candidate := orElse_skip _

theorem found_among : (among test candidates).found = candidates.find? test := by
  induction candidates with
  | nil => rfl
  | cons a as ih => rw [among_cons, orElse, attempt]; grind

theorem tried_among_subset : (among test candidates).tried ⊆ candidates := by
  induction candidates with
  | nil => exact List.nil_subset _
  | cons a as ih => rw [among_cons, orElse, attempt]; grind

@[simp] theorem tried_among_eq_nil : (among test candidates).tried = [] ↔ candidates = [] := by
  cases candidates with
  | nil => simp [skip]
  | cons a as => rw [among_cons, orElse, attempt]; grind

/-! ## What is found passes -/

theorem passes_skip : (skip : Search α).Passes test := fun _ h => nomatch h

theorem passes_attempt {ok : α → Bool} {candidate : α}
    (hok : test candidate = true → ok candidate = true) :
    (attempt test candidate).Passes ok := by
  intro a h
  grind [attempt]

theorem Passes.orElse {s t : Search α} (hs : s.Passes test) (ht : t.Passes test) :
    (s.orElse t).Passes test := by
  unfold Search.orElse
  split
  · exact hs
  · exact ht

theorem passes_firstIn {loop : List β} {body : β → Search α}
    (h : ∀ b ∈ loop, (body b).Passes test) : (firstIn loop body).Passes test := by
  induction loop with
  | nil => exact passes_skip
  | cons b loop ih =>
    exact (h b List.mem_cons_self).orElse (ih fun c hc => h c (List.mem_cons_of_mem _ hc))

end Search

end NfsmwRuntime.Library

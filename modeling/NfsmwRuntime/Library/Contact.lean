import NfsmwRuntime.Library.Action

/-!
# One contact that opens, is held and closes

A contact is a resource with two states: a finger on a screen, a key held down, a
file handle. A stream of signals is well formed when a contact is opened only while
closed, and held or closed only while open.
-/

namespace NfsmwRuntime.Library

/-- A law about every element and what comes before it, on a list one element longer. -/
theorem forall_split_concat {α : Type} {P : List α → α → Prop} {l : List α} {x : α} :
    (∀ before a after, l ++ [x] = before ++ a :: after → P before a) ↔
      (∀ before a after, l = before ++ a :: after → P before a) ∧ P l x := by
  constructor
  · refine fun h => ⟨fun before a after hl => ?_, h l x [] rfl⟩
    exact h before a (after ++ [x]) (by simp [hl])
  · rintro ⟨hl, hx⟩ before a after h
    rcases List.eq_nil_or_concat' after with rfl | ⟨init, last, rfl⟩
    · obtain ⟨rfl, ha⟩ := List.append_inj' h rfl
      simp only [List.cons.injEq, and_true] at ha
      exact ha ▸ hx
    · have h' : l ++ [x] = (before ++ a :: init) ++ [last] := by simpa using h
      exact hl before a init (List.append_inj' h' rfl).1

theorem forall_split_cons {α : Type} {P : List α → α → Prop} {x : α} {l : List α} :
    (∀ before a after, x :: l = before ++ a :: after → P before a) ↔
      P [] x ∧ ∀ before a after, l = before ++ a :: after → P (x :: before) a := by
  constructor
  · exact fun h => ⟨h [] x l rfl, fun before a after hl => h (x :: before) a after (by simp [hl])⟩
  · rintro ⟨hx, hl⟩ before a after h
    cases before with
    | nil =>
      obtain ⟨rfl, -⟩ := List.cons.inj h
      exact hx
    | cons b before =>
      obtain ⟨rfl, htail⟩ := List.cons.inj h
      exact hl before a after htail

inductive Signal where
  | opens | holds | closes
  deriving DecidableEq, Repr

namespace Contact

/-- Is the contact open after the stream, when it was `c` before it? -/
def openFrom (c : Bool) : List Signal → Bool
  | [] => c
  | .opens :: l => openFrom true l
  | .holds :: l => openFrom c l
  | .closes :: l => openFrom false l

/-- Is a contact that starts closed open after the stream? -/
def isOpen (l : List Signal) : Bool := openFrom false l

/-- Every signal of the stream finds the contact as its meaning requires. -/
def WellFormed (l : List Signal) : Prop :=
  ∀ before a after, l = before ++ a :: after →
    (a = .opens → isOpen before = false) ∧ (a ≠ .opens → isOpen before = true)

def monitor : Machine Bool Signal where
  step c a := match a with
    | .opens => if c then none else some true
    | .holds => if c then some true else none
    | .closes => if c then some false else none

@[simp] theorem openFrom_append (c : Bool) (l m : List Signal) :
    openFrom c (l ++ m) = openFrom (openFrom c l) m := by
  induction l generalizing c with
  | nil => rfl
  | cons a l ih => cases a <;> exact ih _

theorem isOpen_append (l m : List Signal) : isOpen (l ++ m) = openFrom (isOpen l) m :=
  openFrom_append false l m

/-- An accepted stream leaves the contact as its signals say. -/
theorem openFrom_of_run {c d : Bool} {l : List Signal} (h : monitor.run c l = some d) :
    openFrom c l = d := by
  induction l generalizing c with
  | nil => simpa [openFrom] using h
  | cons a l ih => cases a <;> cases c <;> simp_all [monitor, openFrom]

theorem wellFormed_of_run {d : Bool} {l : List Signal} (h : monitor.run false l = some d) :
    WellFormed l := by
  rintro before a after rfl
  rw [Machine.run_append] at h
  cases hc : monitor.run false before with
  | none => simp [hc] at h
  | some c =>
    have hopen : isOpen before = c := openFrom_of_run hc
    rw [hopen]
    cases a <;> cases c <;> simp_all [monitor]

@[simp] theorem isOpen_nil : isOpen [] = false := rfl

@[simp] theorem isOpen_concat_opens (l : List Signal) : isOpen (l ++ [.opens]) = true := by
  simp [isOpen_append, openFrom]

@[simp] theorem isOpen_concat_closes (l : List Signal) : isOpen (l ++ [.closes]) = false := by
  simp [isOpen_append, openFrom]

theorem wellFormed_nil : WellFormed [] := by
  intro before a after h
  simp at h

/-- A well formed stream is extended by one signal exactly when that signal is allowed. -/
theorem wellFormed_concat {l : List Signal} {a : Signal} :
    WellFormed (l ++ [a]) ↔
      WellFormed l ∧ (a = .opens → isOpen l = false) ∧ (a ≠ .opens → isOpen l = true) :=
  forall_split_concat

theorem WellFormed.of_append {l m : List Signal} (h : WellFormed (l ++ m)) : WellFormed l :=
  fun before a after hl => h before a (after ++ m) (by simp [hl])

end Contact

end NfsmwRuntime.Library

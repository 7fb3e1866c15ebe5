import Mathlib.Data.List.Basic
import Mathlib.Tactic.SplitIfs
import NfsmwRuntime.Library.Transition

/-!
# Actions that emit events, and monitors that watch them

An action is a step of a sequential program: it takes a state to its successor and
lists the events it emits on the way. A machine over the events can monitor it: an action
*drives* the machine when, from every state satisfying an invariant, the machine
accepts the emitted events and ends in the state read off the successor.
Driving composes along sequencing, branching and iteration, so a protocol law about
a whole run reduces to one obligation for each primitive action. Where the law is about
events one by one, an invariant from which every event is right (`Safe`) does.
-/

namespace NfsmwRuntime.Library

/-- A state transformer together with the events it emits, oldest first. -/
abbrev Action (σ ε : Type) := σ → σ × List ε

namespace Action

variable {σ ε ι : Type}

def skip : Action σ ε := fun s => (s, [])

/-- Change the state without emitting anything. -/
def assign (g : σ → σ) : Action σ ε := fun s => (g s, [])

/-- Emit one event computed from the state, which is left alone. -/
def emit (e : σ → ε) : Action σ ε := fun s => (s, [e s])

def seq (a b : Action σ ε) : Action σ ε := fun s =>
  ((b (a s).1).1, (a s).2 ++ (b (a s).1).2)

/-- Run a block of actions in order. -/
def block : List (Action σ ε) → Action σ ε
  | [] => skip
  | a :: as => seq a (block as)

def ite (p : σ → Bool) (a b : Action σ ε) : Action σ ε := fun s =>
  if p s then a s else b s

def when (p : σ → Bool) (a : Action σ ε) : Action σ ε := ite p a skip

/-- Run the action of each index of the list in order. -/
def each (a : ι → Action σ ε) (is : List ι) : Action σ ε := block (is.map a)

@[simp] theorem skip_apply (s : σ) : (skip : Action σ ε) s = (s, []) := rfl
@[simp] theorem assign_apply (g : σ → σ) (s : σ) :
    (assign g : Action σ ε) s = (g s, []) := rfl
@[simp] theorem emit_apply (e : σ → ε) (s : σ) : emit e s = (s, [e s]) := rfl
@[simp] theorem seq_apply (a b : Action σ ε) (s : σ) :
    seq a b s = ((b (a s).1).1, (a s).2 ++ (b (a s).1).2) := rfl
@[simp] theorem block_nil (s : σ) : block ([] : List (Action σ ε)) s = (s, []) := rfl
@[simp] theorem block_cons (a : Action σ ε) (as : List (Action σ ε)) (s : σ) :
    block (a :: as) s = ((block as (a s).1).1, (a s).2 ++ (block as (a s).1).2) := rfl

theorem ite_apply (p : σ → Bool) (a b : Action σ ε) (s : σ) :
    ite p a b s = if p s then a s else b s := rfl
theorem when_apply (p : σ → Bool) (a : Action σ ε) (s : σ) :
    when p a s = if p s then a s else (s, []) := rfl

@[simp] theorem each_nil (a : ι → Action σ ε) (s : σ) : each a [] s = (s, []) := rfl
theorem each_cons (a : ι → Action σ ε) (i : ι) (is : List ι) (s : σ) :
    each a (i :: is) s = seq (a i) (each a is) s := rfl

theorem each_append (a : ι → Action σ ε) (is js : List ι) (s : σ) :
    each a (is ++ js) s = seq (each a is) (each a js) s := by
  induction is generalizing s with
  | nil => simp
  | cons i is ih => simp [each_cons, ih]

/-- The state reached after one more iteration. -/
theorem each_concat (a : ι → Action σ ε) (is : List ι) (i : ι) (s : σ) :
    each a (is ++ [i]) s = seq (each a is) (a i) s := by
  simp [each_append, each_cons]

/-! ### What an action leaves alone -/

/-- The action does not change what `g` reads from the state. -/
def Keeps {τ : Type} (g : σ → τ) (a : Action σ ε) : Prop := ∀ s, g (a s).1 = g s

/-- The action emits nothing that `f` reads. -/
def Silent {δ : Type} (f : ε → Option δ) (a : Action σ ε) : Prop :=
  ∀ s, (a s).2.filterMap f = []

section Rules

variable {τ δ : Type} {g : σ → τ} {f : ε → Option δ} {a b : Action σ ε}

theorem Keeps.emit (e : σ → ε) : Keeps g (Action.emit e) := fun _ => rfl

theorem Keeps.assign {h : σ → σ} (hg : ∀ s, g (h s) = g s) :
    Keeps g (Action.assign h : Action σ ε) := hg

theorem Keeps.seq (ha : Keeps g a) (hb : Keeps g b) : Keeps g (a.seq b) :=
  fun s => (hb _).trans (ha s)

theorem Keeps.ite {p : σ → Bool} (ha : Keeps g a) (hb : Keeps g b) :
    Keeps g (Action.ite p a b) := by
  intro s
  rw [ite_apply]
  split_ifs
  exacts [ha s, hb s]

theorem Keeps.when {p : σ → Bool} (ha : Keeps g a) : Keeps g (Action.when p a) :=
  .ite ha fun _ => rfl

theorem Keeps.nil : Keeps g (Action.block ([] : List (Action σ ε))) := fun _ => rfl

theorem Keeps.cons {as : List (Action σ ε)} (ha : Keeps g a) (has : Keeps g (block as)) :
    Keeps g (Action.block (a :: as)) := .seq ha has

theorem Keeps.each {act : ι → Action σ ε} {is : List ι} (h : ∀ i ∈ is, Keeps g (act i)) :
    Keeps g (Action.each act is) := by
  induction is with
  | nil => exact .nil
  | cons i is ih =>
    exact .seq (h i List.mem_cons_self) (ih fun j hj => h j (List.mem_cons_of_mem i hj))

/-- Reading less is silent too. -/
theorem Silent.mono {δ' : Type} {f' : ε → Option δ'} (ha : Silent f a)
    (h : ∀ e, f e = none → f' e = none) : Silent f' a := by
  intro s
  rw [List.filterMap_eq_nil_iff]
  exact fun e he => h e (List.filterMap_eq_nil_iff.mp (ha s) e he)

theorem Silent.assign (h : σ → σ) : Silent f (Action.assign h) := fun _ => rfl

theorem Silent.emit {e : σ → ε} (he : ∀ s, f (e s) = none) : Silent f (Action.emit e) :=
  fun s => by simp [he]

theorem Silent.seq (ha : Silent f a) (hb : Silent f b) : Silent f (a.seq b) := fun s => by
  simp [ha s, hb (a s).1]

theorem Silent.ite {p : σ → Bool} (ha : Silent f a) (hb : Silent f b) :
    Silent f (Action.ite p a b) := by
  intro s
  rw [ite_apply]
  split_ifs
  exacts [ha s, hb s]

theorem Silent.when {p : σ → Bool} (ha : Silent f a) : Silent f (Action.when p a) :=
  .ite ha fun _ => rfl

theorem Silent.nil : Silent f (Action.block ([] : List (Action σ ε))) := fun _ => rfl

theorem Silent.cons {as : List (Action σ ε)} (ha : Silent f a) (has : Silent f (block as)) :
    Silent f (Action.block (a :: as)) := .seq ha has

theorem Silent.each {act : ι → Action σ ε} {is : List ι} (h : ∀ i ∈ is, Silent f (act i)) :
    Silent f (Action.each act is) := by
  induction is with
  | nil => exact .nil
  | cons i is ih =>
    exact .seq (h i List.mem_cons_self) (ih fun j hj => h j (List.mem_cons_of_mem i hj))

end Rules

/-! ### What every event satisfies -/

/-- The action keeps the invariant `P`, and from a state satisfying it emits only events
that satisfy `R`. -/
def Safe (P : σ → Prop) (R : ε → Prop) (a : Action σ ε) : Prop :=
  ∀ s, P s → P (a s).1 ∧ ∀ e ∈ (a s).2, R e

section Safety

variable {P : σ → Prop} {R : ε → Prop} {a b : Action σ ε}

theorem Safe.assign {g : σ → σ} (h : ∀ s, P s → P (g s)) : Safe P R (Action.assign g) :=
  fun s hs => ⟨h s hs, by simp⟩

theorem Safe.emit {e : σ → ε} (h : ∀ s, P s → R (e s)) : Safe P R (Action.emit e) :=
  fun s hs => ⟨hs, by simpa using h s hs⟩

theorem Safe.skip : Safe P R (Action.skip : Action σ ε) := fun _ hs => ⟨hs, by simp⟩

theorem Safe.seq (ha : Safe P R a) (hb : Safe P R b) : Safe P R (a.seq b) := by
  intro s hs
  obtain ⟨hmid, hfirst⟩ := ha s hs
  obtain ⟨hend, hsecond⟩ := hb _ hmid
  refine ⟨hend, fun e he => ?_⟩
  rcases List.mem_append.mp he with he | he
  exacts [hfirst e he, hsecond e he]

theorem Safe.ite {p : σ → Bool} (ha : Safe P R a) (hb : Safe P R b) :
    Safe P R (Action.ite p a b) := by
  intro s hs
  rw [ite_apply]
  split_ifs
  exacts [ha s hs, hb s hs]

theorem Safe.when {p : σ → Bool} (ha : Safe P R a) : Safe P R (Action.when p a) :=
  .ite ha .skip

theorem Safe.block {as : List (Action σ ε)} (h : ∀ a ∈ as, Safe P R a) :
    Safe P R (Action.block as) := by
  induction as with
  | nil => exact .skip
  | cons a as ih =>
    exact .seq (h a List.mem_cons_self) (ih fun b hb => h b (List.mem_cons_of_mem a hb))

theorem Safe.each {act : ι → Action σ ε} (h : ∀ i, Safe P R (act i)) (is : List ι) :
    Safe P R (Action.each act is) :=
  .block fun a ha => by
    obtain ⟨i, -, rfl⟩ := List.mem_map.mp ha
    exact h i

end Safety

end Action

namespace Machine

variable {σ ε δ μ ι : Type}

/-- From every state satisfying `P` the machine accepts what the action emits, ends in
the state viewed from the successor, and the successor satisfies `Q`. -/
def Drives (M : Machine μ ε) (view : σ → μ) (P Q : σ → Prop) (a : Action σ ε) : Prop :=
  ∀ s, P s → Q (a s).1 ∧ M.run (view s) (a s).2 = some (view (a s).1)

variable {M : Machine μ ε} {view : σ → μ} {P Q R : σ → Prop} {a b : Action σ ε}

theorem Drives.skip (h : ∀ s, P s → Q s) : M.Drives view P Q Action.skip :=
  fun s hs => ⟨h s hs, rfl⟩

theorem Drives.seq (ha : M.Drives view P Q a) (hb : M.Drives view Q R b) :
    M.Drives view P R (a.seq b) := by
  intro s hs
  obtain ⟨hq, hrun⟩ := ha s hs
  obtain ⟨hr, hrun'⟩ := hb _ hq
  exact ⟨hr, by simp [run_append, hrun, hrun']⟩

theorem Drives.ite {p : σ → Bool} (ha : M.Drives view (fun s => P s ∧ p s = true) Q a)
    (hb : M.Drives view (fun s => P s ∧ p s = false) Q b) :
    M.Drives view P Q (Action.ite p a b) := by
  intro s hs
  cases hp : p s
  · simpa [Action.ite_apply, hp] using hb s ⟨hs, hp⟩
  · simpa [Action.ite_apply, hp] using ha s ⟨hs, hp⟩

theorem Drives.when {p : σ → Bool} (ha : M.Drives view (fun s => P s ∧ p s = true) Q a)
    (h : ∀ s, P s → p s = false → Q s) : M.Drives view P Q (Action.when p a) :=
  .ite ha (.skip fun s hs => h s hs.1 hs.2)

/-- An assignment that the view cannot see drives every machine. -/
theorem Drives.assign {g : σ → σ} (hview : ∀ s, view (g s) = view s)
    (h : ∀ s, P s → Q (g s)) : M.Drives view P Q (Action.assign g) :=
  fun s hs => ⟨h s hs, by simp [hview]⟩

/-- An event, and the assignment that records in the view what the event does. -/
theorem Drives.emit_assign {e : σ → ε} {g : σ → σ} (h : ∀ s, P s → Q (g s))
    (hstep : ∀ s, P s → M.step (view s) (e s) = some (view (g s))) :
    M.Drives view P Q (Action.block [Action.emit e, Action.assign g]) :=
  fun s hs => ⟨h s hs, by simp [hstep s hs]⟩

/-- An event that leaves the machine where it is. -/
theorem Drives.emit {e : σ → ε} (h : ∀ s, P s → Q s)
    (hstep : ∀ s, P s → M.step (view s) (e s) = some (view s)) :
    M.Drives view P Q (Action.emit e) :=
  fun s hs => ⟨h s hs, by simp [hstep s hs]⟩

theorem Drives.block {as : List (Action σ ε)} (h : ∀ a ∈ as, M.Drives view P P a) :
    M.Drives view P P (Action.block as) := by
  induction as with
  | nil => exact .skip fun _ h => h
  | cons a as ih =>
    exact .seq (h a List.mem_cons_self) (ih fun b hb => h b (List.mem_cons_of_mem a hb))

theorem Drives.each {act : ι → Action σ ε} (h : ∀ i, M.Drives view P P (act i))
    (is : List ι) : M.Drives view P P (Action.each act is) :=
  .block fun a ha => by
    obtain ⟨i, -, rfl⟩ := List.mem_map.mp ha
    exact h i

end Machine

end NfsmwRuntime.Library

import Mathlib.Data.List.Basic
import Mathlib.Tactic.SplitIfs

/-!
# Processes that fail and are killed

A process works on a persistent state by operations. Each operation is done, or it fails, or
the process is killed in the middle of it; what happens to which operation is read off a list of
fates. What a failed operation does, and what is left of one that is cut short, is part of the
operation. A run lists its operations, each with the state in which it was tried.

A triple says where a process leaves the persistent state, in each of the three ways in which it
ends, as long as the faults are such as are allowed in the states in which they occur. Its rules
follow the way processes are built, so that what holds at every point at which a process may be
killed is found from what holds around each of its operations.
-/

namespace NfsmwRuntime.Library

/-- What happens to an operation. `κ` says how far it got. -/
inductive Fate (κ : Type)
  | done
  | failed (cut : κ)
  | killed (cut : κ)
  deriving DecidableEq, Repr

def Fate.IsFailure {κ : Type} : Fate κ → Prop
  | .failed _ => True
  | _ => False

instance {κ : Type} (fate : Fate κ) : Decidable fate.IsFailure := by
  cases fate with
  | failed cut => exact .isTrue trivial
  | done => exact .isFalse id
  | killed cut => exact .isFalse id

inductive Ending (ε α : Type)
  | ok (a : α)
  | raised (e : ε)
  | killed
  deriving DecidableEq, Repr

/-- How a process ends, what it leaves behind, the fates that it has not come to, and what it
has tried. -/
structure Outcome (κ σ ε α : Type) where
  ending : Ending ε α
  state : σ
  fates : List (Fate κ)
  trace : List (σ × Fate κ)

/-- An operation to which nothing is said to happen is done. -/
def Process (κ σ ε α : Type) : Type := List (Fate κ) → σ → Outcome κ σ ε α

namespace Process

variable {κ σ ε α β ι : Type}

def pure (a : α) : Process κ σ ε α := fun fates s => ⟨.ok a, s, fates, []⟩

def bind (p : Process κ σ ε α) (f : α → Process κ σ ε β) : Process κ σ ε β := fun fates s =>
  let first := p fates s
  match first.ending with
  | .ok a =>
    let second := f a first.fates first.state
    { second with trace := first.trace ++ second.trace }
  | .raised e => ⟨.raised e, first.state, first.fates, first.trace⟩
  | .killed => ⟨.killed, first.state, first.fates, first.trace⟩

instance : Monad (Process κ σ ε) where
  pure := pure
  bind := bind

def raise (e : ε) : Process κ σ ε α := fun fates s => ⟨.raised e, s, fates, []⟩

/-- Look at the state, which nothing can happen to. -/
def read (f : σ → α) : Process κ σ ε α := fun fates s => ⟨.ok (f s), s, fates, []⟩

/-- Change what dies with the process, and so is not cut short. -/
def modify (f : σ → σ) : Process κ σ ε Unit := fun fates s => ⟨.ok (), f s, fates, []⟩

/-- An operation with its effect, what it does when it fails, and what a kill leaves of it. -/
def operation (whole : σ → σ) (failing : κ → σ → Ending ε Unit × σ) (part : κ → σ → σ) :
    Process κ σ ε Unit
  | [], s => ⟨.ok (), whole s, [], [(s, .done)]⟩
  | .done :: fates, s => ⟨.ok (), whole s, fates, [(s, .done)]⟩
  | .failed cut :: fates, s => ⟨(failing cut s).1, (failing cut s).2, fates, [(s, .failed cut)]⟩
  | .killed cut :: fates, s => ⟨.killed, part cut s, fates, [(s, .killed cut)]⟩

/-- An operation that is done as a whole or not at all. -/
def atomic (e : ε) (whole : σ → σ) : Process κ σ ε Unit :=
  operation whole (fun _ s => (.raised e, s)) fun _ s => s

/-- Where the process raises an error, run the handler and raise the error again. -/
def onError (p : Process κ σ ε α) (handler : Process κ σ ε Unit) : Process κ σ ε α :=
  fun fates s =>
    let first := p fates s
    match first.ending with
    | .raised e =>
      let second := (handler >>= fun _ => raise e : Process κ σ ε α) first.fates first.state
      { second with trace := first.trace ++ second.trace }
    | _ => first

def each (f : ι → Process κ σ ε Unit) : List ι → Process κ σ ε Unit
  | [] => pure ()
  | i :: is => f i >>= fun _ => each f is

/-- A loop that makes a list. -/
def collect (f : ι → Process κ σ ε α) : List ι → Process κ σ ε (List α)
  | [] => pure []
  | i :: is => f i >>= fun a => collect f is >>= fun as => pure (a :: as)

end Process

/-! ## Lists that go together -/

theorem exists_of_forall₂ {α β : Type} {r : α → β → Prop} {as : List α} {bs : List β} {a : α}
    (h : List.Forall₂ r as bs) (ha : a ∈ as) : ∃ b ∈ bs, r a b := by
  induction h with
  | nil => cases ha
  | cons hr _ ih =>
    rcases List.mem_cons.mp ha with rfl | ha
    · exact ⟨_, List.mem_cons_self, hr⟩
    · obtain ⟨b, hb, hr⟩ := ih ha
      exact ⟨b, List.mem_cons_of_mem _ hb, hr⟩

theorem eq_map_of_forall₂ {α β : Type} {r : α → β → Prop} {as : List α} {bs : List β} {f : α → β}
    (h : List.Forall₂ r as bs) (hf : ∀ a ∈ as, ∀ b, r a b → b = f a) : bs = as.map f := by
  induction h with
  | nil => rfl
  | cons hr _ ih =>
    obtain ⟨hfirst, hrest⟩ := List.forall_mem_cons.mp hf
    rw [List.map_cons, hfirst _ hr, ih hrest]

/-! ## Triples -/

/-- The state that is left meets the condition for the way in which the process ended. -/
def Outcome.Meets {κ σ ε α : Type} (o : Outcome κ σ ε α) (Q : α → σ → Prop) (R K : σ → Prop) :
    Prop :=
  match o.ending with
  | .ok a => Q a o.state
  | .raised _ => R o.state
  | .killed => K o.state

section Meets

variable {κ σ ε α : Type} {Q : α → σ → Prop} {R K : σ → Prop} {s : σ} {fates : List (Fate κ)}
  {trace : List (σ × Fate κ)}

@[simp] theorem meets_ok {a : α} :
    (Outcome.mk (.ok a : Ending ε α) s fates trace).Meets Q R K ↔ Q a s := Iff.rfl
@[simp] theorem meets_raised {e : ε} :
    (Outcome.mk (.raised e : Ending ε α) s fates trace).Meets Q R K ↔ R s := Iff.rfl
@[simp] theorem meets_killed :
    (Outcome.mk (.killed : Ending ε α) s fates trace).Meets Q R K ↔ K s := Iff.rfl

theorem Outcome.Meets.mono {o : Outcome κ σ ε α} {Q' : α → σ → Prop} {R' K' : σ → Prop}
    (h : o.Meets Q R K) (hQ : ∀ a s, Q a s → Q' a s) (hR : ∀ s, R s → R' s)
    (hK : ∀ s, K s → K' s) : o.Meets Q' R' K' := by
  obtain ⟨ending, s, fates, trace⟩ := o
  cases ending with
  | ok a => exact hQ a s h
  | raised e => exact hR s h
  | killed => exact hK s h

theorem Outcome.Meets.and {o : Outcome κ σ ε α} {Q' : α → σ → Prop} {R' K' : σ → Prop}
    (h : o.Meets Q R K) (h' : o.Meets Q' R' K') :
    o.Meets (fun a s => Q a s ∧ Q' a s) (fun s => R s ∧ R' s) fun s => K s ∧ K' s := by
  obtain ⟨ending, s, fates, trace⟩ := o
  cases ending <;> exact ⟨h, h'⟩

/-- What holds however the process ends. -/
theorem Outcome.Meets.state {o : Outcome κ σ ε α} {P : σ → Prop} (h : o.Meets (fun _ => P) P P) :
    P o.state := by
  obtain ⟨ending, s, fates, trace⟩ := o
  cases ending <;> exact h

end Meets

namespace Process

variable {κ σ ε α β ι : Type} {A : σ → Fate κ → Prop} {P P' R R' K K' : σ → Prop}
  {Q Q' : α → σ → Prop} {p : Process κ σ ε α}

/-- A process to which nothing happens has no fates left, and is not killed. -/
def Undisturbed (o : Outcome κ σ ε α) : Prop := o.fates = [] ∧ o.ending ≠ .killed

/-- Started in `P`, and with only such faults as `A` allows, the process ends in `Q`, raises an
error in `R` and is killed in `K`. Without fates there are no faults. -/
def Triple (A : σ → Fate κ → Prop) (P : σ → Prop) (p : Process κ σ ε α) (Q : α → σ → Prop)
    (R K : σ → Prop) : Prop :=
  ∀ fates s, P s → (fates = [] ∨ ∀ tried ∈ (p fates s).trace, A tried.1 tried.2) →
    (p fates s).Meets Q R K ∧ (fates = [] → Undisturbed (p fates s))

theorem Triple.conseq (h : Triple A P p Q R K) (hP : ∀ s, P' s → P s)
    (hQ : ∀ a s, Q a s → Q' a s) (hR : ∀ s, R s → R' s) (hK : ∀ s, K s → K' s) :
    Triple A P' p Q' R' K' := by
  intro fates s hs hfaults
  obtain ⟨hmeets, hrest⟩ := h fates s (hP s hs) hfaults
  exact ⟨hmeets.mono hQ hR hK, hrest⟩

theorem Triple.pre (h : Triple A P p Q R K) (hP : ∀ s, P' s → P s) : Triple A P' p Q R K :=
  h.conseq hP (fun _ _ h => h) (fun _ h => h) fun _ h => h

theorem Triple.post (h : Triple A P p Q R K) (hQ : ∀ a s, Q a s → Q' a s) :
    Triple A P p Q' R K :=
  h.conseq (fun _ h => h) hQ (fun _ h => h) fun _ h => h

theorem Triple.or (h : Triple A P p Q R K) (h' : Triple A P' p Q R K) :
    Triple A (fun s => P s ∨ P' s) p Q R K :=
  fun fates s hs hfaults => hs.elim (h fates s · hfaults) (h' fates s · hfaults)

/-- What two triples say of a process holds together. -/
theorem Triple.and (h : Triple A P p Q R K) (h' : Triple A P' p Q' R' K') :
    Triple A (fun s => P s ∧ P' s) p (fun a s => Q a s ∧ Q' a s) (fun s => R s ∧ R' s)
      fun s => K s ∧ K' s := by
  intro fates s hs hfaults
  obtain ⟨hmeets, hrest⟩ := h fates s hs.1 hfaults
  exact ⟨hmeets.and (h' fates s hs.2 hfaults).1, hrest⟩

/-- One state after the other. -/
theorem Triple.of_states (h : ∀ s, P s → Triple A (fun s' => s' = s) p Q R K) :
    Triple A P p Q R K :=
  fun fates s hs hfaults => h s hs fates s rfl hfaults

/-- What the precondition says of anything but the state. -/
theorem Triple.of_pre {C : Prop} (hC : ∀ s, P s → C) (h : C → Triple A P p Q R K) :
    Triple A P p Q R K :=
  fun fates s hs hfaults => h (hC s hs) fates s hs hfaults

theorem Triple.pure {a : α} (h : ∀ s, P s → Q a s) :
    Triple A P (Process.pure a : Process κ σ ε α) Q R K :=
  fun _ s hs _ => ⟨h s hs, fun h => ⟨h, nofun⟩⟩

theorem Triple.raise {e : ε} (h : ∀ s, P s → R s) :
    Triple A P (Process.raise e : Process κ σ ε α) Q R K :=
  fun _ s hs _ => ⟨h s hs, fun h => ⟨h, nofun⟩⟩

theorem Triple.read {f : σ → α} (h : ∀ s, P s → Q (f s) s) :
    Triple A P (Process.read f : Process κ σ ε α) Q R K :=
  fun _ s hs _ => ⟨h s hs, fun h => ⟨h, nofun⟩⟩

theorem Triple.modify {f : σ → σ} {Q : Unit → σ → Prop} (h : ∀ s, P s → Q () (f s)) :
    Triple A P (Process.modify f : Process κ σ ε Unit) Q R K :=
  fun _ s hs _ => ⟨h s hs, fun h => ⟨h, nofun⟩⟩

theorem Triple.bind {f : α → Process κ σ ε β} {S : β → σ → Prop} (hp : Triple A P p Q R K)
    (hf : ∀ a, Triple A (Q a) (f a) S R K) : Triple A P (p >>= f) S R K := by
  intro fates s hs hfaults
  have hfirst := hp fates s hs
  change fates = [] ∨ ∀ tried ∈ (Process.bind p f fates s).trace, A tried.1 tried.2 at hfaults
  change (Process.bind p f fates s).Meets S R K ∧
    (fates = [] → Undisturbed (Process.bind p f fates s))
  unfold Process.bind at hfaults ⊢
  dsimp only at hfaults ⊢
  generalize p fates s = first at hfaults hfirst ⊢
  obtain ⟨ending, state, rest, trace⟩ := first
  cases ending with
  | ok a =>
    have hbefore := hfirst (hfaults.imp_right fun h => (List.forall_mem_append.mp h).1)
    have hafter := hf a rest state hbefore.1
      (hfaults.imp (fun hfates => (hbefore.2 hfates).1) fun h => (List.forall_mem_append.mp h).2)
    exact ⟨hafter.1, fun hfates => hafter.2 (hbefore.2 hfates).1⟩
  | raised e =>
    obtain ⟨hmeets, hrest⟩ := hfirst hfaults
    exact ⟨hmeets, fun hfates => ⟨(hrest hfates).1, nofun⟩⟩
  | killed =>
    obtain ⟨hmeets, hrest⟩ := hfirst hfaults
    exact ⟨hmeets, fun hfates => absurd rfl (hrest hfates).2⟩

theorem Triple.operation {whole : σ → σ} {failing : κ → σ → Ending ε Unit × σ}
    {part : κ → σ → σ} {Q : Unit → σ → Prop} (hwhole : ∀ s, P s → Q () (whole s))
    (hfailing : ∀ cut s, A s (.failed cut) → P s →
      (Outcome.mk (failing cut s).1 (failing cut s).2 ([] : List (Fate κ)) []).Meets Q R K)
    (hpart : ∀ cut s, A s (.killed cut) → P s → K (part cut s)) :
    Triple A P (Process.operation whole failing part) Q R K := by
  intro fates s hs hfaults
  match fates with
  | [] => exact ⟨hwhole s hs, fun h => ⟨h, nofun⟩⟩
  | .done :: _ => exact ⟨hwhole s hs, nofun⟩
  | .failed cut :: _ =>
    have hallowed := hfaults.resolve_left nofun (s, .failed cut) List.mem_cons_self
    exact ⟨hfailing cut s hallowed hs, nofun⟩
  | .killed cut :: _ =>
    have hallowed := hfaults.resolve_left nofun (s, .killed cut) List.mem_cons_self
    exact ⟨hpart cut s hallowed hs, nofun⟩

theorem Triple.atomic {e : ε} {whole : σ → σ} {Q : Unit → σ → Prop}
    (hwhole : ∀ s, P s → Q () (whole s)) (hR : ∀ s cut, A s (.failed cut) → P s → R s)
    (hK : ∀ s cut, A s (.killed cut) → P s → K s) : Triple A P (Process.atomic e whole) Q R K :=
  .operation hwhole (fun cut s hcut hs => hR s cut hcut hs) fun cut s hcut hs => hK s cut hcut hs

theorem Triple.onError {handler : Process κ σ ε Unit} {R₁ : σ → Prop} (hp : Triple A P p Q R₁ K)
    (hhandler : Triple A R₁ handler (fun _ => R) R K) : Triple A P (p.onError handler) Q R K := by
  intro fates s hs hfaults
  have hfirst := hp fates s hs
  unfold Process.onError at hfaults ⊢
  dsimp only at hfaults ⊢
  generalize p fates s = first at hfaults hfirst ⊢
  obtain ⟨ending, state, rest, trace⟩ := first
  cases ending with
  | ok a => exact hfirst hfaults
  | raised e =>
    have hbefore := hfirst (hfaults.imp_right fun h => (List.forall_mem_append.mp h).1)
    have hagain : Triple A R₁ (handler >>= fun _ => Process.raise e) Q R K :=
      .bind hhandler fun _ => .raise fun _ h => h
    have hafter := hagain rest state hbefore.1
      (hfaults.imp (fun hfates => (hbefore.2 hfates).1) fun h => (List.forall_mem_append.mp h).2)
    exact ⟨hafter.1, fun hfates => hafter.2 (hbefore.2 hfates).1⟩
  | killed => exact hfirst hfaults

/-- A loop, by what holds after each beginning of the list. -/
theorem Triple.each {f : ι → Process κ σ ε Unit} {is : List ι} {I : List ι → σ → Prop}
    (h : ∀ done i todo, is = done ++ i :: todo →
      Triple A (I done) (f i) (fun _ => I (done ++ [i])) R K) :
    Triple A (I []) (Process.each f is) (fun _ => I is) R K := by
  suffices hall : ∀ todo done, is = done ++ todo →
      Triple A (I done) (Process.each f todo) (fun _ => I is) R K from hall is [] rfl
  intro todo
  induction todo with
  | nil =>
    intro done heq
    rw [List.append_nil] at heq
    exact heq ▸ .pure fun _ h => h
  | cons i todo ih =>
    intro done heq
    exact .bind (h done i todo heq) fun _ => ih (done ++ [i]) (by simp [heq])

/-- A loop whose turns all keep the same. -/
theorem Triple.each_keeps {f : ι → Process κ σ ε Unit} {is : List ι}
    (h : ∀ i ∈ is, Triple A P (f i) (fun _ => P) R K) :
    Triple A P (Process.each f is) (fun _ => P) R K :=
  Triple.each (I := fun _ => P) fun done i todo heq => h i (by simp [heq])

/-- A loop that makes a list, of which each element meets a condition. -/
theorem Triple.collect {f : ι → Process κ σ ε α} {is : List ι} {C : ι → α → Prop}
    (h : ∀ i ∈ is, Triple A P (f i) (fun a s => C i a ∧ P s) R K) :
    Triple A P (Process.collect f is) (fun as s => List.Forall₂ C is as ∧ P s) R K := by
  induction is with
  | nil => exact .pure fun s hs => ⟨.nil, hs⟩
  | cons i is ih =>
    obtain ⟨hi, his⟩ := List.forall_mem_cons.mp h
    refine .bind hi fun a => .of_pre (fun _ h => h.1) fun ha => ?_
    refine .bind ((ih his).pre fun _ h => h.2) fun as => .pure fun s ⟨has, hs⟩ => ?_
    exact ⟨.cons ha has, hs⟩

/-! ### Faults that are allowed somewhere -/

def Fails (A : σ → Fate κ → Prop) : Prop := ∃ s cut, A s (.failed cut)

def Kills (A : σ → Fate κ → Prop) : Prop := ∃ s cut, A s (.killed cut)

/-- Nothing happens to any operation. -/
def NoFaults : σ → Fate κ → Prop := fun _ fate => fate = .done

theorem not_noFaults_failed {s : σ} {cut : κ} : ¬ NoFaults s (.failed cut) := by simp [NoFaults]

theorem not_noFaults_killed {s : σ} {cut : κ} : ¬ NoFaults s (.killed cut) := by simp [NoFaults]

theorem not_fails_noFaults : ¬ Fails (NoFaults : σ → Fate κ → Prop) := by
  rintro ⟨s, cut, h⟩
  exact not_noFaults_failed h

/-- Without faults, a process that only they make fail ends as it should. -/
theorem Triple.run (h : Triple NoFaults P p Q (fun _ => Fails (NoFaults : σ → Fate κ → Prop)) K)
    {s : σ} (hs : P s) : ∃ a, (p [] s).ending = .ok a ∧ Q a (p [] s).state := by
  obtain ⟨hmeets, hrest⟩ := h [] s hs (.inl rfl)
  unfold Outcome.Meets at hmeets
  cases hend : (p [] s).ending with
  | ok a => exact ⟨a, rfl, by simpa only [hend] using hmeets⟩
  | raised e => exact absurd (by simpa only [hend] using hmeets) (not_fails_noFaults (σ := σ))
  | killed => exact absurd hend (hrest rfl).2

end Process

end NfsmwRuntime.Library

import Mathlib.Data.List.Basic
import Mathlib.Logic.Function.Basic
import Mathlib.Tactic.SplitIfs
import NfsmwRuntime.Library.Transition

/-!
# Guest destructors

`__cxa_atexit` appends to a table, and `__cxa_finalize` walks the table down from its end
and calls the destructors that are still active. An entry is claimed under the lock; the
lock is dropped while the destructor runs, so that other threads, and the destructor
itself, can register and finalize in the middle of the walk.

The steps of any number of threads are interleaved here, one locked section or one
beginning or end of a destructor at a time. Calls keep a record of what they have invoked.
-/

namespace NfsmwRuntime.Compat

open Library

/-- `struct compat_atexit_entry`; NULL is 0. -/
structure AtexitEntry where
  destructor : UInt32
  argument : UInt32
  dso : UInt32
  active : Bool
  deriving DecidableEq, Repr

def atexitCapacity : Nat := 512

/-- `compat_cxa_atexit`: the table, as far as it is filled, and the result. -/
def compatCxaAtexit (destructor argument dso : UInt32) (entries : List AtexitEntry) :
    List AtexitEntry × Int :=
  if destructor ≠ 0 ∧ entries.length < atexitCapacity then
    (entries ++ [{ destructor, argument, dso, active := true }], 0)
  else (entries, -1)

/-- `compat_cxa_finalize(dso)` calls the destructors of this shared object. -/
def AtexitEntry.isOf (entry : AtexitEntry) (dso : UInt32) : Bool := dso = 0 || entry.dso = dso

/-- Where the walk down from `index` stops to call a destructor. -/
def nextClaim (entries : List AtexitEntry) (dso : UInt32) : Nat → Option (Nat × AtexitEntry)
  | 0 => none
  | index + 1 =>
    match entries[index]?.filter fun entry => entry.active && entry.isOf dso with
    | some entry => some (index, entry)
    | none => nextClaim entries dso index

def claim (entries : List AtexitEntry) (index : Nat) : List AtexitEntry :=
  entries.modify index fun entry => { entry with active := false }

/-- What a call of `compat_cxa_finalize` was asked for, how many entries there were when it
began, and the indices of the entries it has invoked. -/
structure FinalizeCall where
  dso : UInt32
  begun : Nat
  invoked : List Nat
  deriving DecidableEq, Repr

/-- A call between two locked sections: its index, and its copy of the entry there. -/
structure FinalizeFrame where
  call : FinalizeCall
  index : Nat
  entry : AtexitEntry
  deriving DecidableEq, Repr

/-- A destructor called with its argument, and which entry it belongs to. -/
structure Invocation where
  index : Nat
  destructor : UInt32
  argument : UInt32
  deriving DecidableEq, Repr

/-- The table; the frame of each thread that is about to call a destructor; the frames of
the destructors each thread is in, the innermost first; the invocations so far and the
calls that have returned. -/
structure AtexitState (θ : Type) where
  entries : List AtexitEntry
  calling : θ → Option FinalizeFrame
  running : θ → List FinalizeFrame
  invocations : List Invocation
  returned : List FinalizeCall

inductive AtexitStep (θ : Type) where
  | register (thread : θ) (destructor argument dso : UInt32)
  | finalize (thread : θ) (dso : UInt32)
  | invoke (thread : θ)
  | resume (thread : θ)

variable {θ : Type} [DecidableEq θ]

namespace AtexitState

variable (s : AtexitState θ) (t : θ)

/-- The rest of a locked section of `compat_cxa_finalize`: walk down to the next entry and
claim it, or return. -/
def walk (call : FinalizeCall) (index : Nat) : AtexitState θ :=
  match nextClaim s.entries call.dso index with
  | some (index, entry) =>
    { s with
      entries := claim s.entries index
      calling := Function.update s.calling t (some { call, index, entry }) }
  | none => { s with returned := s.returned ++ [call] }

/-- `entry.destructor(entry.argument)` -/
def invoke (frame : FinalizeFrame) : AtexitState θ :=
  let call := { frame.call with invoked := frame.call.invoked ++ [frame.index] }
  { s with
    calling := Function.update s.calling t none
    running := Function.update s.running t ({ frame with call } :: s.running t)
    invocations := s.invocations ++
      [{ index := frame.index, destructor := frame.entry.destructor,
         argument := frame.entry.argument }] }

end AtexitState

/-- The threads between their locked sections. A thread that has claimed an entry calls its
destructor next; otherwise it is in guest code, and may call either function or return from
the destructor it is in. -/
def atexitMachine (θ : Type) [DecidableEq θ] : Machine (AtexitState θ) (AtexitStep θ) where
  step s
    | .register t destructor argument dso =>
      match s.calling t with
      | none =>
        some { s with entries := (compatCxaAtexit destructor argument dso s.entries).1 }
      | some _ => none
    | .finalize t dso =>
      match s.calling t with
      | none => some (s.walk t { dso, begun := s.entries.length, invoked := [] } s.entries.length)
      | some _ => none
    | .invoke t =>
      match s.calling t with
      | some frame => some (s.invoke t frame)
      | none => none
    | .resume t =>
      match s.calling t, s.running t with
      | none, frame :: outer =>
        some ({ s with running := Function.update s.running t outer }.walk t frame.call
          frame.index)
      | _, _ => none

/-- Nothing is registered and no thread is finalizing. -/
def AtexitState.start : AtexitState θ := ⟨[], fun _ => none, fun _ => [], [], []⟩

/-- A call of `compat_cxa_finalize` that has returned or waits for a destructor. -/
def AtexitState.Called (s : AtexitState θ) (call : FinalizeCall) : Prop :=
  call ∈ s.returned ∨ ∃ t, ∃ frame, (s.calling t = some frame ∨ frame ∈ s.running t) ∧
    frame.call = call

/-! ## What every interleaving keeps -/

/-- The table only grows, entries keep what they are, and none becomes active again. -/
structure Later (entries entries' : List AtexitEntry) : Prop where
  length_le : entries.length ≤ entries'.length
  kept : ∀ (i : Nat) (entry : AtexitEntry), entries[i]? = some entry → ∃ active,
    entries'[i]? = some { entry with active } ∧ (active = true → entry.active = true)

/-- A call has invoked entries of its shared object, later ones first and none below
`index`, and from there up it has left no entry active that was there when it began. -/
structure FinalizeCall.WalkedTo (call : FinalizeCall) (entries : List AtexitEntry)
    (index : Nat) : Prop where
  decreasing : call.invoked.Pairwise (· > ·)
  above : ∀ i ∈ call.invoked, index ≤ i
  isOf : ∀ i ∈ call.invoked, ∃ entry, entries[i]? = some entry ∧ entry.isOf call.dso
  begun_le : call.begun ≤ entries.length
  done : ∀ (i : Nat) (entry : AtexitEntry), index ≤ i → i < call.begun →
    entries[i]? = some entry → entry.isOf call.dso → entry.active = false

/-- The entry that a frame is about to invoke is claimed and has not been invoked. -/
structure FinalizeFrame.Claimed (frame : FinalizeFrame) (entries : List AtexitEntry)
    (invocations : List Invocation) : Prop where
  entry : entries[frame.index]? = some { frame.entry with active := false }
  isOf : frame.entry.isOf frame.call.dso
  fresh : ∀ invocation ∈ invocations, invocation.index ≠ frame.index

structure AtexitState.Sound (s : AtexitState θ) : Prop where
  returned : ∀ call ∈ s.returned, call.WalkedTo s.entries 0
  running : ∀ t, ∀ frame ∈ s.running t, frame.call.WalkedTo s.entries frame.index
  calling : ∀ t frame, s.calling t = some frame →
    frame.call.WalkedTo s.entries (frame.index + 1) ∧ frame.Claimed s.entries s.invocations
  exclusive : ∀ t u frame frame', s.calling t = some frame → s.calling u = some frame' →
    frame.index = frame'.index → t = u
  once : (s.invocations.map Invocation.index).Nodup
  invoked : ∀ invocation ∈ s.invocations, ∃ entry, s.entries[invocation.index]? = some entry ∧
    entry.active = false ∧ entry.destructor = invocation.destructor ∧
    entry.argument = invocation.argument

variable {s s' : AtexitState θ} {t : θ} {entries entries' : List AtexitEntry}
  {call : FinalizeCall} {dso : UInt32} {index : Nat}

theorem nextClaim_some {i : Nat} {entry : AtexitEntry}
    (h : nextClaim entries dso index = some (i, entry)) :
    i < index ∧ entries[i]? = some entry ∧ entry.active = true ∧ entry.isOf dso = true ∧
      ∀ j e, i < j → j < index → entries[j]? = some e → e.isOf dso → e.active = false := by
  induction index with
  | zero => cases h
  | succ index ih => grind [nextClaim, Option.filter_eq_some_iff, Option.filter_eq_none_iff]

theorem nextClaim_none (h : nextClaim entries dso index = none) :
    ∀ j e, j < index → entries[j]? = some e → e.isOf dso → e.active = false := by
  induction index with
  | zero => intro j e hj; cases hj
  | succ index ih => grind [nextClaim, Option.filter_eq_none_iff]

theorem later_append (added : List AtexitEntry) : Later entries (entries ++ added) where
  length_le := by simp
  kept i entry h := by
    refine ⟨entry.active, ?_, id⟩
    rw [List.getElem?_append_left (List.getElem?_eq_some_iff.mp h).1]
    exact h

theorem later_claim (index : Nat) : Later entries (claim entries index) where
  length_le := by simp [claim]
  kept i entry h := by
    refine ⟨entry.active && i ≠ index, ?_, by simp +contextual⟩
    by_cases hi : index = i
    · simp [claim, h, hi]
    · simp [claim, h, hi, Ne.symm hi]

theorem later_register (destructor argument dso : UInt32) :
    Later entries (compatCxaAtexit destructor argument dso entries).1 := by
  unfold compatCxaAtexit
  split_ifs
  · exact later_append _
  · exact ⟨Nat.le_refl _, fun i entry h => ⟨entry.active, h, id⟩⟩

theorem FinalizeCall.WalkedTo.later (h : call.WalkedTo entries index)
    (hlater : Later entries entries') : call.WalkedTo entries' index where
  decreasing := h.decreasing
  above := h.above
  isOf i hi := by
    obtain ⟨entry, hentry, hof⟩ := h.isOf i hi
    obtain ⟨active, hentry', -⟩ := hlater.kept i entry hentry
    exact ⟨_, hentry', hof⟩
  begun_le := Nat.le_trans h.begun_le hlater.length_le
  done i entry hindex hbegun hentry' hof := by
    have hi : i < entries.length := Nat.lt_of_lt_of_le hbegun h.begun_le
    obtain ⟨active, hkept, hactive⟩ := hlater.kept i _ (List.getElem?_eq_getElem hi)
    obtain rfl := Option.some.inj (hentry'.symm.trans hkept)
    have hdone := h.done i _ hindex hbegun (List.getElem?_eq_getElem hi) hof
    grind

theorem FinalizeCall.WalkedTo.claim {i : Nat} {entry : AtexitEntry}
    (h : call.WalkedTo entries index)
    (hclaim : nextClaim entries call.dso index = some (i, entry)) :
    call.WalkedTo (claim entries i) (i + 1) := by
  obtain ⟨hlt, -, -, -, hskipped⟩ := nextClaim_some hclaim
  have hlater := h.later (later_claim i)
  refine ⟨h.decreasing, fun j hj => ?_, hlater.isOf, hlater.begun_le,
    fun j e hij hbegun he hof => ?_⟩
  · exact Nat.lt_of_lt_of_le hlt (h.above j hj)
  · by_cases hj : j < index
    · have hold : entries[j]? = some e := by
        simpa [Compat.claim, List.getElem?_modify, Nat.ne_of_lt hij] using he
      exact hskipped j e hij hj hold hof
    · exact hlater.done j e (Nat.not_lt.mp hj) hbegun he hof

theorem FinalizeCall.WalkedTo.finish (h : call.WalkedTo entries index)
    (hnone : nextClaim entries call.dso index = none) : call.WalkedTo entries 0 where
  decreasing := h.decreasing
  above _ _ := Nat.zero_le _
  isOf := h.isOf
  begun_le := h.begun_le
  done j e _ hbegun he hof := by
    by_cases hj : j < index
    · exact nextClaim_none hnone j e hj he hof
    · exact h.done j e (Nat.not_lt.mp hj) hbegun he hof

theorem FinalizeCall.WalkedTo.invoke {entry : AtexitEntry}
    (h : call.WalkedTo entries (index + 1)) (hentry : entries[index]? = some entry)
    (hactive : entry.active = false) (hof : entry.isOf call.dso) :
    FinalizeCall.WalkedTo { call with invoked := call.invoked ++ [index] } entries index where
  decreasing := List.pairwise_append.mpr ⟨h.decreasing, List.pairwise_singleton _ _,
    fun i hi j hj => List.mem_singleton.mp hj ▸ h.above i hi⟩
  above i hi := by
    rcases List.mem_append.mp hi with hi | hi
    · exact Nat.le_of_lt (h.above i hi)
    · exact Nat.le_of_eq (List.mem_singleton.mp hi).symm
  isOf i hi := by
    rcases List.mem_append.mp hi with hi | hi
    · exact h.isOf i hi
    · obtain rfl := List.mem_singleton.mp hi
      exact ⟨entry, hentry, hof⟩
  begun_le := h.begun_le
  done i e hi hbegun he hofe := by
    by_cases hne : i = index
    · subst hne
      obtain rfl := Option.some.inj (hentry.symm.trans he)
      exact hactive
    · exact h.done i e (Nat.lt_of_le_of_ne hi (Ne.symm hne)) hbegun he hofe

omit [DecidableEq θ] in
/-- A change of the table alone keeps everything. -/
theorem AtexitState.Sound.later (h : s.Sound) (hlater : Later s.entries entries) :
    AtexitState.Sound { s with entries } where
  returned call hcall := (h.returned call hcall).later hlater
  running u frame hframe := (h.running u frame hframe).later hlater
  calling u frame hframe := by
    obtain ⟨hwalked, hentry, hof, hfresh⟩ := h.calling u frame hframe
    obtain ⟨active, hkept, hactive⟩ := hlater.kept _ _ hentry
    refine ⟨hwalked.later hlater, ?_, hof, hfresh⟩
    cases active with
    | false => exact hkept
    | true => exact nomatch hactive rfl
  exclusive := h.exclusive
  once := h.once
  invoked invocation hinvocation := by
    obtain ⟨entry, hentry, hinactive, hdestructor, hargument⟩ := h.invoked invocation hinvocation
    obtain ⟨active, hkept, hactive⟩ := hlater.kept _ _ hentry
    refine ⟨_, hkept, ?_, hdestructor, hargument⟩
    cases active with
    | false => rfl
    | true => exact absurd (hactive rfl) (by simp [hinactive])

/-- The entry that a walk stops at was active, so no thread has claimed it before. -/
theorem AtexitState.Sound.walk (h : s.Sound) (hcall : call.WalkedTo s.entries index) :
    (s.walk t call index).Sound := by
  unfold AtexitState.walk
  split
  next i entry hclaim =>
    obtain ⟨hlt, hentry, hactive, hof, -⟩ := nextClaim_some hclaim
    have hsound := h.later (later_claim i)
    have hunclaimed : ∀ u frame, s.calling u = some frame → frame.index ≠ i := by
      rintro u frame hframe rfl
      have hinactive := (h.calling u frame hframe).2.entry
      grind
    have hfresh : ∀ invocation ∈ s.invocations, invocation.index ≠ i := by
      rintro invocation hinvocation rfl
      obtain ⟨e, he, hinactive, -, -⟩ := h.invoked invocation hinvocation
      grind
    refine ⟨hsound.returned, hsound.running, fun u frame hframe => ?_,
      fun u v frame frame' hframe hframe' hsame => ?_, hsound.once, hsound.invoked⟩
    · by_cases hu : u = t
      · subst hu
        simp only [Function.update_self, Option.some.injEq] at hframe
        subst hframe
        exact ⟨hcall.claim hclaim, by simp [claim, hentry], hof, hfresh⟩
      · simp only [Function.update_of_ne hu] at hframe
        exact hsound.calling u frame hframe
    · have hexclusive := h.exclusive u v frame frame'
      grind [Function.update_apply]
  next hnone =>
    refine ⟨fun call' hcall' => ?_, h.running, h.calling, h.exclusive, h.once, h.invoked⟩
    rcases List.mem_append.mp hcall' with hold | hnew
    · exact h.returned call' hold
    · obtain rfl := List.mem_singleton.mp hnew
      exact hcall.finish hnone

theorem AtexitState.Sound.invoke {frame : FinalizeFrame} (h : s.Sound)
    (hcalling : s.calling t = some frame) : (s.invoke t frame).Sound := by
  obtain ⟨hwalked, hentry, hof, hfresh⟩ := h.calling t frame hcalling
  refine ⟨h.returned, fun u frame' hframe' => ?_, fun u frame' hframe' => ?_,
    fun u v frame' frame'' hframe' hframe'' hsame => ?_, ?_, fun invocation hinvocation => ?_⟩
  · by_cases hu : u = t
    · subst hu
      simp only [AtexitState.invoke, Function.update_self, List.mem_cons] at hframe'
      obtain rfl | hold := hframe'
      · exact hwalked.invoke hentry rfl hof
      · exact h.running u frame' hold
    · simp only [AtexitState.invoke, Function.update_of_ne hu] at hframe'
      exact h.running u frame' hframe'
  · by_cases hu : u = t
    · subst hu
      simp [AtexitState.invoke] at hframe'
    · simp only [AtexitState.invoke, Function.update_of_ne hu] at hframe'
      obtain ⟨hwalked', hentry', hof', hfresh'⟩ := h.calling u frame' hframe'
      refine ⟨hwalked', hentry', hof', fun invocation hinvocation => ?_⟩
      rcases List.mem_append.mp hinvocation with hold | hnew
      · exact hfresh' invocation hold
      · obtain rfl := List.mem_singleton.mp hnew
        exact fun hsame => hu (h.exclusive u t frame' frame hframe' hcalling hsame.symm)
  · have hexclusive := h.exclusive u v frame' frame''
    simp only [AtexitState.invoke] at hframe' hframe''
    grind [Function.update_apply]
  · simp only [AtexitState.invoke, List.map_append, List.map_cons, List.map_nil]
    refine List.nodup_append.mpr ⟨h.once, by simp, fun i hi j hj => ?_⟩
    obtain ⟨invocation, hinvocation, rfl⟩ := List.mem_map.mp hi
    exact List.mem_singleton.mp hj ▸ hfresh invocation hinvocation
  · rcases List.mem_append.mp hinvocation with hold | hnew
    · exact h.invoked invocation hold
    · obtain rfl := List.mem_singleton.mp hnew
      exact ⟨_, hentry, rfl, rfl, rfl⟩

theorem AtexitState.Sound.step {e : AtexitStep θ} (h : s.Sound)
    (hstep : (atexitMachine θ).step s e = some s') : s'.Sound := by
  cases e with
  | register t destructor argument dso =>
    simp only [atexitMachine] at hstep
    split at hstep
    · obtain rfl := Option.some.inj hstep
      exact h.later (later_register destructor argument dso)
    · cases hstep
  | finalize t dso =>
    simp only [atexitMachine] at hstep
    split at hstep
    · obtain rfl := Option.some.inj hstep
      refine h.walk ⟨.nil, by simp, by simp, Nat.le_refl _, fun i e hi hbegun => ?_⟩
      exact absurd hbegun (Nat.not_lt.mpr hi)
    · cases hstep
  | invoke t =>
    simp only [atexitMachine] at hstep
    split at hstep
    next frame hcalling =>
      obtain rfl := Option.some.inj hstep
      exact h.invoke hcalling
    · cases hstep
  | resume t =>
    simp only [atexitMachine] at hstep
    split at hstep
    next frame outer hcalling hrunning =>
      obtain rfl := Option.some.inj hstep
      refine AtexitState.Sound.walk (s := { s with running := Function.update s.running t outer })
        ⟨h.returned, fun u frame' hframe' => ?_, h.calling, h.exclusive, h.once, h.invoked⟩
        (h.running t frame (hrunning ▸ List.mem_cons_self))
      by_cases hu : u = t
      · subst hu
        simp only [Function.update_self] at hframe'
        exact h.running u frame' (hrunning ▸ List.mem_cons_of_mem _ hframe')
      · simp only [Function.update_of_ne hu] at hframe'
        exact h.running u frame' hframe'
    · cases hstep

omit [DecidableEq θ] in
theorem AtexitState.sound_start : (AtexitState.start : AtexitState θ).Sound where
  returned _ h := nomatch h
  running _ _ h := nomatch h
  calling _ _ h := nomatch h
  exclusive _ _ _ _ h := nomatch h
  once := List.nodup_nil
  invoked _ h := nomatch h

/-- No destructor is invoked twice. Each call invokes entries of its shared object, later
ones first, and when it returns no entry that was there when it began is active. -/
theorem destructors_invoked_once {steps : List (AtexitStep θ)}
    (hrun : (atexitMachine θ).run .start steps = some s) :
    (s.invocations.map Invocation.index).Nodup ∧
    (∀ call, s.Called call → call.invoked.Pairwise (· > ·) ∧
      ∀ i ∈ call.invoked, ∃ entry, s.entries[i]? = some entry ∧ entry.isOf call.dso) ∧
    ∀ call ∈ s.returned, ∀ i entry, i < call.begun → s.entries[i]? = some entry →
      entry.isOf call.dso → entry.active = false := by
  have h : s.Sound := Machine.invariant (fun _ _ _ h hstep => h.step hstep)
    AtexitState.sound_start hrun
  refine ⟨h.once, fun call hcalled => ?_, fun call hcall i entry hbegun hentry hof =>
    (h.returned call hcall).done i entry (Nat.zero_le _) hbegun hentry hof⟩
  rcases hcalled with hreturned | ⟨u, frame, hcalling | hrunning, rfl⟩
  · exact ⟨(h.returned call hreturned).decreasing, (h.returned call hreturned).isOf⟩
  · exact ⟨(h.calling u frame hcalling).1.decreasing, (h.calling u frame hcalling).1.isOf⟩
  · exact ⟨(h.running u frame hrunning).decreasing, (h.running u frame hrunning).isOf⟩

/-- A destructor registers and finalizes while another thread finalizes too. -/
theorem destructors_invoked_once_nested : ∃ s,
    (atexitMachine Bool).run .start [.register false 1 10 7, .register false 2 20 8,
      .register true 3 30 7, .finalize false 0, .invoke false, .register false 4 40 7,
      .finalize true 7, .finalize false 8, .invoke true, .invoke false, .resume false,
      .resume true, .invoke true, .resume true, .resume false] = some s ∧
    s.invocations.map Invocation.index = [2, 3, 1, 0] ∧
    s.returned = [⟨8, 4, [1]⟩, ⟨7, 4, [3, 0]⟩, ⟨0, 3, [2]⟩] ∧
    ∀ call ∈ s.returned, ∀ i entry, i < call.begun → s.entries[i]? = some entry →
      entry.isOf call.dso → entry.active = false := by
  refine ⟨_, rfl, rfl, rfl, (@destructors_invoked_once Bool _ _ [.register false 1 10 7,
    .register false 2 20 8, .register true 3 30 7, .finalize false 0, .invoke false,
    .register false 4 40 7, .finalize true 7, .finalize false 8, .invoke true, .invoke false,
    .resume false, .resume true, .invoke true, .resume true, .resume false] rfl).2.2⟩

/-! ## One thread alone -/

/-- The arguments of a call of `__cxa_atexit`. -/
structure Registration where
  destructor : UInt32
  argument : UInt32
  dso : UInt32

def registerAll (registrations : List Registration) (entries : List AtexitEntry) :
    List AtexitEntry :=
  registrations.foldl (fun entries r =>
    (compatCxaAtexit r.destructor r.argument r.dso entries).1) entries

/-- The loop of `compat_cxa_finalize` from `index` down, while no other thread runs: the
table afterwards and the indices of the entries invoked. `body i` is what the destructor of
entry `i` registers when it runs. -/
def finalizeBelow (body : Nat → List Registration) (dso : UInt32) :
    Nat → List AtexitEntry → List AtexitEntry × List Nat
  | 0, entries => (entries, [])
  | index + 1, entries =>
    match entries[index]?.filter fun entry => entry.active && entry.isOf dso with
    | some _ =>
      let (after, invoked) :=
        finalizeBelow body dso index (registerAll (body index) (claim entries index))
      (after, index :: invoked)
    | none => finalizeBelow body dso index entries

def compatCxaFinalize (body : Nat → List Registration) (dso : UInt32)
    (entries : List AtexitEntry) : List AtexitEntry × List Nat :=
  finalizeBelow body dso entries.length entries

def nfsmwCompatFinalize (body : Nat → List Registration) (entries : List AtexitEntry) :
    List AtexitEntry × List Nat :=
  compatCxaFinalize body 0 entries

/-- No entry is active afterwards: each has been invoked, or was inactive before. -/
def Completed (body : Nat → List Registration) (entries : List AtexitEntry) : Prop :=
  (∀ entry ∈ (nfsmwCompatFinalize body entries).1, entry.active = false) ∧
  ∀ i < (nfsmwCompatFinalize body entries).1.length,
    i ∈ (nfsmwCompatFinalize body entries).2 ∨ ∃ entry, entries[i]? = some entry ∧
      entry.active = false

/-- The registrations before the call and those of the destructors that are active. -/
def registrations (body : Nat → List Registration) (entries : List AtexitEntry) : Nat :=
  entries.length +
    (entries.zipIdx.flatMap fun (entry, i) => if entry.active then body i else []).length

variable {body : Nat → List Registration}

theorem finalizeBelow_eq :
    finalizeBelow body dso index entries =
      match nextClaim entries dso index with
      | some (i, _) =>
        let (after, invoked) := finalizeBelow body dso i (registerAll (body i) (claim entries i))
        (after, i :: invoked)
      | none => (entries, []) := by
  induction index with
  | zero => rfl
  | succ index ih =>
    rw [finalizeBelow, nextClaim]
    split
    · rfl
    · exact ih

theorem run_register (hcalling : s.calling t = none) (registrations : List Registration) :
    (atexitMachine θ).run s (registrations.map fun r =>
        .register t r.destructor r.argument r.dso) =
      some { s with entries := registerAll registrations s.entries } := by
  induction registrations generalizing s with
  | nil => rfl
  | cons r rest ih =>
    simp only [List.map_cons, Machine.run_cons, atexitMachine, hcalling, Option.bind_some]
    exact ih hcalling

/-- One thread that lets its destructors register walks as the loop does. -/
theorem run_walk (body : Nat → List Registration) (call : FinalizeCall) (index : Nat)
    (hcalling : s.calling t = none) : ∃ steps s',
    (atexitMachine θ).run (s.walk t call index) steps = some s' ∧ s'.calling t = none ∧
      s'.running t = s.running t ∧
      s'.entries = (finalizeBelow body call.dso index s.entries).1 ∧
      s'.returned = s.returned ++ [{ call with
        invoked := call.invoked ++ (finalizeBelow body call.dso index s.entries).2 }] := by
  induction index using Nat.strongRecOn generalizing s call with
  | _ index ih =>
    rw [finalizeBelow_eq, AtexitState.walk]
    split
    next i entry hclaim =>
      -- the destructor runs: it is invoked, it registers, and the walk goes on below it
      let claimed : AtexitState θ :=
        { s with
          entries := claim s.entries i
          calling := Function.update s.calling t (some { call, index := i, entry }) }
      let invoked := claimed.invoke t { call, index := i, entry }
      let registered := { invoked with entries := registerAll (body i) (claim s.entries i) }
      have hinvoke : (atexitMachine θ).step claimed (.invoke t) = some invoked := by
        simp [atexitMachine, claimed, invoked]
      have hregister := run_register (s := invoked) (t := t)
        (by simp [invoked, AtexitState.invoke]) (body i)
      have hresume : (atexitMachine θ).step registered (.resume t) =
          some (AtexitState.walk
            { registered with running := Function.update registered.running t (s.running t) } t
            { call with invoked := call.invoked ++ [i] } i) := by
        simp [atexitMachine, registered, invoked, claimed, AtexitState.invoke]
      obtain ⟨steps, s', hrun, hcalling', hrunning, hentries, hreturned⟩ :=
        ih i (nextClaim_some hclaim).1 { call with invoked := call.invoked ++ [i] }
          (s := { registered with running := Function.update registered.running t (s.running t) })
          (by simp [registered, invoked, AtexitState.invoke])
      refine ⟨.invoke t :: ((body i).map fun r => .register t r.destructor r.argument r.dso) ++
        .resume t :: steps, s', ?_, hcalling', by simpa using hrunning, hentries, ?_⟩
      · rw [List.cons_append, Machine.run_cons, hinvoke, Option.bind_some, Machine.run_append,
          hregister, Option.bind_some, Machine.run_cons]
        refine Eq.trans ?_ hrun
        exact congrArg (fun m => m.bind fun n => (atexitMachine θ).run n steps) hresume
      · rw [hreturned]
        simp [registered, invoked, claimed, AtexitState.invoke]
    next hnone => exact ⟨[], _, rfl, hcalling, rfl, rfl, by simp⟩

/-- What the sequential function computes is a run of the machine. -/
theorem run_finalize (body : Nat → List Registration) (hcalling : s.calling t = none) :
    ∃ steps s',
    (atexitMachine θ).run s (.finalize t dso :: steps) = some s' ∧
      s'.entries = (compatCxaFinalize body dso s.entries).1 ∧
      s'.returned = s.returned ++
        [⟨dso, s.entries.length, (compatCxaFinalize body dso s.entries).2⟩] := by
  obtain ⟨steps, s', hrun, -, -, hentries, hreturned⟩ :=
    run_walk body ⟨dso, s.entries.length, []⟩ s.entries.length hcalling
  refine ⟨steps, s', ?_, hentries, hreturned⟩
  simp only [Machine.run_cons, atexitMachine, hcalling, Option.bind_some]
  exact hrun

/-! ## What is left active -/

theorem register_fst (r : Registration) :
    (compatCxaAtexit r.destructor r.argument r.dso entries).1 = entries ++
      if r.destructor ≠ 0 ∧ entries.length < atexitCapacity then
        [⟨r.destructor, r.argument, r.dso, true⟩] else [] := by
  unfold compatCxaAtexit
  split_ifs <;> simp

/-- What is registered is active, and there is something if there was room and anything to
register. -/
theorem registerAll_eq (registrations : List Registration) (entries : List AtexitEntry) :
    ∃ added,
    registerAll registrations entries = entries ++ added ∧ (∀ entry ∈ added, entry.active) ∧
    (added = [] ↔ entries.length < atexitCapacity → ∀ r ∈ registrations, r.destructor = 0) := by
  induction registrations generalizing entries with
  | nil => exact ⟨[], by simp [registerAll], by simp, by simp⟩
  | cons r rest ih =>
    obtain ⟨added, hadded, hactive, hnil⟩ :=
      ih (compatCxaAtexit r.destructor r.argument r.dso entries).1
    have hrest : registerAll (r :: rest) entries =
        registerAll rest (compatCxaAtexit r.destructor r.argument r.dso entries).1 := rfl
    rw [hrest, hadded, register_fst, List.append_assoc]
    rw [register_fst] at hnil
    exact ⟨_, rfl, by grind, by grind⟩

@[grind =] theorem getElem?_claim {i : Nat} :
    (claim entries index)[i]? =
      if index = i then entries[i]?.map fun entry => { entry with active := false }
      else entries[i]? := by
  simp only [claim, List.getElem?_modify]
  split_ifs <;> simp

@[simp, grind =] theorem length_claim : (claim entries index).length = entries.length := by
  simp [claim]

/-- From `index` up the loop leaves the table as it is; what comes on top is active. -/
theorem finalizeBelow_kept {j : Nat} {entry : AtexitEntry} (hj : index ≤ j)
    (h : (finalizeBelow body dso index entries).1[j]? = some entry) :
    entries[j]? = some entry ∨ entries.length ≤ j ∧ entry.active = true := by
  fun_induction finalizeBelow body dso index entries with
  | case1 entries => exact Or.inl h
  | case2 index entries _ hclaim after invoked hafter ih =>
    obtain ⟨added, hadded, hactive, -⟩ :=
      registerAll_eq (body index) (claim entries index)
    rw [hafter, hadded] at ih
    rcases ih (Nat.le_of_succ_le hj) h with hkept | htop
    · grind
    · grind
  | case3 index entries hnone ih => exact ih (Nat.le_of_succ_le hj) h

/-- Below `index` no entry of the shared object stays active. -/
theorem finalizeBelow_inactive {j : Nat} {entry : AtexitEntry} (hj : j < index)
    (hindex : index ≤ entries.length) (hof : entry.isOf dso)
    (h : (finalizeBelow body dso index entries).1[j]? = some entry) : entry.active = false := by
  fun_induction finalizeBelow body dso index entries with
  | case1 entries => cases hj
  | case2 index entries _ hclaim after invoked hafter ih =>
    obtain ⟨added, hadded, -⟩ := registerAll_eq (body index) (claim entries index)
    by_cases hlast : j = index
    · have hafter' : (finalizeBelow body dso index
          (registerAll (body index) (claim entries index))).1[j]? = some entry := by
        rw [hafter]
        exact h
      have hkept := finalizeBelow_kept (Nat.le_of_eq hlast.symm) hafter'
      grind
    · grind
  | case3 index entries hnone ih =>
    by_cases hlast : j = index
    · have hkept := finalizeBelow_kept (Nat.le_of_eq hlast.symm) h
      grind [Option.filter_eq_none_iff]
    · grind

/-- The table grows exactly if there is room and a destructor registers another. -/
theorem length_finalizeBelow (hindex : index ≤ entries.length) :
    entries.length ≤ (finalizeBelow body dso index entries).1.length ∧
    ((finalizeBelow body dso index entries).1.length = entries.length ↔
      entries.length < atexitCapacity → ∀ i < index, ∀ entry, entries[i]? = some entry →
        entry.active → entry.isOf dso → ∀ r ∈ body i, r.destructor = 0) := by
  fun_induction finalizeBelow body dso index entries with
  | case1 entries => simp
  | case2 index entries entry hclaim after invoked hafter ih =>
    obtain ⟨added, hadded, -, hnil⟩ := registerAll_eq (body index) (claim entries index)
    obtain ⟨hentry, hmatch⟩ := Option.filter_eq_some_iff.mp hclaim
    rw [hafter, hadded] at ih
    simp only [List.length_append, length_claim] at ih hnil
    obtain ⟨hle, hiff⟩ := ih (by omega)
    refine ⟨Nat.le_trans (Nat.le_add_right _ _) hle, ?_⟩
    by_cases hadd : added = []
    · subst hadd
      have hbody := hnil.mp rfl
      grind
    · have hroom : entries.length < atexitCapacity := by grind
      have hpos := List.length_pos_iff.mpr hadd
      grind
  | case3 index entries hnone ih =>
    grind [Option.filter_eq_none_iff]

theorem mem_finalizeBelow {i : Nat} (hindex : index ≤ entries.length) :
    i ∈ (finalizeBelow body dso index entries).2 ↔
      i < index ∧ ∃ entry, entries[i]? = some entry ∧ entry.active ∧ entry.isOf dso := by
  fun_induction finalizeBelow body dso index entries with
  | case1 entries => simp
  | case2 index entries entry hclaim after invoked hafter ih =>
    obtain ⟨added, hadded, -⟩ := registerAll_eq (body index) (claim entries index)
    grind [Option.filter_eq_some_iff]
  | case3 index entries hnone ih => grind [Option.filter_eq_none_iff]

/-- There is room for what an active entry registers. -/
theorem length_lt_of_active {i : Nat} {entry : AtexitEntry} {r : Registration}
    (htotal : registrations body entries ≤ atexitCapacity) (hentry : entries[i]? = some entry)
    (hactive : entry.active) (hr : r ∈ body i) : entries.length < atexitCapacity := by
  have hmem : r ∈ entries.zipIdx.flatMap fun (entry, i) => if entry.active then body i else [] :=
    List.mem_flatMap.mpr ⟨(entry, i), List.mk_mem_zipIdx_iff_getElem?.mpr hentry, by simp [*]⟩
  have hpos := List.length_pos_of_mem hmem
  unfold registrations at htotal
  omega

/-- With room for all of them, every destructor has run when the call returns exactly if no
active one registers another. -/
theorem finalize_complete_iff (htotal : registrations body entries ≤ atexitCapacity) :
    Completed body entries ↔ ∀ i entry, entries[i]? = some entry → entry.active →
      ∀ r ∈ body i, r.destructor = 0 := by
  have hof : ∀ entry : AtexitEntry, entry.isOf 0 := fun _ => rfl
  obtain ⟨hle, hlength⟩ := @length_finalizeBelow entries 0 entries.length body (Nat.le_refl _)
  constructor
  · rintro ⟨hinactive, -⟩ i entry hentry hactive r hr
    have hsame : (finalizeBelow body 0 entries.length entries).1.length = entries.length := by
      by_contra hne
      have hlt := Nat.lt_of_le_of_ne hle (Ne.symm hne)
      have hlast := List.getElem?_eq_getElem hlt
      -- what was registered first on top is active
      rcases finalizeBelow_kept (Nat.le_refl _) hlast with hkept | ⟨-, htop⟩
      · simp at hkept
      · exact absurd (hinactive _ (List.getElem_mem hlt)) (by simp [htop])
    exact hlength.mp hsame (length_lt_of_active htotal hentry hactive hr) i
      (List.getElem?_eq_some_iff.mp hentry).1 entry hentry hactive (hof entry) r hr
  · intro hnone
    have hsame := hlength.mpr fun _ i _ entry hentry hactive _ => hnone i entry hentry hactive
    refine ⟨fun entry hentry => ?_, fun i hi => ?_⟩
    · obtain ⟨i, hi, rfl⟩ := List.getElem_of_mem hentry
      exact finalizeBelow_inactive (hsame ▸ hi) (Nat.le_refl _) (hof _)
        (List.getElem?_eq_getElem hi)
    · have hlt : i < entries.length := hsame ▸ hi
      by_cases hactive : entries[i].active
      · exact Or.inl ((mem_finalizeBelow (Nat.le_refl _)).mpr
          ⟨hlt, _, List.getElem?_eq_getElem hlt, hactive, hof _⟩)
      · exact Or.inr ⟨_, List.getElem?_eq_getElem hlt, by simpa using hactive⟩

/-- Of three destructors one has already run, whose body would register another, and one
registers a null function. -/
theorem finalize_complete_quiet :
    Completed (fun i => if i = 0 then [⟨0, 40, 7⟩] else if i = 1 then [⟨4, 50, 7⟩] else [])
      [⟨1, 10, 7, true⟩, ⟨2, 20, 8, false⟩, ⟨3, 30, 7, true⟩] := by
  refine (finalize_complete_iff (by decide)).mpr fun i entry hentry hactive r hr => ?_
  by_cases hfirst : i = 0
  · simp_all
  · have hsecond : i = 1 := by
      by_contra hne
      simp [hfirst, hne] at hr
    subst hsecond
    grind

/-- A destructor that registers another leaves it active. -/
theorem reregistered_left_active :
    (nfsmwCompatFinalize (fun i => if i = 0 then [⟨2, 20, 7⟩] else [])
        (registerAll [⟨1, 10, 7⟩] [])) = ([⟨1, 10, 7, false⟩, ⟨2, 20, 7, true⟩], [0]) ∧
      ¬ ∀ body entries, registrations body entries ≤ atexitCapacity → Completed body entries := by
  refine ⟨rfl, fun h => ?_⟩
  have hcompleted := h (fun i => if i = 0 then [⟨2, 20, 7⟩] else []) [⟨1, 10, 7, true⟩] (by decide)
  exact absurd (hcompleted.1 ⟨2, 20, 7, true⟩ (by decide)) (by decide)

end NfsmwRuntime.Compat

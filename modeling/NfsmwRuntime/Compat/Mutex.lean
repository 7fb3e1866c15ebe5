import Mathlib.Logic.Function.Basic
import Mathlib.Tactic.SplitIfs
import NfsmwRuntime.Library.Transition

/-!
# Lazily created mutexes

A guest mutex is one word. Its static initialisers are small numbers; the first lock
allocates a host mutex and publishes its address in the word, and from then on the word
is that address. Reading the word, creating the host mutex, publishing it and acting on
it are separate steps, and nothing keeps another thread from taking its steps in between.

The steps of any number of threads on one guest mutex are interleaved here. A host mutex
behaves as glibc's: one owner, a count for the recursive kind, an error for the
error-checking kind.
-/

namespace NfsmwRuntime.Compat

open Library

inductive MutexKind where
  | normal | recursive | errorCheck
  deriving DecidableEq, Repr

/-- A `pthread_mutex_t` of the host. -/
structure HostMutex (θ : Type) where
  kind : MutexKind
  owner : Option θ
  count : Nat

inductive MutexResult where
  | ok | enomem | einval | ebusy | edeadlk | eperm
  deriving DecidableEq, Repr

inductive MutexCall where
  | lock | tryLock | unlock
  deriving DecidableEq, Repr

/-- Where a thread is in its call. -/
inductive Control where
  | returned (result : MutexResult)
  | entered (call : MutexCall)
  | creating (call : MutexCall) (raw : Nat)
  | publishing (call : MutexCall) (host : Nat)
  | acting (call : MutexCall) (host : Nat)
  deriving DecidableEq, Repr

/-- The guest's word, the host mutexes by address, and the threads. -/
structure MutexState (θ : Type) where
  slot : Nat
  hosts : Nat → Option (HostMutex θ)
  control : θ → Control

inductive MutexStep (θ : Type) where
  | call (thread : θ) (call : MutexCall)
  | read (thread : θ)
  | create (thread : θ) (allocated : Option Nat)
  | publish (thread : θ)
  | act (thread : θ)

/-- Words above this are addresses of host mutexes. -/
def staticLimit : Nat := 0x0000ffff

/-- The kind that a static initialiser asks for; `type` is that of the attributes, which
a lock does not have. -/
def kindFromSlot (raw : Nat) (type : MutexKind) : MutexKind :=
  if raw = 0 then type
  else if (raw >>> 14) &&& 3 = 1 then .recursive
  else if (raw >>> 14) &&& 3 = 2 then .errorCheck
  else type

variable {θ : Type} [DecidableEq θ]

namespace HostMutex

variable (m : HostMutex θ) (t : θ)

/-- `pthread_mutex_lock`; `none` is a thread that waits. -/
def lock : Option (HostMutex θ × MutexResult) :=
  match m.owner with
  | none => some ({ m with owner := some t, count := 1 }, .ok)
  | some owner =>
    if owner = t then
      match m.kind with
      | .normal => none
      | .recursive => some ({ m with count := m.count + 1 }, .ok)
      | .errorCheck => some (m, .edeadlk)
    else none

def tryLock : HostMutex θ × MutexResult :=
  match m.owner with
  | none => ({ m with owner := some t, count := 1 }, .ok)
  | some owner =>
    if owner = t ∧ m.kind = .recursive then ({ m with count := m.count + 1 }, .ok)
    else (m, .ebusy)

/-- A normal mutex does not ask who unlocks it. -/
def unlock : HostMutex θ × MutexResult :=
  if m.kind = .normal then ({ m with owner := none, count := 0 }, .ok)
  else if m.owner = some t then
    if m.count ≤ 1 then ({ m with owner := none, count := 0 }, .ok)
    else ({ m with count := m.count - 1 }, .ok)
  else (m, .eperm)

def perform : MutexCall → Option (HostMutex θ × MutexResult)
  | .lock => m.lock t
  | .tryLock => some (m.tryLock t)
  | .unlock => some (m.unlock t)

end HostMutex

namespace MutexState

variable (s : MutexState θ) (t : θ)

def goto (c : Control) : MutexState θ := { s with control := Function.update s.control t c }

/-- What `compat_mutex_get` does with the word it has read. -/
def afterRead (call : MutexCall) : Control :=
  if s.slot > staticLimit then .acting call s.slot
  else if call = .unlock then .returned .einval
  else .creating call s.slot

/-- `calloc` and `pthread_mutex_init`: memory that no mutex has, above the static words. -/
def created (call : MutexCall) (raw host : Nat) : Option (MutexState θ) :=
  if (s.hosts host).isNone ∧ host > staticLimit then
    some { s.goto t (.publishing call host) with
      hosts := Function.update s.hosts host (some ⟨kindFromSlot raw .normal, none, 0⟩) }
  else none

def acted (call : MutexCall) (host : Nat) : Option (MutexState θ) := do
  let m ← s.hosts host
  let (m, result) ← m.perform t call
  return { s.goto t (.returned result) with hosts := Function.update s.hosts host (some m) }

end MutexState

/-- `compat_pthread_mutex_lock`, `_trylock` and `_unlock`, one step of one thread. -/
def mutexMachine (θ : Type) [DecidableEq θ] : Machine (MutexState θ) (MutexStep θ) where
  step s
    | .call t call =>
      match s.control t with
      | .returned _ => some (s.goto t (.entered call))
      | _ => none
    | .read t =>
      match s.control t with
      | .entered call => some (s.goto t (s.afterRead call))
      | _ => none
    | .create t allocated =>
      match s.control t, allocated with
      | .creating call raw, some host => s.created t call raw host
      | .creating _ _, none => some (s.goto t (.returned .enomem))
      | _, _ => none
    | .publish t =>
      match s.control t with
      | .publishing call host => some { s.goto t (.acting call host) with slot := host }
      | _ => none
    | .act t =>
      match s.control t with
      | .acting call host => s.acted t call host
      | _ => none

/-- No thread is in a call and no host mutex exists. -/
def MutexState.start (raw : Nat) : MutexState θ := ⟨raw, fun _ => none, fun _ => .returned .ok⟩

/-- The thread has acquired the mutex at this address. -/
def MutexState.HoldsAt (s : MutexState θ) (t : θ) (host : Nat) : Prop :=
  ∃ m, s.hosts host = some m ∧ m.owner = some t

/-- One thread at most holds the guest mutex, and it acquired the host mutex that the
word refers to. -/
structure MutexState.Excludes (s : MutexState θ) : Prop where
  exclusive : ∀ t u hostT hostU, s.HoldsAt t hostT → s.HoldsAt u hostU → t = u
  current : ∀ t host, s.HoldsAt t host → s.slot = host

/-- A thread publishes only over a static initialiser, never over another host mutex. -/
def Unraced (s : MutexState θ) : MutexStep θ → Prop
  | .publish _ => s.slot ≤ staticLimit
  | _ => True

/-! ## Runs without a race -/

/-- Whoever acts on a host mutex or has acquired one got it from the word. -/
structure MutexState.Published (s : MutexState θ) : Prop where
  acting : ∀ t call host, s.control t = .acting call host → s.slot = host ∧ staticLimit < host
  publishing : ∀ t call host, s.control t = .publishing call host → staticLimit < host
  held : ∀ t host, s.HoldsAt t host → s.slot = host ∧ staticLimit < host

variable {s s' : MutexState θ} {t : θ}

omit [DecidableEq θ] in
theorem MutexState.published_start {raw : Nat} :
    (MutexState.start raw : MutexState θ).Published where
  acting _ _ _ h := nomatch h
  publishing _ _ _ h := nomatch h
  held _ _ := fun ⟨_, h, _⟩ => nomatch h

omit [DecidableEq θ] in
theorem MutexState.Published.excludes (h : s.Published) : s.Excludes where
  current t host hholds := (h.held t host hholds).1
  exclusive t u hostT hostU hholdsT hholdsU := by
    obtain rfl : hostT = hostU :=
      (h.held t hostT hholdsT).1.symm.trans (h.held u hostU hholdsU).1
    obtain ⟨m, hm, ht⟩ := hholdsT
    obtain ⟨m', hm', hu⟩ := hholdsU
    obtain rfl := Option.some.inj (hm.symm.trans hm')
    exact Option.some.inj (ht.symm.trans hu)

/-- A thread may go where the word, or an address it created, takes it. -/
theorem MutexState.Published.goto {c : Control} (h : s.Published)
    (hacting : ∀ call host, c = .acting call host → s.slot = host ∧ staticLimit < host)
    (hpublishing : ∀ call host, c = .publishing call host → staticLimit < host) :
    (s.goto t c).Published where
  acting u call host hu := by
    by_cases hut : u = t
    · subst hut
      exact hacting call host (by simpa [MutexState.goto] using hu)
    · exact h.acting u call host (by simpa [MutexState.goto, Function.update_of_ne hut] using hu)
  publishing u call host hu := by
    by_cases hut : u = t
    · subst hut
      exact hpublishing call host (by simpa [MutexState.goto] using hu)
    · exact h.publishing u call host
        (by simpa [MutexState.goto, Function.update_of_ne hut] using hu)
  held := h.held

theorem MutexState.Published.afterRead (h : s.Published) (call : MutexCall) :
    (s.goto t (s.afterRead call)).Published := by
  refine h.goto (fun call' host hc => ?_) fun call' host hc => ?_
  · unfold MutexState.afterRead at hc
    split_ifs at hc with hslot
    obtain ⟨-, rfl⟩ := Control.acting.inj hc
    exact ⟨rfl, hslot⟩
  · unfold MutexState.afterRead at hc
    split_ifs at hc

/-- A new host mutex is nobody's. -/
theorem MutexState.Published.created (h : s.Published) {call : MutexCall} {raw host : Nat}
    (hs' : s.created t call raw host = some s') : s'.Published := by
  unfold MutexState.created at hs'
  split_ifs at hs' with hfresh
  obtain rfl := Option.some.inj hs'
  have hgoto : (s.goto t (.publishing call host)).Published :=
    h.goto (fun _ _ hc => nomatch hc) fun call' host' hc => by
      obtain ⟨-, rfl⟩ := Control.publishing.inj hc
      exact hfresh.2
  refine ⟨hgoto.acting, hgoto.publishing, fun u host' hholds => ?_⟩
  obtain ⟨m, hm, howner⟩ := hholds
  by_cases heq : host' = host
  · subst heq
    simp only [Function.update_self, Option.some.injEq] at hm
    subst hm
    exact nomatch howner
  · simp only [Function.update_of_ne heq] at hm
    exact h.held u host' ⟨m, hm, howner⟩

/-- Acting changes the host mutex of the word alone. -/
theorem MutexState.Published.acted (h : s.Published) {call : MutexCall} {host : Nat}
    (hcontrol : s.control t = .acting call host) (hs' : s.acted t call host = some s') :
    s'.Published := by
  obtain ⟨m, hm, hs'⟩ := Option.bind_eq_some_iff.mp hs'
  obtain ⟨⟨m', result⟩, -, hs'⟩ := Option.bind_eq_some_iff.mp hs'
  obtain rfl := Option.some.inj hs'
  have hgoto : (s.goto t (.returned result)).Published :=
    h.goto (fun _ _ hc => nomatch hc) fun _ _ hc => nomatch hc
  refine ⟨hgoto.acting, hgoto.publishing, fun u host' hholds => ?_⟩
  by_cases heq : host' = host
  · subst heq
    exact h.acting t call host' hcontrol
  · obtain ⟨k, hk, howner⟩ := hholds
    simp only [Function.update_of_ne heq] at hk
    exact h.held u host' ⟨k, hk, howner⟩

/-- While the word is a static initialiser no thread acts and none holds, so the first
publication is of an address that nothing depends on yet. -/
theorem MutexState.Published.publish (h : s.Published) {call : MutexCall} {host : Nat}
    (hcontrol : s.control t = .publishing call host) (hslot : s.slot ≤ staticLimit) :
    MutexState.Published { s.goto t (.acting call host) with slot := host } := by
  have hhost := h.publishing t call host hcontrol
  refine ⟨fun u call' host' hu => ?_, fun u call' host' hu => ?_, fun u host' hholds => ?_⟩
  · by_cases hut : u = t
    · subst hut
      simp only [MutexState.goto, Function.update_self, Control.acting.injEq] at hu
      exact ⟨hu.2, hu.2 ▸ hhost⟩
    · simp only [MutexState.goto, Function.update_of_ne hut] at hu
      obtain ⟨rfl, hlt⟩ := h.acting u call' host' hu
      omega
  · by_cases hut : u = t
    · subst hut
      simp [MutexState.goto] at hu
    · simp only [MutexState.goto, Function.update_of_ne hut] at hu
      exact h.publishing u call' host' hu
  · obtain ⟨rfl, hlt⟩ := h.held u host' hholds
    omega

theorem MutexState.Published.step (h : s.Published) {e : MutexStep θ} (hok : Unraced s e)
    (hstep : (mutexMachine θ).step s e = some s') : s'.Published := by
  cases e with
  | call t call =>
    simp only [mutexMachine] at hstep
    split at hstep
    · obtain rfl := Option.some.inj hstep
      exact h.goto (fun _ _ hc => nomatch hc) fun _ _ hc => nomatch hc
    · cases hstep
  | read t =>
    simp only [mutexMachine] at hstep
    split at hstep
    · obtain rfl := Option.some.inj hstep
      exact h.afterRead _
    · cases hstep
  | create t allocated =>
    simp only [mutexMachine] at hstep
    split at hstep
    · exact h.created hstep
    · obtain rfl := Option.some.inj hstep
      exact h.goto (fun _ _ hc => nomatch hc) fun _ _ hc => nomatch hc
    · cases hstep
  | publish t =>
    simp only [mutexMachine] at hstep
    split at hstep
    next hcontrol =>
      obtain rfl := Option.some.inj hstep
      exact h.publish hcontrol hok
    · cases hstep
  | act t =>
    simp only [mutexMachine] at hstep
    split at hstep
    next hcontrol => exact h.acted hcontrol hstep
    · cases hstep

/-- In a run in which no thread publishes over another's host mutex, the mutex excludes
in every state. -/
theorem mutex_excludes_of_unraced (raw : Nat) (steps : List (MutexStep θ))
    (hunraced : (mutexMachine θ).Along Unraced (.start raw) steps)
    (hrun : (mutexMachine θ).run (.start raw) steps = some s) : s.Excludes :=
  (Machine.invariant_of_run (fun _ _ _ h hok hstep => h.step hok hstep)
    MutexState.published_start hunraced hrun).excludes

/-- One thread creates a recursive mutex and holds it when the second comes. -/
theorem mutex_excludes_second : ∃ s,
    (mutexMachine Nat).run (.start 0x4000) [.call 0 .lock, .read 0, .create 0 (some 0x10000),
      .publish 0, .act 0, .call 1 .tryLock, .read 1, .act 1] = some s ∧ s.Excludes := by
  refine ⟨_, rfl, mutex_excludes_of_unraced 0x4000 [.call 0 .lock, .read 0,
    .create 0 (some 0x10000), .publish 0, .act 0, .call 1 .tryLock, .read 1, .act 1] ?_ rfl⟩
  have hpublish : (0x4000 : Nat) ≤ staticLimit := by decide
  exact .intro trivial (.intro trivial (.intro trivial (.intro hpublish (.intro trivial
    (.intro trivial (.intro trivial (.intro trivial trivial)))))))

/-- Two first locks that both read the static initialiser: each thread creates a host
mutex of its own, and each acquires its own. -/
theorem race_on_first_lock : ∃ s,
    (mutexMachine Nat).run (.start 0) [.call 0 .lock, .call 1 .lock, .read 0, .read 1,
      .create 0 (some 0x10000), .create 1 (some 0x10040), .publish 0, .publish 1,
      .act 0, .act 1] = some s ∧ ¬ s.Excludes := by
  refine ⟨_, rfl, fun h => ?_⟩
  have hheld := h.exclusive 0 1 0x10000 0x10040 ⟨_, rfl, rfl⟩ ⟨_, rfl, rfl⟩
  exact absurd hheld (by decide)

end NfsmwRuntime.Compat

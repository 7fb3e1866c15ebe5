import Mathlib.Data.List.Basic
import Mathlib.Logic.Function.Basic

/-!
# Signal masks

A guest knows the signals 1 to 32, one bit each of a word; the host has a signal set. The two
loops that translate them, and the two helpers that `setjmp` and `longjmp` call, over a host
whose set functions may refuse a signal and that never blocks some signals.
-/

namespace NfsmwRuntime.Compat

/-- `sigset_t` -/
abbrev Sigset := Nat → Bool

/-- The signals the set functions accept, which include the guest's, and those that cannot be
blocked. -/
structure SignalHost where
  valid : Nat → Bool
  unblockable : Nat → Bool
  valid_guest : ∀ n, 1 ≤ n → n ≤ 32 → valid n = true

/-- The signals a thread has blocked. -/
structure BlockedSet (host : SignalHost) where
  signals : Sigset
  blockable : ∀ n, signals n = true → host.unblockable n = false

def sigemptyset : Sigset := fun _ => false

/-- An invalid signal leaves the set unchanged. -/
def sigaddset (host : SignalHost) (set : Sigset) (n : Nat) : Sigset :=
  if host.valid n then Function.update set n true else set

def sigismember (host : SignalHost) (set : Sigset) (n : Nat) : Int :=
  if host.valid n then if set n then 1 else 0 else -1

inductive SigHow
  | block
  | unblock
  | setmask
  deriving DecidableEq, Repr

/-- The old set and the new one. The call fails only for an unknown `how` or a bad pointer;
without a set the mask stays. -/
def sigprocmask {host : SignalHost} (how : SigHow) (set : Option Sigset)
    (blocked : BlockedSet host) : Sigset × BlockedSet host :=
  let change (f : Nat → Bool) : BlockedSet host :=
    ⟨fun n => f n && !host.unblockable n, fun n h => by simpa using (Bool.and_eq_true_iff.mp h).2⟩
  (blocked.signals, match set with
    | none => blocked
    | some set => match how with
      | .block => change fun n => blocked.signals n || set n
      | .unblock => change fun n => blocked.signals n && !set n
      | .setmask => change set)

/-! ## The translation -/

/-- `UINT32_C(1) << (unsigned int)(index - 1)` -/
def maskBit (index : Nat) : UInt32 := (1 : UInt32) <<< UInt32.ofNat (index - 1)

def hostMaskFromBionic (host : SignalHost) (guestMask : UInt32) : Sigset :=
  (List.range' 1 32).foldl
    (fun hostMask index =>
      if guestMask &&& maskBit index ≠ 0 then sigaddset host hostMask index else hostMask)
    sigemptyset

def bionicMaskFromHost (host : SignalHost) (hostMask : Sigset) : UInt32 :=
  (List.range' 1 32).foldl
    (fun guestMask index =>
      if sigismember host hostMask index = 1 then guestMask ||| maskBit index else guestMask)
    0

def signalMaskCapture {host : SignalHost} (blocked : BlockedSet host) : UInt32 :=
  bionicMaskFromHost host (sigprocmask .setmask none blocked).1

def signalMaskRestore {host : SignalHost} (mask : UInt32) (blocked : BlockedSet host) :
    BlockedSet host :=
  (sigprocmask .setmask (some (hostMaskFromBionic host mask)) blocked).2

/-- Bit `index - 1` of a guest mask. -/
def inMask (mask : UInt32) (index : Nat) : Bool := mask.toBitVec.getLsbD (index - 1)

theorem toBitVec_maskBit {index : Nat} (h32 : index ≤ 32) :
    (maskBit index).toBitVec = BitVec.twoPow 32 (index - 1) := by
  have hbit : ∀ k : Fin 32, ((1 : UInt32) <<< UInt32.ofNat k).toBitVec = .twoPow 32 k := by decide
  exact hbit ⟨index - 1, by omega⟩

theorem and_maskBit_ne_zero {mask : UInt32} {index : Nat} (h32 : index ≤ 32) :
    mask &&& maskBit index ≠ 0 ↔ inMask mask index = true := by
  rw [ne_eq, ← UInt32.toBitVec_inj, UInt32.toBitVec_and, toBitVec_maskBit h32, BitVec.and_twoPow,
    inMask]
  split
  next h =>
    refine iff_of_true (fun hzero => ?_) h
    have hbit := congrArg (·.getLsbD (index - 1)) hzero
    simp [BitVec.getLsbD_twoPow] at hbit
    omega
  next h => simp [h]

theorem inMask_or_maskBit {mask : UInt32} {index n : Nat} (hn : 1 ≤ n) (h1 : 1 ≤ index)
    (h32 : index ≤ 32) :
    inMask (mask ||| maskBit index) n = (inMask mask n || decide (n = index)) := by
  rw [inMask, UInt32.toBitVec_or, BitVec.getLsbD_or, toBitVec_maskBit h32, BitVec.getLsbD_twoPow,
    ← inMask]
  have hbit : (index - 1 < 32 && decide (index - 1 = n - 1)) = decide (n = index) := by
    rw [← Bool.decide_and]
    exact decide_eq_decide.mpr (by omega)
  rw [hbit]

variable {host : SignalHost}

theorem foldl_sigaddset {mask : UInt32} {l : List Nat} (hl : ∀ i ∈ l, 1 ≤ i ∧ i ≤ 32)
    (set : Sigset) (n : Nat) :
    l.foldl (fun hostMask index =>
      if mask &&& maskBit index ≠ 0 then sigaddset host hostMask index else hostMask) set n =
      (set n || decide (n ∈ l) && inMask mask n) := by
  induction l generalizing set with
  | nil => simp
  | cons i l ih =>
    obtain ⟨hi, hrest⟩ := List.forall_mem_cons.mp hl
    rw [List.foldl_cons, ih hrest]
    simp only [and_maskBit_ne_zero hi.2, sigaddset, host.valid_guest i hi.1 hi.2, if_true]
    rcases eq_or_ne n i with rfl | hne
    · cases inMask mask n <;> simp
    · split <;> simp [hne]

theorem foldl_maskBit {set : Sigset} {l : List Nat} (hl : ∀ i ∈ l, 1 ≤ i ∧ i ≤ 32)
    (mask : UInt32) {n : Nat} (hn : 1 ≤ n) :
    inMask (l.foldl (fun guestMask index =>
      if sigismember host set index = 1 then guestMask ||| maskBit index else guestMask) mask) n =
      (inMask mask n || decide (n ∈ l) && set n) := by
  induction l generalizing mask with
  | nil => simp
  | cons i l ih =>
    obtain ⟨hi, hrest⟩ := List.forall_mem_cons.mp hl
    rw [List.foldl_cons, ih hrest]
    simp only [sigismember, host.valid_guest i hi.1 hi.2, if_true]
    rcases eq_or_ne n i with rfl | hne
    · cases h : set n <;> simp [inMask_or_maskBit hn hi.1 hi.2]
    · cases h : set i <;> simp [inMask_or_maskBit hn hi.1 hi.2, hne]

theorem mem_guestSignals {i : Nat} : i ∈ List.range' 1 32 ↔ 1 ≤ i ∧ i ≤ 32 := by
  rw [List.mem_range'_1]
  omega

theorem hostMaskFromBionic_eq (mask : UInt32) {n : Nat} (h1 : 1 ≤ n) (h32 : n ≤ 32) :
    hostMaskFromBionic host mask n = inMask mask n := by
  have h := @foldl_sigaddset host mask _
    (fun i hi => mem_guestSignals.mp hi) sigemptyset n
  rw [hostMaskFromBionic, h, decide_eq_true (mem_guestSignals.mpr ⟨h1, h32⟩)]
  simp [sigemptyset]

theorem inMask_bionicMaskFromHost (set : Sigset) {n : Nat} (h1 : 1 ≤ n) (h32 : n ≤ 32) :
    inMask (bionicMaskFromHost host set) n = set n := by
  have h := @foldl_maskBit host set _ (fun i hi => mem_guestSignals.mp hi) 0 n h1
  rw [bionicMaskFromHost, h, decide_eq_true (mem_guestSignals.mpr ⟨h1, h32⟩)]
  simp [inMask]

/-- The guest's signals are blocked again as they were, whatever is blocked in between. -/
theorem signalMaskRestore_capture (blocked now : BlockedSet host) {n : Nat} (h1 : 1 ≤ n)
    (h32 : n ≤ 32) :
    (signalMaskRestore (signalMaskCapture blocked) now).signals n = blocked.signals n := by
  have hmask : hostMaskFromBionic host (signalMaskCapture blocked) n = blocked.signals n := by
    rw [hostMaskFromBionic_eq _ h1 h32]
    exact inMask_bionicMaskFromHost _ h1 h32
  simp only [signalMaskRestore, sigprocmask, hmask]
  cases h : blocked.signals n with
  | false => rfl
  | true => simp [blocked.blockable n h]

end NfsmwRuntime.Compat

import NfsmwRuntime.Game.Loop
import NfsmwRuntime.Library.Region

/-!
# Reading the controller

`nfsmw_platform_runtime_input` asks SDL for the axes and buttons of the controller. One
handheld has a pad whose mapping lacks buttons, and there the raw buttons of the joystick
are read as well, collected in a word and merged into the others.

The number of raw buttons is an `int` from SDL, negative after an error. It is cut off at 32
and then counted to as a `size_t`.
-/

namespace NfsmwRuntime.Game

open Library

/-- The variables of the runtime that the function reads; pointers that are not NULL. -/
structure PadRuntime where
  started : Bool
  controller : Bool
  joystick : Bool
  goSuperRawFallback : Bool
  previousRawButtons : UInt32

/-- What SDL answers after the events have been pumped. -/
structure Pad where
  axis : Fin 6 → Int16
  button : Fin 15 → UInt8
  numButtons : Int32
  rawButton : Int32 → UInt8

/-- A raw button that is read, and the amount that a 1 is shifted by. -/
inductive PadEvent where
  | readRaw (index : Int32)
  | shift (amount : Nat)
  deriving DecidableEq

def PadEvent.readIndex : PadEvent → Option Int32
  | readRaw index => some index
  | shift _ => none

def PadEvent.shiftAmount : PadEvent → Option Nat
  | readRaw _ => none
  | shift amount => some amount

def goSuperRawMap : Fin 15 → Int32 := ![1, 0, 2, 3, 12, -1, 13, 14, 15, 4, 5, 8, 9, 10, 11]

/-- What the function leaves behind, and what it returns. -/
structure PadResult where
  runtime : PadRuntime
  axes : Fin 6 → Int16
  buttons : Fin 15 → UInt8
  quit : Bool
  events : List PadEvent

variable (wide : Nat → UInt32) (pad : Pad) (runtime : PadRuntime)

/-- `1U << amount`. It is not defined from 32 on, and `wide` may be anything there. -/
def oneShifted (amount : Nat) : UInt32 := if amount < 32 then ⟨.twoPow 32 amount⟩ else wide amount

def rawCount : Int32 := if pad.numButtons > 32 then 32 else pad.numButtons

/-- A turn of the loop that reads the raw buttons. -/
def scanTurn (index : Nat) : Action UInt32 PadEvent := .block [
  .emit fun _ => .readRaw (.ofNat index),
  .when (fun _ => pad.rawButton (.ofNat index) ≠ 0) <| .block [
    .emit fun _ => .shift index,
    .assign fun rawMask => rawMask ||| oneShifted wide index]]

def scanRaw : Action UInt32 PadEvent :=
  .each (scanTurn wide pad) (List.range (rawCount pad).toUInt32.toNat)

/-- A turn of the loop that merges them. -/
def mergeTurn (rawMask : UInt32) (i : Fin 15) : Action (Fin 15 → UInt8) PadEvent :=
  let rawIndex := goSuperRawMap i
  .when (fun _ => 0 ≤ rawIndex ∧ rawIndex < rawCount pad) <| .block [
    .emit fun _ => .shift rawIndex.toUInt32.toNat,
    .when (fun _ => rawMask &&& oneShifted wide rawIndex.toUInt32.toNat ≠ 0) <|
      .assign fun buttons => Function.update buttons i 1]

def mergeRaw (rawMask : UInt32) : Action (Fin 15 → UInt8) PadEvent :=
  .each (mergeTurn wide pad rawMask) (List.finRange 15)

def quitPressed (buttons : Fin 15 → UInt8) : Bool :=
  buttons selectButton ≠ 0 && buttons startButton ≠ 0

def nfsmwPlatformRuntimeInput : PadResult :=
  if !runtime.started || !runtime.controller then
    { runtime, axes := fun _ => 0, buttons := fun _ => 0, quit := false, events := [] }
  else if runtime.goSuperRawFallback && runtime.joystick then
    let scan := scanRaw wide pad 0
    let merge := mergeRaw wide pad scan.1 pad.button
    { runtime :=
        if scan.1 ≠ runtime.previousRawButtons then
          { runtime with previousRawButtons := scan.1 }
        else runtime
      axes := pad.axis
      buttons := merge.1
      quit := quitPressed merge.1
      events := scan.2 ++ merge.2 }
  else
    { runtime
      axes := pad.axis
      buttons := pad.button
      quit := quitPressed pad.button
      events := [] }

/-- The raw fallback is in use. -/
structure PadRuntime.UsesRaw : Prop where
  started : runtime.started = true
  controller : runtime.controller = true
  goSuperRawFallback : runtime.goSuperRawFallback = true
  joystick : runtime.joystick = true

/-- A raw button that the map gives a button, if SDL counts it, is pressed. -/
def rawPressed (i : Fin 15) : Prop :=
  0 ≤ (goSuperRawMap i).toInt ∧ (goSuperRawMap i).toInt < min pad.numButtons.toInt 32 ∧
    pad.rawButton (goSuperRawMap i) ≠ 0

/-- Few raw buttons are read, shifts stay in the word, and a button is on if the controller
or the raw button says so. -/
structure ScanBounded (result : PadResult) : Prop where
  reads : (result.events.filterMap PadEvent.readIndex).length ≤ 32
  shifts : ∀ amount ∈ result.events.filterMap PadEvent.shiftAmount, amount < 32
  merged : ∀ i, result.buttons i ≠ 0 ↔ pad.button i ≠ 0 ∨ rawPressed pad i

variable {wide pad runtime}

/-! ## The scan -/

theorem toInt_rawCount : (rawCount pad).toInt = min pad.numButtons.toInt 32 := by
  have h32 : (32 : Int32).toInt = 32 := rfl
  unfold rawCount
  split
  · case isTrue h =>
    have hlt := Int32.lt_iff_toInt_lt.mp h
    omega
  · case isFalse h =>
    have hle := mt Int32.lt_iff_toInt_lt.mpr h
    omega

/-- The loop makes one turn for each button counted, or billions after an error. -/
theorem toNat_rawCount_le_iff : (rawCount pad).toUInt32.toNat ≤ 32 ↔ 0 ≤ pad.numButtons.toInt := by
  have hcount := @toInt_rawCount pad
  have hint := toInt_eq_toUInt32 (rawCount pad)
  have hlt := (rawCount pad).toUInt32.toNat_lt
  split at hint <;> omega

theorem scanTurn_apply (index : Nat) (mask : UInt32) : scanTurn wide pad index mask =
    if pad.rawButton (.ofNat index) ≠ 0 then
      (mask ||| oneShifted wide index, [.readRaw (.ofNat index), .shift index])
    else (mask, [.readRaw (.ofNat index)]) := by
  by_cases hpressed : pad.rawButton (.ofNat index) ≠ 0 <;>
    simp [scanTurn, Action.when_apply, hpressed]

theorem scan_reads (n : Nat) (mask : UInt32) :
    (Action.each (scanTurn wide pad) (List.range n) mask).2.filterMap PadEvent.readIndex =
      (List.range n).map Int32.ofNat := by
  induction n with
  | zero => rfl
  | succ n ih =>
    rw [List.range_succ, Action.each_concat, Action.seq_apply, List.filterMap_append, ih,
      List.map_append, scanTurn_apply]
    split <;> rfl

theorem scan_shifts (n : Nat) (mask : UInt32) :
    (Action.each (scanTurn wide pad) (List.range n) mask).2.filterMap PadEvent.shiftAmount =
      (List.range n).filter fun k => pad.rawButton (.ofNat k) ≠ 0 := by
  induction n with
  | zero => rfl
  | succ n ih =>
    rw [List.range_succ, Action.each_concat, Action.seq_apply, List.filterMap_append, ih,
      List.filter_append, scanTurn_apply]
    split
    · case isTrue h =>
      rw [List.filter_cons_of_pos (by simpa using h)]
      rfl
    · case isFalse h =>
      rw [List.filter_cons_of_neg (by simpa using h)]
      rfl

/-- `1U << amount` has one bit. -/
theorem getLsbD_oneShifted {amount : Nat} (h : amount < 32) (k : Nat) :
    (oneShifted wide amount).toBitVec.getLsbD k = decide (amount = k) := by
  rw [oneShifted, if_pos h, BitVec.getLsbD_twoPow]
  simp [h]

/-- The word has a bit for each button that has been read and was pressed. -/
theorem scan_mask {n : Nat} (hn : n ≤ 32) (k : Nat) :
    (Action.each (scanTurn wide pad) (List.range n) 0).1.toBitVec.getLsbD k =
      (decide (k < n) && decide (pad.rawButton (.ofNat k) ≠ 0)) := by
  induction n with
  | zero => simp
  | succ n ih =>
    rw [List.range_succ, Action.each_concat, Action.seq_apply, scanTurn_apply]
    have hprev := ih (by omega)
    have hnext : k < n + 1 ↔ k < n ∨ n = k := by omega
    split
    · case isTrue h =>
      rw [UInt32.toBitVec_or, BitVec.getLsbD_or, hprev, getLsbD_oneShifted (by omega)]
      grind
    · case isFalse h =>
      rw [hprev]
      grind

/-! ## The merge -/

/-- The test of the merging loop. -/
def merges (wide : Nat → UInt32) (pad : Pad) (rawMask : UInt32) (i : Fin 15) : Prop :=
  (0 ≤ goSuperRawMap i ∧ goSuperRawMap i < rawCount pad) ∧
    rawMask &&& oneShifted wide (goSuperRawMap i).toUInt32.toNat ≠ 0

instance (rawMask : UInt32) (i : Fin 15) : Decidable (merges wide pad rawMask i) :=
  inferInstanceAs (Decidable (_ ∧ _))

theorem mergeTurn_apply (rawMask : UInt32) (i : Fin 15) (buttons : Fin 15 → UInt8) :
    mergeTurn wide pad rawMask i buttons =
      (if merges wide pad rawMask i then Function.update buttons i 1 else buttons,
        if 0 ≤ goSuperRawMap i ∧ goSuperRawMap i < rawCount pad then
          [.shift (goSuperRawMap i).toUInt32.toNat]
        else []) := by
  by_cases hindex : 0 ≤ goSuperRawMap i ∧ goSuperRawMap i < rawCount pad <;>
    by_cases hbit : rawMask &&& oneShifted wide (goSuperRawMap i).toUInt32.toNat ≠ 0 <;>
    simp [mergeTurn, merges, Action.when_apply, hindex, hbit]

theorem merge_buttons (rawMask : UInt32) (is : List (Fin 15)) (buttons : Fin 15 → UInt8)
    (i : Fin 15) : (Action.each (mergeTurn wide pad rawMask) is buttons).1 i =
      if i ∈ is ∧ merges wide pad rawMask i then 1 else buttons i := by
  induction is generalizing buttons with
  | nil => simp
  | cons j is ih =>
    rw [Action.each_cons, Action.seq_apply, ih, mergeTurn_apply]
    by_cases hmerges : merges wide pad rawMask j
    · simp only [if_pos hmerges, Function.update_apply]
      grind
    · simp only [if_neg hmerges]
      grind

theorem goSuperRawMap_bounded : ∀ i, 0 ≤ goSuperRawMap i →
    (goSuperRawMap i).toUInt32.toNat < 32 ∧
      Int32.ofNat (goSuperRawMap i).toUInt32.toNat = goSuperRawMap i := by
  decide

/-- The merging loop reads no raw button and shifts by less than 32. -/
theorem merge_events (rawMask : UInt32) (buttons : Fin 15 → UInt8) :
    ∀ e ∈ (mergeRaw wide pad rawMask buttons).2, ∃ amount < 32, e = .shift amount := by
  have hturn : ∀ i, Action.Safe (fun _ => True) (fun e => ∃ amount < 32, e = .shift amount)
      (mergeTurn wide pad rawMask i) := by
    intro i buttons _
    refine ⟨trivial, fun e he => ?_⟩
    rw [mergeTurn_apply] at he
    by_cases hindex : 0 ≤ goSuperRawMap i ∧ goSuperRawMap i < rawCount pad
    · rw [if_pos hindex, List.mem_singleton] at he
      exact ⟨_, (goSuperRawMap_bounded i hindex.1).1, he⟩
    · rw [if_neg hindex] at he
      cases he
  exact (Action.Safe.each hturn (List.finRange 15) buttons trivial).2

theorem and_oneShifted_ne_zero {amount : Nat} (h : amount < 32) (rawMask : UInt32) :
    rawMask &&& oneShifted wide amount ≠ 0 ↔ rawMask.toBitVec.getLsbD amount = true := by
  have hand : (rawMask &&& oneShifted wide amount).toBitVec =
      if rawMask.toBitVec.getLsbD amount then .twoPow 32 amount else 0#32 := by
    rw [UInt32.toBitVec_and, oneShifted, if_pos h, BitVec.and_twoPow]
  have hpow : BitVec.twoPow 32 amount ≠ 0#32 := by
    intro hzero
    have hbit := congrArg (BitVec.getLsbD · amount) hzero
    simp [h] at hbit
  rw [ne_eq, ← UInt32.toBitVec_inj, hand]
  split
  · case isTrue hset => exact iff_of_true hpow hset
  · case isFalse hset => exact iff_of_false (fun hne => hne rfl) hset

/-- Whatever the count is, the test is that the raw button is pressed. -/
theorem merges_iff (wide : Nat → UInt32) (i : Fin 15) :
    merges wide pad (scanRaw wide pad 0).1 i ↔ rawPressed pad i := by
  have hraw := @toInt_rawCount pad
  rw [merges, rawPressed, Int32.le_iff_toInt_le, Int32.lt_iff_toInt_lt, hraw, Int32.toInt_zero,
    and_assoc]
  refine and_congr_right fun hindex => and_congr_right fun hlt => ?_
  -- an index below the count is there only if the count is not negative
  have hn := toNat_rawCount_le_iff.mpr (show 0 ≤ pad.numButtons.toInt by omega)
  have hnat := toNat_toUInt32 (x := rawCount pad) (by omega)
  obtain ⟨hbound, hback⟩ := goSuperRawMap_bounded i (Int32.le_iff_toInt_le.mpr hindex)
  have hposition := toNat_toUInt32 hindex
  rw [and_oneShifted_ne_zero hbound, scanRaw, scan_mask hn, hback]
  simp
  omega

/-! ## The whole function -/

theorem input_eq (h : runtime.UsesRaw) :
    (nfsmwPlatformRuntimeInput wide pad runtime).buttons =
        (mergeRaw wide pad (scanRaw wide pad 0).1 pad.button).1 ∧
      (nfsmwPlatformRuntimeInput wide pad runtime).events = (scanRaw wide pad 0).2 ++
        (mergeRaw wide pad (scanRaw wide pad 0).1 pad.button).2 := by
  have hpad : ¬ (!runtime.started || !runtime.controller) = true := by
    simp [h.started, h.controller]
  have hraw : (runtime.goSuperRawFallback && runtime.joystick) = true := by
    simp [h.goSuperRawFallback, h.joystick]
  rw [nfsmwPlatformRuntimeInput, if_neg hpad, if_pos hraw]
  constructor
  · dsimp only
  · dsimp only

/-- Otherwise no raw button is read. -/
theorem input_events_eq_nil (h : ¬ runtime.UsesRaw) :
    (nfsmwPlatformRuntimeInput wide pad runtime).events = [] := by
  unfold nfsmwPlatformRuntimeInput
  split
  · rfl
  · case isFalse hpad =>
    split
    · case isTrue hraw =>
      simp only [Bool.or_eq_true, Bool.not_eq_true', not_or, Bool.not_eq_false] at hpad
      simp only [Bool.and_eq_true] at hraw
      exact absurd ⟨hpad.1, hpad.2, hraw.1, hraw.2⟩ h
    · rfl

/-- The raw buttons that are read are as many as the count, as a `size_t`. -/
theorem input_reads (h : runtime.UsesRaw) :
    ((nfsmwPlatformRuntimeInput wide pad runtime).events.filterMap PadEvent.readIndex).length =
      (rawCount pad).toUInt32.toNat := by
  obtain ⟨-, hevents⟩ := @input_eq wide pad runtime h
  have hmerge : (mergeRaw wide pad (scanRaw wide pad 0).1 pad.button).2.filterMap
      PadEvent.readIndex = [] := by
    refine List.filterMap_eq_nil_iff.mpr fun e he => ?_
    obtain ⟨amount, -, rfl⟩ := merge_events _ _ e he
    rfl
  rw [hevents, List.filterMap_append, hmerge, List.append_nil, scanRaw, scan_reads,
    List.length_map, List.length_range]

/-- The buttons are merged right even after a scan that went too far. -/
theorem input_merged (h : runtime.UsesRaw) (i : Fin 15) :
    (nfsmwPlatformRuntimeInput wide pad runtime).buttons i ≠ 0 ↔
      pad.button i ≠ 0 ∨ rawPressed pad i := by
  rw [(input_eq h).1, mergeRaw, merge_buttons, ← merges_iff wide i]
  by_cases hmerges : merges wide pad (scanRaw wide pad 0).1 i
  · simp [hmerges]
  · simp [hmerges]

/-- What the loop is given for a frame. -/
def PadResult.frameInput (result : PadResult) (idleTicks selectTicks startTicks : UInt32) :
    FrameInput where
  axes := result.axes
  buttons i := result.buttons i ≠ 0
  idleTicks := idleTicks
  selectTicks := selectTicks
  startTicks := startTicks

/-- The value returned is the loop's request to end. -/
theorem quit_frameInput (idleTicks selectTicks startTicks : UInt32) :
    ((nfsmwPlatformRuntimeInput wide pad runtime).frameInput idleTicks selectTicks
      startTicks).quit = (nfsmwPlatformRuntimeInput wide pad runtime).quit := by
  unfold nfsmwPlatformRuntimeInput
  split
  · simp [PadResult.frameInput, FrameInput.quit]
  · split
    · simp [PadResult.frameInput, FrameInput.quit, quitPressed]
    · rfl

/-- With the raw fallback in use, the scan is bounded and the buttons are merged exactly if
SDL counts the raw buttons without an error. -/
theorem scanBounded_iff (wide : Nat → UInt32) (pad : Pad) {runtime : PadRuntime}
    (h : runtime.UsesRaw) :
    ScanBounded pad (nfsmwPlatformRuntimeInput wide pad runtime) ↔ 0 ≤ pad.numButtons := by
  rw [Int32.le_iff_toInt_le, Int32.toInt_zero]
  constructor
  · intro hbounded
    rw [← toNat_rawCount_le_iff, ← input_reads h]
    exact hbounded.reads
  · intro hcount
    have hn := toNat_rawCount_le_iff.mpr hcount
    refine ⟨(input_reads h).trans_le hn, ?_, input_merged h⟩
    intro amount hamount
    rw [(input_eq h).2, List.filterMap_append, List.mem_append, scanRaw, scan_shifts] at hamount
    rcases hamount with hscan | hmerge
    · have hlt := List.mem_range.mp (List.mem_of_mem_filter hscan)
      omega
    · obtain ⟨e, he, hshift⟩ := List.mem_filterMap.mp hmerge
      obtain ⟨amount', hlt, rfl⟩ := merge_events _ _ e he
      obtain rfl := Option.some.inj hshift
      exact hlt

/-- A pad that reports an error when it is asked for the number of its raw buttons. -/
def failingPad : Pad := ⟨fun _ => 0, fun _ => 0, -1, fun _ => 0⟩

def usingRaw : PadRuntime := ⟨true, true, true, true, 0⟩

theorem usesRaw_usingRaw : usingRaw.UsesRaw := ⟨rfl, rfl, rfl, rfl⟩

theorem not_scanBounded_failingPad :
    ((nfsmwPlatformRuntimeInput (fun _ => 0) failingPad usingRaw).events.filterMap
        PadEvent.readIndex).length = 4294967295 ∧
      ¬ ScanBounded failingPad (nfsmwPlatformRuntimeInput (fun _ => 0) failingPad usingRaw) := by
  have hreads := @input_reads (fun _ => 0) failingPad usingRaw usesRaw_usingRaw
  have hcount : (rawCount failingPad).toUInt32.toNat = 4294967295 := rfl
  rw [hcount] at hreads
  refine ⟨hreads, fun hbounded => ?_⟩
  have hle := hbounded.reads
  omega

/-- Sixteen raw buttons, with the one pressed that the map gives the first button. -/
def countingPad : Pad := ⟨fun _ => 0, fun _ => 0, 16, fun index => if index = 1 then 1 else 0⟩

theorem scanBounded_iff_sample :
    ScanBounded countingPad (nfsmwPlatformRuntimeInput (fun _ => 0) countingPad usingRaw) :=
  (scanBounded_iff _ _ usesRaw_usingRaw).mpr (by decide)

end NfsmwRuntime.Game

import NfsmwRuntime.Jni.ValueMethods
import NfsmwRuntime.Library.Region
import NfsmwRuntime.Library.Result

/-!
# Primitive arrays

The guest makes byte and int arrays and copies regions of them from and to buffers of its
own. A region is tested by a sum of two `int`s, which wraps around, converted to a `size_t`.

A byte array holds what the guest set: at each index, the value of the latest
`SetByteArrayRegion` that was inside the array and covered the index. The same goes for
int arrays.
-/

namespace NfsmwRuntime.Jni

open Library

/-- What ends a call: the bridge aborts, or it leaves an object's memory. -/
inductive Stop where
  | abort | undefined
  deriving DecidableEq, Repr

/-- A type of elements: the kind of its arrays, what `sizeof` gives, and the field of the
object that points to them. -/
structure ElementType (α : Type) where
  kind : FakeKind
  size : UInt32
  zero : α
  elements : ObjectData → Option (List α)
  withElements : ObjectData → List α → ObjectData
  size_pos : 0 < size.toNat
  elements_withElements : ∀ data store, elements (withElements data store) = some store

def byteType : ElementType UInt8 where
  kind := .byteArray
  size := 1
  zero := 0
  elements := ObjectData.bytes
  withElements := fun data store => { data with bytes := some store }
  size_pos := Nat.one_pos
  elements_withElements := fun _ _ => rfl

def intType : ElementType Int32 where
  kind := .intArray
  size := 4
  zero := 0
  elements := ObjectData.ints
  withElements := fun data store => { data with ints := some store }
  size_pos := Nat.succ_pos 3
  elements_withElements := fun _ _ => rfl

variable {α φ δ : Type} (c : FloatOps φ δ) (e : ElementType α) (w : ValueWorld φ)

/-- `calloc`, which refuses a number of bytes that is no `size_t`. Any other refusal ends
the program, so that a run that goes on has not seen one. -/
def calloc (zero : α) (count size : UInt32) : Option (List α) :=
  if count.toNat * size.toNat < 2 ^ 32 then some (List.replicate count.toNat zero) else none

def ValueWorld.setElements (r : Ref) (store : List α) : ValueWorld φ :=
  { w with data := Function.update w.data r (e.withElements (w.data r) store) }

def jniNewPrimitiveArray (length : Int32) : Except Stop (ValueWorld φ × Ref) := do
  let length := if length < 0 then 0 else length
  let (w, array) := w.alloc (newObject c.toCFloat e.kind none length.toUInt32.toNat) .blank
  let store ← require (calloc e.zero (if length ≠ 0 then length.toUInt32 else 1) e.size) .abort
  return (w.setElements e array store, array)

/-- `array != NULL && start >= 0 && length >= 0 && (size_t)(start + length) <= array->length` -/
def regionTarget (array : Option Ref) (start length : Int32) : Option Ref :=
  array.filter fun r => (w.heap.get r).any fun object =>
    0 ≤ start ∧ 0 ≤ length ∧ (start + length).toUInt32.toNat ≤ object.length

/-- The elements that `memcpy` moves when it is asked for `(size_t)length * sizeof(*buffer)`
bytes. -/
def copied (length : Int32) : Nat := (length.toUInt32 * e.size).toNat / e.size.toNat

/-- Copy a region to `buffer`, the guest's memory from an address on. -/
def arrayRegion (array : Option Ref) (start length : Int32) (buffer : Nat → α) :
    Except Stop (Nat → α) :=
  match regionTarget w array start length with
  | none => .ok buffer
  | some r => do
    let store ← require (e.elements (w.data r)) .undefined
    let region ← require (loadRegion store start.toInt.toNat (copied e length)) .undefined
    return fun i => region.getD i (buffer i)

def setArrayRegion (array : Option Ref) (start length : Int32) (buffer : Nat → α) :
    Except Stop (ValueWorld φ) :=
  match regionTarget w array start length with
  | none => .ok w
  | some r => do
    let store ← require (e.elements (w.data r)) .undefined
    let values := (List.range (copied e length)).map buffer
    let store ← require (storeRegion store start.toInt.toNat values) .undefined
    return w.setElements e r store

def jniNewByteArray := jniNewPrimitiveArray c byteType

def jniNewIntArray := jniNewPrimitiveArray c intType

def jniByteArrayRegion := @arrayRegion _ φ byteType

def jniIntArrayRegion := @arrayRegion _ φ intType

def jniSetByteArrayRegion := @setArrayRegion _ φ byteType

def jniSetIntArrayRegion := @setArrayRegion _ φ intType

def jniGetArrayLength (array : Option Ref) : Int32 :=
  match asObject w.heap array with
  | some object => .ofNat object.length
  | none => 0

/-! ## Calls of the guest -/

inductive ArrayCall where
  | newByteArray (length : Int32)
  | newIntArray (length : Int32)
  | getByteArrayRegion (array : Option Ref) (start length : Int32) (buffer : Nat → UInt8)
  | getIntArrayRegion (array : Option Ref) (start length : Int32) (buffer : Nat → Int32)
  | setByteArrayRegion (array : Option Ref) (start length : Int32) (buffer : Nat → UInt8)
  | setIntArrayRegion (array : Option Ref) (start length : Int32) (buffer : Nat → Int32)
  | getArrayLength (array : Option Ref)

/-- What is returned, or the buffer after a region has been read. -/
inductive ArrayAnswer where
  | array (r : Ref)
  | bytes (buffer : Nat → UInt8)
  | ints (buffer : Nat → Int32)
  | length (n : Int32)
  | done

def arrayCall : ArrayCall → Except Stop (ValueWorld φ × ArrayAnswer)
  | .newByteArray length => do
    let (w, array) ← jniNewByteArray c w length
    return (w, .array array)
  | .newIntArray length => do
    let (w, array) ← jniNewIntArray c w length
    return (w, .array array)
  | .getByteArrayRegion array start length buffer => do
    let buffer ← jniByteArrayRegion w array start length buffer
    return (w, .bytes buffer)
  | .getIntArrayRegion array start length buffer => do
    let buffer ← jniIntArrayRegion w array start length buffer
    return (w, .ints buffer)
  | .setByteArrayRegion array start length buffer => do
    let w ← jniSetByteArrayRegion w array start length buffer
    return (w, .done)
  | .setIntArrayRegion array start length buffer => do
    let w ← jniSetIntArrayRegion w array start length buffer
    return (w, .done)
  | .getArrayLength array => .ok (w, .length (jniGetArrayLength w array))

/-- The array is NULL or an object of one of these kinds. -/
def IsOneOf (kinds : List FakeKind) (array : Option Ref) : Prop :=
  ∀ r object, array = some r → w.heap.get r = some object → object.kind ∈ kinds

/-- The call is on an array of the matching kind. -/
def ArrayCall.Matches : ArrayCall → Prop
  | .newByteArray _ | .newIntArray _ => True
  | .getByteArrayRegion array _ _ _ | .setByteArrayRegion array _ _ _ =>
    IsOneOf w [.byteArray] array
  | .getIntArrayRegion array _ _ _ | .setIntArrayRegion array _ _ _ =>
    IsOneOf w [.intArray] array
  | .getArrayLength array => IsOneOf w [.byteArray, .intArray] array

/-- A call with its answer. -/
abbrev Answered := ArrayCall × ArrayAnswer

/-- The states that calls lead to, with the calls so far, the latest first. -/
inductive Reached (w₀ : ValueWorld φ) : ValueWorld φ → List Answered → Prop
  | start : Reached w₀ w₀ []
  | call {w w' : ValueWorld φ} {past : List Answered} (call : ArrayCall) {answer : ArrayAnswer} :
    Reached w₀ w past → call.Matches w → arrayCall c w call = .ok (w', answer) →
      Reached w₀ w' ((call, answer) :: past)

/-! ## What calls on arrays come to -/

/-- A call that makes an array of one type, or asks for a region to be set. -/
inductive ArrayEvent (α : Type) where
  | new (length : Int32) (array : Ref)
  | set (array : Option Ref) (start length : Int32) (buffer : Nat → α)

def byteEvent : Answered → Option (ArrayEvent UInt8)
  | (.newByteArray length, .array r) => some (.new length r)
  | (.setByteArrayRegion array start length buffer, _) => some (.set array start length buffer)
  | _ => none

def intEvent : Answered → Option (ArrayEvent Int32)
  | (.newIntArray length, .array r) => some (.new length r)
  | (.setIntArrayRegion array start length buffer, _) => some (.set array start length buffer)
  | _ => none

/-- The length that an array was made with. -/
def lengthOf : List (ArrayEvent α) → Ref → Option Nat
  | [], _ => none
  | .new length array :: past, r =>
    if array = r then some length.toInt.toNat else lengthOf past r
  | .set _ _ _ _ :: past, r => lengthOf past r

/-- The region is in the array, by exact arithmetic. -/
def inBounds (past : List (ArrayEvent α)) (array : Option Ref) (start length : Int32) : Bool :=
  array.any fun r => (lengthOf past r).any fun n =>
    0 ≤ start.toInt ∧ 0 ≤ length.toInt ∧ start.toInt + length.toInt ≤ n

/-- The regions that are set, the latest first. -/
def writes : List (ArrayEvent α) → List (Write Ref α)
  | [] => []
  | .new _ _ :: past => writes past
  | .set array start length buffer :: past =>
    match array with
    | none => writes past
    | some r =>
      if inBounds past array start length then
        ⟨r, start.toInt.toNat, (List.range length.toInt.toNat).map buffer⟩ :: writes past
      else writes past

/-- The latest value that was set at an index, or 0. -/
def valueOf (past : List (ArrayEvent α)) (r : Ref) (i : Nat) : α :=
  (latest (writes past) r i).getD e.zero

def ValueWorld.elementAt (r : Ref) (i : Nat) : Option α :=
  (e.elements (w.data r)).bind fun store => store[i]?

/-- The arrays of a type are those that were made, and they hold the latest values. -/
structure HoldsLatest (past : List (ArrayEvent α)) : Prop where
  length : ∀ r n, lengthOf past r = some n ↔
    ∃ object, w.heap.get r = some object ∧ object.kind = e.kind ∧ object.length = n
  value : ∀ r n, lengthOf past r = some n → ∀ i < n,
    w.elementAt e r i = some (valueOf e past r i)

variable {e w}

/-- A new array is a new object, and the others stay. -/
def NewMeets (w w' : ValueWorld φ) (answer : ArrayAnswer) : Prop :=
  ∃ r, answer = .array r ∧ w.heap.get r = none ∧ w'.index = w.index ∧
    ∀ r' ≠ r, w'.heap.get r' = w.heap.get r' ∧ w'.data r' = w.data r'

/-- The elements asked for are in the buffer afterwards and the rest of it is as before, or
all of it is. -/
def GetMeets (e : ElementType α) (past : List (ArrayEvent α)) (array : Option Ref)
    (start length : Int32) (buffer result : Nat → α) : Prop :=
  if inBounds past array start length then
    ∀ r, array = some r → ∀ i : Nat, result i =
      if i < length.toInt then valueOf e past r (start.toInt.toNat + i) else buffer i
  else result = buffer

/-- The elements asked for are what the buffer says afterwards and nothing else changes, or
nothing changes at all. -/
def SetMeets (e : ElementType α) (past : List (ArrayEvent α)) (w w' : ValueWorld φ)
    (array : Option Ref) (start length : Int32) (buffer : Nat → α) : Prop :=
  if inBounds past array start length then
    w'.toWorld = w.toWorld ∧ (∀ r, array ≠ some r → w'.data r = w.data r) ∧
      ∀ r, array = some r → (∃ store, w'.data r = e.withElements (w.data r) store) ∧
        ∀ i : Nat, w'.elementAt e r i =
          if start.toInt ≤ i ∧ i < start.toInt + length.toInt then
            some (buffer (i - start.toInt.toNat))
          else w.elementAt e r i
  else w' = w

/-- What a call returns and does after the answered ones. -/
def ArrayCall.Meets (past : List Answered) (w w' : ValueWorld φ) :
    ArrayCall → ArrayAnswer → Prop
  | .newByteArray _, answer | .newIntArray _, answer => NewMeets w w' answer
  | .getByteArrayRegion array start length buffer, answer =>
    w' = w ∧ ∃ result, answer = .bytes result ∧
      GetMeets byteType (past.filterMap byteEvent) array start length buffer result
  | .getIntArrayRegion array start length buffer, answer =>
    w' = w ∧ ∃ result, answer = .ints result ∧
      GetMeets intType (past.filterMap intEvent) array start length buffer result
  | .setByteArrayRegion array start length buffer, answer =>
    answer = .done ∧
      SetMeets byteType (past.filterMap byteEvent) w w' array start length buffer
  | .setIntArrayRegion array start length buffer, answer =>
    answer = .done ∧
      SetMeets intType (past.filterMap intEvent) w w' array start length buffer
  | .getArrayLength array, answer =>
    w' = w ∧ ∃ n : Int32, answer = .length n ∧ n.toInt =
      (array.elim 0 fun r => ((lengthOf (past.filterMap byteEvent) r).or
        (lengthOf (past.filterMap intEvent) r)).getD 0 : Nat)

/-! ## Regions in bounds -/

theorem copied_eq {length : Int32} (h0 : 0 ≤ length.toInt)
    (hfit : length.toInt.toNat * e.size.toNat < 2 ^ 32) : copied e length = length.toInt.toNat := by
  rw [copied, UInt32.toNat_mul, toNat_toUInt32 h0, Nat.mod_eq_of_lt hfit,
    Nat.mul_div_cancel _ e.size_pos]

theorem inBounds_iff {past : List (ArrayEvent α)} {array : Option Ref} {start length : Int32} :
    inBounds past array start length = true ↔ ∃ r n, array = some r ∧ lengthOf past r = some n ∧
      0 ≤ start.toInt ∧ 0 ≤ length.toInt ∧ start.toInt + length.toInt ≤ n := by
  cases array with
  | none => simp [inBounds]
  | some r => cases hlength : lengthOf past r <;> simp [inBounds, hlength]

theorem writes_set_refused {past : List (ArrayEvent α)} {array : Option Ref}
    {start length : Int32} (buffer : Nat → α) (h : inBounds past array start length = false) :
    writes (.set array start length buffer :: past) = writes past := by
  cases array <;> simp [writes, h]

theorem writes_set_stored {past : List (ArrayEvent α)} {r : Ref} {start length : Int32}
    (buffer : Nat → α) (h : inBounds past (some r) start length = true) :
    writes (.set (some r) start length buffer :: past) =
      ⟨r, start.toInt.toNat, (List.range length.toInt.toNat).map buffer⟩ :: writes past := by
  simp [writes, h]

/-! ## The objects behind the arrays -/

/-- Every array has its elements behind it, at most `2 ^ 31 - 1` of them and no more bytes
than a `size_t` counts, and only arrays were written to. -/
structure Backed (e : ElementType α) (w : ValueWorld φ) (past : List (ArrayEvent α)) : Prop where
  length : ∀ r n, lengthOf past r = some n ↔
    ∃ object, w.heap.get r = some object ∧ object.kind = e.kind ∧ object.length = n
  fits : ∀ r n, lengthOf past r = some n → n < 2 ^ 31 ∧ n * e.size.toNat < 2 ^ 32
  store : ∀ r n, lengthOf past r = some n → ∃ store, e.elements (w.data r) = some store ∧
    n ≤ store.length ∧ Records e.zero (writes past) r store n
  written : ∀ write ∈ writes past, lengthOf past write.array ≠ none

variable {w' : ValueWorld φ} {past : List (ArrayEvent α)} {array : Option Ref}
  {start length : Int32} {buffer : Nat → α}

theorem Backed.holdsLatest (h : Backed e w past) : HoldsLatest e w past where
  length := h.length
  value := by
    intro r n hn i hi
    obtain ⟨store, hstore, -, hrecords⟩ := h.store r n hn
    rw [ValueWorld.elementAt, hstore, Option.bind_some, hrecords i hi, valueOf]

theorem Backed.lengthOf_eq_some (h : Backed e w past) {r : Ref} {object : FakeObject φ}
    (hget : w.heap.get r = some object) (hkind : object.kind = e.kind) :
    lengthOf past r = some object.length :=
  (h.length r object.length).mpr ⟨object, hget, hkind, rfl⟩

/-- What is no object of the kind is no array. -/
theorem Backed.lengthOf_eq_none (h : Backed e w past) {r : Ref}
    (hno : ∀ object, w.heap.get r = some object → object.kind ≠ e.kind) :
    lengthOf past r = none := by
  rw [Option.eq_none_iff_forall_ne_some]
  intro n hn
  obtain ⟨object, hget, hkind, -⟩ := (h.length r n).mp hn
  exact hno object hget hkind

/-- A call that leaves the arrays of a type alone. -/
theorem Backed.frame (h : Backed e w past)
    (hobject : ∀ r object, object.kind = e.kind →
      (w'.heap.get r = some object ↔ w.heap.get r = some object))
    (hdata : ∀ r n, lengthOf past r = some n → w'.data r = w.data r) : Backed e w' past where
  length := by
    intro r n
    rw [h.length]
    exact exists_congr fun object => ⟨fun ⟨hget, hkind, hn⟩ =>
      ⟨(hobject r object hkind).mpr hget, hkind, hn⟩, fun ⟨hget, hkind, hn⟩ =>
      ⟨(hobject r object hkind).mp hget, hkind, hn⟩⟩
  fits := h.fits
  store := by
    intro r n hn
    rw [hdata r n hn]
    exact h.store r n hn
  written := h.written

/-- The test of the code is the exact one. -/
theorem Backed.regionTarget_eq (h : Backed e w past) (hkind : IsOneOf w [e.kind] array) :
    regionTarget w array start length =
      if inBounds past array start length then array else none := by
  cases array with
  | none => rfl
  | some r =>
    have htest : ((w.heap.get r).any fun object =>
        0 ≤ start ∧ 0 ≤ length ∧ (start + length).toUInt32.toNat ≤ object.length) =
          inBounds past (some r) start length := by
      cases hget : w.heap.get r with
      | none =>
        have hnone := h.lengthOf_eq_none (r := r) (by simp [hget])
        simp [inBounds, hnone]
      | some object =>
        have hn := h.lengthOf_eq_some hget (List.mem_singleton.mp (hkind r object rfl hget))
        simp only [inBounds, hn, Option.any_some]
        exact decide_eq_decide.mpr (region_iff (h.fits r _ hn).1)
    rw [regionTarget, Option.filter_some, htest]

/-- A region in bounds is inside the elements, and `memcpy` moves all of it. -/
theorem Backed.region (h : Backed e w past) (hin : inBounds past array start length = true) :
    ∃ r n store, array = some r ∧ e.elements (w.data r) = some store ∧
      Records e.zero (writes past) r store n ∧ n ≤ store.length ∧ lengthOf past r = some n ∧
      0 ≤ start.toInt ∧ 0 ≤ length.toInt ∧ start.toInt + length.toInt ≤ n ∧
      copied e length = length.toInt.toNat := by
  obtain ⟨r, n, rfl, hn, hstart, hlength, hsum⟩ := inBounds_iff.mp hin
  obtain ⟨store, hstore, hlen, hrecords⟩ := h.store r n hn
  refine ⟨r, n, store, rfl, hstore, hrecords, hlen, hn, hstart, hlength, hsum,
    copied_eq hlength (Nat.lt_of_le_of_lt ?_ (h.fits r n hn).2)⟩
  exact Nat.mul_le_mul_right _ (by omega)

theorem Backed.arrayRegion (h : Backed e w past) (hkind : IsOneOf w [e.kind] array)
    (buffer : Nat → α) : ∃ result, arrayRegion e w array start length buffer = .ok result ∧
      GetMeets e past array start length buffer result := by
  unfold GetMeets
  rw [Jni.arrayRegion, h.regionTarget_eq hkind]
  by_cases hin : inBounds past array start length = true
  · obtain ⟨r, n, store, rfl, hstore, hrecords, hlen, -, hstart, hlength, hsum, hcopied⟩ :=
      h.region hin
    have hfit : start.toInt.toNat + copied e length ≤ store.length := by omega
    obtain ⟨region, hregion, hcount⟩ := loadRegion_of_le hfit
    refine ⟨fun i => region.getD i (buffer i), ?_, ?_⟩
    · simp only [if_pos hin, hstore, hregion, require_some, ok_bind]
      rfl
    · rw [if_pos hin]
      intro r' hr i
      obtain rfl := Option.some.inj hr
      simp only [List.getD_eq_getElem?_getD]
      by_cases hi : i < copied e length
      · rw [if_pos (by omega), hrecords.load (by omega) hregion hi, Option.getD_some, valueOf]
      · rw [if_neg (by omega), List.getElem?_eq_none (by omega), Option.getD_none]
  · exact ⟨buffer, by rw [if_neg hin], by rw [if_neg hin]⟩

@[simp] theorem data_setElements {r : Ref} {store : List α} :
    (w.setElements e r store).data r = e.withElements (w.data r) store :=
  Function.update_self _ _ _

theorem elementAt_setElements {r : Ref} {store : List α} (i : Nat) :
    (w.setElements e r store).elementAt e r i = store[i]? := by
  rw [ValueWorld.elementAt, data_setElements, e.elements_withElements, Option.bind_some]

theorem data_setElements_of_ne {r r' : Ref} {store : List α} (hne : r' ≠ r) :
    (w.setElements e r store).data r' = w.data r' := Function.update_of_ne hne _ _

/-- A region that is set, or not. -/
inductive SetOutcome (e : ElementType α) (past : List (ArrayEvent α)) (w : ValueWorld φ)
    (array : Option Ref) (start length : Int32) (buffer : Nat → α) : ValueWorld φ → Prop
  | refused : inBounds past array start length = false →
    SetOutcome e past w array start length buffer w
  | stored (r : Ref) (n : Nat) (store store' : List α) : inBounds past array start length = true →
    array = some r → lengthOf past r = some n → 0 ≤ start.toInt → 0 ≤ length.toInt →
    e.elements (w.data r) = some store →
    storeRegion store start.toInt.toNat ((List.range length.toInt.toNat).map buffer) = some store' →
    SetOutcome e past w array start length buffer (w.setElements e r store')

theorem Backed.setArrayRegion (h : Backed e w past) (hkind : IsOneOf w [e.kind] array)
    (buffer : Nat → α) : ∃ w', setArrayRegion e w array start length buffer = .ok w' ∧
      SetOutcome e past w array start length buffer w' := by
  rw [Jni.setArrayRegion, h.regionTarget_eq hkind]
  by_cases hin : inBounds past array start length = true
  · obtain ⟨r, n, store, rfl, hstore, -, hlen, hn, hstart, hlength, hsum, hcopied⟩ :=
      h.region hin
    have hfit : start.toInt.toNat + ((List.range (copied e length)).map buffer).length ≤
        store.length := by
      rw [List.length_map, List.length_range]
      omega
    obtain ⟨store', hstore'⟩ := storeRegion_of_le hfit
    refine ⟨w.setElements e r store', ?_,
      .stored r n store store' hin rfl hn hstart hlength hstore (hcopied ▸ hstore')⟩
    simp only [if_pos hin, hstore, hstore', require_some, ok_bind]
    rfl
  · exact ⟨w, by rw [if_neg hin], .refused (Bool.eq_false_iff.mpr hin)⟩

namespace SetOutcome

variable (h : SetOutcome e past w array start length buffer w')

include h

theorem setMeets : SetMeets e past w w' array start length buffer := by
  cases h with
  | refused hin =>
    rw [SetMeets, if_neg (by simp [hin])]
  | stored r n store store' hin harray hn hstart hlength hstore hstore' =>
    subst harray
    rw [SetMeets, if_pos hin]
    refine ⟨rfl, fun r' hr => data_setElements_of_ne fun heq => hr (heq ▸ rfl), ?_⟩
    intro r' hr
    obtain rfl := Option.some.inj hr
    refine ⟨⟨store', data_setElements⟩, fun i => ?_⟩
    rw [elementAt_setElements, getElem?_storeRegion hstore', List.length_map, List.length_range,
      ValueWorld.elementAt, hstore, Option.bind_some]
    by_cases hi : start.toInt ≤ i ∧ i < start.toInt + length.toInt
    · rw [if_pos hi, if_pos (by omega), List.getElem?_map, List.getElem?_range (by omega)]
      rfl
    · rw [if_neg hi, if_neg (by omega)]

theorem backed (hbacked : Backed e w past) :
    Backed e w' (.set array start length buffer :: past) := by
  cases h with
  | refused hin =>
    have hwrites := writes_set_refused buffer hin
    exact
      { length := hbacked.length
        fits := hbacked.fits
        store := fun r n hn => hwrites ▸ hbacked.store r n hn
        written := hwrites ▸ hbacked.written }
  | stored r n store store' hin harray hn hstart hlength hstore hstore' =>
    subst harray
    have hwrites := writes_set_stored buffer hin
    refine ⟨hbacked.length, hbacked.fits, fun r' n' hn' => ?_, ?_⟩
    · obtain ⟨old, hold, hlen, hrecords⟩ := hbacked.store r' n' hn'
      rw [hwrites]
      by_cases hr : r' = r
      · subst hr
        obtain rfl := Option.some.inj (hold.symm.trans hstore)
        refine ⟨store', ?_, (length_storeRegion hstore').symm ▸ hlen, hrecords.store hstore'⟩
        rw [data_setElements, e.elements_withElements]
      · rw [data_setElements_of_ne hr]
        exact ⟨old, hold, hlen, hrecords.other (Ne.symm hr)⟩
    · rw [hwrites]
      exact List.forall_mem_cons.mpr
        ⟨fun hnone => Option.some_ne_none n (hn.symm.trans hnone), hbacked.written⟩

end SetOutcome

/-! ## New arrays -/

/-- A new object, with zeros behind it. -/
structure Created (e : ElementType α) (w w' : ValueWorld φ) (length : Int32) (r : Ref) : Prop where
  fresh : w.heap.get r = none
  fits : length.toInt.toNat * e.size.toNat < 2 ^ 32
  index : w'.index = w.index
  object : ∃ object, w'.heap.get r = some object ∧ object.kind = e.kind ∧
    object.length = length.toInt.toNat
  store : ∃ m, length.toInt.toNat ≤ m ∧
    e.elements (w'.data r) = some (List.replicate m e.zero)
  others : ∀ r' ≠ r, w'.heap.get r' = w.heap.get r' ∧ w'.data r' = w.data r'

theorem Heap.get_fresh (h : Heap φ) : h.get (.cell h.cells.length) = none :=
  List.getElem?_eq_none le_rfl

theorem Heap.get_alloc_self (h : Heap φ) (object : FakeObject φ) :
    (h.alloc object).1.get (h.alloc object).2 = some object := by
  simp [Heap.alloc, Heap.get]

theorem Heap.get_alloc_of_ne (h : Heap φ) (object : FakeObject φ) {r : Ref}
    (hr : r ≠ (h.alloc object).2) : (h.alloc object).1.get r = h.get r := by
  cases r with
  | static s => rfl
  | cell index =>
    have hne : index ≠ h.cells.length := fun heq => hr (heq ▸ rfl)
    simp only [Heap.get, Heap.alloc]
    rcases Nat.lt_or_ge index h.cells.length with hlt | hge
    · rw [List.getElem?_append_left hlt]
    · rw [List.getElem?_eq_none hge, List.getElem?_eq_none (by simp; omega)]

theorem toNat_clamped (length : Int32) :
    (if length < 0 then 0 else length).toUInt32.toNat = length.toInt.toNat := by
  split
  · case isTrue h =>
    rw [Int32.lt_iff_toInt_lt, Int32.toInt_zero] at h
    rw [Int.toNat_of_nonpos (by omega)]
    rfl
  · case isFalse h =>
    rw [Int32.lt_iff_toInt_lt, Int32.toInt_zero] at h
    exact toNat_toUInt32 (by omega)

theorem jniNewPrimitiveArray_spec (length : Int32) :
    (∃ w' r, jniNewPrimitiveArray c e w length = .ok (w', r) ∧ Created e w w' length r) ∨
      jniNewPrimitiveArray c e w length = .error .abort ∧
        2 ^ 32 ≤ max length.toInt.toNat 1 * e.size.toNat := by
  have hclamped := toNat_clamped length
  generalize hl : (if length < 0 then 0 else length : Int32) = clamped at hclamped
  have hcount : (if clamped ≠ 0 then clamped.toUInt32 else 1).toNat =
      max length.toInt.toNat 1 := by
    rw [← hclamped]
    by_cases hzero : clamped = 0
    · subst hzero
      rfl
    · have hpos : clamped.toUInt32.toNat ≠ 0 := fun heq =>
        hzero (congrArg UInt32.toInt32 (UInt32.toNat_inj.mp heq))
      rw [if_pos hzero]
      omega
  simp only [jniNewPrimitiveArray, hl, calloc]
  generalize (if clamped ≠ 0 then clamped.toUInt32 else 1) = count at hcount ⊢
  by_cases hfit : count.toNat * e.size.toNat < 2 ^ 32
  · rw [if_pos hfit]
    refine .inl ⟨_, _, rfl, ?_⟩
    exact
      { fresh := Heap.get_fresh _
        fits := Nat.lt_of_le_of_lt (Nat.mul_le_mul_right _ (hcount ▸ Nat.le_max_left _ _)) hfit
        index := rfl
        object := ⟨_, Heap.get_alloc_self _ _, rfl, hclamped⟩
        store := ⟨_, hcount ▸ Nat.le_max_left _ _,
          by rw [data_setElements, e.elements_withElements]⟩
        others := fun r' hr => ⟨Heap.get_alloc_of_ne _ _ hr,
          (data_setElements_of_ne hr).trans (Function.update_of_ne hr _ _)⟩ }
  · rw [if_neg hfit]
    exact .inr ⟨rfl, hcount ▸ Nat.le_of_not_lt hfit⟩

namespace Created

variable {r : Ref}

theorem backed (h : Created e w w' length r) (hbacked : Backed e w past) :
    Backed e w' (.new length r :: past) := by
  have hnone := hbacked.lengthOf_eq_none (r := r) (by simp [h.fresh])
  have hself : lengthOf (.new length r :: past) r = some length.toInt.toNat := if_pos rfl
  have hother : ∀ r' ≠ r, lengthOf (.new length r :: past) r' = lengthOf past r' :=
    fun r' hr => if_neg (Ne.symm hr)
  have hnotMem : ∀ write ∈ writes past, write.array ≠ r :=
    fun write hmem heq => hbacked.written write hmem (heq ▸ hnone)
  refine ⟨fun r' n => ?_, fun r' n hn => ?_, fun r' n hn => ?_, fun write hmem => ?_⟩
  · by_cases hr : r' = r
    · obtain ⟨object, hget, hkind, hlength⟩ := h.object
      subst hr
      rw [hself, hget, Option.some_inj]
      constructor
      · rintro rfl
        exact ⟨object, rfl, hkind, hlength⟩
      · rintro ⟨object', hobject, -, rfl⟩
        rw [← Option.some.inj hobject, hlength]
    · rw [hother r' hr, (h.others r' hr).1]
      exact hbacked.length r' n
  · by_cases hr : r' = r
    · subst hr
      obtain rfl := Option.some.inj (hself.symm.trans hn)
      have hlt := length.toInt_lt
      exact ⟨by omega, h.fits⟩
    · exact hbacked.fits r' n (hother r' hr ▸ hn)
  · by_cases hr : r' = r
    · subst hr
      obtain rfl := Option.some.inj (hself.symm.trans hn)
      obtain ⟨m, hm, hstore⟩ := h.store
      exact ⟨_, hstore, by rwa [List.length_replicate], records_replicate hnotMem hm⟩
    · rw [(h.others r' hr).2]
      exact hbacked.store r' n (hother r' hr ▸ hn)
  · rw [hother _ (hnotMem write hmem)]
    exact hbacked.written write hmem

/-- A new array of one type is no array of another. -/
theorem backed_other {β : Type} {e' : ElementType β} {past' : List (ArrayEvent β)}
    (h : Created e w w' length r) (hkind : e'.kind ≠ e.kind) (hbacked : Backed e' w past') :
    Backed e' w' past' := by
  refine hbacked.frame (fun r' object hobject => ?_) (fun r' n hn => ?_)
  · by_cases hr : r' = r
    · obtain ⟨new, hnew, hnewKind, -⟩ := h.object
      subst hr
      rw [hnew, h.fresh]
      exact ⟨fun heq => absurd (Option.some.inj heq ▸ hnewKind) (hobject ▸ hkind), nofun⟩
    · rw [(h.others r' hr).1]
  · refine (h.others r' fun heq => ?_).2
    have hnone := hbacked.lengthOf_eq_none (r := r') (by simp [heq, h.fresh])
    exact Option.some_ne_none n (hn.symm.trans hnone)

end Created

/-- Setting a region of an array of one type leaves those of another alone. -/
theorem SetOutcome.backed_other {β : Type} {e' : ElementType β} {past' : List (ArrayEvent β)}
    (h : SetOutcome e past w array start length buffer w') (hbacked : Backed e w past)
    (hkind : e'.kind ≠ e.kind) (hbacked' : Backed e' w past') : Backed e' w' past' := by
  cases h with
  | refused => exact hbacked'
  | stored r n store store' hin harray hn hstart hlength hstore hstore' =>
    refine hbacked'.frame (fun r' object _ => Iff.rfl) (fun r' n' hn' => ?_)
    refine data_setElements_of_ne fun heq => hkind ?_
    obtain ⟨object, hget, hobject, -⟩ := (hbacked'.length r' n').mp hn'
    obtain ⟨object', hget', hobject', -⟩ := (hbacked.length r n).mp hn
    rw [heq, hget'] at hget
    rw [← hobject, ← hobject', Option.some.inj hget]

/-! ## Runs -/

theorem jniGetArrayLength_eq {bytes : List (ArrayEvent UInt8)} {ints : List (ArrayEvent Int32)}
    (hbytes : Backed byteType w bytes) (hints : Backed intType w ints)
    (hkind : IsOneOf w [.byteArray, .intArray] array) : (jniGetArrayLength w array).toInt =
      (array.elim 0 fun r => ((lengthOf bytes r).or (lengthOf ints r)).getD 0 : Nat) := by
  cases array with
  | none => rfl
  | some r =>
    simp only [jniGetArrayLength, asObject, Option.bind_some, Option.elim_some]
    cases hget : w.heap.get r with
    | none =>
      rw [hbytes.lengthOf_eq_none (by simp [hget]), hints.lengthOf_eq_none (by simp [hget])]
      rfl
    | some object =>
      rcases List.mem_pair.mp (hkind r object rfl hget) with hbyte | hint
      · have hn := hbytes.lengthOf_eq_some hget hbyte
        rw [hn, Option.some_or, Option.getD_some]
        exact Int32.toInt_ofNat_of_lt (hbytes.fits r _ hn).1
      · have hn := hints.lengthOf_eq_some hget hint
        have hother : lengthOf bytes r = none := by
          refine hbytes.lengthOf_eq_none fun object' hget' hbyte => ?_
          rw [← Option.some.inj (hget.symm.trans hget'), hint] at hbyte
          cases hbyte
        rw [hother, hn, Option.none_or, Option.getD_some]
        exact Int32.toInt_ofNat_of_lt (hints.fits r _ hn).1

/-- The arrays of both types have their elements behind them. -/
structure AllBacked (w : ValueWorld φ) (past : List Answered) : Prop where
  bytes : Backed byteType w (past.filterMap byteEvent)
  ints : Backed intType w (past.filterMap intEvent)

/-- A call meets its specification, or memory for an array of `2 ^ 30` ints or more is
refused. -/
theorem AllBacked.arrayCall {past : List Answered} (h : AllBacked w past) {call : ArrayCall}
    (hmatch : call.Matches w) :
    (∃ w' answer, arrayCall c w call = .ok (w', answer) ∧ call.Meets past w w' answer ∧
      AllBacked w' ((call, answer) :: past)) ∨
    arrayCall c w call = .error .abort ∧
      ∃ length, call = .newIntArray length ∧ 2 ^ 30 ≤ length.toInt := by
  have hkinds : byteType.kind ≠ intType.kind := by decide
  cases call with
  | newByteArray length =>
    rcases jniNewPrimitiveArray_spec (w := w) c (e := byteType) length with
      ⟨w', r, hnew, hcreated⟩ | ⟨-, habort⟩
    · refine .inl ⟨w', .array r, ?_, ⟨r, rfl, hcreated.fresh, hcreated.index, hcreated.others⟩,
        hcreated.backed h.bytes, hcreated.backed_other hkinds.symm h.ints⟩
      rw [Jni.arrayCall, jniNewByteArray, hnew]
      rfl
    · have hlt := length.toInt_lt
      rw [show byteType.size.toNat = 1 from rfl] at habort
      omega
  | newIntArray length =>
    rcases jniNewPrimitiveArray_spec (w := w) c (e := intType) length with
      ⟨w', r, hnew, hcreated⟩ | ⟨hnew, habort⟩
    · refine .inl ⟨w', .array r, ?_, ⟨r, rfl, hcreated.fresh, hcreated.index, hcreated.others⟩,
        hcreated.backed_other hkinds h.bytes, hcreated.backed h.ints⟩
      rw [Jni.arrayCall, jniNewIntArray, hnew]
      rfl
    · rw [show intType.size.toNat = 4 from rfl] at habort
      refine .inr ⟨?_, length, rfl, by omega⟩
      rw [Jni.arrayCall, jniNewIntArray, hnew]
      rfl
  | getByteArrayRegion array start length buffer =>
    obtain ⟨result, hget, hmeets⟩ := h.bytes.arrayRegion hmatch buffer
    refine .inl ⟨w, .bytes result, ?_, ⟨rfl, result, rfl, hmeets⟩, h.bytes, h.ints⟩
    rw [Jni.arrayCall, jniByteArrayRegion, hget]
    rfl
  | getIntArrayRegion array start length buffer =>
    obtain ⟨result, hget, hmeets⟩ := h.ints.arrayRegion hmatch buffer
    refine .inl ⟨w, .ints result, ?_, ⟨rfl, result, rfl, hmeets⟩, h.bytes, h.ints⟩
    rw [Jni.arrayCall, jniIntArrayRegion, hget]
    rfl
  | setByteArrayRegion array start length buffer =>
    obtain ⟨w', hset, houtcome⟩ := h.bytes.setArrayRegion hmatch buffer
    refine .inl ⟨w', .done, ?_, ⟨rfl, houtcome.setMeets⟩, houtcome.backed h.bytes,
      houtcome.backed_other h.bytes hkinds.symm h.ints⟩
    rw [Jni.arrayCall, jniSetByteArrayRegion, hset]
    rfl
  | setIntArrayRegion array start length buffer =>
    obtain ⟨w', hset, houtcome⟩ := h.ints.setArrayRegion hmatch buffer
    refine .inl ⟨w', .done, ?_, ⟨rfl, houtcome.setMeets⟩,
      houtcome.backed_other h.ints hkinds h.bytes, houtcome.backed h.ints⟩
    rw [Jni.arrayCall, jniSetIntArrayRegion, hset]
    rfl
  | getArrayLength array =>
    exact .inl ⟨w, _, rfl, ⟨rfl, _, rfl, jniGetArrayLength_eq h.bytes h.ints hmatch⟩,
      h.bytes, h.ints⟩

/-- No object is a byte or an int array yet. -/
def NoArrays (w : ValueWorld φ) : Prop :=
  ∀ r object, w.heap.get r = some object →
    object.kind ≠ byteType.kind ∧ object.kind ≠ intType.kind

theorem backed_nil (h : ∀ r object, w.heap.get r = some object → object.kind ≠ e.kind) :
    Backed e w [] where
  length := by
    intro r n
    refine ⟨nofun, fun ⟨object, hget, hkind, _⟩ => absurd hkind (h r object hget)⟩
  fits := nofun
  store := nofun
  written := List.forall_mem_nil _

theorem Reached.allBacked {w₀ : ValueWorld φ} {past : List Answered} (hstart : NoArrays w₀)
    (h : Reached c w₀ w past) : AllBacked w past := by
  induction h with
  | start =>
    exact ⟨backed_nil fun r object hget => (hstart r object hget).1,
      backed_nil fun r object hget => (hstart r object hget).2⟩
  | call call hreached hmatch hcall ih =>
    rcases ih.arrayCall c hmatch with ⟨w', answer, hok, -, hbacked⟩ | ⟨herror, -⟩
    · rw [hcall] at hok
      cases hok
      exact hbacked
    · rw [hcall] at herror
      cases herror

/-- After any calls, the arrays hold the latest values that were set, and the next call on
an array of the matching kind moves exactly the region it asks for if that is in bounds,
and nothing otherwise. It is in no case undefined. -/
theorem array_calls_meet_specification {w₀ w : ValueWorld φ} {past : List Answered}
    (hstart : NoArrays w₀) (hreached : Reached c w₀ w past) :
    HoldsLatest byteType w (past.filterMap byteEvent) ∧
    HoldsLatest intType w (past.filterMap intEvent) ∧
    ∀ call : ArrayCall, call.Matches w →
      (∃ w' answer, arrayCall c w call = .ok (w', answer) ∧ call.Meets past w w' answer) ∨
      arrayCall c w call = .error .abort ∧
        ∃ length, call = .newIntArray length ∧ 2 ^ 30 ≤ length.toInt := by
  have hbacked := hreached.allBacked c hstart
  refine ⟨hbacked.bytes.holdsLatest, hbacked.ints.holdsLatest, fun call hmatch => ?_⟩
  rcases hbacked.arrayCall c hmatch with ⟨w', answer, hok, hmeets, -⟩ | habort
  · exact .inl ⟨w', answer, hok, hmeets⟩
  · exact .inr habort

theorem noArrays_paint : NoArrays paintValueWorld := by
  rintro (object | index) object' hget
  · obtain rfl := Option.some.inj hget
    change FakeKind.generic ≠ .byteArray ∧ FakeKind.generic ≠ .intArray
    decide
  · cases index with
    | zero =>
      obtain rfl := Option.some.inj hget
      exact ⟨by decide, by decide⟩
    | succ index => cases hget

/-- Two regions of one array that overlap: the later one is read. A third one whose end
wraps around is refused. -/
theorem array_calls_meet_specification_overlapping :
    ∃ w past, Reached .integral paintValueWorld w past ∧ past.length = 3 ∧
      w.elementAt byteType (.cell 1) 1 = some 5 ∧ w.elementAt byteType (.cell 1) 2 = some 9 ∧
      ∃ answer, arrayCall .integral w
        (.setByteArrayRegion (some (.cell 1)) 1 2147483647 fun _ => 1) = .ok (w, answer) := by
  have hkind : ∀ {w : ValueWorld Int}, (∃ object, w.heap.get (.cell 1) = some object ∧
      object.kind = .byteArray) → IsOneOf w [.byteArray] (some (.cell 1)) := by
    rintro w ⟨object, hget, hbyte⟩ r object' hr hget'
    obtain rfl := Option.some.inj hr
    rw [← Option.some.inj (hget.symm.trans hget'), hbyte]
    exact List.mem_singleton_self _
  have hnew : Reached FloatOps.integral paintValueWorld _ _ :=
    .call (.newByteArray 4) .start trivial rfl
  have hfirst : Reached FloatOps.integral paintValueWorld _ _ :=
    .call (.setByteArrayRegion (some (.cell 1)) 0 3 fun _ => 5) hnew
      (hkind ⟨_, rfl, rfl⟩) rfl
  have hsecond : Reached FloatOps.integral paintValueWorld _ _ :=
    .call (.setByteArrayRegion (some (.cell 1)) 2 2 fun _ => 9) hfirst
      (hkind ⟨_, rfl, rfl⟩) rfl
  obtain ⟨hbytes, -, hcall⟩ :=
    array_calls_meet_specification .integral noArrays_paint hsecond
  refine ⟨_, _, hsecond, rfl, hbytes.value (.cell 1) 4 rfl 1 (by decide),
    hbytes.value (.cell 1) 4 rfl 2 (by decide), ?_⟩
  rcases hcall (.setByteArrayRegion (some (.cell 1)) 1 2147483647 fun _ => 1)
    (hkind ⟨_, rfl, rfl⟩) with ⟨w', answer, hok, -, hmeets⟩ | ⟨-, length, hint, -⟩
  · rw [SetMeets, if_neg (by decide)] at hmeets
    subst hmeets
    exact ⟨answer, hok⟩
  · cases hint

end NfsmwRuntime.Jni

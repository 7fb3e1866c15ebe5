import Mathlib.Algebra.Order.Ring.Int
import Mathlib.Data.List.Basic

/-!
# Regions of arrays

A region is a number of elements from a start on. Loading or storing one is possible if it
is inside the list, and a store changes the elements of the region and no others.

A log lists the stores into several arrays, the latest first. Where every store is logged,
an element is the latest value logged for it, or what it was created with.
-/

namespace NfsmwRuntime.Library

variable {ρ α : Type}

def loadRegion (l : List α) (start count : Nat) : Option (List α) :=
  if start + count ≤ l.length then some ((l.drop start).take count) else none

def storeRegion (l : List α) (start : Nat) (values : List α) : Option (List α) :=
  if start + values.length ≤ l.length then
    some (l.take start ++ values ++ l.drop (start + values.length))
  else none

/-- Stores one after the other, each with the start of its region. -/
def storeRegions (l : List α) (writes : List (Nat × List α)) : Option (List α) :=
  writes.foldlM (fun l (start, values) => storeRegion l start values) l

/-- New values for the elements from `o` on. -/
theorem getElem?_splice {l v : List α} {o : Nat} (ho : o + v.length ≤ l.length) (j : Nat) :
    (l.take o ++ v ++ l.drop (o + v.length))[j]? =
      if o ≤ j ∧ j < o + v.length then v[j - o]? else l[j]? := by
  have htake : (l.take o).length = o := List.length_take_of_le (by omega)
  rcases Nat.lt_or_ge j o with hj | hj
  · rw [if_neg (by omega), List.append_assoc, List.getElem?_append_left (by omega),
      List.getElem?_take_of_lt hj]
  · rw [List.append_assoc, List.getElem?_append_right (by omega), htake]
    by_cases hv : j < o + v.length
    · rw [if_pos ⟨hj, hv⟩, List.getElem?_append_left (by omega)]
    · rw [if_neg (by omega), List.getElem?_append_right (by omega), List.getElem?_drop]
      congr 1
      omega

section Regions

variable {l l' values : List α} {start count : Nat}

theorem loadRegion_of_le (h : start + count ≤ l.length) :
    ∃ v, loadRegion l start count = some v ∧ v.length = count := by
  refine ⟨_, if_pos h, ?_⟩
  rw [List.length_take, List.length_drop]
  omega

theorem getElem?_loadRegion (h : loadRegion l start count = some values) {i : Nat}
    (hi : i < count) : values[i]? = l[start + i]? := by
  unfold loadRegion at h
  split at h
  · cases h
    rw [List.getElem?_take_of_lt hi, List.getElem?_drop]
  · cases h

theorem storeRegion_of_le (h : start + values.length ≤ l.length) :
    ∃ l', storeRegion l start values = some l' := ⟨_, if_pos h⟩

theorem getElem?_storeRegion (h : storeRegion l start values = some l') (i : Nat) :
    l'[i]? = if start ≤ i ∧ i < start + values.length then values[i - start]? else l[i]? := by
  unfold storeRegion at h
  split at h
  · case isTrue hfit =>
    cases h
    exact getElem?_splice hfit i
  · cases h

theorem length_storeRegion (h : storeRegion l start values = some l') :
    l'.length = l.length := by
  unfold storeRegion at h
  split at h
  · cases h
    simp only [List.length_append, List.length_take, List.length_drop]
    omega
  · cases h

/-- A store behind what has been written so far. -/
theorem storeRegion_append {rest : List α} (hstart : l.length = start)
    (hfit : values.length ≤ rest.length) :
    storeRegion (l ++ rest) start values = some (l ++ values ++ rest.drop values.length) := by
  subst hstart
  have hlen : l.length + values.length ≤ (l ++ rest).length := by
    rw [List.length_append]
    omega
  rw [storeRegion, if_pos hlen, List.take_left, List.drop_append]
  simp

@[simp] theorem storeRegions_nil : storeRegions l [] = some l := rfl

@[simp] theorem storeRegions_cons (write : Nat × List α) (writes : List (Nat × List α)) :
    storeRegions l (write :: writes) =
      (storeRegion l write.1 write.2).bind fun l => storeRegions l writes := rfl

/-- Stores are possible if each of their regions is inside the list. -/
theorem isSome_storeRegions {writes : List (Nat × List α)} :
    (storeRegions l writes).isSome = true ↔
      ∀ write ∈ writes, write.1 + write.2.length ≤ l.length := by
  induction writes generalizing l with
  | nil => simp
  | cons write writes ih =>
    rw [storeRegions_cons, List.forall_mem_cons]
    by_cases hfit : write.1 + write.2.length ≤ l.length
    · obtain ⟨l', hl'⟩ := storeRegion_of_le hfit
      rw [hl', Option.bind_some, ih, length_storeRegion hl', and_iff_right hfit]
    · rw [storeRegion, if_neg hfit, Option.bind_none]
      simp [hfit]

end Regions

/-! ## Regions given by machine integers -/

theorem toInt_eq_toUInt32 (x : Int32) : x.toInt =
    if x.toUInt32.toNat < 2 ^ 31 then (x.toUInt32.toNat : Int)
    else x.toUInt32.toNat - 2 ^ 32 := by
  have hcond := BitVec.toInt_eq_toNat_cond x.toBitVec
  have hnat : x.toUInt32.toNat = x.toBitVec.toNat := rfl
  have hint : x.toInt = x.toBitVec.toInt := rfl
  rw [hint, hcond, hnat]
  split <;> split <;> omega

theorem toNat_toUInt32 {x : Int32} (hx : 0 ≤ x.toInt) : x.toUInt32.toNat = x.toInt.toNat := by
  have hint := toInt_eq_toUInt32 x
  have hlt := x.toUInt32.toNat_lt
  split at hint <;> omega

/-- No sum that wraps passes: it is at least `2 ^ 31` as a `size_t`. -/
theorem region_iff {start length : Int32} {n : Nat} (hn : n < 2 ^ 31) :
    0 ≤ start ∧ 0 ≤ length ∧ (start + length).toUInt32.toNat ≤ n ↔
      0 ≤ start.toInt ∧ 0 ≤ length.toInt ∧ start.toInt + length.toInt ≤ n := by
  have hstart := toInt_eq_toUInt32 start
  have hlength := toInt_eq_toUInt32 length
  have hsum : (start + length).toUInt32.toNat =
      (start.toUInt32.toNat + length.toUInt32.toNat) % 2 ^ 32 := UInt32.toNat_add _ _
  have hs := start.toUInt32.toNat_lt
  have hl := length.toUInt32.toNat_lt
  rw [Int32.le_iff_toInt_le, Int32.le_iff_toInt_le, hsum, Int32.toInt_zero]
  split at hstart <;> split at hlength <;> omega

/-! ## The latest store -/

/-- A store of `values` into an array, from an element on. -/
structure Write (ρ α : Type) where
  array : ρ
  start : Nat
  values : List α

variable [DecidableEq ρ]

/-- What a store puts at an element, if it covers it. -/
def Write.valueAt (write : Write ρ α) (r : ρ) (i : Nat) : Option α :=
  if write.array = r ∧ write.start ≤ i then write.values[i - write.start]? else none

/-- The value that the latest store covering an element gives it. -/
def latest (log : List (Write ρ α)) (r : ρ) (i : Nat) : Option α :=
  log.findSome? (·.valueAt r i)

/-- The first `n` elements are the latest ones of the log. -/
def Records (initial : α) (log : List (Write ρ α)) (r : ρ) (l : List α) (n : Nat) : Prop :=
  ∀ i < n, l[i]? = some ((latest log r i).getD initial)

variable {initial : α} {log : List (Write ρ α)} {r : ρ} {l l' values : List α} {n : Nat}

theorem latest_cons (write : Write ρ α) (i : Nat) :
    latest (write :: log) r i = (write.valueAt r i).or (latest log r i) := by
  unfold latest
  rw [List.findSome?_cons]
  cases write.valueAt r i <;> rfl

theorem latest_of_notMem (h : ∀ write ∈ log, write.array ≠ r) (i : Nat) :
    latest log r i = none :=
  List.findSome?_eq_none_iff.mpr fun write hmem => if_neg fun hr => h write hmem hr.1

/-- A new array, which no store went to. -/
theorem records_replicate (h : ∀ write ∈ log, write.array ≠ r) {m : Nat} (hn : n ≤ m) :
    Records initial log r (List.replicate m initial) n := by
  intro i hi
  rw [latest_of_notMem h, List.getElem?_replicate_of_lt (by omega)]
  rfl

namespace Records

/-- A store into another array. -/
theorem other (h : Records initial log r l n) {write : Write ρ α} (hne : write.array ≠ r) :
    Records initial (write :: log) r l n := by
  intro i hi
  rw [h i hi, latest_cons, Write.valueAt, if_neg fun hr => hne hr.1, Option.none_or]

theorem store (h : Records initial log r l n) {start : Nat}
    (hstore : storeRegion l start values = some l') :
    Records initial (⟨r, start, values⟩ :: log) r l' n := by
  intro i hi
  rw [getElem?_storeRegion hstore, latest_cons]
  by_cases hcover : start ≤ i ∧ i < start + values.length
  · have hget := List.getElem?_eq_getElem (show i - start < values.length by omega)
    rw [if_pos hcover, Write.valueAt, if_pos ⟨rfl, hcover.1⟩, hget, Option.some_or,
      Option.getD_some]
  · have hnone : Write.valueAt ⟨r, start, values⟩ r i = none := by
      simp only [Write.valueAt, true_and]
      split
      · exact List.getElem?_eq_none (by omega)
      · rfl
    rw [if_neg hcover, hnone, Option.none_or, h i hi]

theorem load (h : Records initial log r l n) {start count : Nat} (hn : start + count ≤ n)
    (hload : loadRegion l start count = some values) {i : Nat} (hi : i < count) :
    values[i]? = some ((latest log r (start + i)).getD initial) := by
  rw [getElem?_loadRegion hload hi, h _ (by omega)]

end Records

end NfsmwRuntime.Library

import Mathlib.Data.List.DropRight
import Mathlib.Data.List.TakeWhile

/-!
# Byte strings

C strings and file contents are lists of bytes. Words are stored little-endian, and a
read at an offset finds the word that a concatenation has there.
-/

namespace NfsmwRuntime.Library

/-- A C string without its terminator. -/
abbrev CString := List UInt8

/-- The bytes of a string literal. -/
def cstr (s : String) : CString := s.toUTF8.data.toList

@[simp] theorem cstr_inj {s t : String} : cstr s = cstr t ↔ s = t := by
  refine ⟨fun h => ?_, fun h => h ▸ rfl⟩
  have hdata : s.toUTF8.data = t.toUTF8.data := Array.toList_inj.mp h
  exact String.toByteArray_inj.mp (ByteArray.ext hdata)

/-- What C's string functions see of a buffer: the bytes before the first NUL. -/
def cstring (buffer : List UInt8) : CString := buffer.takeWhile (· ≠ 0)

/-- From a position on there is an element without `p` exactly if the position is before
the last such element. -/
theorem exists_ge_iff_rtakeWhile {α : Type} (p : α → Bool) (l : List α) (k : Nat) :
    (∃ i x, k ≤ i ∧ l[i]? = some x ∧ p x = false) ↔ k + (l.rtakeWhile p).length < l.length := by
  induction l using List.reverseRecOn with
  | nil => simp
  | append_singleton l a ih =>
    rw [List.rtakeWhile_concat, List.length_append, List.length_singleton]
    by_cases hp : p a
    · -- the last element changes neither side
      rw [if_pos hp, List.length_append, List.length_singleton, ← Nat.add_assoc,
        Nat.add_lt_add_iff_right, ← ih]
      grind
    · rw [if_neg hp]
      constructor
      · rintro ⟨i, x, hki, hx, -⟩
        have := (List.getElem?_eq_some_iff.mp hx).1
        simp at this
        simp
        omega
      · intro hk
        exact ⟨l.length, a, by simp at hk; omega, by simp, by simpa using hp⟩

/-! ## Printing into a buffer -/

/-- `snprintf` of a text: the number that it returns, negative for a text that an `int` cannot
count, and what it leaves in a buffer of `size` bytes. -/
def snprintf (size : Nat) (text : CString) : Int × List UInt8 :=
  (if text.length ≤ 2147483647 then text.length else -1,
    if size = 0 then [] else text.take (size - 1) ++ [0])

/-- A count below the size means that the whole text is there. -/
theorem snprintf_fits {size : Nat} {text : CString}
    (h : (snprintf size text).1 ≥ 0 ∧ (snprintf size text).1 < size) :
    (snprintf size text).2 = text ++ [0] ∧ text.length < size := by
  by_cases hlength : text.length ≤ 2147483647
  · have hcount : (snprintf size text).1 = text.length := if_pos hlength
    have hless : text.length < size := by omega
    have hbuffer : (snprintf size text).2 = text.take (size - 1) ++ [0] := if_neg (by omega)
    exact ⟨by rw [hbuffer, List.take_of_length_le (by omega)], hless⟩
  · have hcount : (snprintf size text).1 = -1 := if_neg hlength
    omega

/-- The text in a buffer that `snprintf` has filled, without its NUL. -/
def printed (size : Nat) (text : CString) : CString := (snprintf size text).2.dropLast

/-! ## Little-endian words -/

def le16 (v : UInt16) : List UInt8 := [v.toUInt8, (v >>> 8).toUInt8]

def le32 (v : UInt32) : List UInt8 :=
  [v.toUInt8, (v >>> 8).toUInt8, (v >>> 16).toUInt8, (v >>> 24).toUInt8]

def readU16 (p : List UInt8) : UInt16 :=
  (p.getD 0 0).toUInt16 ||| ((p.getD 1 0).toUInt16 <<< 8)

def readU32 (p : List UInt8) : UInt32 :=
  (p.getD 0 0).toUInt32 ||| ((p.getD 1 0).toUInt32 <<< 8) |||
    ((p.getD 2 0).toUInt32 <<< 16) ||| ((p.getD 3 0).toUInt32 <<< 24)

@[simp] theorem length_le16 (v : UInt16) : (le16 v).length = 2 := rfl

@[simp] theorem length_le32 (v : UInt32) : (le32 v).length = 4 := rfl

theorem readU16_le16 (v : UInt16) (rest : List UInt8) : readU16 (le16 v ++ rest) = v := by
  apply UInt16.toBitVec_inj.mp
  ext i hi
  simp [readU16, le16, -UInt16.toUInt16_toUInt8]
  grind

theorem readU32_le32 (v : UInt32) (rest : List UInt8) : readU32 (le32 v ++ rest) = v := by
  apply UInt32.toBitVec_inj.mp
  ext i hi
  simp [readU32, le32, -UInt32.toUInt32_toUInt8]
  grind

/-- A word read determines the bytes it was read from. -/
theorem le32_readU32 {p : List UInt8} (h : 4 ≤ p.length) : le32 (readU32 p) = p.take 4 := by
  obtain ⟨a, b, c, d, rest, rfl⟩ : ∃ a b c d rest, p = a :: b :: c :: d :: rest := by
    match p, h with
    | a :: b :: c :: d :: rest, _ => exact ⟨a, b, c, d, rest, rfl⟩
  have hbytes : ∀ x y : UInt8, (∀ i, x.toBitVec.getLsbD i = y.toBitVec.getLsbD i) → x = y :=
    fun x y hxy => UInt8.toBitVec_inj.mp (BitVec.eq_of_getLsbD_eq fun i _ => hxy i)
  simp only [le32, readU32, List.take_succ_cons, List.take_zero, List.cons.injEq, and_true]
  refine ⟨hbytes _ _ fun i => ?_, hbytes _ _ fun i => ?_, hbytes _ _ fun i => ?_,
    hbytes _ _ fun i => ?_⟩
  · simp
  · simp
    grind
  · simp
    grind
  · simp
    grind

/-- The word that a concatenation has at an offset. -/
theorem readU16_drop {l a b : List UInt8} {v : UInt16} {i : Nat} (hl : l = a ++ (le16 v ++ b))
    (hi : a.length = i) : readU16 (l.drop i) = v := by
  rw [hl, List.drop_left' hi, readU16_le16]

theorem readU32_drop {l a b : List UInt8} {v : UInt32} {i : Nat} (hl : l = a ++ (le32 v ++ b))
    (hi : a.length = i) : readU32 (l.drop i) = v := by
  rw [hl, List.drop_left' hi, readU32_le32]

/-- A half word is read from its two bytes. -/
theorem readU16_take {p : List UInt8} {n : Nat} (hn : 2 ≤ n) : readU16 (p.take n) = readU16 p := by
  have hbyte : ∀ i < 2, (p.take n).getD i 0 = p.getD i 0 := by
    intro i hi
    rw [List.getD_eq_getElem?_getD, List.getD_eq_getElem?_getD, List.getElem?_take_of_lt (by omega)]
  simp only [readU16, hbyte, Nat.reduceLT]

/-- A word is read from its four bytes. -/
theorem readU32_take {p : List UInt8} {n : Nat} (hn : 4 ≤ n) : readU32 (p.take n) = readU32 p := by
  have hbyte : ∀ i < 4, (p.take n).getD i 0 = p.getD i 0 := by
    intro i hi
    rw [List.getD_eq_getElem?_getD, List.getD_eq_getElem?_getD, List.getElem?_take_of_lt (by omega)]
  simp only [readU32, hbyte, Nat.reduceLT]

/-! ## Reading a file -/

/-- `fread` of `count` bytes at a position, if there are that many. -/
def fread (content : List UInt8) (position count : Nat) : Option (List UInt8) :=
  if position + count ≤ content.length then some ((content.drop position).take count) else none

theorem fread_append {l a b c : List UInt8} (hl : l = a ++ (b ++ c)) {position count : Nat}
    (hposition : a.length = position) (hcount : b.length = count) :
    fread l position count = some b := by
  subst hl hposition hcount
  simp [fread]

end NfsmwRuntime.Library

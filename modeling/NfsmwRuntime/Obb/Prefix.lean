import NfsmwRuntime.Library.Region
import NfsmwRuntime.Obb.Index

/-!
# The prefix that a listing compares with

`nfsmw_obb_list` copies the directory into an array of `NAME_LIMIT` bytes on its stack and
puts a slash and a NUL behind it. The function that looks assets up skips a name that is too
long; here there is no test, and a directory of `NAME_LIMIT - 1` bytes between its slashes
already has its NUL behind the array.
-/

namespace NfsmwRuntime.Obb

open Library

/-- `while (wanted_length > 0U && wanted[wanted_length - 1U] == '/') --wanted_length` -/
def wantedLength (wanted : CString) : (length : Nat) → Nat
  | 0 => 0
  | length + 1 =>
    if wanted[length]? = some slash then wantedLength wanted length else length + 1

/-- The writes to `prefix`: the bytes and the offset of the first one. -/
def prefixWrites (directory : Option CString) : List (Nat × List UInt8) :=
  let wanted := normalize directory
  let length := wantedLength wanted wanted.length
  if length = 0 then [(0, [0])]
  else [(0, wanted.take length), (length, [slash]), (length + 1, [0])]

def prefixLength (directory : Option CString) : Nat :=
  let wanted := normalize directory
  let length := wantedLength wanted wanted.length
  if length = 0 then 0 else length + 1

/-- The bytes that names are compared with, if the writes stay inside an array that holds
`buffer` before. -/
def comparedPrefix (buffer : List UInt8) (directory : Option CString) : Option CString := do
  let buffer ← storeRegions buffer (prefixWrites directory)
  return buffer.take (prefixLength directory)

/-- All writes are inside the array, and names are compared with the directory between its
slashes and a slash, or with nothing if nothing is there. -/
structure PrefixContained (directory : Option CString) : Prop where
  inside : ∀ write ∈ prefixWrites directory, ∀ i < write.2.length, write.1 + i < nameLimit
  compared : ∀ buffer : List UInt8, buffer.length = nameLimit →
    comparedPrefix buffer directory =
      some (if trimmed directory = [] then [] else trimmed directory ++ [slash])

variable {directory : Option CString} {buffer : List UInt8}

theorem wantedLength_take {wanted : CString} {k : Nat} (hk : k ≤ wanted.length) :
    wantedLength wanted k = ((wanted.take k).rdropWhile (· = slash)).length := by
  induction k with
  | zero => rfl
  | succ k ih =>
    rw [wantedLength, List.getElem?_eq_getElem hk, List.take_succ_eq_append_getElem hk,
      List.rdropWhile_concat, ih (Nat.le_of_succ_le hk)]
    by_cases hslash : wanted[k] = slash
    · simp [hslash]
    · simp [hslash]
      omega

theorem wantedLength_eq (wanted : CString) :
    wantedLength wanted wanted.length = (wanted.rdropWhile (· = slash)).length := by
  rw [wantedLength_take (Nat.le_refl _), List.take_length]

theorem take_wantedLength : (normalize directory).take (trimmed directory).length =
    trimmed directory :=
  (List.prefix_iff_eq_take.mp (List.rdropWhile_prefix _ _)).symm

theorem prefixWrites_eq : prefixWrites directory =
    if trimmed directory = [] then [(0, [0])]
    else [(0, trimmed directory), ((trimmed directory).length, [slash]),
      ((trimmed directory).length + 1, [0])] := by
  have hlength : wantedLength (normalize directory) (normalize directory).length =
      (trimmed directory).length := wantedLength_eq _
  simp only [prefixWrites, hlength, take_wantedLength, List.length_eq_zero_iff]

theorem prefixLength_eq : prefixLength directory =
    if trimmed directory = [] then 0 else (trimmed directory).length + 1 := by
  have hlength : wantedLength (normalize directory) (normalize directory).length =
      (trimmed directory).length := wantedLength_eq _
  simp only [prefixLength, hlength, List.length_eq_zero_iff]

/-- A directory without slashes, of any length. -/
theorem trimmed_replicate (n : Nat) {b : UInt8} (hb : b ≠ slash) :
    trimmed (some (List.replicate n b)) = List.replicate n b := by
  have hmem : ∀ x ∈ List.replicate n b, ¬ x = slash :=
    fun x hx => (List.eq_of_mem_replicate hx).symm ▸ hb
  rw [trimmed, normalize, Option.getD_some, List.dropWhile_eq_self_iff.mpr,
    List.rdropWhile_eq_self_iff.mpr]
  · intro hne
    simpa using hmem _ (List.getLast_mem hne)
  · intro hpos
    simpa using hmem _ (List.get_mem _ ⟨0, hpos⟩)

/-- The NUL is written behind the slash. -/
theorem nul_mem_prefixWrites (h : trimmed directory ≠ []) :
    ((trimmed directory).length + 1, [0]) ∈ prefixWrites directory := by
  rw [prefixWrites_eq, if_neg h]
  simp

/-- The writes fit if the directory, a slash and a NUL do. -/
theorem prefixWrites_inside_iff {limit : Nat} (hlimit : 0 < limit) :
    (∀ write ∈ prefixWrites directory, write.1 + write.2.length ≤ limit) ↔
      trimmed directory = [] ∨ (trimmed directory).length + 2 ≤ limit := by
  rw [prefixWrites_eq]
  by_cases hempty : trimmed directory = []
  · simp [hempty]
    omega
  · simp [hempty]
    omega

/-- The array afterwards starts with the prefix, if that and a NUL fit. -/
theorem comparedPrefix_of_le (hbuffer : (trimmed directory).length + 2 ≤ buffer.length) :
    comparedPrefix buffer directory =
      some (if trimmed directory = [] then [] else trimmed directory ++ [slash]) := by
  rw [comparedPrefix, prefixWrites_eq, prefixLength_eq]
  obtain ⟨t, ht⟩ : ∃ t, t = trimmed directory := ⟨_, rfl⟩
  rw [← ht] at hbuffer ⊢
  by_cases hempty : t = []
  · have hroom : 0 + [(0 : UInt8)].length ≤ buffer.length := by
      simp
      omega
    obtain ⟨b, hb⟩ := storeRegion_of_le hroom
    simp [hempty, hb]
  · have hcopy : storeRegion buffer 0 t = some (t ++ buffer.drop t.length) :=
      storeRegion_append (l := []) rfl (by omega)
    have hslash : storeRegion (t ++ buffer.drop t.length) t.length [slash] =
        some (t ++ [slash] ++ (buffer.drop t.length).drop 1) :=
      storeRegion_append rfl (by simp; omega)
    have hnul : storeRegion (t ++ [slash] ++ (buffer.drop t.length).drop 1) (t.length + 1) [0] =
        some (t ++ [slash] ++ [0] ++ ((buffer.drop t.length).drop 1).drop 1) :=
      storeRegion_append (by simp) (by simp; omega)
    simp only [if_neg hempty, storeRegions_cons, storeRegions_nil, hcopy, hslash, hnul,
      Option.bind_eq_bind, Option.bind_some]
    rw [List.append_assoc (t ++ [slash]), List.take_left' (by simp)]
    rfl

theorem comparedPrefix_eq_none
    (hlong : ¬ (trimmed directory = [] ∨ (trimmed directory).length + 2 ≤ buffer.length))
    (hbuffer : 0 < buffer.length) : comparedPrefix buffer directory = none := by
  have hnone : storeRegions buffer (prefixWrites directory) = none := by
    rw [← Option.not_isSome_iff_eq_none, isSome_storeRegions, prefixWrites_inside_iff hbuffer]
    exact hlong
  rw [comparedPrefix, hnone]
  rfl

/-- Only the size of the array matters, not what it holds before. -/
theorem comparedPrefix_congr {other : List UInt8} (h : other.length = buffer.length)
    (hbuffer : 2 ≤ buffer.length) :
    comparedPrefix other directory = comparedPrefix buffer directory := by
  by_cases hfit : trimmed directory = [] ∨ (trimmed directory).length + 2 ≤ buffer.length
  · have hle : (trimmed directory).length + 2 ≤ buffer.length := by
      rcases hfit with hempty | hle
      · rwa [hempty]
      · exact hle
    rw [comparedPrefix_of_le (h ▸ hle), comparedPrefix_of_le hle]
  · rw [comparedPrefix_eq_none (h ▸ hfit) (by omega), comparedPrefix_eq_none hfit (by omega)]

theorem prefixContained_iff : PrefixContained directory ↔ (trimmed directory).length ≤ 4094 := by
  have hlimit : (4094 : Nat) + 2 = nameLimit := rfl
  constructor
  · intro h
    by_cases hempty : trimmed directory = []
    · simp [hempty]
    · have hnul := h.inside _ (nul_mem_prefixWrites hempty) 0 Nat.one_pos
      omega
  · intro h
    refine ⟨fun write hwrite i hi => ?_, fun buffer hbuffer => ?_⟩
    · have hfit : trimmed directory = [] ∨ (trimmed directory).length + 2 ≤ nameLimit :=
        .inr (by omega)
      have hinside := (prefixWrites_inside_iff (by omega)).mpr hfit write hwrite
      omega
    · exact comparedPrefix_of_le (by omega)

end NfsmwRuntime.Obb

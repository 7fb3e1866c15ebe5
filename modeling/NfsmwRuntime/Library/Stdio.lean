import Mathlib.Init

/-!
# Streams of stdio

A stream reads a file that nothing changes. It has a position and two flags: reading past the
end sets one, a device that fails sets the other. Seeking clears the first one only, so a
failure that is over is still to be seen on the stream.
-/

namespace NfsmwRuntime.Library

structure Stream where
  content : List UInt8
  position : Nat
  eof : Bool
  error : Bool
  deriving DecidableEq, Repr

namespace Stream

/-- A file that has just been opened. -/
def opened (content : List UInt8) : Stream := ⟨content, 0, false, false⟩

section

variable (s : Stream) (n : Nat) (fault : Option Nat)

/-- The next `n` bytes, or those that are left. -/
def slice : List UInt8 := (s.content.drop s.position).take n

/-- The bytes that a request for `n` gets before the device fails. `fault` is the number after
which it would; it is asked for no more than what is missing, and at the end of the file once
more. -/
def cut : Option Nat := fault.filter fun k => k < n ∧ k ≤ (s.slice n).length

/-- `fread` of `n` bytes. -/
def fread : Stream × List UInt8 :=
  if n = 0 ∨ s.eof then (s, [])
  else match s.cut n fault with
    | some k => ({ s with position := s.position + k, error := true }, (s.slice n).take k)
    | none =>
      ({ s with
          position := s.position + (s.slice n).length
          eof := (s.slice n).length < n }, s.slice n)

/-- `fseeko` from the start, which may fail. -/
def fseek (position : Nat) (succeeds : Bool) : Stream :=
  if succeeds then { s with position := position, eof := false } else s

/-- The request meets a device that fails. -/
def Fails : Prop := n ≠ 0 ∧ s.eof = false ∧ s.cut n fault ≠ none

/-- There are `n` bytes to read, and the device delivers them. -/
def Serves : Prop := s.eof = false ∧ s.position + n ≤ s.content.length ∧ s.cut n fault = none

instance : Decidable (s.Fails n fault) := inferInstanceAs (Decidable (_ ∧ _ ∧ _))

instance : Decidable (s.Serves n fault) := inferInstanceAs (Decidable (_ ∧ _ ∧ _))

end

variable {s : Stream} {n : Nat} {fault : Option Nat}

theorem length_slice : (s.slice n).length = min n (s.content.length - s.position) := by
  simp [slice]

theorem fread_error : (s.fread n fault).1.error = true ↔ s.error = true ∨ s.Fails n fault := by
  unfold fread Fails
  by_cases hn : n = 0 ∨ s.eof = true
  · rw [if_pos hn]
    rcases hn with hn | hn <;> simp [hn]
  · obtain ⟨hn, heof⟩ := not_or.mp hn
    rw [if_neg (not_or.mpr ⟨hn, heof⟩)]
    cases hcut : s.cut n fault <;> simp [hn, heof]

/-- Nothing but the bytes that come next is read. -/
theorem fread_of_serves (h : s.Serves n fault) : (s.fread n fault).2 = s.slice n := by
  obtain ⟨heof, -, hcut⟩ := h
  by_cases hn : n = 0
  · simp [fread, hn, slice]
  · simp [fread, hn, heof, hcut]

theorem length_fread (hn : n ≠ 0) : (s.fread n fault).2.length = n ↔ s.Serves n fault := by
  constructor
  · intro h
    unfold fread at h
    by_cases heof : s.eof = true
    · rw [if_pos (.inr heof)] at h
      exact absurd h.symm hn
    · rw [if_neg (not_or.mpr ⟨hn, heof⟩)] at h
      cases hcut : s.cut n fault with
      | some k =>
        rw [hcut] at h
        have hless : k < n := (of_decide_eq_true (Option.filter_eq_some_iff.mp hcut).2).1
        simp only [List.length_take] at h
        omega
      | none =>
        rw [hcut] at h
        simp only [length_slice] at h
        exact ⟨by simpa using heof, by omega, hcut⟩
  · intro h
    rw [fread_of_serves h, length_slice]
    have hfits := h.2.1
    omega

end Stream

end NfsmwRuntime.Library

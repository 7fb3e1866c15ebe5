import NfsmwRuntime.Library.Bytes

/-!
# Checksums

SHA-256 as FIPS 180-4 has it, and the CRC-32 of zip archives.
-/

namespace NfsmwRuntime.Library

/-! ## SHA-256 -/

namespace Sha256

def roundConstants : List UInt32 :=
  [0x428a2f98, 0x71374491, 0xb5c0fbcf, 0xe9b5dba5, 0x3956c25b, 0x59f111f1, 0x923f82a4, 0xab1c5ed5,
    0xd807aa98, 0x12835b01, 0x243185be, 0x550c7dc3, 0x72be5d74, 0x80deb1fe, 0x9bdc06a7, 0xc19bf174,
    0xe49b69c1, 0xefbe4786, 0x0fc19dc6, 0x240ca1cc, 0x2de92c6f, 0x4a7484aa, 0x5cb0a9dc, 0x76f988da,
    0x983e5152, 0xa831c66d, 0xb00327c8, 0xbf597fc7, 0xc6e00bf3, 0xd5a79147, 0x06ca6351, 0x14292967,
    0x27b70a85, 0x2e1b2138, 0x4d2c6dfc, 0x53380d13, 0x650a7354, 0x766a0abb, 0x81c2c92e, 0x92722c85,
    0xa2bfe8a1, 0xa81a664b, 0xc24b8b70, 0xc76c51a3, 0xd192e819, 0xd6990624, 0xf40e3585, 0x106aa070,
    0x19a4c116, 0x1e376c08, 0x2748774c, 0x34b0bcb5, 0x391c0cb3, 0x4ed8aa4a, 0x5b9cca4f, 0x682e6ff3,
    0x748f82ee, 0x78a5636f, 0x84c87814, 0x8cc70208, 0x90befffa, 0xa4506ceb, 0xbef9a3f7, 0xc67178f2]

def initial : List UInt32 :=
  [0x6a09e667, 0xbb67ae85, 0x3c6ef372, 0xa54ff53a, 0x510e527f, 0x9b05688c, 0x1f83d9ab, 0x5be0cd19]

def rotr (x n : UInt32) : UInt32 := (x >>> n) ||| (x <<< (32 - n))

def be32 (v : UInt32) : List UInt8 :=
  [(v >>> 24).toUInt8, (v >>> 16).toUInt8, (v >>> 8).toUInt8, v.toUInt8]

/-- The message, a one bit, zeros, and the number of bits in the last eight bytes of a block. -/
def pad (message : List UInt8) : List UInt8 :=
  let bits := message.length * 8
  message ++ 0x80 :: (List.replicate ((119 - message.length % 64) % 64) 0 ++
    be32 (bits / 4294967296).toUInt32 ++ be32 bits.toUInt32)

/-- The words of a block. -/
def words : List UInt8 → List UInt32
  | a :: b :: c :: d :: rest =>
    ((a.toUInt32 <<< 24) ||| (b.toUInt32 <<< 16) ||| (c.toUInt32 <<< 8) ||| d.toUInt32) ::
      words rest
  | _ => []

/-- The word that sixteen words before it lead to. -/
def scheduled (window : List UInt32) : UInt32 :=
  let w₁ := window.getD 1 0
  let w₁₄ := window.getD 14 0
  (rotr w₁₄ 17 ^^^ rotr w₁₄ 19 ^^^ (w₁₄ >>> 10)) + window.getD 9 0 +
    (rotr w₁ 7 ^^^ rotr w₁ 18 ^^^ (w₁ >>> 3)) + window.getD 0 0

def round : List UInt32 → UInt32 → UInt32 → List UInt32
  | [a, b, c, d, e, f, g, h], k, w =>
    let t₁ := h + (rotr e 6 ^^^ rotr e 11 ^^^ rotr e 25) + ((e &&& f) ^^^ ((~~~e) &&& g)) + k + w
    let t₂ := (rotr a 2 ^^^ rotr a 13 ^^^ rotr a 22) + ((a &&& b) ^^^ (a &&& c) ^^^ (b &&& c))
    [t₁ + t₂, a, b, c, d + t₁, e, f, g]
  | state, _, _ => state

def rounds : List UInt32 → List UInt32 → List UInt32 → List UInt32
  | [], _, state => state
  | k :: ks, window, state =>
    rounds ks (window.tail ++ [scheduled window]) (round state k (window.headD 0))

def block (state : List UInt32) (bytes : List UInt8) : List UInt32 :=
  state.zipWith (· + ·) (rounds roundConstants (words bytes) state)

end Sha256

def sha256 (message : List UInt8) : List UInt8 :=
  let padded := Sha256.pad message
  let state := (List.range (padded.length / 64)).foldl
    (fun state i => Sha256.block state ((padded.drop (64 * i)).take 64)) Sha256.initial
  state.flatMap Sha256.be32

/-! ### The length of a digest -/

namespace Sha256

variable {state : List UInt32}

theorem length_round (k w : UInt32) (h : state.length = 8) : (round state k w).length = 8 := by
  unfold round
  split
  · rfl
  · exact h

theorem length_rounds (ks window : List UInt32) (h : state.length = 8) :
    (rounds ks window state).length = 8 := by
  induction ks generalizing window state with
  | nil => exact h
  | cons k ks ih => exact ih _ (length_round k _ h)

theorem length_block (bytes : List UInt8) (h : state.length = 8) :
    (block state bytes).length = 8 := by
  simp [block, h, length_rounds _ _ h]

theorem length_blocks (bytes : Nat → List UInt8) (is : List Nat) (h : state.length = 8) :
    (is.foldl (fun state i => block state (bytes i)) state).length = 8 := by
  induction is generalizing state with
  | nil => exact h
  | cons i is ih => exact ih (length_block _ h)

theorem length_flatMap_be32 (state : List UInt32) :
    (state.flatMap be32).length = 4 * state.length := by
  induction state with
  | nil => rfl
  | cons v state ih => simp [List.flatMap_cons, be32, ih]; omega

end Sha256

@[simp] theorem length_sha256 (message : List UInt8) : (sha256 message).length = 32 := by
  rw [sha256, Sha256.length_flatMap_be32, Sha256.length_blocks _ _ rfl]

/-! ## CRC-32 -/

def crc32Shift (crc : UInt32) : UInt32 :=
  if crc &&& 1 = 1 then (crc >>> 1) ^^^ 0xedb88320 else crc >>> 1

def crc32 (message : List UInt8) : Nat :=
  (message.foldl (fun crc byte => (List.range 8).foldl (fun crc _ => crc32Shift crc)
    (crc ^^^ byte.toUInt32)) 0xffffffff ^^^ 0xffffffff).toNat

end NfsmwRuntime.Library

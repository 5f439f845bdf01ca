/-
# Theory.Sha256 -- the SHA-256 compression over byte lists

The hash whose double application makes the four check bytes of a base58-check string. Words are
`UInt32`, so every addition wraps as the standard asks; the working variables and the chaining
value are one record of eight words, so the output width is a matter of its type
(`length_sha256`).
-/
import Mathlib.Tactic.Common

namespace MassaIndexer.Theory.Sha256

set_option autoImplicit false

/-- The eight chaining words; the compression uses the same record for its working variables. -/
structure Words where
  a : UInt32
  b : UInt32
  c : UInt32
  d : UInt32
  e : UInt32
  f : UInt32
  g : UInt32
  h : UInt32

def initial : Words :=
  ⟨0x6a09e667, 0xbb67ae85, 0x3c6ef372, 0xa54ff53a, 0x510e527f, 0x9b05688c, 0x1f83d9ab, 0x5be0cd19⟩

/-- One constant for each of the sixty-four rounds. -/
def roundConstants : List UInt32 :=
  [0x428a2f98, 0x71374491, 0xb5c0fbcf, 0xe9b5dba5, 0x3956c25b, 0x59f111f1, 0x923f82a4, 0xab1c5ed5,
   0xd807aa98, 0x12835b01, 0x243185be, 0x550c7dc3, 0x72be5d74, 0x80deb1fe, 0x9bdc06a7, 0xc19bf174,
   0xe49b69c1, 0xefbe4786, 0x0fc19dc6, 0x240ca1cc, 0x2de92c6f, 0x4a7484aa, 0x5cb0a9dc, 0x76f988da,
   0x983e5152, 0xa831c66d, 0xb00327c8, 0xbf597fc7, 0xc6e00bf3, 0xd5a79147, 0x06ca6351, 0x14292967,
   0x27b70a85, 0x2e1b2138, 0x4d2c6dfc, 0x53380d13, 0x650a7354, 0x766a0abb, 0x81c2c92e, 0x92722c85,
   0xa2bfe8a1, 0xa81a664b, 0xc24b8b70, 0xc76c51a3, 0xd192e819, 0xd6990624, 0xf40e3585, 0x106aa070,
   0x19a4c116, 0x1e376c08, 0x2748774c, 0x34b0bcb5, 0x391c0cb3, 0x4ed8aa4a, 0x5b9cca4f, 0x682e6ff3,
   0x748f82ee, 0x78a5636f, 0x84c87814, 0x8cc70208, 0x90befffa, 0xa4506ceb, 0xbef9a3f7, 0xc67178f2]

def rotr (n : UInt32) (x : UInt32) : UInt32 := (x >>> n) ||| (x <<< (32 - n))

/-- Extend sixteen message words to `16 + more`; the schedule is kept newest first. -/
def extend : Nat → List UInt32 → List UInt32
  | 0, newest => newest
  | more + 1, newest =>
      let w2 := newest.getD 1 0
      let w7 := newest.getD 6 0
      let w15 := newest.getD 14 0
      let w16 := newest.getD 15 0
      let s0 := rotr 7 w15 ^^^ rotr 18 w15 ^^^ (w15 >>> 3)
      let s1 := rotr 17 w2 ^^^ rotr 19 w2 ^^^ (w2 >>> 10)
      extend more ((w16 + s0 + w7 + s1) :: newest)

def round (w : Words) (kw : UInt32 × UInt32) : Words :=
  let s1 := rotr 6 w.e ^^^ rotr 11 w.e ^^^ rotr 25 w.e
  let ch := (w.e &&& w.f) ^^^ ((~~~ w.e) &&& w.g)
  let t1 := w.h + s1 + ch + kw.1 + kw.2
  let s0 := rotr 2 w.a ^^^ rotr 13 w.a ^^^ rotr 22 w.a
  let maj := (w.a &&& w.b) ^^^ (w.a &&& w.c) ^^^ (w.b &&& w.c)
  ⟨t1 + (s0 + maj), w.a, w.b, w.c, w.d + t1, w.e, w.f, w.g⟩

def compress (s : Words) (block : List UInt32) : Words :=
  let schedule := (extend 48 block.reverse).reverse
  let w := (roundConstants.zip schedule).foldl round s
  ⟨s.a + w.a, s.b + w.b, s.c + w.c, s.d + w.d, s.e + w.e, s.f + w.f, s.g + w.g, s.h + w.h⟩

/-- A word from the four most significant-first bytes at the front. -/
def word (bytes : List UInt8) : UInt32 :=
  (bytes.take 4).foldl (fun acc b => acc * 256 + b.toUInt32) 0

def words : Nat → List UInt8 → List UInt32
  | 0, _ => []
  | n + 1, bytes => word bytes :: words n (bytes.drop 4)

/-- The message, a one bit, zeros up to 56 modulo 64, and the bit length in eight bytes. -/
def pad (bytes : List UInt8) : List UInt8 :=
  let zeros := (119 - bytes.length % 64) % 64
  let bits := UInt64.ofNat (bytes.length * 8)
  let lengthBytes := [56, 48, 40, 32, 24, 16, 8, 0].map fun shift : UInt64 => (bits >>> shift).toUInt8
  bytes ++ 0x80 :: List.replicate zeros 0 ++ lengthBytes

def blocks : Nat → List UInt8 → Words → Words
  | 0, _, s => s
  | n + 1, bytes, s => blocks n (bytes.drop 64) (compress s (words 16 bytes))

def wordBytes (w : UInt32) : List UInt8 :=
  [(w >>> 24).toUInt8, (w >>> 16).toUInt8, (w >>> 8).toUInt8, w.toUInt8]

def Words.bytes (s : Words) : List UInt8 :=
  [s.a, s.b, s.c, s.d, s.e, s.f, s.g, s.h].flatMap wordBytes

def sha256 (bytes : List UInt8) : List UInt8 :=
  let padded := pad bytes
  (blocks (padded.length / 64) padded initial).bytes

@[simp] theorem length_sha256 (bytes : List UInt8) : (sha256 bytes).length = 32 := rfl

end MassaIndexer.Theory.Sha256

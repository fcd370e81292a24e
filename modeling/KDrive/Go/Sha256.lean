import Mathlib.Data.List.Basic

/-! The digest that names every blob: SHA-256 as `crypto/sha256` computes it, and
its lower-case hexadecimal text as `encoding/hex` writes it. The function is
executable; collision freedom is never assumed of it here, only stated by the
results that need it, for the bodies they are about. -/
namespace KDrive.Go

abbrev Bytes := List UInt8

namespace Sha256

def rotr (x : UInt32) (n : UInt32) : UInt32 := (x >>> n) ||| (x <<< (32 - n))

def roundConstants : List UInt32 :=
  [0x428a2f98, 0x71374491, 0xb5c0fbcf, 0xe9b5dba5, 0x3956c25b, 0x59f111f1, 0x923f82a4, 0xab1c5ed5,
   0xd807aa98, 0x12835b01, 0x243185be, 0x550c7dc3, 0x72be5d74, 0x80deb1fe, 0x9bdc06a7, 0xc19bf174,
   0xe49b69c1, 0xefbe4786, 0x0fc19dc6, 0x240ca1cc, 0x2de92c6f, 0x4a7484aa, 0x5cb0a9dc, 0x76f988da,
   0x983e5152, 0xa831c66d, 0xb00327c8, 0xbf597fc7, 0xc6e00bf3, 0xd5a79147, 0x06ca6351, 0x14292967,
   0x27b70a85, 0x2e1b2138, 0x4d2c6dfc, 0x53380d13, 0x650a7354, 0x766a0abb, 0x81c2c92e, 0x92722c85,
   0xa2bfe8a1, 0xa81a664b, 0xc24b8b70, 0xc76c51a3, 0xd192e819, 0xd6990624, 0xf40e3585, 0x106aa070,
   0x19a4c116, 0x1e376c08, 0x2748774c, 0x34b0bcb5, 0x391c0cb3, 0x4ed8aa4a, 0x5b9cca4f, 0x682e6ff3,
   0x748f82ee, 0x78a5636f, 0x84c87814, 0x8cc70208, 0x90befffa, 0xa4506ceb, 0xbef9a3f7, 0xc67178f2]

/-- The eight working variables `a` to `h`. -/
structure State where
  a : UInt32
  b : UInt32
  c : UInt32
  d : UInt32
  e : UInt32
  f : UInt32
  g : UInt32
  h : UInt32

def initial : State :=
  ⟨0x6a09e667, 0xbb67ae85, 0x3c6ef372, 0xa54ff53a, 0x510e527f, 0x9b05688c, 0x1f83d9ab, 0x5be0cd19⟩

/-- The next word of the message schedule from the sixteen words before it,
held newest first. -/
def nextWord (window : List UInt32) : UInt32 :=
  let w2 := window.getD 1 0
  let w7 := window.getD 6 0
  let w15 := window.getD 14 0
  let w16 := window.getD 15 0
  let s0 := rotr w15 7 ^^^ rotr w15 18 ^^^ (w15 >>> 3)
  let s1 := rotr w2 17 ^^^ rotr w2 19 ^^^ (w2 >>> 10)
  w16 + s0 + w7 + s1

/-- `count` further schedule words, newest first. -/
def extend : Nat → List UInt32 → List UInt32
  | 0, words => words
  | count + 1, words => extend count (nextWord words :: words)

def round (s : State) (k w : UInt32) : State :=
  let big1 := rotr s.e 6 ^^^ rotr s.e 11 ^^^ rotr s.e 25
  let choose := (s.e &&& s.f) ^^^ (~~~ s.e &&& s.g)
  let t1 := s.h + big1 + choose + k + w
  let big0 := rotr s.a 2 ^^^ rotr s.a 13 ^^^ rotr s.a 22
  let majority := (s.a &&& s.b) ^^^ (s.a &&& s.c) ^^^ (s.b &&& s.c)
  ⟨t1 + (big0 + majority), s.a, s.b, s.c, s.d + t1, s.e, s.f, s.g⟩

def wordOf : Bytes → UInt32
  | [b0, b1, b2, b3] => (b0.toUInt32 <<< 24) ||| (b1.toUInt32 <<< 16) ||| (b2.toUInt32 <<< 8) ||| b3.toUInt32
  | _ => 0

/-- Big-endian words of a block, `count` of them. -/
def words : Nat → Bytes → List UInt32
  | 0, _ => []
  | count + 1, block => wordOf (block.take 4) :: words count (block.drop 4)

def compress (s : State) (block : Bytes) : State :=
  let schedule := (extend 48 (words 16 block).reverse).reverse
  let t := (roundConstants.zip schedule).foldl (fun st kw => round st kw.1 kw.2) s
  ⟨s.a + t.a, s.b + t.b, s.c + t.c, s.d + t.d, s.e + t.e, s.f + t.f, s.g + t.g, s.h + t.h⟩

/-- Big-endian bytes of `value`, `width` of them. -/
def bigEndian : Nat → Nat → Bytes
  | 0, _ => []
  | width + 1, value => bigEndian width (value / 256) ++ [UInt8.ofNat value]

def pad (message : Bytes) : Bytes :=
  message ++ [0x80] ++ List.replicate ((119 - message.length % 64) % 64) 0 ++
    bigEndian 8 (8 * message.length)

def blocks : Nat → Bytes → State → State
  | 0, _, s => s
  | count + 1, rest, s => blocks count (rest.drop 64) (compress s (rest.take 64))

def digest (s : State) : Bytes :=
  [s.a, s.b, s.c, s.d, s.e, s.f, s.g, s.h].flatMap (fun w => bigEndian 4 w.toNat)

end Sha256

/-- `sha256.Sum256`. -/
def sha256Sum (message : Bytes) : Bytes :=
  let padded := Sha256.pad message
  Sha256.digest (Sha256.blocks (padded.length / 64) padded Sha256.initial)

def hexDigit (n : Nat) : Char := "0123456789abcdef".toList.getD n '0'

/-- `hex.EncodeToString`. -/
def hexEncodeToString (bytes : Bytes) : String :=
  String.ofList (bytes.flatMap fun b => [hexDigit (b.toNat / 16), hexDigit (b.toNat % 16)])

/-- The checksum text the pipeline records: hex of the SHA-256 of the bytes. -/
def checksumSHA256 (body : Bytes) : String := hexEncodeToString (sha256Sum body)

theorem Sha256.bigEndian_length (width value : Nat) : (bigEndian width value).length = width := by
  induction width generalizing value with
  | zero => rfl
  | succ width ih => simp only [bigEndian, List.length_append, ih, List.length_singleton]

theorem sha256Sum_length (message : Bytes) : (sha256Sum message).length = 32 := by
  simp [sha256Sum, Sha256.digest, Sha256.bigEndian_length]

theorem hexEncodeToString_length (bytes : Bytes) :
    (hexEncodeToString bytes).length = 2 * bytes.length := by
  simp only [hexEncodeToString, String.length_ofList, List.length_flatMap,
    List.length_cons, List.length_nil]
  simp [Nat.mul_comm]

/-- An empty text is never the checksum of anything; it only ever means that no
checksum was reported. -/
theorem checksumSHA256_ne_empty (body : Bytes) : checksumSHA256 body ≠ "" := by
  intro empty
  have long : (checksumSHA256 body).length = 64 := by
    rw [checksumSHA256, hexEncodeToString_length, sha256Sum_length]
  rw [empty] at long
  contradiction

example : checksumSHA256 [0x61, 0x62, 0x63] =
    "ba7816bf8f01cfea414140de5dae2223b00361a396177a9cb410ff61f20015ad" := by decide +kernel

end KDrive.Go

import Mathlib.Algebra.Group.Nat.Defs
import Mathlib.Data.List.Basic

/-!
# `hashlib.sha256`

The row hash of a QSO is the SHA-256 digest of a canonical JSON text, so this is the function of
FIPS 180-4 on 32-bit words, written for the kernel to run: it reads the padded message as a list of
words, and every loop is a recursion on a list or on a counter.

Nothing in the development depends on what the digest of a particular text is, except where two
concrete contents have to be told apart.
-/

set_option autoImplicit false

namespace Ollog
namespace Sha256

/-- The round constants. -/
def roundConstants : List UInt32 := [
  0x428a2f98, 0x71374491, 0xb5c0fbcf, 0xe9b5dba5, 0x3956c25b, 0x59f111f1, 0x923f82a4, 0xab1c5ed5,
  0xd807aa98, 0x12835b01, 0x243185be, 0x550c7dc3, 0x72be5d74, 0x80deb1fe, 0x9bdc06a7, 0xc19bf174,
  0xe49b69c1, 0xefbe4786, 0x0fc19dc6, 0x240ca1cc, 0x2de92c6f, 0x4a7484aa, 0x5cb0a9dc, 0x76f988da,
  0x983e5152, 0xa831c66d, 0xb00327c8, 0xbf597fc7, 0xc6e00bf3, 0xd5a79147, 0x06ca6351, 0x14292967,
  0x27b70a85, 0x2e1b2138, 0x4d2c6dfc, 0x53380d13, 0x650a7354, 0x766a0abb, 0x81c2c92e, 0x92722c85,
  0xa2bfe8a1, 0xa81a664b, 0xc24b8b70, 0xc76c51a3, 0xd192e819, 0xd6990624, 0xf40e3585, 0x106aa070,
  0x19a4c116, 0x1e376c08, 0x2748774c, 0x34b0bcb5, 0x391c0cb3, 0x4ed8aa4a, 0x5b9cca4f, 0x682e6ff3,
  0x748f82ee, 0x78a5636f, 0x84c87814, 0x8cc70208, 0x90befffa, 0xa4506ceb, 0xbef9a3f7, 0xc67178f2]

/-- Rotate a word to the right. -/
def rotr (x n : UInt32) : UInt32 := (x >>> n) ||| (x <<< (32 - n))

/-- The eight working variables. -/
structure State where
  (a b c d e f g h : UInt32)

/-- The initial hash value. -/
def initial : State :=
  ⟨0x6a09e667, 0xbb67ae85, 0x3c6ef372, 0xa54ff53a, 0x510e527f, 0x9b05688c, 0x1f83d9ab, 0x5be0cd19⟩

/-- Extend a message schedule by the given number of words; the newest word comes first. -/
def schedule : Nat → List UInt32 → List UInt32
  | 0, ws => ws.reverse
  | n + 1, ws =>
    let w2 := ws.getD 1 0
    let w7 := ws.getD 6 0
    let w15 := ws.getD 14 0
    let w16 := ws.getD 15 0
    let s0 := rotr w15 7 ^^^ rotr w15 18 ^^^ (w15 >>> 3)
    let s1 := rotr w2 17 ^^^ rotr w2 19 ^^^ (w2 >>> 10)
    schedule n ((w16 + s0 + w7 + s1) :: ws)

/-- One round, with its constant and its schedule word. -/
def round (s : State) (kw : UInt32 × UInt32) : State :=
  let e1 := rotr s.e 6 ^^^ rotr s.e 11 ^^^ rotr s.e 25
  let ch := (s.e &&& s.f) ^^^ (~~~s.e &&& s.g)
  let t1 := s.h + e1 + ch + kw.1 + kw.2
  let a0 := rotr s.a 2 ^^^ rotr s.a 13 ^^^ rotr s.a 22
  let maj := (s.a &&& s.b) ^^^ (s.a &&& s.c) ^^^ (s.b &&& s.c)
  ⟨t1 + (a0 + maj), s.a, s.b, s.c, s.d + t1, s.e, s.f, s.g⟩

/-- Compress one block of sixteen words. -/
def compress (s : State) (block : List UInt32) : State :=
  let r := (roundConstants.zip (schedule 48 block.reverse)).foldl round s
  ⟨s.a + r.a, s.b + r.b, s.c + r.c, s.d + r.d, s.e + r.e, s.f + r.f, s.g + r.g, s.h + r.h⟩

/-- Big-endian words. -/
def words : List UInt8 → List UInt32
  | a :: b :: c :: d :: rest =>
    ((a.toUInt32 <<< 24) ||| (b.toUInt32 <<< 16) ||| (c.toUInt32 <<< 8) ||| d.toUInt32) ::
      words rest
  | _ => []

/-- Cut the given number of blocks of sixteen words off a list. -/
def blocks : Nat → List UInt32 → List (List UInt32)
  | 0, _ => []
  | n + 1, ws => ws.take 16 :: blocks n (ws.drop 16)

/-- The padded message: a one bit, zeros, and the length in bits in eight bytes. -/
def pad (m : List UInt8) : List UInt8 :=
  m ++ ([0x80] : List UInt8) ++ List.replicate ((119 - m.length % 64) % 64) (0 : UInt8) ++
    (List.range 8).map fun i ↦ UInt8.ofNat (8 * m.length / 256 ^ (7 - i))

/-- The eight hexadecimal digits of a word. -/
def hexWord (w : UInt32) : List Char :=
  (List.range 8).map fun i ↦
    let n := (w.toNat >>> (4 * (7 - i))) % 16
    if n < 10 then Char.ofNat (48 + n) else Char.ofNat (87 + n)

/-- The four bytes of a word, big-endian. -/
def wordBytes (w : UInt32) : List UInt8 :=
  [(w >>> 24).toUInt8, (w >>> 16).toUInt8, (w >>> 8).toUInt8, w.toUInt8]

end Sha256

open Sha256 in
/-- `hashlib.sha256(m).hexdigest()`. -/
def sha256Hex (m : List UInt8) : String :=
  let ws := words (pad m)
  let s := (blocks (ws.length / 16) ws).foldl compress initial
  String.ofList ([s.a, s.b, s.c, s.d, s.e, s.f, s.g, s.h].flatMap hexWord)

open Sha256 in
/-- `hashlib.sha256(m).digest()`. -/
def sha256Digest (m : List UInt8) : List UInt8 :=
  let ws := words (pad m)
  let s := (blocks (ws.length / 16) ws).foldl compress initial
  [s.a, s.b, s.c, s.d, s.e, s.f, s.g, s.h].flatMap wordBytes

/-- `hmac.new(key, m, hashlib.sha256).hexdigest()`. -/
def hmacSha256Hex (key m : List UInt8) : String :=
  let key := if 64 < key.length then sha256Digest key else key
  let block := key ++ List.replicate (64 - key.length) 0
  sha256Hex (block.map (· ^^^ 0x5c) ++ sha256Digest (block.map (· ^^^ 0x36) ++ m))

-- The digest of the empty message, from the standard's test vectors.
example : sha256Hex [] = "e3b0c44298fc1c149afbf4c8996fb92427ae41e4649b934ca495991b7852b855" := by
  decide +kernel

-- An empty key and an empty message.
example : hmacSha256Hex [] [] =
    "b613679a0814d9ec772f95d778c35fc5ff1697c493715653c6c712144292c5ad" := by
  decide +kernel

end Ollog

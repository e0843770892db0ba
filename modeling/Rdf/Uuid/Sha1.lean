import Rdf.Bytes

/-!
SHA-1: padding to blocks of 64 bytes, message schedule, compression.
-/

namespace Rdf.Sha1

/-- The five chaining words. -/
structure State where
  a : UInt32
  b : UInt32
  c : UInt32
  d : UInt32
  e : UInt32

/-- Initial chaining words. -/
def initial : State := ⟨0x67452301, 0xEFCDAB89, 0x98BADCFE, 0x10325476, 0xC3D2E1F0⟩

/-- Left rotation by `k` bits, `0 < k < 32`. -/
def rotate (x k : UInt32) : UInt32 := (x <<< k) ||| (x >>> (32 - k))

/-- A one bit, zeros up to eight bytes before a block's end, and the length in bits. -/
def padding (length : Nat) : List UInt8 :=
  0x80 :: List.replicate ((119 - length % 64) % 64) 0 ++ Bytes.ofNat 8 (8 * length)

/-- Big-endian words of a list of bytes; an incomplete last word is dropped. -/
def words : List UInt8 → List UInt32
  | a :: b :: c :: d :: rest =>
    (a.toUInt32 <<< 24 ||| b.toUInt32 <<< 16 ||| c.toUInt32 <<< 8 ||| d.toUInt32) :: words rest
  | _ => []

/-- Adds `count` schedule words; `recent` holds the words so far, the latest first. -/
def extend : (count : Nat) → (recent : List UInt32) → List UInt32
  | 0, recent => recent
  | count + 1, recent =>
    let word (back : Nat) := recent.getD (back - 1) 0
    extend count (rotate (word 3 ^^^ word 8 ^^^ word 14 ^^^ word 16) 1 :: recent)

/-- The 80 schedule words of a block of 16 words. -/
def schedule (block : List UInt32) : List UInt32 := (extend 64 block.reverse).reverse

/-- Mixing function and constant of round `i`. -/
def mix (i : Nat) (b c d : UInt32) : UInt32 :=
  if i < 20 then ((b &&& c) ||| (~~~b &&& d)) + 0x5A827999
  else if i < 40 then (b ^^^ c ^^^ d) + 0x6ED9EBA1
  else if i < 60 then ((b &&& c) ||| (b &&& d) ||| (c &&& d)) + 0x8F1BBCDC
  else (b ^^^ c ^^^ d) + 0xCA62C1D6

/-- Rounds from number `i` on, one for each schedule word. -/
def rounds : (i : Nat) → State → List UInt32 → State
  | _, s, [] => s
  | i, s, w :: ws =>
    rounds (i + 1)
      ⟨rotate s.a 5 + mix i s.b s.c s.d + s.e + w, s.a, rotate s.b 30, s.c, s.d⟩ ws

/-- Chaining words after one more block of 16 words. -/
def compress (s : State) (block : List UInt32) : State :=
  let t := rounds 0 s (schedule block)
  ⟨s.a + t.a, s.b + t.b, s.c + t.c, s.d + t.d, s.e + t.e⟩

/-- Chaining words after `count` blocks. -/
def blocks : (count : Nat) → State → List UInt32 → State
  | 0, s, _ => s
  | count + 1, s, ws => blocks count (compress s (ws.take 16)) (ws.drop 16)

/-- The twenty bytes of the digest. -/
def digest (message : List UInt8) : List UInt8 :=
  let ws := words (message ++ padding message.length)
  let s := blocks (ws.length / 16) initial ws
  [s.a, s.b, s.c, s.d, s.e].flatMap fun w => Bytes.ofNat 4 w.toNat

end Rdf.Sha1

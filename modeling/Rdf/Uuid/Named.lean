import Rdf.Uuid.Basic
import Rdf.Uuid.Sha1

/-!
Identifiers derived from a namespace and a name, the same for the same two.
-/

namespace Rdf.Uuid

/-- A 128-bit number with its version nibble set to 5 and its variant bits to 10. -/
def markNamed (n : Nat) : Nat :=
  let high := n / 0x10000000000000000
  let low := n % 0x10000000000000000
  let time := high / 0x10000 * 0x10000 + 0x5000 + high % 0x1000
  let node := 0x8000000000000000 + low % 0x4000000000000000
  time * 0x10000000000000000 + node

/-- Bytes that are hashed: the namespace followed by the name. -/
def namedInput (space : Uuid) (name : List UInt8) : List UInt8 := space.bytes ++ name

/-- Identifier derived from `space` and `name`. -/
def named (space : Uuid) (name : List UInt8) : Uuid :=
  ofNat (markNamed (Bytes.toNat ((Sha1.digest (namedInput space name)).take 16)))

end Rdf.Uuid

import ErasureDigest.Error

/-!
# Shards and codecs

A codec turns one segment into an ordered list of shards and announces
how many there will be. It is a function of the segment alone. Besides the
erasure code, whose codec is built elsewhere, two plain ones stand here: a
codec that refuses some segments and one that copies.
-/

namespace ErasureDigest

/-- One shard of an encoded segment. -/
structure Shard where
  /-- The position among the segment's shards. -/
  index : UInt8
  bytes : Bytes
  isParity : Bool
  deriving DecidableEq, Repr

/-- The number of bytes of a shard. -/
def Shard.size (shard : Shard) : Nat := shard.bytes.length

/-- A way to turn segments into shards. -/
structure Codec where
  /-- How many shards a segment becomes. -/
  totalShards : Nat
  /-- The shards of a segment, or why it has none. -/
  encode : Bytes → Except Error (List Shard)

namespace Codec

/-- The codec that refuses segments for which `refuses` holds, and treats
the others as `codec` does. -/
def refusing (codec : Codec) (refuses : Bytes → Bool) (reason : String) : Codec where
  totalShards := codec.totalShards
  encode segment :=
    if refuses segment then .error (.encode (.refused reason)) else codec.encode segment

/-- The codec that announces `announced` shards and gives `produced`
copies of the segment. -/
def copying (announced produced : Nat) : Codec where
  totalShards := announced
  encode segment :=
    .ok ((List.range produced).map fun i => ⟨UInt8.ofNat i, segment, false⟩)

end Codec

end ErasureDigest

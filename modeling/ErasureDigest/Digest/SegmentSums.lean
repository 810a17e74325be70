import ErasureDigest.Coding.Codec

/-!
# Checksums of one segment

Hashing a segment gives the checksum of its bytes and one checksum per
shard. It depends on the codec and the bytes alone, so segments can be
hashed in any order.
-/

namespace ErasureDigest

/-- The checksums of a segment and of its shards, in shard order. -/
structure SegmentSums where
  segment : Checksum
  shards : List Checksum
  deriving DecidableEq

/-- Hashes a segment and its shards; a codec that gives another number of
shards than it announced is an error. -/
def Codec.sums (codec : Codec) (bytes : Bytes) : Except Error SegmentSums := do
  let shards ← codec.encode bytes
  if shards.length = codec.totalShards then
    pure ⟨Checksum.ofContent bytes, shards.map fun shard => Checksum.ofContent shard.bytes⟩
  else .error (.encode (.shardCount shards.length codec.totalShards))

end ErasureDigest

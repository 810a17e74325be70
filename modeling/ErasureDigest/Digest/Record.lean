import ErasureDigest.Checksum

/-!
# Digests

A digest holds the roots of one content: first the root over its segments,
then one root per shard position. With the number of bytes and the kind of
redundancy it is what a computation gives.
-/

namespace ErasureDigest

/-- How copies of the content are kept. -/
inductive Redundancy
  | replica
  | erasureCoded
  deriving DecidableEq, Repr

/-- The name of a kind of redundancy. -/
def Redundancy.name : Redundancy → String
  | replica => "replica"
  | erasureCoded => "erasure_coded"

instance : ToString Redundancy := ⟨Redundancy.name⟩

/-- The roots of one content. -/
structure Digest where
  /-- The root over the segments, then one root per shard position. -/
  roots : List Checksum
  /-- The number of bytes hashed. -/
  contentLength : UInt64
  redundancy : Redundancy
  deriving DecidableEq

namespace Digest

/-- The root over the segments. -/
def primaryRoot? (d : Digest) : Option Checksum := d.roots.head?

/-- The roots of the shard positions. -/
def shardRoots (d : Digest) : List Checksum := d.roots.tail

/-- The root of one shard position. -/
def shardRoot? (d : Digest) (position : Nat) : Option Checksum := d.roots[position + 1]?

end Digest

end ErasureDigest

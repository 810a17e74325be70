import ErasureDigest.Coding.Codec
import ErasureDigest.Coding.Gf256
import ErasureDigest.Coding.Layout

/-!
# The systematic erasure code

A segment is padded with zeros to a multiple of the number d of data
shards and split into d shards of one size. Column by column, the d bytes
are the values at the points 0, …, d - 1 of one polynomial of degree below
d over the field of 256 elements; parity shard i holds its value at the
point d + i. Any d values determine the polynomial, so any d shards
determine the segment.

The value at a further point is a fixed combination of the d values, whose
coefficients `coefficient` are those of Lagrange interpolation. A segment
is encoded at its own length, whatever the segment size of the computation.
-/

namespace ErasureDigest

namespace ReedSolomon

/-- The weight of the value at point `column` in the value at `point`,
for a polynomial given by its values at the points below `dataShards`. -/
def coefficient (dataShards point column : Nat) : Gf256 :=
  let others := (List.range dataShards).filter (· ≠ column)
  let upper := Gf256.prod (others.map fun j => Gf256.ofNat point - Gf256.ofNat j)
  let lower := Gf256.prod (others.map fun j => Gf256.ofNat column - Gf256.ofNat j)
  upper * lower.inv

/-- The weights of all data shards in the parity shard at `point`. -/
def weights (dataShards point : Nat) : List Gf256 :=
  (List.range dataShards).map (coefficient dataShards point)

/-- The weights of all parity shards of a layout, in order. -/
def parityWeights (dataShards parityShards : Nat) : List (List Gf256) :=
  (List.range parityShards).map fun i => weights dataShards (dataShards + i)

/-- Adds a multiple of one row of bytes to another. -/
def addScaled (weight : Gf256) (row total : Bytes) : Bytes :=
  List.zipWith (fun t b => (Gf256.mk t + weight * Gf256.mk b).byte) total row

/-- The combination of rows of `size` bytes with these weights. -/
def combine (size : Nat) (weights : List Gf256) (rows : List Bytes) : Bytes :=
  (weights.zip rows).foldl (fun total wr => addScaled wr.1 wr.2 total) (List.replicate size 0)

/-- The size of each of `dataShards` shards of a segment of `length`
bytes: the quotient, rounded up. -/
def shardSize (dataShards length : Nat) : Nat :=
  (length + dataShards - 1) / dataShards

/-- A segment padded with zeros to a whole number of shards. -/
def padded (dataShards : Nat) (segment : Bytes) : Bytes :=
  segment ++
    List.replicate (dataShards * shardSize dataShards segment.length - segment.length) 0

/-- The data shards of a segment. -/
def dataRows (dataShards : Nat) (segment : Bytes) : List Bytes :=
  (padded dataShards segment).pieces (shardSize dataShards segment.length)

/-- The shards of a segment under given parity weights. -/
def encodeWith (dataShards : Nat) (parity : List (List Gf256)) (segment : Bytes) :
    Except Error (List Shard) :=
  if segment.isEmpty then .error (.encode .emptySegment)
  else
    let size := shardSize dataShards segment.length
    let data := dataRows dataShards segment
    let rows := data ++ parity.map fun weights => combine size weights data
    .ok (rows.mapIdx fun i row => ⟨UInt8.ofNat i, row, decide (dataShards ≤ i)⟩)

/-- The shards of a segment: its data shards, then its parity shards. -/
def encode (layout : Layout) (segment : Bytes) : Except Error (List Shard) :=
  encodeWith layout.dataShards.toNat
    (parityWeights layout.dataShards.toNat layout.parityShards.toNat) segment

/-- The codec of a layout, with its weights computed once. -/
def codecOf (layout : Layout) : Codec :=
  let parity := parityWeights layout.dataShards.toNat layout.parityShards.toNat
  { totalShards := layout.totalShards
    encode := encodeWith layout.dataShards.toNat parity }

@[simp] theorem encode_codecOf (layout : Layout) : (codecOf layout).encode = encode layout := rfl

@[simp] theorem totalShards_codecOf (layout : Layout) :
    (codecOf layout).totalShards = layout.totalShards := rfl

/-- The codec of a layout, if the layout is accepted. -/
def codec (layout : Layout) : Except Error Codec := do
  layout.check
  pure (codecOf layout)

end ReedSolomon

end ErasureDigest

import ErasureDigest.Coding.ReedSolomon
import ErasureDigest.Proofs.Digest.Collection
import ErasureDigest.Proofs.Stream.Pieces

/-!
# The shards of a segment

A segment of any length that is not empty, padded, is cut into exactly as
many rows as there are data shards, all of the size the quotient says
(`dataRows_spec`). With the parity rows behind them they are the announced
number of shards, so the codec of a layout accepts every segment with bytes
(`accepts_codecOf`); the empty one is refused (`encode_nil`).
-/

namespace ErasureDigest

namespace Layout

variable {layout : Layout}

/-- A valid layout has no more data shards than the field has elements. -/
theorem Valid.dataShards_le (h : layout.Valid) : layout.dataShards.toNat ≤ 256 :=
  Nat.le_trans (Nat.le_add_right _ _) h.2

/-- The positions of data shards come first. -/
theorem lt_totalShards {position : Nat} (h : position < layout.dataShards.toNat) :
    position < layout.totalShards :=
  Nat.lt_of_lt_of_le h (Nat.le_add_right _ _)

end Layout

namespace ReedSolomon

variable {dataShards : Nat} {segment : Bytes} {layout : Layout}

section DataRows

variable (hd : 0 < dataShards)
include hd

/-- The shards are large enough for the segment. -/
theorem length_le_mul_shardSize (length : Nat) : length ≤ dataShards * shardSize dataShards length := by
  have hdiv := Nat.div_add_mod (length + dataShards - 1) dataShards
  have hmod := Nat.mod_lt (length + dataShards - 1) hd
  rw [shardSize]
  omega

/-- They are larger by less than one byte each. -/
theorem mul_shardSize_lt (length : Nat) :
    dataShards * shardSize dataShards length < length + dataShards := by
  have hmul := Nat.mul_div_le (length + dataShards - 1) dataShards
  rw [shardSize]
  omega

/-- A segment with bytes has shards with bytes. -/
theorem shardSize_pos {length : Nat} (hlength : 0 < length) : 0 < shardSize dataShards length := by
  have hle := length_le_mul_shardSize hd length
  rcases Nat.eq_zero_or_pos (shardSize dataShards length) with hzero | hpos
  · rw [hzero, Nat.mul_zero] at hle
    omega
  · exact hpos

/-- Padded, a segment is as long as its shards together. -/
theorem length_padded (segment : Bytes) :
    (padded dataShards segment).length = dataShards * shardSize dataShards segment.length := by
  have hle := length_le_mul_shardSize hd segment.length
  rw [padded, List.length_append, List.length_replicate]
  omega

variable (hsegment : segment ≠ [])
include hsegment

/-- The padded segment is cut into full rows, one for each data shard. -/
theorem dataRows_spec : (dataRows dataShards segment).length = dataShards ∧
    ∀ row ∈ dataRows dataShards segment, row.length = shardSize dataShards segment.length :=
  Bytes.pieces_of_length_eq_mul (shardSize_pos hd (List.length_pos_iff.2 hsegment))
    (length_padded hd segment)

end DataRows

/-- All rows of a segment, those of parity behind those of data. -/
def rows (layout : Layout) (segment : Bytes) : List Bytes :=
  dataRows layout.dataShards.toNat segment ++
    (parityWeights layout.dataShards.toNat layout.parityShards.toNat).map fun weights =>
      combine (shardSize layout.dataShards.toNat segment.length) weights
        (dataRows layout.dataShards.toNat segment)

/-- The shards with these rows, each under its position. -/
def shardsOf (dataShards : Nat) (rows : List Bytes) : List Shard :=
  rows.mapIdx fun i row => ⟨UInt8.ofNat i, row, decide (dataShards ≤ i)⟩

theorem length_shardsOf (dataShards : Nat) (rows : List Bytes) :
    (shardsOf dataShards rows).length = rows.length := List.length_mapIdx

/-- A segment with bytes is encoded as its rows. -/
theorem encode_of_ne_nil (layout : Layout) (hsegment : segment ≠ []) :
    encode layout segment = .ok (shardsOf layout.dataShards.toNat (rows layout segment)) := by
  have hempty : segment.isEmpty = false := by simpa using hsegment
  rw [encode, encodeWith, hempty]
  rfl

/-- The empty segment is refused. -/
theorem encode_nil (layout : Layout) : encode layout [] = .error (.encode .emptySegment) := rfl

/-- There are as many rows as the layout has shards. -/
theorem length_rows (hlayout : layout.Valid) (hsegment : segment ≠ []) :
    (rows layout segment).length = layout.totalShards := by
  rw [rows, List.length_append, (dataRows_spec hlayout.1 hsegment).1, List.length_map, parityWeights,
    List.length_map, List.length_range, Layout.totalShards]

/-- A valid layout has its codec. -/
theorem codec_of_valid (hlayout : layout.Valid) : codec layout = .ok (codecOf layout) := by
  rw [codec, Layout.check_eq_ok_iff.2 hlayout]
  rfl

/-- **The codec of a valid layout accepts every segment with bytes.** -/
theorem accepts_codecOf (hlayout : layout.Valid) (hsegment : segment ≠ []) :
    (codecOf layout).Accepts segment := by
  have hlength : (shardsOf layout.dataShards.toNat (rows layout segment)).length =
      layout.totalShards := by
    rw [length_shardsOf, length_rows hlayout hsegment]
  refine ⟨⟨Checksum.ofContent segment,
    (shardsOf layout.dataShards.toNat (rows layout segment)).map fun shard =>
      Checksum.ofContent shard.bytes⟩, ?_⟩
  rw [Codec.sums, encode_codecOf, encode_of_ne_nil layout hsegment]
  exact if_pos hlength

end ReedSolomon

end ErasureDigest

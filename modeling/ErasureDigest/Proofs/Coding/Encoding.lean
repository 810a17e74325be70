import ErasureDigest.Proofs.Coding.Recovery
import ErasureDigest.Proofs.Hashing.Content
import Mathlib.Algebra.Order.Floor.Div

/-!
# Encoding, and its undoing

The shards of a segment stand under their positions, all of one size, the
parity shards last (`getElem?_shardsOf`). The data shards joined are the
segment with the padding behind it, which is shorter than one byte for each
data shard (`flatten_take_shardsOf`), so the segment is what is left when
they are cut at its length: `encode_systematic`.

With data shards missing the segment can still be told. Any shards, as many
as there are of data, are shards of no other segment of its length, so as
many may be lost as there are of parity (`eq_of_shards`).
-/

namespace ErasureDigest

namespace ReedSolomon

variable {layout : Layout} {segment segment' : Bytes} {dataShards : Nat}

/-! ## Shards under their positions -/

/-- What stands at a position. -/
theorem getElem?_shardsOf (dataShards : Nat) (rows : List Bytes) (i : Nat) :
    (shardsOf dataShards rows)[i]? =
      rows[i]?.map fun row => ⟨UInt8.ofNat i, row, decide (dataShards ≤ i)⟩ := by
  rw [shardsOf, List.getElem?_mapIdx]

/-- The bytes of the shards are the rows. -/
theorem map_bytes_shardsOf (dataShards : Nat) (rows : List Bytes) :
    (shardsOf dataShards rows).map (·.bytes) = rows := by
  refine List.ext_getElem? fun i => ?_
  rw [List.getElem?_map, getElem?_shardsOf, Option.map_map]
  exact Option.map_id'

/-- The row at a position is what its shard holds. -/
theorem getElem?_shardsOf_rows (hlayout : layout.Valid) (hsegment : segment ≠ [])
    {position : Nat} (hposition : position < layout.totalShards) :
    (shardsOf layout.dataShards.toNat (rows layout segment))[position]? =
      some ⟨UInt8.ofNat position, row layout position segment,
        decide (layout.dataShards.toNat ≤ position)⟩ := by
  have hlt : position < (rows layout segment).length := by
    rwa [length_rows hlayout hsegment]
  rw [getElem?_shardsOf, List.getElem?_eq_getElem hlt, row, List.getD_eq_getElem _ _ hlt,
    Option.map_some]

/-! ## Padding -/

/-- The size of the shards is the quotient, rounded up. -/
theorem shardSize_eq_ceilDiv (dataShards length : Nat) :
    shardSize dataShards length = length ⌈/⌉ dataShards :=
  (Nat.ceilDiv_eq_add_pred_div length dataShards).symm

/-- **The data shards joined are the padded segment.** -/
theorem flatten_take_shardsOf (hlayout : layout.Valid) (hsegment : segment ≠ []) :
    ((shardsOf layout.dataShards.toNat (rows layout segment)).take
      layout.dataShards.toNat).flatMap (·.bytes) = padded layout.dataShards.toNat segment := by
  have hlength := (dataRows_spec hlayout.1 hsegment).1
  rw [List.flatMap_def, List.map_take, map_bytes_shardsOf, rows, List.take_left' hlength, dataRows,
    Bytes.flatten_pieces]

/-- **Encoding is systematic, and can be undone.** Whatever library of
matrix codes it is built on, as long as it keeps to what it documents, the
codec of a valid layout is the same for all segment sizes, and refuses no
segment but the empty one. Any other becomes as many shards as announced,
each under its position, of the segment's own length divided by the number
of data shards, rounded up. Those of data, joined, are the segment with
fewer zeros behind it than there are data shards. -/
theorem encode_systematic {lib : Library} (hlib : lib.Documented) (hlayout : layout.Valid) :
    lib.codec? layout = some (.ok (codecOf layout)) ∧
    (∀ profile : Profile, profile.layout = layout → profile.check = .ok () →
      profile.codec = .ok (codecOf layout)) ∧
    (codecOf layout).encode [] = .error (.encode .emptySegment) ∧
    ∀ segment : Bytes, segment ≠ [] → ∃ shards,
      (codecOf layout).encode segment = .ok shards ∧
      shards.length = layout.dataShards.toNat + layout.parityShards.toNat ∧
      (∀ i shard, shards[i]? = some shard →
        shard.index.toNat = i ∧ shard.size = segment.length ⌈/⌉ layout.dataShards.toNat ∧
          (shard.isParity = true ↔ layout.dataShards.toNat ≤ i)) ∧
      (∃ padding < layout.dataShards.toNat,
        (shards.take layout.dataShards.toNat).flatMap (·.bytes) =
          segment ++ List.replicate padding 0) ∧
      ((shards.take layout.dataShards.toNat).flatMap (·.bytes)).take segment.length = segment := by
  refine ⟨Library.codec?_of_valid hlib hlayout, ?_, encode_nil layout, fun segment hsegment => ?_⟩
  · rintro profile rfl hprofile
    exact Profile.codec_of_check hprofile
  have hflatten := flatten_take_shardsOf hlayout hsegment
  refine ⟨_, encode_of_ne_nil layout hsegment, ?_, fun i shard hshard => ?_, ?_, ?_⟩
  · rw [length_shardsOf, length_rows hlayout hsegment, Layout.totalShards]
  · have hlt : i < layout.totalShards := by
      have hlength := (List.getElem?_eq_some_iff.1 hshard).1
      rwa [length_shardsOf, length_rows hlayout hsegment] at hlength
    rw [getElem?_shardsOf_rows hlayout hsegment hlt, Option.some.injEq] at hshard
    subst hshard
    have hindex : i < 256 := Nat.lt_of_lt_of_le hlt hlayout.2
    refine ⟨?_, ?_, decide_eq_true_iff⟩
    · exact UInt8.toNat_ofNat_of_lt' hindex
    · rw [Shard.size, length_row hlayout hsegment hlt, shardSize_eq_ceilDiv]
  · refine ⟨layout.dataShards.toNat * shardSize layout.dataShards.toNat segment.length -
      segment.length, ?_, hflatten⟩
    have hle := length_le_mul_shardSize hlayout.1 segment.length
    have hlt := mul_shardSize_lt hlayout.1 segment.length
    omega
  · rw [hflatten, padded, List.take_left]

/-- One byte over three data shards: two shards are padding alone, and the
first one gives the segment back. -/
theorem encode_of_single_byte :
    (Library.interpolating.Documented ∧ (⟨3, 2⟩ : Layout).Valid ∧ ([7] : Bytes) ≠ []) ∧
    ∃ shards, (codecOf ⟨3, 2⟩).encode [7] = .ok shards ∧ shards.length = 5 ∧
      (∀ i shard, shards[i]? = some shard → shard.index.toNat = i ∧ shard.size = 1 ∧
        (shard.isParity = true ↔ 3 ≤ i)) ∧
      ((shards.take 3).flatMap (·.bytes)).take 1 = [7] := by
  have hlib := Library.documented_interpolating
  have hlayout : (⟨3, 2⟩ : Layout).Valid := by decide
  have hsegment : ([7] : Bytes) ≠ [] := by decide
  obtain ⟨-, -, -, hencode⟩ := encode_systematic hlib hlayout
  obtain ⟨shards, hshards, hlength, heach, -, htake⟩ := hencode [7] hsegment
  exact ⟨⟨hlib, hlayout, hsegment⟩, shards, hshards, hlength, heach, htake⟩

/-! ## With shards missing -/

/-- What is left of the shards of a segment when some are lost. -/
def remaining (lost : Finset Nat) (shards : List Shard) : List (Option Bytes) :=
  shards.mapIdx fun i shard => if i ∈ lost then none else some shard.bytes

/-- Where the same is left, what is not lost has the same bytes. -/
theorem row_eq_of_remaining (hlayout : layout.Valid) (hsegment : segment ≠ [])
    (hsegment' : segment' ≠ []) {lost : Finset Nat}
    (hleft : remaining lost (shardsOf layout.dataShards.toNat (rows layout segment)) =
      remaining lost (shardsOf layout.dataShards.toNat (rows layout segment')))
    {position : Nat} (hposition : position < layout.totalShards) (hkept : position ∉ lost) :
    row layout position segment = row layout position segment' := by
  have hat := congrArg (·[position]?) hleft
  simp only [remaining, List.getElem?_mapIdx, getElem?_shardsOf_rows hlayout hsegment hposition,
    getElem?_shardsOf_rows hlayout hsegment' hposition, Option.map_some, if_neg hkept,
    Option.some.injEq] at hat
  exact hat

/-- As many positions are left as there are data shards. -/
theorem dataShards_le_card_sdiff {lost : Finset Nat} (hlost : lost.card ≤ layout.maxFailures) :
    layout.dataShards.toNat ≤ (Finset.range layout.totalShards \ lost).card := by
  have hcard := Finset.le_card_sdiff lost (Finset.range layout.totalShards)
  rw [Finset.card_range, Layout.totalShards] at hcard
  rw [Layout.maxFailures] at hlost
  rw [Layout.totalShards]
  omega

/-- **Any shards, as many as there are of data, determine the segment.**
Whatever library of matrix codes the codec is built on, as long as it keeps
to what it documents: two segments of one length with the same bytes at as
many positions as there are data shards, of data or parity, are the same.
So are two of which the same is left when as many shards are lost as there
are of parity. -/
theorem eq_of_shards {lib : Library} (hlib : lib.Documented) (hlayout : layout.Valid)
    (hsegment : segment ≠ []) (hlength : segment.length = segment'.length) :
    lib.codec? layout = some (.ok (codecOf layout)) ∧
    ∃ shards shards', (codecOf layout).encode segment = .ok shards ∧
      (codecOf layout).encode segment' = .ok shards' ∧
      (∀ positions : Finset Nat, layout.dataShards.toNat ≤ positions.card →
        (∀ position ∈ positions, ∃ shard shard', shards[position]? = some shard ∧
          shards'[position]? = some shard' ∧ shard.bytes = shard'.bytes) → segment = segment') ∧
      ∀ lost : Finset Nat, lost.card ≤ layout.maxFailures →
        remaining lost shards = remaining lost shards' → segment = segment' := by
  have hsegment' : segment' ≠ [] := by
    rw [← List.length_pos_iff] at hsegment ⊢
    omega
  refine ⟨Library.codec?_of_valid hlib hlayout, _, _, encode_of_ne_nil layout hsegment,
    encode_of_ne_nil layout hsegment', ?_, ?_⟩
  · intro positions hcard hshards
    refine eq_of_row hlayout hsegment hlength hcard fun position hposition => ?_
    obtain ⟨shard, shard', hshard, hshard', hbytes⟩ := hshards position hposition
    have hlt : position < layout.totalShards := by
      have hlt := (List.getElem?_eq_some_iff.1 hshard).1
      rwa [length_shardsOf, length_rows hlayout hsegment] at hlt
    rw [getElem?_shardsOf_rows hlayout hsegment hlt, Option.some.injEq] at hshard
    rw [getElem?_shardsOf_rows hlayout hsegment' hlt, Option.some.injEq] at hshard'
    subst hshard hshard'
    exact ⟨hlt, hbytes⟩
  · intro lost hlost hleft
    refine eq_of_row hlayout hsegment hlength (dataShards_le_card_sdiff hlost)
      fun position hposition => ?_
    rw [Finset.mem_sdiff, Finset.mem_range] at hposition
    exact ⟨hposition.1,
      row_eq_of_remaining hlayout hsegment hsegment' hleft hposition.1 hposition.2⟩

/-- Three bytes over two data shards, the first lost: with one parity shard
a changed byte still shows in what is left. -/
theorem remaining_ne_of_changed_byte :
    (Library.interpolating.Documented ∧ (⟨2, 1⟩ : Layout).Valid ∧ ([1, 2, 3] : Bytes) ≠ [] ∧
      ([1, 2, 3] : Bytes).length = ([1, 9, 3] : Bytes).length) ∧
    ∃ shards shards', (codecOf ⟨2, 1⟩).encode [1, 2, 3] = .ok shards ∧
      (codecOf ⟨2, 1⟩).encode [1, 9, 3] = .ok shards' ∧
      remaining {0} shards ≠ remaining {0} shards' := by
  have hlib := Library.documented_interpolating
  have hlayout : (⟨2, 1⟩ : Layout).Valid := by decide
  have hsegment : ([1, 2, 3] : Bytes) ≠ [] := by decide
  have hlength : ([1, 2, 3] : Bytes).length = ([1, 9, 3] : Bytes).length := rfl
  obtain ⟨-, shards, shards', hshards, hshards', -, hlost⟩ :=
    eq_of_shards hlib hlayout hsegment hlength
  refine ⟨⟨hlib, hlayout, hsegment, hlength⟩, shards, shards', hshards, hshards', fun hleft => ?_⟩
  exact absurd (hlost {0} (by decide) hleft) (by decide)

end ReedSolomon

end ErasureDigest

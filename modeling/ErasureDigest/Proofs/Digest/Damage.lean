import ErasureDigest.Proofs.Digest.Strings

/-!
# Damage, told from the roots

Every byte of a content belongs to one data shard of its segment
(`Profile.positionOf`), a short last segment being cut at its own length.
Where two contents of one length differ in bytes of one data position only,
however many segments that is in, their segments differ in one data row
(`forall₂_differsAt`). The roots of the other data positions are then equal,
and the primary root, the root of that position and those of all parity
positions are others, unless a collision is at hand (`roots_of_damage`).
-/

namespace ErasureDigest

open ReedSolomon (DiffersAt row)

/-! ## Segments in pairs -/

section Pairs

variable {layout : Layout} {xs ys : List Bytes} {position other : Nat}
variable (hlayout : layout.Valid)
  (h : List.Forall₂ (fun x y => x ≠ [] ∧ DiffersAt layout position x y) xs ys)
include hlayout h

/-- The other data rows are equal, segment by segment. -/
theorem ReedSolomon.map_row_eq_of_differsAt (hother : other < layout.dataShards.toNat)
    (hne : other ≠ position) : xs.map (row layout other) = ys.map (row layout other) := by
  induction h with
  | nil => rfl
  | cons hpair _ ih =>
    rw [List.map_cons, List.map_cons, ih,
      ReedSolomon.row_eq_of_differsAt hlayout hpair.1 hpair.2 hother hne]

/-- That row and every parity row tell whether a segment differs. -/
theorem ReedSolomon.eq_of_map_row_of_differsAt (hother : other < layout.totalShards)
    (htells : other = position ∨ layout.dataShards.toNat ≤ other)
    (hrows : xs.map (row layout other) = ys.map (row layout other)) : xs = ys := by
  induction h with
  | nil => rfl
  | cons hpair _ ih =>
    obtain ⟨hrow, hrest⟩ := List.cons.inj hrows
    rw [ReedSolomon.eq_of_row_of_differsAt hlayout hpair.1 hpair.2 hother htells hrow, ih hrest]

/-- Only a data row can differ. -/
theorem ReedSolomon.lt_of_forall₂_differsAt (hne : xs ≠ ys) :
    position < layout.dataShards.toNat := by
  induction h with
  | nil => exact absurd rfl hne
  | @cons x y xs ys hpair _ ih =>
    by_cases hhead : x = y
    · exact ih fun htail => hne (by rw [hhead, htail])
    · exact ReedSolomon.lt_of_differsAt hlayout hpair.2 hhead

end Pairs

namespace Profile

/-- The data shard that the byte at an offset of a content of `length` bytes
belongs to: its offset within its segment, by the size of the shards of
that segment. -/
def positionOf (profile : Profile) (length offset : Nat) : Nat :=
  let start := offset / profile.segmentSize.toNat * profile.segmentSize.toNat
  (offset - start) / ReedSolomon.shardSize profile.layout.dataShards.toNat
    (min profile.segmentSize.toNat (length - start))

variable {profile : Profile} {content content' : Bytes} {position : Nat}

/-- A byte belongs to the shard that its place in its segment says. -/
theorem positionOf_add {length offset i : Nat} (hoffset : offset < profile.segmentSize.toNat) :
    profile.positionOf length (i * profile.segmentSize.toNat + offset) =
      offset / ReedSolomon.shardSize profile.layout.dataShards.toNat
        (min profile.segmentSize.toNat (length - i * profile.segmentSize.toNat)) := by
  rw [positionOf, ReedSolomon.mul_add_div_of_lt hoffset, Nat.add_sub_cancel_left]

/-- **Damage to one data position is damage to one data row of each
segment.** -/
theorem forall₂_differsAt (hcheck : profile.check = .ok ())
    (hlength : content.length = content'.length)
    (hdiffers : ∀ offset, content[offset]? ≠ content'[offset]? →
      profile.positionOf content.length offset = position) :
    List.Forall₂ (fun x y => x ≠ [] ∧ DiffersAt profile.layout position x y)
      (profile.segments content) (profile.segments content') := by
  have hsize := (check_eq_ok_iff.1 hcheck).1
  refine forall₂_segments hcheck hlength fun i hplace => ⟨?_, ?_, fun offset hoffset => ?_⟩
  · rw [← List.length_pos_iff, List.length_take, List.length_drop]
    omega
  · simp only [List.length_take, List.length_drop, hlength]
  · have hlt : offset < profile.segmentSize.toNat := by
      by_contra hle
      -- behind the end of both segments there is nothing to differ
      refine hoffset ?_
      simp [ReedSolomon.element, List.getD_eq_getElem?_getD, hle]
    rw [ReedSolomon.element_take_drop _ _ hlt, ReedSolomon.element_take_drop _ _ hlt] at hoffset
    rw [List.length_take, List.length_drop, ← positionOf_add hlt]
    refine hdiffers _ fun heq => hoffset ?_
    simp only [ReedSolomon.element, List.getD_eq_getElem?_getD, heq]

/-- **Damage is localised by the roots.** Whatever library of matrix codes
the codec is built on, as long as it keeps to what it documents: two
different contents of one length that differ only in bytes of one data
position have as many roots each as there are shards and one more, and the
same ones at all other data positions. The primary root, the root of that
position and the roots of all parity positions differ, or two different
strings have the same checksum, both among those that the root is taken over
and their joined checksums. -/
theorem roots_of_damage {lib : ReedSolomon.Library} (hlib : lib.Documented)
    (hcheck : profile.check = .ok ()) (hlength : content.length = content'.length)
    (hne : content ≠ content')
    (hdiffers : ∀ offset, content[offset]? ≠ content'[offset]? →
      profile.positionOf content.length offset = position) :
    lib.codec? profile.layout = some (.ok (ReedSolomon.codecOf profile.layout)) ∧
    position < profile.layout.dataShards.toNat ∧
    ∃ d d', profile.Gives content d ∧ profile.Gives content' d' ∧
      d.roots.length = profile.totalShards + 1 ∧ d'.roots.length = profile.totalShards + 1 ∧
      (∀ other < profile.layout.dataShards.toNat, other ≠ position →
        d.shardRoot? other = d'.shardRoot? other) ∧
      (d.primaryRoot? ≠ d'.primaryRoot? ∨
        CollisionBetween (profile.segments content) (profile.segments content')) ∧
      ∀ other < profile.totalShards,
        other = position ∨ profile.layout.dataShards.toNat ≤ other →
        d.shardRoot? other ≠ d'.shardRoot? other ∨
          CollisionBetween (profile.shardsAt other content) (profile.shardsAt other content') := by
  have hlayout := (check_eq_ok_iff.1 hcheck).2
  have hpairs := forall₂_differsAt hcheck hlength hdiffers
  have hsegments : profile.segments content ≠ profile.segments content' := fun heq =>
    hne (by rw [← profile.flatten_segments content, heq, flatten_segments])
  obtain ⟨d, hd, hroots, -⟩ := exists_gives hcheck content
  obtain ⟨d', hd', hroots', -⟩ := exists_gives hcheck content'
  refine ⟨codec?_of_check hlib hcheck,
    ReedSolomon.lt_of_forall₂_differsAt hlayout hpairs hsegments, d, d', hd, hd', hroots, hroots',
    ?_, hd.primaryRoot?_ne_or_collision hcheck hd' hsegments, ?_⟩
  · intro other hother hother'
    have htotal : other < profile.totalShards := Layout.lt_totalShards hother
    refine hd.shardRoot?_congr hcheck hd' htotal ?_
    rw [shardsAt_eq_map hcheck htotal, shardsAt_eq_map hcheck htotal]
    exact ReedSolomon.map_row_eq_of_differsAt hlayout hpairs hother hother'
  · intro other hother htells
    refine hd.shardRoot?_ne_or_collision hcheck hd' hother fun heq => hsegments ?_
    rw [shardsAt_eq_map hcheck hother, shardsAt_eq_map hcheck hother] at heq
    exact ReedSolomon.eq_of_map_row_of_differsAt hlayout hpairs hother htells heq

/-- Four bytes in segments of three, the last one short: the first byte of
each segment changed belongs to the first of two data shards. The root of
the second stays, the others are others. -/
theorem roots_of_changed_heads :
    (ReedSolomon.Library.interpolating.Documented ∧ (⟨3, ⟨2, 1⟩⟩ : Profile).check = .ok () ∧
      ([1, 2, 3, 4] : Bytes).length = ([9, 2, 3, 5] : Bytes).length ∧
      ([1, 2, 3, 4] : Bytes) ≠ [9, 2, 3, 5] ∧
      ∀ offset, ([1, 2, 3, 4] : Bytes)[offset]? ≠ ([9, 2, 3, 5] : Bytes)[offset]? →
        (⟨3, ⟨2, 1⟩⟩ : Profile).positionOf 4 offset = 0) ∧
    ∃ d d', (⟨3, ⟨2, 1⟩⟩ : Profile).Gives [1, 2, 3, 4] d ∧
      (⟨3, ⟨2, 1⟩⟩ : Profile).Gives [9, 2, 3, 5] d' ∧
      d.shardRoot? 1 = d'.shardRoot? 1 ∧ d.primaryRoot? ≠ d'.primaryRoot? ∧
      d.shardRoot? 0 ≠ d'.shardRoot? 0 ∧ d.shardRoot? 2 ≠ d'.shardRoot? 2 := by
  have hlib := ReedSolomon.Library.documented_interpolating
  have hcheck : (⟨3, ⟨2, 1⟩⟩ : Profile).check = .ok () := rfl
  have hlength : ([1, 2, 3, 4] : Bytes).length = ([9, 2, 3, 5] : Bytes).length := rfl
  have hdiffers : ∀ offset, ([1, 2, 3, 4] : Bytes)[offset]? ≠ ([9, 2, 3, 5] : Bytes)[offset]? →
      (⟨3, ⟨2, 1⟩⟩ : Profile).positionOf 4 offset = 0 := by
    intro offset hoffset
    have hlt : offset < 4 := by
      by_contra hle
      exact hoffset (by rw [List.getElem?_eq_none (by simpa using hle),
        List.getElem?_eq_none (by simpa using hle)])
    exact (by decide : ∀ offset < 4,
      ([1, 2, 3, 4] : Bytes)[offset]? ≠ ([9, 2, 3, 5] : Bytes)[offset]? →
        (⟨3, ⟨2, 1⟩⟩ : Profile).positionOf 4 offset = 0) offset hlt hoffset
  obtain ⟨-, -, d, d', hd, hd', -, -, hstays, hprimary, hothers⟩ :=
    roots_of_damage hlib hcheck hlength (by decide) hdiffers
  refine ⟨⟨hlib, hcheck, hlength, by decide, hdiffers⟩, d, d', hd, hd',
    hstays 1 (by decide) (by decide), ?_, ?_, ?_⟩
  · exact hprimary.resolve_right (by decide +kernel)
  · exact (hothers 0 (by decide) (.inl rfl)).resolve_right (by decide +kernel)
  · exact (hothers 2 (by decide) (.inr (by decide))).resolve_right (by decide +kernel)

end Profile

end ErasureDigest

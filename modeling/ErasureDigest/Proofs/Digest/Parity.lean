import ErasureDigest.Proofs.Digest.Strings

/-!
# Parity shards extend a digest

The data shards of a segment are its own bytes, and a parity shard is the
value at a point of its own, however many further points are taken. So with
more parity shards a segment has more rows behind the same first ones
(`ReedSolomon.rows_prefix`), and the roots of a digest with fewer parity
shards are the first roots of one with more, also where there is no parity
at all. The root over the segments does not look at shards: it is the same
for all layouts (`Profile.roots_prefix_of_parity`).
-/

namespace ErasureDigest

namespace ReedSolomon

/-! ## Rows -/

section Rows

variable {layout layout' : Layout} (hdata : layout.dataShards = layout'.dataShards)
  (hparity : layout.parityShards ≤ layout'.parityShards)
include hdata hparity

/-- More parity shards stand behind the others. -/
theorem rows_prefix (segment : Bytes) : rows layout segment <+: rows layout' segment := by
  have hrange : List.range layout.parityShards.toNat <+: List.range layout'.parityShards.toNat := by
    rw [← Nat.add_sub_cancel' (UInt64.le_iff_toNat_le.1 hparity), List.range_add]
    exact List.prefix_append _ _
  rw [rows, rows, hdata, parityWeights, parityWeights]
  exact (List.prefix_append_right_inj _).2 ((hrange.map _).map _)

/-- With more parity shards there are more positions. -/
theorem totalShards_le_of_parity : layout.totalShards ≤ layout'.totalShards := by
  rw [Layout.totalShards, Layout.totalShards, hdata]
  exact Nat.add_le_add_left (UInt64.le_iff_toNat_le.1 hparity) _

/-- Those that there are without them have the same rows. -/
theorem row_eq_of_parity (hlayout : layout.Valid) {segment : Bytes} (hsegment : segment ≠ [])
    {position : Nat} (hposition : position < layout.totalShards) :
    row layout position segment = row layout' position segment := by
  obtain ⟨more, hrows⟩ := rows_prefix hdata hparity segment
  have hlt : position < (rows layout segment).length := by
    rwa [length_rows hlayout hsegment]
  rw [row, row, ← hrows, List.getD_append _ _ _ _ hlt]

end Rows

end ReedSolomon

namespace Profile

variable {profile profile' : Profile} {content : Bytes} {d d' : Digest}

/-! ## Roots -/

/-- A digest has as many roots as there are shards, and one. -/
theorem Gives.length_roots (hcheck : profile.check = .ok ()) (h : profile.Gives content d) :
    d.roots.length = profile.totalShards + 1 := by
  obtain ⟨other, hother, hroots, -⟩ := exists_gives hcheck content
  obtain rfl := h.unique hother
  exact hroots

section Parity

variable (hcheck : profile.check = .ok ()) (hcheck' : profile'.check = .ok ())
  (hsize : profile.segmentSize = profile'.segmentSize)
include hcheck hcheck' hsize

/-- The root over the segments is the same in all layouts. -/
theorem Gives.primaryRoot?_congr (h : profile.Gives content d) (h' : profile'.Gives content d') :
    d.primaryRoot? = d'.primaryRoot? := by
  rw [h.primaryRoot?_eq hcheck, h'.primaryRoot?_eq hcheck', segments, segments, hsize]

variable (hdata : profile.layout.dataShards = profile'.layout.dataShards)
  (hparity : profile.layout.parityShards ≤ profile'.layout.parityShards)
include hdata hparity

/-- The positions that both have hold the same shards. -/
theorem shardsAt_eq_of_parity {position : Nat} (hposition : position < profile.totalShards) :
    profile.shardsAt position content = profile'.shardsAt position content := by
  obtain ⟨hpos, hlayout⟩ := check_eq_ok_iff.1 hcheck
  have htotal := ReedSolomon.totalShards_le_of_parity hdata hparity
  rw [shardsAt_eq_map hcheck hposition,
    shardsAt_eq_map hcheck' (Nat.lt_of_lt_of_le hposition htotal), segments, segments, ← hsize]
  exact List.map_congr_left fun segment hsegment => ReedSolomon.row_eq_of_parity hdata hparity
    hlayout (Bytes.ne_nil_of_mem_pieces hpos hsegment) hposition

/-- And so the same root. -/
theorem Gives.roots_prefix (h : profile.Gives content d) (h' : profile'.Gives content d') :
    d.roots <+: d'.roots := by
  have htotal := ReedSolomon.totalShards_le_of_parity hdata hparity
  have hroots := h.length_roots hcheck
  refine List.prefix_iff_getElem?.2 fun i hi => ?_
  rw [← List.getElem?_eq_getElem hi]
  cases i with
  | zero =>
    have hprimary := h.primaryRoot?_congr hcheck hcheck' hsize h'
    rw [Digest.primaryRoot?, Digest.primaryRoot?, List.head?_eq_getElem?,
      List.head?_eq_getElem?] at hprimary
    exact hprimary.symm
  | succ position =>
    have hposition : position < profile.totalShards := by omega
    have hroot : d.shardRoot? position = d'.shardRoot? position := by
      rw [h.shardRoot?_eq hcheck hposition,
        h'.shardRoot?_eq hcheck' (Nat.lt_of_lt_of_le hposition htotal),
        shardsAt_eq_of_parity hcheck hcheck' hsize hdata hparity hposition]
    exact hroot.symm

end Parity

/-- **Parity shards only extend a digest.** Whatever library of matrix codes
the codecs are built on, as long as it keeps to what it documents: under two
accepted profiles with one segment size, a content has digests with its
length and the same primary root, whatever the layouts. Where these have the
same number of data shards, and the second no fewer parity shards, the roots
of the first digest are the first roots of the second. -/
theorem roots_prefix_of_parity {lib : ReedSolomon.Library} (hlib : lib.Documented)
    (hcheck : profile.check = .ok ()) (hcheck' : profile'.check = .ok ())
    (hsize : profile.segmentSize = profile'.segmentSize) (content : Bytes) :
    lib.codec? profile.layout = some (.ok (ReedSolomon.codecOf profile.layout)) ∧
    lib.codec? profile'.layout = some (.ok (ReedSolomon.codecOf profile'.layout)) ∧
    ∃ d d', profile.Gives content d ∧ profile'.Gives content d' ∧
      d.contentLength = UInt64.ofNat content.length ∧ d.contentLength = d'.contentLength ∧
      d.roots.length = profile.totalShards + 1 ∧ d'.roots.length = profile'.totalShards + 1 ∧
      (∃ root, d.primaryRoot? = some root ∧ d'.primaryRoot? = some root) ∧
      (profile.layout.dataShards = profile'.layout.dataShards →
        profile.layout.parityShards ≤ profile'.layout.parityShards → d.roots <+: d'.roots) := by
  obtain ⟨d, hd, hroots, hlength, -⟩ := exists_gives hcheck content
  obtain ⟨d', hd', hroots', hlength', -⟩ := exists_gives hcheck' content
  have hprimary := hd.primaryRoot?_congr hcheck hcheck' hsize hd'
  have hroot := hd.primaryRoot?_eq hcheck
  refine ⟨codec?_of_check hlib hcheck, codec?_of_check hlib hcheck', d, d', hd, hd', hlength,
    hlength.trans hlength'.symm, hroots, hroots', ⟨_, hroot, hprimary ▸ hroot⟩, ?_⟩
  exact fun hdata hparity => hd.roots_prefix hcheck hcheck' hsize hdata hparity hd'

/-- Three bytes in segments of two: three data shards without parity have
the first four of the six roots that they have with two parity shards, and
the primary root of a single data shard. -/
theorem roots_of_added_parity :
    (ReedSolomon.Library.interpolating.Documented ∧ (⟨2, ⟨3, 0⟩⟩ : Profile).check = .ok () ∧
      (⟨2, ⟨3, 2⟩⟩ : Profile).check = .ok () ∧ (⟨2, ⟨1, 1⟩⟩ : Profile).check = .ok ()) ∧
    ∃ d d' d'', (⟨2, ⟨3, 0⟩⟩ : Profile).Gives [1, 2, 3] d ∧
      (⟨2, ⟨3, 2⟩⟩ : Profile).Gives [1, 2, 3] d' ∧ (⟨2, ⟨1, 1⟩⟩ : Profile).Gives [1, 2, 3] d'' ∧
      d.contentLength = 3 ∧ d.roots = d'.roots.take 4 ∧ d'.roots.length = 6 ∧
      d.primaryRoot? = d''.primaryRoot? := by
  have hlib := ReedSolomon.Library.documented_interpolating
  have hcheck : (⟨2, ⟨3, 0⟩⟩ : Profile).check = .ok () := rfl
  have hcheck' : (⟨2, ⟨3, 2⟩⟩ : Profile).check = .ok () := rfl
  have hcheck'' : (⟨2, ⟨1, 1⟩⟩ : Profile).check = .ok () := rfl
  obtain ⟨-, -, d, d', hd, hd', hlength, -, hroots, hroots', -, hmore⟩ :=
    roots_prefix_of_parity hlib hcheck hcheck' rfl [1, 2, 3]
  obtain ⟨-, -, e, d'', he, hd'', -, -, -, -, ⟨root, hroot, hroot''⟩, -⟩ :=
    roots_prefix_of_parity hlib hcheck hcheck'' rfl [1, 2, 3]
  obtain rfl := hd.unique he
  have hprefix : d.roots <+: d'.roots := hmore rfl (by decide)
  refine ⟨⟨hlib, hcheck, hcheck', hcheck''⟩, d, d', d'', hd, hd', hd'', hlength, ?_, hroots',
    hroot.trans hroot''.symm⟩
  rw [List.prefix_iff_eq_take.1 hprefix, hroots]
  rfl

end Profile

end ErasureDigest

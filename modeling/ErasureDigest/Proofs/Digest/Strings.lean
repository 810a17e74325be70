import ErasureDigest.Proofs.Coding.Recovery
import ErasureDigest.Proofs.Digest.Binding
import ErasureDigest.Proofs.Hashing.Content
import Mathlib.Data.List.Forall2

/-!
# The strings behind the roots

The roots of a content under a profile are taken over its segments
(`Profile.segments`) and, at each position, over the shards that these
have there (`Profile.shardsAt`). Two contents have one root exactly when
the strings behind it are the same, or a collision is among these and their
joined checksums (`CollisionBetween`).

Contents of one length are cut alike, so what holds segment by segment can
be told of the roots (`Profile.forall₂_segments`). `shardRoots_bind_content`
is the first such statement: shard roots at as many positions as there are
data shards bind the whole content.
-/

namespace ErasureDigest

/-- **A collision among two lists of strings and the joined checksums of
each.** -/
def CollisionBetween (xs ys : List Bytes) : Prop :=
  Collision (xs ++ ys ++ [Checksum.joined xs, Checksum.joined ys])

instance (strings : List Bytes) : Decidable (Collision strings) :=
  inferInstanceAs (Decidable (∃ x ∈ strings, ∃ y ∈ strings,
    x ≠ y ∧ Checksum.ofContent x = Checksum.ofContent y))

instance (xs ys : List Bytes) : Decidable (CollisionBetween xs ys) :=
  inferInstanceAs (Decidable (Collision _))

/-- Different strings have different roots, or a collision is at hand. -/
theorem Checksum.root_ne_or_collision {xs ys : List Bytes} (h : xs ≠ ys) :
    root (xs.map ofContent) ≠ root (ys.map ofContent) ∨ CollisionBetween xs ys := by
  by_cases hroot : root (xs.map ofContent) = root (ys.map ofContent)
  · exact Or.inr ((eq_or_collision_of_root hroot).resolve_left h)
  · exact Or.inl hroot

/-- A list that is mapped whole leaves nothing out. -/
theorem filterMap_of_mapM {f : Bytes → Option Bytes} {strings images : List Bytes}
    (h : strings.mapM f = some images) : strings.filterMap f = images := by
  induction strings generalizing images with
  | nil => simpa using h.symm
  | cons string rest ih =>
    cases himage : f string with
    | none => simp [List.mapM_cons, himage] at h
    | some image =>
      cases hrest : rest.mapM f with
      | none => simp [List.mapM_cons, himage, hrest] at h
      | some others =>
        obtain rfl : image :: others = images := by simpa [List.mapM_cons, himage, hrest] using h
        rw [List.filterMap_cons_some himage, ih hrest]

/-- Segments of the same lengths with the same rows at as many positions as
there are data shards are the same. -/
theorem ReedSolomon.eq_of_map_row {layout : Layout} (hlayout : layout.Valid) {xs ys : List Bytes}
    (h : List.Forall₂ (fun x y => x ≠ [] ∧ x.length = y.length) xs ys) {positions : Finset Nat}
    (hcard : layout.dataShards.toNat ≤ positions.card)
    (hrows : ∀ position ∈ positions, position < layout.totalShards ∧
      xs.map (row layout position) = ys.map (row layout position)) : xs = ys := by
  induction h with
  | nil => rfl
  | @cons x y xs ys hpair _ ih =>
    have hhead : x = y := eq_of_row hlayout hpair.1 hpair.2 hcard fun position hposition =>
      ⟨(hrows position hposition).1, (List.cons.inj (hrows position hposition).2).1⟩
    have htail : xs = ys := ih fun position hposition =>
      ⟨(hrows position hposition).1, (List.cons.inj (hrows position hposition).2).2⟩
    rw [hhead, htail]

/-- The shards of a segment with bytes are its rows. -/
theorem ReedSolomon.shard?_codecOf {layout : Layout} {segment : Bytes} {position : Nat}
    (hlayout : layout.Valid) (hsegment : segment ≠ []) (hposition : position < layout.totalShards) :
    (codecOf layout).shard? position segment = some (row layout position segment) := by
  have hlt : position < (rows layout segment).length := by
    rw [length_rows hlayout hsegment]
    exact hposition
  simp [Codec.shard?, encode_of_ne_nil layout hsegment, shardsOf, row, List.getElem?_eq_getElem hlt]

namespace Profile

/-- The segments of a content. -/
def segments (profile : Profile) (content : Bytes) : List Bytes :=
  content.pieces profile.segmentSize.toNat

/-- The shards of a content at a position, in the order of its segments. -/
def shardsAt (profile : Profile) (position : Nat) (content : Bytes) : List Bytes :=
  (profile.segments content).filterMap ((ReedSolomon.codecOf profile.layout).shard? position)

variable {profile : Profile} {content content' : Bytes} {position : Nat} {d d' : Digest}

theorem flatten_segments (profile : Profile) (content : Bytes) :
    (profile.segments content).flatten = content := Bytes.flatten_pieces _ content

section Accepted

variable (hcheck : profile.check = .ok ())
include hcheck

/-- Every segment has a shard at every position. -/
theorem shardsAt_eq_map (hposition : position < profile.totalShards) (content : Bytes) :
    profile.shardsAt position content =
      (profile.segments content).map (ReedSolomon.row profile.layout position) := by
  obtain ⟨hsize, hlayout⟩ := check_eq_ok_iff.1 hcheck
  exact List.filterMap_eq_map_iff_forall_eq_some.2 fun segment hsegment =>
    ReedSolomon.shard?_codecOf hlayout (Bytes.ne_nil_of_mem_pieces hsize hsegment) hposition

/-- Contents of one length are cut alike: what holds of the two segments
at each place holds of the segments in pairs. -/
theorem forall₂_segments {R : Bytes → Bytes → Prop} (hlength : content.length = content'.length)
    (hR : ∀ i, i * profile.segmentSize.toNat < content.length →
      R ((content.drop (i * profile.segmentSize.toNat)).take profile.segmentSize.toNat)
        ((content'.drop (i * profile.segmentSize.toNat)).take profile.segmentSize.toNat)) :
    List.Forall₂ R (profile.segments content) (profile.segments content') := by
  have hsize := (check_eq_ok_iff.1 hcheck).1
  refine List.forall₂_iff_get.2 ⟨?_, fun i hi hi' => ?_⟩
  · rw [segments, segments, Bytes.length_pieces hsize, Bytes.length_pieces hsize, hlength]
  · obtain ⟨hplace, hpiece⟩ := Bytes.getElem_pieces hsize hi
    obtain ⟨-, hpiece'⟩ := Bytes.getElem_pieces hsize hi'
    have hpair := hR i hplace
    rw [← hpiece, ← hpiece'] at hpair
    exact hpair

namespace Gives

/-! ## Roots and strings -/

/-- The digest is what the segments come to. -/
theorem outcome_eq (h : profile.Gives content d) :
    (ReedSolomon.codecOf profile.layout).outcome (profile.segments content) none = .ok d := by
  have hserial := h.serial _ (Source.delivers_ofBytes content)
  rw [digestSerial, spendSerial, spendWith_of_ok (codec_of_check hcheck)] at hserial
  exact (Serial.digest_eq_outcome_of_delivers _ (check_eq_ok_iff.1 hcheck).1
    (Source.delivers_ofBytes content)).symm.trans hserial

theorem primaryRoot?_eq (h : profile.Gives content d) : d.primaryRoot? =
    some (Checksum.root ((profile.segments content).map Checksum.ofContent)) :=
  (Codec.roots_of_outcome (h.outcome_eq hcheck)).1

theorem shardRoot?_eq (h : profile.Gives content d) (hposition : position < profile.totalShards) :
    d.shardRoot? position =
      some (Checksum.root ((profile.shardsAt position content).map Checksum.ofContent)) := by
  obtain ⟨shards, hmap, hroot⟩ :=
    (Codec.roots_of_outcome (h.outcome_eq hcheck)).2 position hposition
  rw [hroot, shardsAt, filterMap_of_mapM hmap]

variable (h : profile.Gives content d) (h' : profile.Gives content' d')
include h h'

/-- Contents with other segments have another primary root, or a collision
is at hand. -/
theorem primaryRoot?_ne_or_collision (hne : profile.segments content ≠ profile.segments content') :
    d.primaryRoot? ≠ d'.primaryRoot? ∨
      CollisionBetween (profile.segments content) (profile.segments content') := by
  rw [h.primaryRoot?_eq hcheck, h'.primaryRoot?_eq hcheck, ne_eq, Option.some.injEq]
  exact Checksum.root_ne_or_collision hne

variable (hposition : position < profile.totalShards)
include hposition

/-- The same shards at a position have the same root. -/
theorem shardRoot?_congr
    (hshards : profile.shardsAt position content = profile.shardsAt position content') :
    d.shardRoot? position = d'.shardRoot? position := by
  rw [h.shardRoot?_eq hcheck hposition, h'.shardRoot?_eq hcheck hposition, hshards]

/-- And others another, or a collision is at hand. -/
theorem shardRoot?_ne_or_collision
    (hne : profile.shardsAt position content ≠ profile.shardsAt position content') :
    d.shardRoot? position ≠ d'.shardRoot? position ∨
      CollisionBetween (profile.shardsAt position content)
        (profile.shardsAt position content') := by
  rw [h.shardRoot?_eq hcheck hposition, h'.shardRoot?_eq hcheck hposition, ne_eq,
    Option.some.injEq]
  exact Checksum.root_ne_or_collision hne

end Gives

/-! ## Any roots, as many as there are data shards -/

/-- Contents of one length with the same shards at as many positions as
there are data shards are the same. -/
theorem eq_of_shardsAt (hlength : content.length = content'.length) {positions : Finset Nat}
    (hcard : profile.layout.dataShards.toNat ≤ positions.card)
    (hshards : ∀ position ∈ positions, position < profile.totalShards ∧
      profile.shardsAt position content = profile.shardsAt position content') :
    content = content' := by
  obtain ⟨hsize, hlayout⟩ := check_eq_ok_iff.1 hcheck
  have hpairs : List.Forall₂ (fun x y => x ≠ [] ∧ x.length = y.length)
      (profile.segments content) (profile.segments content') := by
    refine forall₂_segments hcheck hlength fun i hplace => ⟨?_, ?_⟩
    · rw [← List.length_pos_iff, List.length_take, List.length_drop]
      omega
    · simp only [List.length_take, List.length_drop, hlength]
  have hsegments : profile.segments content = profile.segments content' := by
    refine ReedSolomon.eq_of_map_row hlayout hpairs hcard fun position hposition => ?_
    obtain ⟨hlt, heq⟩ := hshards position hposition
    rw [shardsAt_eq_map hcheck hlt, shardsAt_eq_map hcheck hlt] at heq
    exact ⟨hlt, heq⟩
  rw [← profile.flatten_segments content, hsegments, flatten_segments]

end Accepted

/-- An accepted profile has the codec of its layout, whatever library of
matrix codes it is built on. -/
theorem codec?_of_check {lib : ReedSolomon.Library} (hlib : lib.Documented)
    (hcheck : profile.check = .ok ()) :
    lib.codec? profile.layout = some (.ok (ReedSolomon.codecOf profile.layout)) :=
  ReedSolomon.Library.codec?_of_valid hlib (check_eq_ok_iff.1 hcheck).2

/-- **Any shard roots, as many as there are data shards, bind the whole
content.** Whatever library of matrix codes the codec is built on, as long
as it keeps to what it documents: two contents of one length whose digests
have the same roots at that many positions, of data or parity, are the same,
or two different strings have the same checksum, both among the shards and
the joined checksums at one of these positions. -/
theorem shardRoots_bind_content {lib : ReedSolomon.Library} (hlib : lib.Documented)
    (hcheck : profile.check = .ok ()) (hlength : content.length = content'.length) :
    lib.codec? profile.layout = some (.ok (ReedSolomon.codecOf profile.layout)) ∧
    ∃ d d', profile.Gives content d ∧ profile.Gives content' d' ∧
      ∀ positions : Finset Nat, profile.layout.dataShards.toNat ≤ positions.card →
        (∀ position ∈ positions, position < profile.totalShards ∧
          d.shardRoot? position = d'.shardRoot? position) →
        content = content' ∨ ∃ position ∈ positions,
          CollisionBetween (profile.shardsAt position content)
            (profile.shardsAt position content') := by
  obtain ⟨d, hd, -⟩ := exists_gives hcheck content
  obtain ⟨d', hd', -⟩ := exists_gives hcheck content'
  refine ⟨codec?_of_check hlib hcheck, d, d', hd, hd', fun positions hcard hroots => ?_⟩
  by_cases hshards : ∀ position ∈ positions,
      profile.shardsAt position content = profile.shardsAt position content'
  · exact Or.inl (eq_of_shardsAt hcheck hlength hcard fun position hposition =>
      ⟨(hroots position hposition).1, hshards position hposition⟩)
  · push Not at hshards
    obtain ⟨position, hposition, hne⟩ := hshards
    obtain ⟨hlt, hroot⟩ := hroots position hposition
    exact Or.inr ⟨position, hposition,
      (hd.shardRoot?_ne_or_collision hcheck hd' hlt hne).resolve_left (absurd hroot)⟩

/-- Three bytes in segments of two, and the last byte changed: with two data
shards and one of parity, the roots at the first data position and at the
parity position do not both stay. -/
theorem shardRoots_of_changed_tail :
    (ReedSolomon.Library.interpolating.Documented ∧ (⟨2, ⟨2, 1⟩⟩ : Profile).check = .ok () ∧
      ([1, 2, 3] : Bytes).length = ([1, 2, 4] : Bytes).length) ∧
    ∃ d d', (⟨2, ⟨2, 1⟩⟩ : Profile).Gives [1, 2, 3] d ∧
      (⟨2, ⟨2, 1⟩⟩ : Profile).Gives [1, 2, 4] d' ∧
      ¬ (d.shardRoot? 0 = d'.shardRoot? 0 ∧ d.shardRoot? 2 = d'.shardRoot? 2) := by
  have hlib := ReedSolomon.Library.documented_interpolating
  have hcheck : (⟨2, ⟨2, 1⟩⟩ : Profile).check = .ok () := rfl
  have hlength : ([1, 2, 3] : Bytes).length = ([1, 2, 4] : Bytes).length := rfl
  obtain ⟨-, d, d', hd, hd', hbind⟩ := shardRoots_bind_content hlib hcheck hlength
  refine ⟨⟨hlib, hcheck, hlength⟩, d, d', hd, hd', fun ⟨hdata, hparity⟩ => ?_⟩
  have hroots : ∀ position ∈ ({0, 2} : Finset Nat), position < 3 ∧
      d.shardRoot? position = d'.shardRoot? position := by
    simp [hdata, hparity]
  rcases hbind {0, 2} (by decide) hroots with heq | ⟨position, hposition, hcollision⟩
  · simp at heq
  · rw [Finset.mem_insert, Finset.mem_singleton] at hposition
    revert hcollision
    rcases hposition with rfl | rfl
    · decide +kernel
    · decide +kernel

end Profile

end ErasureDigest

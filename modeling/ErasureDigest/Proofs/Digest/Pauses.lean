import ErasureDigest.Proofs.Digest.Strings
import ErasureDigest.Proofs.Stream.Stretches

/-!
# The digest of a source that pauses

The bytes that a source is cut into are a beginning of what it delivers
(`Source.consumed`). Its digest is that of these bytes held in memory as
long as no pause falls within a segment with bytes right behind it, and with
such a pause it is another one (`Serial.digest_of_neverFails`), as the
segments are cut short in other places: `Serial.digest_of_pause_within` has
one byte, a pause, and two bytes more.
-/

namespace ErasureDigest

namespace Source

variable {source : Source} {size : Nat}

/-- The bytes that are taken from a source. -/
def consumed (size : Nat) (source : Source) : Bytes := (source.segments size).flatten

/-- The segments of a source that never fails are its stretches, cut. -/
theorem segments_of_neverFails (h : source.NeverFails) (hsize : 0 < size) :
    source.segments size = cut size source.stretches :=
  (Segmenter.drain_of_neverFails (s := .start source size) h hsize rfl).1

/-- They are taken from the front. -/
theorem consumed_prefix (h : source.NeverFails) (hsize : 0 < size) :
    source.consumed size <+: source.delivered := by
  rw [consumed, segments_of_neverFails h hsize, ← flatten_stretches h]
  exact flatten_cut_prefix

/-- A string held in memory is a source that never fails. -/
theorem neverFails_ofBytes (content : Bytes) : (ofBytes content).NeverFails := by
  simp [NeverFails, ofBytes]

theorem segments_ofBytes (content : Bytes) (hsize : 0 < size) :
    (ofBytes content).segments size = content.pieces size :=
  segments_of_delivers (delivers_ofBytes content) hsize

end Source

namespace Serial

variable {codec : Codec} {size : Nat} {source : Source}
variable (hsize : 0 < size) (hsource : source.NeverFails)
  (haccepts : ∀ segment, segment ≠ [] → codec.Accepts segment)
include hsize hsource haccepts

/-- A source that never fails comes to a digest, that of its segments. -/
theorem exists_digest_of_neverFails : ∃ d, digest codec size source = .ok d ∧
    codec.outcome (source.segments size) none = .ok d ∧
    d.contentLength = UInt64.ofNat (source.consumed size).length := by
  have hsegments : ∀ segment ∈ source.segments size, codec.Accepts segment := by
    intro segment hsegment
    obtain ⟨given, hgiven, rfl⟩ := List.mem_map.1 hsegment
    exact haccepts _ (Segmenter.ne_nil_of_mem_drain hgiven)
  obtain ⟨d, hd, hlength, -⟩ := Codec.exists_outcome_eq_ok hsegments
  have hfailure := (Segmenter.drain_of_neverFails (s := .start source size) hsource hsize rfl).2
  refine ⟨d, ?_, hd, hlength⟩
  rw [digest_eq_outcome hsize, hfailure]
  exact hd

/-- **The digest of a source that never fails**, whatever its pauses. Only
the last segment is short exactly when the source does not pause within one
and then has bytes. The bytes taken are a beginning of what the source
delivers, and the digest carries their number. Without such a pause it is
the digest of these bytes held in memory; with one the primary roots of the
two differ, or two different strings have the same checksum, both among the
segments of the two and their joined checksums. -/
theorem digest_of_neverFails :
    ((∀ segment ∈ (source.segments size).dropLast, segment.length = size) ↔
      ¬ source.PausesWithin size) ∧
    source.consumed size <+: source.delivered ∧
    ∃ d d', digest codec size source = .ok d ∧
      d.contentLength = UInt64.ofNat (source.consumed size).length ∧
      digest codec size (.ofBytes (source.consumed size)) = .ok d' ∧
      (¬ source.PausesWithin size → d = d') ∧
      (source.PausesWithin size → d.primaryRoot? ≠ d'.primaryRoot? ∨
        CollisionBetween (source.segments size) ((source.consumed size).pieces size)) := by
  have hcut := Source.segments_of_neverFails hsource hsize
  have honly : (∀ segment ∈ (source.segments size).dropLast, segment.length = size) ↔
      ¬ source.PausesWithin size := by
    rw [hcut]
    exact forall_length_dropLast_cut_iff hsize
  obtain ⟨d, hd, houtcome, hlength⟩ := exists_digest_of_neverFails hsize hsource haccepts
  obtain ⟨d', hd', houtcome', -⟩ := exists_digest_of_neverFails hsize
    (Source.neverFails_ofBytes (source.consumed size)) haccepts
  rw [Source.segments_ofBytes _ hsize] at houtcome'
  refine ⟨honly, Source.consumed_prefix hsource hsize, d, d', hd, hlength, hd', ?_, ?_⟩
  · intro hwithin
    have hpieces := cut_eq_pieces hwithin
    rw [← hcut] at hpieces
    rw [hpieces] at houtcome
    exact Except.ok.inj (houtcome.symm.trans houtcome')
  · intro hwithin
    rw [(Codec.roots_of_outcome houtcome).1, (Codec.roots_of_outcome houtcome').1, ne_eq,
      Option.some.injEq]
    refine Checksum.root_ne_or_collision fun heq => honly.1 ?_ hwithin
    rw [heq]
    exact Bytes.length_of_mem_dropLast_pieces hsize

omit hsize hsource haccepts

/-- A pause where a segment is full ends the stream: what is behind it is
not taken, and the digest is that of the bytes in front. -/
theorem digest_of_pause_between :
    (0 < 2 ∧ Source.NeverFails [.data [1, 2], .pause, .data [3]] ∧
      ∀ segment, segment ≠ [] → (ReedSolomon.codecOf ⟨1, 0⟩).Accepts segment) ∧
    ∃ d, digest (ReedSolomon.codecOf ⟨1, 0⟩) 2 [.data [1, 2], .pause, .data [3]] = .ok d ∧
      d.contentLength = 2 ∧
      digest (ReedSolomon.codecOf ⟨1, 0⟩) 2 (.ofBytes [1, 2]) = .ok d := by
  have hsource : Source.NeverFails [.data [1, 2], .pause, .data [3]] := by simp [Source.NeverFails]
  have haccepts : ∀ segment, segment ≠ [] → (ReedSolomon.codecOf ⟨1, 0⟩).Accepts segment :=
    fun _ hsegment => ReedSolomon.accepts_codecOf (by decide) hsegment
  have hconsumed : Source.consumed 2 [.data [1, 2], .pause, .data [3]] = [1, 2] := by
    rw [Source.consumed, Source.segments_of_neverFails hsource Nat.two_pos]
    decide +kernel
  have hwithin : ¬ Source.PausesWithin 2 [.data [1, 2], .pause, .data [3]] := by
    rintro ⟨first, second, rest, hstretches, hshort, -⟩
    obtain ⟨rfl, -⟩ := List.cons.inj hstretches
    exact hshort rfl
  obtain ⟨-, -, d, d', hd, hlength, hd', hsame, -⟩ :=
    digest_of_neverFails Nat.two_pos hsource haccepts
  rw [hconsumed] at hd' hlength
  exact ⟨⟨Nat.two_pos, hsource, haccepts⟩, d, hd, hlength, hsame hwithin ▸ hd'⟩

/-- **A pause within a segment.** One byte, a read without bytes, and two
bytes more, in segments of two: all three bytes are taken, the first segment
is short, and the digest is not that of the three bytes held in memory. -/
theorem digest_of_pause_within :
    Source.NeverFails [.data [1], .pause, .data [2, 3]] ∧
    Source.delivered [.data [1], .pause, .data [2, 3]] = [1, 2, 3] ∧
    Source.segments 2 [.data [1], .pause, .data [2, 3]] = [[1], [2, 3]] ∧
    (∀ segment, segment ≠ [] → (ReedSolomon.codecOf ⟨1, 0⟩).Accepts segment) ∧
    ∃ d d', digest (ReedSolomon.codecOf ⟨1, 0⟩) 2 [.data [1], .pause, .data [2, 3]] = .ok d ∧
      d.contentLength = 3 ∧
      digest (ReedSolomon.codecOf ⟨1, 0⟩) 2 (.ofBytes [1, 2, 3]) = .ok d' ∧ d ≠ d' := by
  have hsource : Source.NeverFails [.data [1], .pause, .data [2, 3]] := by simp [Source.NeverFails]
  have haccepts : ∀ segment, segment ≠ [] → (ReedSolomon.codecOf ⟨1, 0⟩).Accepts segment :=
    fun _ hsegment => ReedSolomon.accepts_codecOf (by decide) hsegment
  have hsegments : Source.segments 2 [.data [1], .pause, .data [2, 3]] = [[1], [2, 3]] := by
    rw [Source.segments_of_neverFails hsource Nat.two_pos]
    decide +kernel
  obtain ⟨d, hd, houtcome, hlength⟩ := exists_digest_of_neverFails Nat.two_pos hsource haccepts
  obtain ⟨d', hd', houtcome', -⟩ :=
    exists_digest_of_neverFails Nat.two_pos (Source.neverFails_ofBytes [1, 2, 3]) haccepts
  rw [Source.consumed, hsegments] at hlength
  rw [hsegments] at houtcome
  rw [Source.segments_ofBytes _ Nat.two_pos] at houtcome'
  refine ⟨hsource, rfl, hsegments, haccepts, d, d', hd, hlength, hd', ?_⟩
  rintro rfl
  -- the primary roots are those of the segments, which can be computed
  have hroots := (Codec.roots_of_outcome houtcome).1.symm.trans (Codec.roots_of_outcome houtcome').1
  revert hroots
  decide +kernel

end Serial

end ErasureDigest

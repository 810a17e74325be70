import ErasureDigest.Hashing.Serial
import ErasureDigest.Proofs.Digest.Collection
import ErasureDigest.Proofs.Stream.Delivery

/-!
# The serial digest, by its reference

Hashing in order gives what the segments of the source come to
(`digest_eq_outcome`). The segments are the pieces of the content, so the
digest is read off the content alone and does not see the reads that
deliver it (`digest_of_delivers`).
-/

namespace ErasureDigest

namespace Serial

variable {codec : Codec} {size : Nat} {source : Source} {content : Bytes}
variable {ending : Option IoFault}

/-- Adding all segments to come is adding the segments of the source, and
then ending as the source does. -/
theorem absorb_eq_collect (codec : Codec) (columns : Columns) (s : Segmenter) :
    (absorb codec columns s).1 =
      match columns.collect codec (s.drain.1.map (·.bytes)) with
      | .error error => .error error
      | .ok columns => s.drain.2.elim (.ok columns) .error := by
  fun_induction absorb codec columns s with
  | case1 columns s s' h => rw [Segmenter.drain_of_end h]; rfl
  | case2 columns s error s' h => rw [Segmenter.drain_of_failure h]; rfl
  | case3 columns s segment s' h error hs =>
    simp [Segmenter.drain_of_segment h, Columns.collect, hs]
  | case4 columns s segment s' h sums hs ih =>
    simpa [Segmenter.drain_of_segment h, Columns.collect, hs] using ih

/-- Without a segment size there is no digest. -/
theorem size_pos_of_digest {d : Digest} (h : digest codec size source = .ok d) : 0 < size := by
  rcases Nat.eq_zero_or_pos size with rfl | hsize
  · simp [digest, spend, checkSegmentSize] at h
  · exact hsize

/-- **The serial digest is what the segments of the source come to.** -/
theorem digest_eq_outcome (hsize : 0 < size) :
    digest codec size source =
      codec.outcome ((Segmenter.start source size).drain.1.map (·.bytes))
        (Segmenter.start source size).drain.2 := by
  simp only [digest, spend, checkSegmentSize_of_pos hsize, absorb_eq_collect, Codec.outcome]
  cases Columns.collect codec (.empty codec.totalShards)
    ((Segmenter.start source size).drain.1.map (·.bytes)) with
  | error error => rfl
  | ok columns => cases (Segmenter.start source size).drain.2 <;> rfl

/-- For a source that delivers a content, what the segments of that content
come to. -/
theorem digest_eq_outcome_of_delivers (codec : Codec) (hsize : 0 < size)
    (h : source.Delivers content ending) :
    digest codec size source =
      codec.outcome (content.segments size ending) (ending.map .sourceRead) := by
  obtain ⟨hbytes, hfailure⟩ :=
    Segmenter.drain_of_delivers (s := .start source size) h hsize rfl
  rw [digest_eq_outcome hsize, hbytes, hfailure]
  rfl

/-- **The digest of a source is that of what it delivers.** The first
rejected segment gives the error; else the fault of the source does; else
the first root is the checksum of the segments' checksums, one behind the
other, and each further one that of the checksums of the shards at its
position. Sources that deliver the same have the same digest, whatever
their reads. -/
theorem digest_of_delivers (hsize : 0 < size) (h : source.Delivers content ending) :
    (∀ before segment after error,
      content.segments size ending = before ++ segment :: after →
      (∀ other ∈ before, codec.Accepts other) → codec.sums segment = .error error →
      digest codec size source = .error error) ∧
    ((∀ segment ∈ content.segments size ending, codec.Accepts segment) →
      (∀ fault, ending = some fault → digest codec size source = .error (.sourceRead fault)) ∧
      (ending = none → ∃ d, digest codec size source = .ok d ∧
        d.contentLength = UInt64.ofNat content.length ∧
        d.redundancy = .erasureCoded ∧
        d.roots.length = codec.totalShards + 1 ∧
        d.roots[0]? = some (Checksum.ofContent
          ((content.pieces size).flatMap fun segment => (Checksum.ofContent segment).bytes)) ∧
        ∀ position < codec.totalShards, ∃ shards,
          (content.pieces size).mapM (codec.shard? position) = some shards ∧
          d.roots[position + 1]? = some (Checksum.ofContent
            (shards.flatMap fun shard => (Checksum.ofContent shard).bytes)))) ∧
    ∀ other : Source, other.Delivers content ending →
      digest codec size other = digest codec size source := by
  rw [digest_eq_outcome_of_delivers codec hsize h]
  refine ⟨?_, fun haccepts => ⟨?_, ?_⟩, fun other hother => ?_⟩
  · intro before segment after error hsegments hbefore hs
    rw [hsegments, Codec.outcome_of_rejected hbefore hs]
  · rintro fault rfl
    exact Codec.outcome_of_failure haccepts
  · rintro rfl
    obtain ⟨d, hd, hlength, hredundancy, hroots, hprimary, hshards⟩ :=
      Codec.exists_outcome_eq_ok haccepts
    simp only [Bytes.segments, Bytes.flatten_pieces] at hlength
    refine ⟨d, hd, hlength, hredundancy, hroots, ?_, fun position hposition => ?_⟩
    · simpa [Checksum.root, List.flatMap_map, Bytes.segments] using hprimary
    · obtain ⟨shards, hmap, hroot⟩ := hshards position hposition
      exact ⟨shards, hmap, by simpa [Checksum.root, List.flatMap_map] using hroot⟩
  · exact digest_eq_outcome_of_delivers codec hsize hother

/-- Three bytes over two reads and an interruption, then a fault: the one
full segment is accepted, and the fault is the outcome. -/
theorem digest_of_interrupted_failure :
    (0 < 2 ∧ Source.Delivers
      [.data [1], .interrupted, .data [2, 3], .failure .notText] [1, 2, 3] (some .notText)) ∧
    digest (.copying 1 1) 2 [.data [1], .interrupted, .data [2, 3], .failure .notText] =
      .error (.sourceRead .notText) := by
  have hdelivers : Source.Delivers
      [.data [1], .interrupted, .data [2, 3], .failure .notText] [1, 2, 3] (some .notText) :=
    .data [1] (.interrupted (.data [2, 3] (.failed .notText [])))
  refine ⟨⟨by decide, hdelivers⟩, ?_⟩
  refine ((digest_of_delivers (by decide) hdelivers).2.1 fun segment hsegment => ?_).1 _ rfl
  have hfull : Bytes.fullPieces 2 ([[1, 2]].flatten ++ [3]) = [[1, 2]] :=
    Bytes.fullPieces_of_pieces (by simp) (by decide)
  rw [Bytes.segments, show ([1, 2, 3] : Bytes) = [[1, 2]].flatten ++ [3] from rfl, hfull,
    List.mem_singleton] at hsegment
  exact ⟨_, by rw [hsegment]; rfl⟩

end Serial

end ErasureDigest

import ErasureDigest.Command.Report
import ErasureDigest.Proofs.Hashing.Content

/-!
# The announced number of segments

A profile tells the number of segments of a content from its length alone:
the quotient by the segment size, rounded up. That is how many pieces the
content is cut into (`Bytes.length_pieces`), and so the length of every
column: in order and by any run of the pool (`exists_columns`), and in a
hasher that has given its digest (`level_of_hasFinished`).
`segmentCount_of_every_way` puts this together, down to the line of a report
that shows the number.
-/

namespace ErasureDigest

/-- **Columns of a number of segments**: that many checksums of segments, and
as many of shards at every position. -/
structure Columns.Level (columns : Columns) (count : Nat) : Prop where
  segments : columns.segments.size = count
  shards : ∀ column ∈ columns.shards, column.size = count

namespace Columns

variable {codec : Codec} {columns : Columns} {segments : List Bytes}

/-- Columns are as long as there are segments in them. -/
theorem level_of_collect (h : (empty codec.totalShards).collect codec segments = .ok columns) :
    columns.Level segments.length := by
  have hsegments : columns.segments.size = segments.length := by
    rw [← Array.length_toList, segments_of_collect h]
    simp [empty]
  refine ⟨hsegments, fun column hcolumn => ?_⟩
  rw [size_of_collect (length_shards_empty _) (size_empty _) h column hcolumn]
  exact hsegments

end Columns

namespace Profile

variable {profile : Profile} {content : Bytes} {source : Source}

/-! ## By length -/

/-- The number announced is that of the pieces. -/
theorem segmentCount_eq_length_pieces (hsize : 0 < profile.segmentSize.toNat) (content : Bytes) :
    profile.segmentCount content.length = (content.pieces profile.segmentSize.toNat).length := by
  rw [segmentCount, Bytes.length_pieces hsize]

/-- All segments but the last are full, and the last is not empty. -/
theorem segmentCount_bounds (hsize : 0 < profile.segmentSize.toNat) {length : Nat}
    (hlength : length ≠ 0) :
    (profile.segmentCount length - 1) * profile.segmentSize.toNat + 1 ≤ length ∧
      length ≤ profile.segmentCount length * profile.segmentSize.toNat := by
  set size := profile.segmentSize.toNat with hsize_eq
  -- one off on both sides, the rounded up quotient is a plain one
  have hcount : profile.segmentCount length = (length - 1) / size + 1 := by
    rw [segmentCount, ← hsize_eq, show length + size - 1 = length - 1 + size by omega,
      Nat.add_div_right _ hsize]
  have hdiv := Nat.div_add_mod (length - 1) size
  have hmod := Nat.mod_lt (length - 1) hsize
  rw [hcount, Nat.add_sub_cancel, Nat.succ_mul, Nat.mul_comm]
  omega

theorem segmentCount_zero (hsize : 0 < profile.segmentSize.toNat) :
    profile.segmentCount 0 = 0 := by
  rw [segmentCount, Nat.zero_add]
  exact Nat.div_eq_of_lt (Nat.sub_lt hsize Nat.one_pos)

/-! ## By hashing -/

section Accepted

variable (hcheck : profile.check = .ok ())
include hcheck

/-- The columns of a content have the announced number of segments. -/
theorem exists_collect_pieces (content : Bytes) : ∃ columns : Columns,
    (Columns.empty (ReedSolomon.codecOf profile.layout).totalShards).collect
      (ReedSolomon.codecOf profile.layout) (content.pieces profile.segmentSize.toNat) =
        .ok columns ∧
      columns.Level (profile.segmentCount content.length) ∧
      columns.contentLength = content.length := by
  obtain ⟨hsize, hlayout⟩ := check_eq_ok_iff.1 hcheck
  obtain ⟨columns, hcollect⟩ := Columns.exists_collect_eq_ok
    (Columns.empty (ReedSolomon.codecOf profile.layout).totalShards) fun piece hpiece =>
      ReedSolomon.accepts_codecOf hlayout (Bytes.ne_nil_of_mem_pieces hsize hpiece)
  refine ⟨columns, hcollect, ?_, ?_⟩
  · rw [segmentCount_eq_length_pieces hsize]
    exact Columns.level_of_collect hcollect
  · rw [Columns.contentLength_of_collect hcollect, Bytes.flatten_pieces]
    exact Nat.zero_add _

/-- **The columns behind a digest**, in order or by any run of the pool: as
many entries as announced, at every position. -/
theorem exists_columns (h : source.Delivers content none) :
    ∃ columns : Columns, columns.Level (profile.segmentCount content.length) ∧
      columns.contentLength = content.length ∧
      (∀ strategy cores, profile.digest strategy source cores = .ok columns.digest) ∧
      (Serial.absorb (ReedSolomon.codecOf profile.layout)
        (.empty (ReedSolomon.codecOf profile.layout).totalShards)
        (.start source profile.segmentSize.toNat)).1 = .ok columns ∧
      ∀ workers steps s, Pool.Run (ReedSolomon.codecOf profile.layout)
          (.start source profile.segmentSize.toNat workers) steps s →
        (∀ action, s.step (ReedSolomon.codecOf profile.layout) action = none) →
        s.segmenter.segmentsRead = profile.segmentCount content.length ∧
          ∃ entries, s.ledger.ordered s.segmenter.segmentsRead = .ok entries ∧
            entries.foldl (fun columns entry => columns.push entry.sums entry.length)
              (.empty (ReedSolomon.codecOf profile.layout).totalShards) = columns := by
  have hsize := (check_eq_ok_iff.1 hcheck).1
  obtain ⟨columns, hcollect, hlevel, hlength⟩ := exists_collect_pieces hcheck content
  obtain ⟨hbytes, hfailure⟩ := Segmenter.drain_of_delivers
    (s := .start source profile.segmentSize.toNat) h hsize rfl
  change _ = content.pieces profile.segmentSize.toNat at hbytes
  refine ⟨columns, hlevel, hlength, fun strategy cores => ?_, ?_, fun workers steps s hrun hstuck => ?_⟩
  · rw [digest_eq_outcome hcheck, hbytes, hfailure, Codec.outcome, hcollect]
    rfl
  · rw [Serial.absorb_eq_collect, hbytes, hfailure, hcollect]
    rfl
  · have hs := Pool.sound_of_run hrun
    have hfinal := (Pool.isFinal_iff _).2 hstuck
    have hslot := Pool.slot_of_accepts hrun (accepts_drain hcheck source)
    obtain ⟨-, hread, -⟩ := Pool.closed_of_isFinal hs hfinal hslot
    obtain ⟨entries, hordered, hentries⟩ := Pool.exists_ordered_of_isFinal hs hfinal hslot
    rw [hbytes] at hentries
    refine ⟨?_, entries, hordered, Except.ok.inj (hentries.symm.trans hcollect)⟩
    rw [hread, segmentCount_eq_length_pieces hsize, ← hbytes, List.length_map]

end Accepted

end Profile

namespace Hasher

variable {codec : Codec} {size : Nat} {chunks : List Bytes} {d : Digest}

/-- A hasher that has given its digest has all pieces in its columns. -/
theorem level_of_hasFinished (hsize : 0 < size) {calls : List Call}
    (hgiven : hasFinished ((start codec size).history calls).log = true) :
    ((start codec size).history calls).hasher.columns.Level
      (Bytes.pieces size (accepted ((start codec size).history calls).log)).length :=
  Columns.level_of_collect ((tracks_history codec hsize calls).given hgiven).2

/-- **Feeding that comes to a digest is a row of calls**, none of which was
refused. -/
theorem foldl_next_of_feed (past : History) (h : (past.hasher.feed chunks).outcome = .ok d) :
    let after := (chunks.map Call.append ++ [Call.finish]).foldl History.next past
    after.hasher = (past.hasher.feed chunks).hasher ∧
      accepted after.log = accepted past.log ++ chunks.flatten ∧ hasFinished after.log = true := by
  induction chunks generalizing past with
  | nil =>
    change past.hasher.finish.1 = .ok d at h
    refine ⟨rfl, ?_, ?_⟩
    · rw [List.map_nil, List.nil_append, List.foldl_cons, List.foldl_nil, accepted_next,
        List.flatten_nil, List.append_nil]
      rfl
    · rw [List.map_nil, List.nil_append, List.foldl_cons, List.foldl_nil, hasFinished_next]
      simp [call, h, Except.map, hasFinishedNext]
  | cons chunk rest ih =>
    cases happend : past.hasher.append chunk with
    | mk outcome h' =>
      cases outcome with
      | error error =>
        rw [feed_of_error rest happend] at h
        cases h
      | ok _ =>
        rw [feed_of_ok rest happend] at h
        have hhasher : (past.next (.append chunk)).hasher = h' := by
          simp [History.next, call, happend]
        have haccepted : accepted (past.next (.append chunk)).log = accepted past.log ++ chunk := by
          simp [accepted_next, call, happend, Except.map, acceptedNext]
        obtain ⟨hfed, hbytes, hgiven⟩ := ih (past.next (.append chunk)) (by rwa [hhasher])
        refine ⟨?_, ?_, hgiven⟩
        · rw [feed_of_ok rest happend, List.map_cons, List.cons_append, List.foldl_cons, hfed,
            hhasher]
        · rw [List.map_cons, List.cons_append, List.foldl_cons, hbytes, haccepted,
            List.flatten_cons, List.append_assoc]

end Hasher

namespace Profile

variable {profile : Profile}

section Hashers

variable (hcheck : profile.check = .ok ()) {content : Bytes}
include hcheck

/-- A hasher that has given the digest of a content after any calls has the
announced number of segments in its columns. -/
theorem level_of_calls {calls : List Hasher.Call}
    (haccepted : Hasher.accepted ((Hasher.start (ReedSolomon.codecOf profile.layout)
      profile.segmentSize.toNat).history calls).log = content)
    (hgiven : Hasher.hasFinished ((Hasher.start (ReedSolomon.codecOf profile.layout)
      profile.segmentSize.toNat).history calls).log = true) :
    ((Hasher.start (ReedSolomon.codecOf profile.layout)
      profile.segmentSize.toNat).history calls).hasher.columns.Level
        (profile.segmentCount content.length) := by
  have hsize := (check_eq_ok_iff.1 hcheck).1
  rw [segmentCount_eq_length_pieces hsize, ← haccepted]
  exact Hasher.level_of_hasFinished hsize hgiven

/-- Chunks of at most a segment come to such a digest. -/
theorem segmentCount_of_feed {chunks : List Bytes} (hflatten : chunks.flatten = content)
    (hchunks : ∀ chunk ∈ chunks, chunk.length ≤ profile.segmentSize.toNat) :
    let fed := (Hasher.start (ReedSolomon.codecOf profile.layout)
      profile.segmentSize.toNat).feed chunks
    (∃ d, fed.outcome = .ok d) ∧
      fed.hasher.segmentCount = profile.segmentCount content.length := by
  intro fed
  have hsize := (check_eq_ok_iff.1 hcheck).1
  obtain ⟨columns, hcollect, -⟩ := exists_collect_pieces hcheck content
  have hfeed : fed.outcome = .ok columns.digest := by
    rw [Hasher.outcome_feed_start hsize hchunks, hflatten, Codec.outcome, hcollect]
    rfl
  obtain ⟨hhasher, hbytes, hgiven⟩ := Hasher.foldl_next_of_feed ⟨[], .start _ _⟩ hfeed
  have haccepted := hbytes.trans hflatten
  have hlevel := level_of_calls hcheck haccepted hgiven
  rw [Hasher.history, hhasher] at hlevel
  exact ⟨⟨_, hfeed⟩, hlevel.segments⟩

end Hashers

/-- **The announced number of segments is the real one.** Under a profile that
is accepted, and for a content however its bytes are delivered: as many
segments are read as the profile tells from the length, and so many checksums
are in the column of the segments and in that of every shard position, in
order, by any run of the pool, and in a hasher that has given its digest after
any calls. Feeding chunks of at most a segment comes to such a digest. All
segments but the last are full, and the line of a report that is made from the
length alone tells their number. -/
theorem segmentCount_of_every_way (hcheck : profile.check = .ok ()) {content : Bytes}
    (hlength : content.length < Nat.pow 2 64) :
    let size := profile.segmentSize.toNat
    let codec := ReedSolomon.codecOf profile.layout
    let count := profile.segmentCount content.length
    (∀ source, source.Delivers content none →
      (Segmenter.start source size).drain.1.length = count ∧
      (Segmenter.start source size).drain.2 = none ∧
      ∃ columns : Columns, columns.Level count ∧
        (∀ strategy cores, profile.digest strategy source cores = .ok columns.digest) ∧
        (Serial.absorb codec (.empty codec.totalShards) (.start source size)).1 = .ok columns ∧
        (∀ workers steps s, Pool.Run codec (.start source size workers) steps s →
          (∀ action, s.step codec action = none) →
          s.segmenter.segmentsRead = count ∧
            ∃ entries, s.ledger.ordered s.segmenter.segmentsRead = .ok entries ∧
              entries.foldl (fun columns entry => columns.push entry.sums entry.length)
                (.empty codec.totalShards) = columns) ∧
        columns.digest.contentLength.toNat = content.length ∧
        ∀ target strategy,
          (Command.Report.lines ⟨target, profile, strategy, columns.digest⟩)[2]? =
            some s!"  Segments: {count} x {ByteSize.words size}") ∧
    (∃ fresh, profile.hasher = .ok fresh ∧
      (∀ calls, Hasher.accepted (fresh.history calls).log = content →
        Hasher.hasFinished (fresh.history calls).log = true →
        (fresh.history calls).hasher.segmentCount = count ∧
          (fresh.history calls).hasher.columns.Level count) ∧
      ∀ chunks : List Bytes, chunks.flatten = content → (∀ chunk ∈ chunks, chunk.length ≤ size) →
        (∃ d, (fresh.feed chunks).outcome = .ok d) ∧
          (fresh.feed chunks).hasher.segmentCount = count) ∧
    (content.length = 0 → count = 0) ∧
    (content.length ≠ 0 →
      (count - 1) * size + 1 ≤ content.length ∧ content.length ≤ count * size) := by
  intro size codec count
  obtain ⟨hsize, hlayout⟩ := check_eq_ok_iff.1 hcheck
  have hcount : count = (content.pieces size).length := segmentCount_eq_length_pieces hsize content
  refine ⟨fun source hdelivers => ?_, ?_, fun hzero => ?_, segmentCount_bounds hsize⟩
  · obtain ⟨hbytes, hfailure⟩ :=
      Segmenter.drain_of_delivers (s := .start source size) hdelivers hsize rfl
    obtain ⟨columns, hlevel, hcontent, hdigest, habsorb, hruns⟩ := exists_columns hcheck hdelivers
    have hwhole : columns.digest.contentLength.toNat = content.length := by
      rw [Columns.digest, hcontent, UInt64.toNat_ofNat']
      exact Nat.mod_eq_of_lt hlength
    refine ⟨?_, hfailure, columns, hlevel, hdigest, habsorb, hruns, hwhole,
      fun target strategy => ?_⟩
    · rw [hcount, ← List.length_map (·.bytes), hbytes]
      rfl
    · rw [Command.Report.lines, hwhole]
      rfl
  · refine ⟨_, hasher_of_check hcheck, fun calls haccepted hgiven => ?_,
      fun chunks hflatten hchunks => segmentCount_of_feed hcheck hflatten hchunks⟩
    have hlevel := level_of_calls hcheck haccepted hgiven
    exact ⟨hlevel.segments, hlevel⟩
  · rw [show count = profile.segmentCount content.length from rfl, hzero]
    exact segmentCount_zero hsize

/-- Four bytes in segments of two: two segments, none of them short, over reads
across the boundary, in chunks with an empty one among them, and in every
column of a digest. -/
theorem segmentCount_of_two_full_segments :
    (⟨2, ⟨2, 1⟩⟩ : Profile).check = .ok () ∧ ([1, 2, 3, 4] : Bytes).length < Nat.pow 2 64 ∧
    (Segmenter.start [.data [1], .interrupted, .data [2, 3, 4], .pause] 2).drain.1.length = 2 ∧
    (∃ columns : Columns, columns.Level 2 ∧
      (⟨2, ⟨2, 1⟩⟩ : Profile).digest .parallel
        [.data [1], .interrupted, .data [2, 3, 4], .pause] = .ok columns.digest ∧
      (Command.Report.lines ⟨"-", ⟨2, ⟨2, 1⟩⟩, .parallel, columns.digest⟩)[2]? =
        some "  Segments: 2 x 2 B") ∧
    ∃ fresh, (⟨2, ⟨2, 1⟩⟩ : Profile).hasher = .ok fresh ∧
      (fresh.feed [[1], [], [2, 3], [4]]).hasher.segmentCount = 2 := by
  have hlength : ([1, 2, 3, 4] : Bytes).length < Nat.pow 2 64 := by decide
  have hdelivers : Source.Delivers [.data [1], .interrupted, .data [2, 3, 4], .pause]
      [1, 2, 3, 4] none :=
    .data [1] (.interrupted (.data [2, 3, 4] (.paused .ended)))
  obtain ⟨hsources, ⟨fresh, hfresh, -, hchunks⟩, -⟩ :=
    @segmentCount_of_every_way ⟨2, ⟨2, 1⟩⟩ rfl [1, 2, 3, 4] hlength
  obtain ⟨hread, -, columns, hlevel, hdigest, -, -, -, hline⟩ := hsources _ hdelivers
  exact ⟨rfl, hlength, hread, ⟨columns, hlevel, hdigest .parallel _, hline "-" .parallel⟩, fresh,
    hfresh, (hchunks [[1], [], [2, 3], [4]] rfl (by decide)).2⟩

end Profile

end ErasureDigest

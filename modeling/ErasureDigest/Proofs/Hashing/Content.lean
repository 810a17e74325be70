import ErasureDigest.Proofs.Coding.Library
import ErasureDigest.Proofs.Hashing.Feed
import ErasureDigest.Proofs.Hashing.Spending

/-!
# Every way to the digest of a content

Under a profile that is accepted all ways of hashing come to one digest
(`Profile.Gives`), and nothing can fail but a read
(`Profile.FailsOnlyOnReading`): no segment is empty, and the codec of a
valid layout accepts every other. A hasher takes no chunk longer than a
segment. A profile that is not accepted is refused by all of them alike
(`Profile.Refuses`), with nothing read. `digest_of_profile` says all of this,
whatever library of matrix codes the codec is built on.
-/

namespace ErasureDigest

/-! ## Segments have bytes -/

/-- No piece is empty. -/
theorem Bytes.ne_nil_of_mem_pieces {size : Nat} (hsize : 0 < size) {bytes piece : Bytes}
    (h : piece ∈ pieces size bytes) : piece ≠ [] := by
  fun_induction pieces size bytes with
  | case1 bytes hempty => simp at h
  | case2 bytes hempty => omega
  | case3 bytes hempty hzero ih =>
    rcases List.mem_cons.1 h with rfl | h
    · intro hnil
      rcases List.take_eq_nil_iff.1 hnil with hzero' | hnil
      · exact hzero hzero'
      · simp [hnil] at hempty
    · exact ih h

/-- No segment of a source is empty. -/
theorem Segmenter.ne_nil_of_mem_drain {s : Segmenter} {segment : Segment}
    (h : segment ∈ s.drain.1) : segment.bytes ≠ [] := by
  fun_induction drain s with
  | case1 s first s' hnext segments failure hdrain ih =>
    rcases List.mem_cons.1 h with rfl | h
    · rcases s.next_cases with ⟨hend, -⟩ | ⟨fault, hfault, -⟩ | ⟨bytes, hne, hsegment, -⟩
      · simp [hnext] at hend
      · simp [hnext] at hfault
      · obtain rfl : segment = ⟨s.segmentsRead, bytes⟩ := by simpa [hnext] using hsegment
        exact hne
    · exact ih (by rw [hdrain]; exact h)
  | case2 s error s' hnext => simp at h
  | case3 s s' hnext => simp at h

/-! ## Without a rejected segment -/

namespace Pool

variable {codec : Codec} {size workers : Nat} {source : Source}
variable {steps : List (State × Action)} {s : State}

/-- Where no segment is rejected, nothing is reported. -/
theorem slot_of_accepts (hrun : Run codec (.start source size workers) steps s)
    (haccepts : ∀ segment ∈ (Segmenter.start source size).drain.1, codec.Accepts segment.bytes) :
    s.slot = none := by
  cases hslot : s.slot with
  | none => rfl
  | some error =>
    obtain ⟨segment, hsegment, hsums⟩ := (sound_of_run hrun).genuine.slot error hslot
    obtain ⟨sums, hok⟩ := haccepts segment hsegment
    simp [hok] at hsums

/-- **Where no segment is rejected, every run gives what the segments come
to.** -/
theorem result_of_accepts (hrun : Run codec (.start source size workers) steps s)
    (hfinal : s.isFinal = true)
    (haccepts : ∀ segment ∈ (Segmenter.start source size).drain.1, codec.Accepts segment.bytes) :
    s.result codec = codec.outcome ((Segmenter.start source size).drain.1.map (·.bytes))
      (Segmenter.start source size).drain.2 :=
  result_eq_outcome (sound_of_run hrun) hfinal (slot_of_accepts hrun haccepts)

end Pool

namespace Hasher

variable {h : Hasher} {chunk : Bytes} {chunks before after : List Bytes}
variable {codec : Codec} {size : Nat}

/-- A new hasher gives what the pieces of all chunks together come to. -/
theorem outcome_feed_start (hsize : 0 < size) (hchunks : ∀ chunk ∈ chunks, chunk.length ≤ size) :
    ((start codec size).feed chunks).outcome =
      codec.outcome (Bytes.pieces size chunks.flatten) none := by
  rw [outcome_feed (h := start codec size) rfl hsize hchunks, Codec.outcome]
  simp only [start, List.nil_append]
  cases (Columns.empty codec.totalShards).collect codec (Bytes.pieces size chunks.flatten) <;> rfl

/-- **A chunk longer than a segment is refused as such** where no segment
is rejected before. -/
theorem outcome_feed_of_long (hfinished : h.finished = false)
    (hbuffer : h.buffer.length < h.segmentSize)
    (haccepts : ∀ segment, segment ≠ [] → h.codec.Accepts segment)
    (hbefore : ∀ other ∈ before, other.length ≤ h.segmentSize)
    (hlong : h.segmentSize < chunk.length) :
    (h.feed (before ++ chunk :: after)).outcome =
      .error (.inputTooLarge chunk.length h.segmentSize) := by
  induction before generalizing h with
  | nil =>
    rw [List.nil_append, feed_of_error after (append_of_long hfinished hlong)]
  | cons first rest ih =>
    have hfirst := hbefore first List.mem_cons_self
    have hrest := fun other hother => hbefore other (List.mem_cons_of_mem first hother)
    rw [List.cons_append]
    rcases Nat.lt_or_ge (h.buffer.length + first.length) h.segmentSize with hshort | hfull
    · rw [feed_of_ok _ (append_of_short hfinished hfirst hbuffer hshort)]
      exact ih (h := { h with buffer := h.buffer ++ first }) hfinished (by simpa using hshort)
        haccepts hrest hlong
    · have hne : h.completed first ≠ [] := by
        rw [← List.length_pos_iff, length_completed hbuffer hfull]
        omega
      obtain ⟨sums, hs⟩ := haccepts _ hne
      rw [feed_of_ok _ (append_of_accepted hfinished hfirst hbuffer hfull hs)]
      exact ih (h := { h with
        columns := h.columns.push sums (h.completed first).length
        buffer := h.excess first }) hfinished (length_excess_lt hbuffer hfirst) haccepts hrest hlong

end Hasher

/-- A file that can be read can be opened, and then delivers its content. -/
theorem FileSystem.openSource_of_read {fs : FileSystem} {path : String} {content : Bytes}
    (h : fs.read path = .ok content) : fs.openSource path = .ok (.ofBytes content) := by
  unfold FileSystem.read at h
  unfold FileSystem.openSource
  cases hlookup : fs.lookup path with
  | error fault => simp [hlookup] at h
  | ok node =>
    cases node with
    | file bytes =>
      obtain rfl : bytes = content := by simpa [hlookup] using h
      rfl
    | directory number => simp [hlookup] at h

namespace Profile

variable {profile : Profile} {strategy : Strategy} {source : Source} {content : Bytes}
variable {error : Error} {cores : Nat}

/-! ## Accepted and refused profiles -/

/-- **What is accepted**: a segment size and a layout to compute with. -/
theorem check_eq_ok_iff : profile.check = .ok () ↔
    0 < profile.segmentSize.toNat ∧ profile.layout.Valid := by
  rw [check, checkSegmentSize]
  by_cases hsize : profile.segmentSize.toNat = 0
  · simp [hsize, bind, Except.bind]
  · rw [if_neg hsize]
    have hpos : 0 < profile.segmentSize.toNat := by omega
    simp only [bind, Except.bind, Layout.check_eq_ok_iff, hpos, true_and]

/-- What is refused is refused for a setting. -/
theorem exists_fault_of_check (h : profile.check = .error error) :
    ∃ fault, error = .configuration fault := by
  unfold check checkSegmentSize Layout.check at h
  by_cases hsize : profile.segmentSize.toNat = 0
  · rw [if_pos hsize] at h
    exact ⟨_, (Except.error.inj h).symm⟩
  · simp only [if_neg hsize, bind, Except.bind] at h
    split at h
    · exact ⟨_, (Except.error.inj h).symm⟩
    · split at h
      · exact ⟨_, (Except.error.inj h).symm⟩
      · simp at h

/-- An accepted profile has the codec of its layout. -/
theorem codec_of_check (h : profile.check = .ok ()) :
    profile.codec = .ok (ReedSolomon.codecOf profile.layout) := by
  rw [codec, h]
  exact ReedSolomon.codec_of_valid (check_eq_ok_iff.1 h).2

section Accepted

variable (hcheck : profile.check = .ok ())
include hcheck

/-- No segment of a source is rejected. -/
theorem accepts_drain (source : Source) :
    ∀ segment ∈ (Segmenter.start source profile.segmentSize.toNat).drain.1,
      (ReedSolomon.codecOf profile.layout).Accepts segment.bytes := fun _ hsegment =>
  ReedSolomon.accepts_codecOf (check_eq_ok_iff.1 hcheck).2
    (Segmenter.ne_nil_of_mem_drain hsegment)

/-- **Either strategy gives what the segments of the source come to**, on any
number of cores. -/
theorem digest_eq_outcome (strategy : Strategy) (source : Source) (cores : Nat) :
    profile.digest strategy source cores = (ReedSolomon.codecOf profile.layout).outcome
      ((Segmenter.start source profile.segmentSize.toNat).drain.1.map (·.bytes))
      (Segmenter.start source profile.segmentSize.toNat).drain.2 := by
  have hsize := (check_eq_ok_iff.1 hcheck).1
  cases strategy with
  | serial =>
    rw [digest, spend, spendSerial, spendWith_of_ok (codec_of_check hcheck)]
    exact Serial.digest_eq_outcome hsize
  | parallel =>
    obtain ⟨steps, s, hrun, hfinal, hdigest⟩ := Pool.exists_run_of_digest
      (ReedSolomon.codecOf profile.layout) hsize (Pool.workersFor cores) source
    rw [digest, spend, spendParallel, spendWith_of_ok (codec_of_check hcheck)]
    exact hdigest.trans (Pool.result_of_accepts hrun hfinal (accepts_drain hcheck source))

/-- A failure of such an outcome is one of reading. -/
theorem exists_fault_of_outcome
    (h : (ReedSolomon.codecOf profile.layout).outcome
      ((Segmenter.start source profile.segmentSize.toNat).drain.1.map (·.bytes))
      (Segmenter.start source profile.segmentSize.toNat).drain.2 = .error error) :
    ∃ fault, error = .sourceRead fault := by
  have haccepts : ∀ segment ∈
      (Segmenter.start source profile.segmentSize.toNat).drain.1.map (·.bytes),
      (ReedSolomon.codecOf profile.layout).Accepts segment := by
    simpa using accepts_drain hcheck source
  cases hfailure : (Segmenter.start source profile.segmentSize.toNat).drain.2 with
  | none =>
    obtain ⟨d, hd, -⟩ := Codec.exists_outcome_eq_ok haccepts
    simp [hfailure, hd] at h
  | some other =>
    rw [hfailure, Codec.outcome_of_failure haccepts] at h
    obtain rfl := Except.error.inj h
    exact Segmenter.exists_fault_of_drain hfailure

/-- The hasher of an accepted profile is a new one. -/
theorem hasher_of_check : profile.hasher =
    .ok (.start (ReedSolomon.codecOf profile.layout) profile.segmentSize.toNat) := by
  rw [hasher, codec_of_check hcheck]
  exact Hasher.new_eq_ok (check_eq_ok_iff.1 hcheck).1

end Accepted

/-! ## One digest -/

/-- **All ways to hash a content under a profile give this digest.** -/
structure Gives (profile : Profile) (content : Bytes) (d : Digest) : Prop where
  /-- From any source that delivers the content, by either strategy, on any
  number of cores. -/
  source : ∀ (strategy : Strategy) (source : Source) (cores : Nat),
    source.Delivers content none → profile.digest strategy source cores = .ok d
  serial : ∀ source : Source, source.Delivers content none → profile.digestSerial source = .ok d
  parallel : ∀ (source : Source) (cores : Nat), source.Delivers content none →
    profile.digestParallel source cores = .ok d
  /-- By any number of workers, in whatever order reader and workers act. -/
  schedule : ∀ (source : Source) (workers : Nat) (steps : List (Pool.State × Pool.Action))
    (s : Pool.State), source.Delivers content none →
    Pool.Run (ReedSolomon.codecOf profile.layout)
      (.start source profile.segmentSize.toNat workers) steps s →
    (∀ action, s.step (ReedSolomon.codecOf profile.layout) action = none) →
    s.result (ReedSolomon.codecOf profile.layout) = .ok d
  bytes : ∀ cores : Nat, profile.digestBytes content cores = .ok d
  /-- From a file that holds the content. -/
  file : ∀ (strategy : Strategy) (fs : FileSystem) (path : String) (cores : Nat),
    fs.read path = .ok content → profile.digestFile strategy fs path cores = .ok d
  /-- By a hasher, however the content is cut into chunks it takes. -/
  chunks : ∃ h, profile.hasher = .ok h ∧ ∀ chunks : List Bytes, chunks.flatten = content →
    (∀ chunk ∈ chunks, chunk.length ≤ profile.segmentSize.toNat) →
    (h.feed chunks).outcome = .ok d

theorem Gives.unique {d d' : Digest} (h : profile.Gives content d)
    (h' : profile.Gives content d') : d = d' :=
  Except.ok.inj ((h.bytes 0).symm.trans (h'.bytes 0))

/-- **Nothing fails but a read.** A hasher does not read; it takes all but
chunks that are longer than a segment. -/
structure FailsOnlyOnReading (profile : Profile) : Prop where
  source : ∀ (strategy : Strategy) (source : Source) (cores : Nat) (error : Error),
    profile.digest strategy source cores = .error error → ∃ fault, error = .sourceRead fault
  schedule : ∀ (source : Source) (workers : Nat) (steps : List (Pool.State × Pool.Action))
    (s : Pool.State), Pool.Run (ReedSolomon.codecOf profile.layout)
      (.start source profile.segmentSize.toNat workers) steps s →
    (∀ action, s.step (ReedSolomon.codecOf profile.layout) action = none) →
    ∀ error, s.result (ReedSolomon.codecOf profile.layout) = .error error →
      ∃ fault, error = .sourceRead fault
  file : ∀ (strategy : Strategy) (fs : FileSystem) (path : String) (source : Source)
    (cores : Nat) (error : Error), fs.openSource path = .ok source →
    profile.digestFile strategy fs path cores = .error error → ∃ fault, error = .sourceRead fault
  chunks : ∃ h, profile.hasher = .ok h ∧ ∀ (before after : List Bytes) (chunk : Bytes),
    (∀ other ∈ before, other.length ≤ profile.segmentSize.toNat) →
    profile.segmentSize.toNat < chunk.length →
    (h.feed (before ++ chunk :: after)).outcome =
      .error (.inputTooLarge chunk.length profile.segmentSize.toNat)

/-- **All ways refuse the profile with this error**, the source left as it
was. -/
structure Refuses (profile : Profile) (error : Error) : Prop where
  source : ∀ (strategy : Strategy) (source : Source) (cores : Nat),
    profile.spend strategy source cores = ⟨.error error, source⟩
  serial : ∀ source : Source, profile.digestSerial source = .error error
  parallel : ∀ (source : Source) (cores : Nat),
    profile.digestParallel source cores = .error error
  bytes : ∀ (content : Bytes) (cores : Nat), profile.digestBytes content cores = .error error
  /-- Whatever it was that could be opened. -/
  file : ∀ (strategy : Strategy) (fs : FileSystem) (path : String) (source : Source)
    (cores : Nat), fs.openSource path = .ok source →
    profile.digestFile strategy fs path cores = .error error
  hasher : profile.hasher = .error error

/-- An accepted profile gives every content a digest, with a root over the
segments and one per shard. -/
theorem exists_gives (hcheck : profile.check = .ok ()) (content : Bytes) :
    ∃ d, profile.Gives content d ∧ d.roots.length = profile.totalShards + 1 ∧
      d.contentLength = UInt64.ofNat content.length ∧ d.redundancy = .erasureCoded := by
  obtain ⟨hsize, hlayout⟩ := check_eq_ok_iff.1 hcheck
  have haccepts : ∀ piece ∈ content.pieces profile.segmentSize.toNat,
      (ReedSolomon.codecOf profile.layout).Accepts piece := fun _ hpiece =>
    ReedSolomon.accepts_codecOf hlayout (Bytes.ne_nil_of_mem_pieces hsize hpiece)
  obtain ⟨d, hd, hlength, hredundancy, hroots, -⟩ := Codec.exists_outcome_eq_ok haccepts
  rw [Bytes.flatten_pieces] at hlength
  -- the segments of a source that delivers the content are its pieces
  have hdrain : ∀ source : Source, source.Delivers content none →
      (ReedSolomon.codecOf profile.layout).outcome
        ((Segmenter.start source profile.segmentSize.toNat).drain.1.map (·.bytes))
        (Segmenter.start source profile.segmentSize.toNat).drain.2 = .ok d := by
    intro source hdelivers
    obtain ⟨hbytes, hfailure⟩ := Segmenter.drain_of_delivers
      (s := .start source profile.segmentSize.toNat) hdelivers hsize rfl
    rw [hbytes, hfailure]
    exact hd
  have hsource : ∀ (strategy : Strategy) (source : Source) (cores : Nat),
      source.Delivers content none → profile.digest strategy source cores = .ok d := by
    intro strategy source cores hdelivers
    rw [digest_eq_outcome hcheck, hdrain source hdelivers]
  -- the number of cores is of no concern to hashing in order
  refine ⟨d, ⟨hsource, fun source => hsource .serial source 0, hsource .parallel, ?_, ?_, ?_, ?_⟩,
    hroots, hlength, hredundancy⟩
  · intro source workers steps s hdelivers hrun hstuck
    rw [Pool.result_of_accepts hrun ((Pool.isFinal_iff _).2 hstuck) (accepts_drain hcheck source)]
    exact hdrain source hdelivers
  · exact fun cores => hsource .parallel _ cores (Source.delivers_ofBytes content)
  · intro strategy fs path cores hread
    rw [digestFile, FileSystem.openSource_of_read hread]
    exact hsource strategy _ cores (Source.delivers_ofBytes content)
  · refine ⟨_, hasher_of_check hcheck, fun chunks hflatten hchunks => ?_⟩
    rw [Hasher.outcome_feed_start hsize hchunks, hflatten, hd]

/-- And nothing but reading a source can fail. -/
theorem failsOnlyOnReading (hcheck : profile.check = .ok ()) : profile.FailsOnlyOnReading := by
  obtain ⟨hsize, hlayout⟩ := check_eq_ok_iff.1 hcheck
  have hsource : ∀ (strategy : Strategy) (source : Source) (cores : Nat) (error : Error),
      profile.digest strategy source cores = .error error →
        ∃ fault, error = .sourceRead fault := by
    intro strategy source cores error herror
    rw [digest_eq_outcome hcheck] at herror
    exact exists_fault_of_outcome hcheck herror
  refine ⟨hsource, ?_, ?_, ?_⟩
  · intro source workers steps s hrun hstuck error herror
    rw [Pool.result_of_accepts hrun ((Pool.isFinal_iff _).2 hstuck)
      (accepts_drain hcheck source)] at herror
    exact exists_fault_of_outcome hcheck herror
  · intro strategy fs path source cores error hopen herror
    rw [digestFile, hopen] at herror
    exact hsource strategy source cores error herror
  · refine ⟨_, hasher_of_check hcheck, fun before after chunk hbefore hlong => ?_⟩
    exact Hasher.outcome_feed_of_long rfl hsize
      (fun segment hsegment => ReedSolomon.accepts_codecOf hlayout hsegment) hbefore hlong

/-- What is not accepted is refused everywhere. -/
theorem refuses_of_check (h : profile.check = .error error) : profile.Refuses error := by
  have hspent := spend_of_check h
  have hdigest : ∀ (strategy : Strategy) (source : Source) (cores : Nat),
      profile.digest strategy source cores = .error error := by
    intro strategy source cores
    rw [digest, hspent]
  refine ⟨hspent, fun source => hdigest .serial source 0, hdigest .parallel,
    fun content => hdigest .parallel _, ?_, ?_⟩
  · intro strategy fs path source cores hopen
    rw [digestFile, hopen]
    exact hdigest strategy source cores
  · rw [hasher, codec_of_check_error h]
    rfl

/-- **A profile is refused at once, or only a read can fail.** Whatever
library of matrix codes the codec is built on, as long as it keeps to what
it documents: an accepted profile gets its codec, without parity shards as
with them, and every content has one digest, a root over the segments and
one per shard, which all ways to hash the content give, on any number of
cores; nothing fails but a read, and for a hasher a chunk longer than a
segment. Another is refused for a setting, by all of them with the same
error, and nothing is taken from the source, while a digest takes all that
the source delivers. -/
theorem digest_of_profile {lib : ReedSolomon.Library} (hlib : lib.Documented) (profile : Profile) :
    (profile.check = .ok () →
      lib.codec? profile.layout = some (.ok (ReedSolomon.codecOf profile.layout)) ∧
      (∀ content, ∃ d, profile.Gives content d ∧ d.roots.length = profile.totalShards + 1 ∧
        d.contentLength = UInt64.ofNat content.length ∧ d.redundancy = .erasureCoded) ∧
      profile.FailsOnlyOnReading) ∧
    (∀ error, profile.check = .error error →
      (∃ fault, error = .configuration fault) ∧ profile.Refuses error) ∧
    ∀ strategy source cores,
      (profile.spend strategy source cores).outcome = profile.digest strategy source cores ∧
      ∀ content d, source.Delivers content none → profile.digest strategy source cores = .ok d →
        (profile.spend strategy source cores).rest.Delivers [] none := by
  refine ⟨fun hcheck => ⟨?_, exists_gives hcheck, failsOnlyOnReading hcheck⟩, ?_, ?_⟩
  · have hlayout : profile.layout.check = .ok () :=
      Layout.check_eq_ok_iff.2 (check_eq_ok_iff.1 hcheck).2
    rw [ReedSolomon.Library.codec?_eq hlib, ReedSolomon.codec, hlayout]
    rfl
  · intro error herror
    exact ⟨exists_fault_of_check herror, refuses_of_check herror⟩
  · intro strategy source cores
    exact ⟨rfl, fun content d => delivers_rest_spend⟩

/-- Without parity shards as with them, a byte string and a source in
pieces have one digest; without data shards a source that would fail is
left alone. -/
theorem digest_of_small_profiles :
    ReedSolomon.Library.interpolating.Documented ∧
    (∃ d, (⟨2, ⟨3, 0⟩⟩ : Profile).digest .serial [.data [1], .interrupted, .data [2, 3]] = .ok d ∧
      (⟨2, ⟨3, 0⟩⟩ : Profile).digestBytes [1, 2, 3] = .ok d ∧ d.roots.length = 4) ∧
    (∃ d, (⟨2, ⟨2, 1⟩⟩ : Profile).digest .parallel [.data [1, 2], .data [3]] 8 = .ok d ∧
      (⟨2, ⟨2, 1⟩⟩ : Profile).digestBytes [1, 2, 3] = .ok d ∧ d.roots.length = 4) ∧
    (⟨2, ⟨0, 1⟩⟩ : Profile).spend .parallel (.failing .notText) 8 =
      ⟨.error (.configuration .zeroDataShards), .failing .notText⟩ := by
  have hlib := ReedSolomon.Library.documented_interpolating
  refine ⟨hlib, ?_, ?_, ?_⟩
  · obtain ⟨-, hgives, -⟩ := (digest_of_profile hlib ⟨2, ⟨3, 0⟩⟩).1 rfl
    obtain ⟨d, hd, hroots, -⟩ := hgives [1, 2, 3]
    have hdelivers : Source.Delivers [.data [1], .interrupted, .data [2, 3]] [1, 2, 3] none :=
      .data [1] (.interrupted (.data [2, 3] .ended))
    exact ⟨d, hd.source .serial _ _ hdelivers, hd.bytes _, hroots⟩
  · obtain ⟨-, hgives, -⟩ := (digest_of_profile hlib ⟨2, ⟨2, 1⟩⟩).1 rfl
    obtain ⟨d, hd, hroots, -⟩ := hgives [1, 2, 3]
    have hdelivers : Source.Delivers [.data [1, 2], .data [3]] [1, 2, 3] none :=
      .data [1, 2] (.data [3] .ended)
    exact ⟨d, hd.source .parallel _ _ hdelivers, hd.bytes _, hroots⟩
  · obtain ⟨-, hrefuses⟩ := (digest_of_profile hlib ⟨2, ⟨0, 1⟩⟩).2.1 _ rfl
    exact hrefuses.source .parallel _ 8

/-- **A hasher does not take every cut of a content.** Two bytes in
segments of one have a digest, but as a single chunk they are longer than a
segment, and refused. -/
theorem outcome_of_two_segments_at_once :
    (⟨1, ⟨1, 0⟩⟩ : Profile).check = .ok () ∧
    (∃ d, (⟨1, ⟨1, 0⟩⟩ : Profile).digestBytes [1, 2] = .ok d) ∧
    ∃ h, (⟨1, ⟨1, 0⟩⟩ : Profile).hasher = .ok h ∧ [[1, 2]].flatten = [1, 2] ∧
      (h.feed [[1, 2]]).outcome = .error (.inputTooLarge 2 1) := by
  have hcheck : (⟨1, ⟨1, 0⟩⟩ : Profile).check = .ok () := rfl
  obtain ⟨d, hd, -⟩ := exists_gives hcheck [1, 2]
  exact ⟨hcheck, ⟨d, hd.bytes _⟩, _, hasher_of_check hcheck, rfl, rfl⟩

end Profile

end ErasureDigest

import ErasureDigest.Digest.Columns

/-!
# Columns of a list of segments

`Columns.collect` adds segments to columns one after the other and stops
at the first that is rejected. It gives columns exactly when every
segment is accepted (`exists_collect_eq_ok`), else the error of the first
rejected one (`collect_of_rejected`, `exists_rejected_of_collect`).
Rows become columns on the way: the segments' column holds the checksums
of the segments, and the column of a shard position those of the shards
there (`segments_of_collect`, `shards_of_collect`).

`Codec.outcome` is what a computation over segments and a failure comes
to; every way of hashing is measured against it.
-/

namespace ErasureDigest

namespace Codec

variable {codec : Codec} {segment : Bytes} {sums : SegmentSums}

/-- Whether a segment gets checksums. -/
def Accepts (codec : Codec) (segment : Bytes) : Prop :=
  ∃ sums, codec.sums segment = .ok sums

/-- Whether a codec rejects segments with errors of encoding only. -/
def OnlyEncodeFaults (codec : Codec) : Prop :=
  ∀ segment error, codec.encode segment = .error error → ∃ fault, error = .encode fault

/-- The bytes of the shard of a segment at a position. -/
def shard? (codec : Codec) (position : Nat) (segment : Bytes) : Option Bytes :=
  match codec.encode segment with
  | .ok shards => shards[position]?.map (·.bytes)
  | .error _ => none

/-- A wrong number of shards is an error of encoding too. -/
theorem OnlyEncodeFaults.exists_fault_of_sums (hcodec : codec.OnlyEncodeFaults) {error : Error}
    (h : codec.sums segment = .error error) : ∃ fault, error = .encode fault := by
  cases hencode : codec.encode segment with
  | error other =>
    simp only [Codec.sums, hencode, bind, Except.bind, Except.error.injEq] at h
    exact h ▸ hcodec segment other hencode
  | ok shards =>
    simp only [Codec.sums, hencode, bind, Except.bind] at h
    split at h
    · simp [pure, Except.pure] at h
    · exact ⟨_, (Except.error.inj h).symm⟩

/-- A codec that copies never fails. -/
theorem onlyEncodeFaults_copying (announced produced : Nat) :
    (copying announced produced).OnlyEncodeFaults := by
  intro segment error h
  simp [copying] at h

/-- And one that refuses some segments says so as encoders do. -/
theorem OnlyEncodeFaults.refusing (hcodec : codec.OnlyEncodeFaults) (refuses : Bytes → Bool)
    (reason : String) : (codec.refusing refuses reason).OnlyEncodeFaults := by
  intro segment error h
  simp only [Codec.refusing] at h
  split at h
  · exact ⟨_, (Except.error.inj h).symm⟩
  · exact hcodec segment error h

/-- Refused segments are rejected with the reason, and the others are left
to the codec. -/
theorem sums_refusing (codec : Codec) (refuses : Bytes → Bool) (reason : String)
    (segment : Bytes) : (codec.refusing refuses reason).sums segment =
      if refuses segment then .error (.encode (.refused reason)) else codec.sums segment := by
  cases hrefuses : refuses segment with
  | true => simp [sums, Codec.refusing, hrefuses, bind, Except.bind]
  | false =>
    simp only [sums, Codec.refusing, hrefuses]
    rfl

/-- What checksums stand for: as many shards as announced, each under its
position. -/
theorem exists_encode_of_sums (h : codec.sums segment = .ok sums) :
    ∃ shards, codec.encode segment = .ok shards ∧ shards.length = codec.totalShards ∧
      sums = ⟨Checksum.ofContent segment,
        shards.map fun shard => Checksum.ofContent shard.bytes⟩ := by
  cases hencode : codec.encode segment with
  | error error => simp [Codec.sums, hencode, bind, Except.bind] at h
  | ok shards =>
    by_cases hlength : shards.length = codec.totalShards
    · simp only [Codec.sums, hencode, bind, Except.bind, if_pos hlength, pure, Except.pure,
        Except.ok.injEq] at h
      exact ⟨shards, rfl, hlength, h.symm⟩
    · simp [Codec.sums, hencode, bind, Except.bind, hlength] at h

/-- The checksum of an accepted segment is that of its bytes. -/
theorem segment_of_sums (h : codec.sums segment = .ok sums) :
    sums.segment = Checksum.ofContent segment := by
  obtain ⟨shards, -, -, rfl⟩ := exists_encode_of_sums h
  rfl

/-- And there is one checksum per announced shard. -/
theorem length_shards_of_sums (h : codec.sums segment = .ok sums) :
    sums.shards.length = codec.totalShards := by
  obtain ⟨shards, -, hlength, rfl⟩ := exists_encode_of_sums h
  simpa using hlength

/-- Each being that of the shard at its position. -/
theorem shards_of_sums (h : codec.sums segment = .ok sums) (position : Nat) :
    sums.shards[position]? = (codec.shard? position segment).map Checksum.ofContent := by
  obtain ⟨shards, hencode, -, rfl⟩ := exists_encode_of_sums h
  simp [shard?, hencode, Option.map_map, Function.comp_def]

end Codec

namespace Columns

/-- Adds segments to the columns in order, up to the first that is
rejected. -/
def collect (codec : Codec) (columns : Columns) : List Bytes → Except Error Columns
  | [] => .ok columns
  | segment :: rest =>
    match codec.sums segment with
    | .error error => .error error
    | .ok sums => collect codec (columns.push sums segment.length) rest

variable {codec : Codec} {columns columns' : Columns} {segments before after : List Bytes}
variable {segment : Bytes} {sums : SegmentSums} {error : Error}

@[simp] theorem collect_nil : columns.collect codec [] = .ok columns := rfl

/-- Adding starts with an accepted segment, or there is none. -/
theorem collect_cons_eq_ok : columns.collect codec (segment :: after) = .ok columns' ↔
    ∃ sums, codec.sums segment = .ok sums ∧
      (columns.push sums segment.length).collect codec after = .ok columns' := by
  rw [collect]
  cases hs : codec.sums segment with
  | error error => simp
  | ok sums => simp

/-! ## Accepted and rejected segments -/

/-- Segments in front are added first. -/
theorem collect_append (h : columns.collect codec before = .ok columns') :
    columns.collect codec (before ++ after) = columns'.collect codec after := by
  induction before generalizing columns with
  | nil =>
    obtain rfl : columns = columns' := by simpa using h
    rfl
  | cons segment rest ih =>
    obtain ⟨sums, hs, h⟩ := collect_cons_eq_ok.1 h
    simp only [List.cons_append, collect, hs]
    exact ih h

/-- One accepted segment more. -/
theorem collect_concat (h : columns.collect codec before = .ok columns')
    (hs : codec.sums segment = .ok sums) :
    columns.collect codec (before ++ [segment]) = .ok (columns'.push sums segment.length) := by
  rw [collect_append h, collect, hs]
  rfl

/-- **Accepted segments are all added.** -/
theorem exists_collect_eq_ok (columns : Columns)
    (h : ∀ segment ∈ segments, codec.Accepts segment) :
    ∃ columns', columns.collect codec segments = .ok columns' := by
  induction segments generalizing columns with
  | nil => exact ⟨columns, rfl⟩
  | cons segment rest ih =>
    obtain ⟨sums, hs⟩ := h segment List.mem_cons_self
    simp only [collect, hs]
    exact ih _ fun other hother => h other (List.mem_cons_of_mem _ hother)

/-- And only accepted ones. -/
theorem accepts_of_collect (h : columns.collect codec segments = .ok columns') :
    ∀ segment ∈ segments, codec.Accepts segment := by
  induction segments generalizing columns with
  | nil => simp
  | cons segment rest ih =>
    obtain ⟨sums, hs, h⟩ := collect_cons_eq_ok.1 h
    intro other hother
    rcases List.mem_cons.1 hother with rfl | hother
    · exact ⟨sums, hs⟩
    · exact ih h other hother

/-- **The first rejected segment gives the error.** -/
theorem collect_of_rejected (hbefore : ∀ segment ∈ before, codec.Accepts segment)
    (hs : codec.sums segment = .error error) :
    columns.collect codec (before ++ segment :: after) = .error error := by
  obtain ⟨columns', h⟩ := exists_collect_eq_ok columns hbefore
  rw [collect_append h, collect, hs]

/-- And an error comes from a rejected segment behind accepted ones. -/
theorem exists_rejected_of_collect (h : columns.collect codec segments = .error error) :
    ∃ before segment after, segments = before ++ segment :: after ∧
      (∀ other ∈ before, codec.Accepts other) ∧ codec.sums segment = .error error := by
  induction segments generalizing columns with
  | nil => simp [collect] at h
  | cons segment rest ih =>
    cases hs : codec.sums segment with
    | error other =>
      obtain rfl : other = error := by simpa [collect, hs] using h
      exact ⟨[], segment, rest, rfl, by simp, hs⟩
    | ok sums =>
      simp only [collect, hs] at h
      obtain ⟨before, bad, after, rfl, hbefore, hbad⟩ := ih h
      refine ⟨segment :: before, bad, after, rfl, fun other hother => ?_, hbad⟩
      rcases List.mem_cons.1 hother with rfl | hother
      · exact ⟨sums, hs⟩
      · exact hbefore other hother

/-! ## Rows into columns -/

/-- The segments' column holds the checksums of the segments. -/
theorem segments_of_collect (h : columns.collect codec segments = .ok columns') :
    columns'.segments.toList =
      columns.segments.toList ++ segments.map Checksum.ofContent := by
  induction segments generalizing columns with
  | nil =>
    obtain rfl : columns = columns' := by simpa using h
    simp
  | cons segment rest ih =>
    obtain ⟨sums, hs, h⟩ := collect_cons_eq_ok.1 h
    rw [ih h, push, Codec.segment_of_sums hs]
    simp

/-- The length is that of the segments together. -/
theorem contentLength_of_collect (h : columns.collect codec segments = .ok columns') :
    columns'.contentLength = columns.contentLength + segments.flatten.length := by
  induction segments generalizing columns with
  | nil =>
    obtain rfl : columns = columns' := by simpa using h
    simp
  | cons segment rest ih =>
    obtain ⟨sums, -, h⟩ := collect_cons_eq_ok.1 h
    rw [ih h, push, List.flatten_cons, List.length_append, Nat.add_assoc]

/-- There stay as many columns as there are. -/
theorem length_shards_push (columns : Columns) (sums : SegmentSums) (length : Nat) :
    (columns.push sums length).shards.length = columns.shards.length :=
  length_pushEach columns.shards sums.shards

theorem length_shards_of_collect (h : columns.collect codec segments = .ok columns') :
    columns'.shards.length = columns.shards.length := by
  induction segments generalizing columns with
  | nil =>
    obtain rfl : columns = columns' := by simpa using h
    rfl
  | cons segment rest ih =>
    obtain ⟨sums, -, h⟩ := collect_cons_eq_ok.1 h
    rw [ih h, length_shards_push]

/-- One segment more puts its shard's checksum at the end of the column of
each position. -/
theorem shards_push (hwidth : columns.shards.length = codec.totalShards)
    (hs : codec.sums segment = .ok sums) {position : Nat} {column : Array Checksum}
    (hcolumn : columns.shards[position]? = some column) (length : Nat) :
    ∃ shard, codec.shard? position segment = some shard ∧
      (columns.push sums length).shards[position]? =
        some (column.push (Checksum.ofContent shard)) := by
  have hlt : position < sums.shards.length := by
    rw [Codec.length_shards_of_sums hs, ← hwidth]
    exact (List.getElem?_eq_some_iff.1 hcolumn).1
  have hsum := Codec.shards_of_sums hs position
  rw [List.getElem?_eq_getElem hlt] at hsum
  obtain ⟨shard, hshard, heq⟩ := Option.map_eq_some_iff.1 hsum.symm
  refine ⟨shard, hshard, ?_⟩
  rw [push, getElem?_pushEach, hcolumn, List.getElem?_eq_getElem hlt, ← heq]
  rfl

/-- **The column of a shard position holds the checksums of the shards
there**, in the order of the segments. -/
theorem shards_of_collect (hwidth : columns.shards.length = codec.totalShards)
    (h : columns.collect codec segments = .ok columns') {position : Nat}
    {column : Array Checksum} (hcolumn : columns.shards[position]? = some column) :
    ∃ shards column', segments.mapM (codec.shard? position) = some shards ∧
      columns'.shards[position]? = some column' ∧
      column'.toList = column.toList ++ shards.map Checksum.ofContent := by
  induction segments generalizing columns column with
  | nil =>
    obtain rfl : columns = columns' := by simpa using h
    exact ⟨[], column, rfl, hcolumn, by simp⟩
  | cons segment rest ih =>
    obtain ⟨sums, hs, h⟩ := collect_cons_eq_ok.1 h
    obtain ⟨shard, hshard, hpush⟩ := shards_push hwidth hs hcolumn segment.length
    obtain ⟨shards, column', hshards, hcolumn', heq⟩ :=
      ih ((length_shards_push _ _ _).trans hwidth) h hpush
    refine ⟨shard :: shards, column', ?_, hcolumn', ?_⟩
    · simp [List.mapM_cons, hshard, hshards]
    · rw [heq]
      simp

/-- Columns stay level: all are as long as there are segments. -/
theorem size_push (hwidth : columns.shards.length = codec.totalShards)
    (hlevel : ∀ column ∈ columns.shards, column.size = columns.segmentCount)
    (hs : codec.sums segment = .ok sums) (length : Nat) :
    ∀ column ∈ (columns.push sums length).shards,
      column.size = (columns.push sums length).segmentCount := by
  intro column hcolumn
  obtain ⟨position, hposition⟩ := List.mem_iff_getElem?.1 hcolumn
  rw [push, getElem?_pushEach] at hposition
  obtain ⟨before, hbefore, -⟩ := Option.map_eq_some_iff.1 hposition
  obtain ⟨shard, -, hpush⟩ := shards_push hwidth hs hbefore length
  rw [push, getElem?_pushEach, hposition] at hpush
  obtain rfl := Option.some.inj hpush
  have hsize := hlevel before (List.mem_of_getElem? hbefore)
  simpa [push, segmentCount] using hsize

theorem size_of_collect (hwidth : columns.shards.length = codec.totalShards)
    (hlevel : ∀ column ∈ columns.shards, column.size = columns.segmentCount)
    (h : columns.collect codec segments = .ok columns') :
    ∀ column ∈ columns'.shards, column.size = columns'.segmentCount := by
  induction segments generalizing columns with
  | nil =>
    obtain rfl : columns = columns' := by simpa using h
    exact hlevel
  | cons segment rest ih =>
    obtain ⟨sums, hs, h⟩ := collect_cons_eq_ok.1 h
    exact ih ((length_shards_push _ _ _).trans hwidth) (size_push hwidth hlevel hs _) h

/-- Columns without segments are as many as announced, and level. -/
theorem length_shards_empty (totalShards : Nat) : (empty totalShards).shards.length = totalShards :=
  List.length_replicate

theorem length_shards_of_collect_empty {totalShards : Nat}
    (h : (empty totalShards).collect codec segments = .ok columns) :
    columns.shards.length = totalShards :=
  (length_shards_of_collect h).trans (length_shards_empty totalShards)

theorem size_empty (totalShards : Nat) :
    ∀ column ∈ (empty totalShards).shards, column.size = (empty totalShards).segmentCount := by
  intro column hcolumn
  rw [List.eq_of_mem_replicate hcolumn]
  rfl

end Columns

namespace Codec

/-- **What a computation over segments comes to**, a failure ending them or
not: the error of the first rejected segment, else the failure, else the
digest of the columns of all of them. -/
def outcome (codec : Codec) (segments : List Bytes) (failure : Option Error) :
    Except Error Digest :=
  match (Columns.empty codec.totalShards).collect codec segments with
  | .error error => .error error
  | .ok columns => failure.elim (.ok columns.digest) .error

variable {codec : Codec} {segments before after : List Bytes} {segment : Bytes}
variable {error : Error} {failure : Option Error}

theorem outcome_of_rejected (hbefore : ∀ other ∈ before, codec.Accepts other)
    (hs : codec.sums segment = .error error) :
    codec.outcome (before ++ segment :: after) failure = .error error := by
  rw [outcome, Columns.collect_of_rejected hbefore hs]

/-- A rejected segment leaves no digest, and the error is that of the first
one. -/
theorem exists_outcome_eq_error (hmem : segment ∈ segments) (hs : codec.sums segment = .error error)
    (failure : Option Error) : ∃ before first after other, segments = before ++ first :: after ∧
      (∀ accepted ∈ before, codec.Accepts accepted) ∧ codec.sums first = .error other ∧
      codec.outcome segments failure = .error other := by
  cases hcollect : (Columns.empty codec.totalShards).collect codec segments with
  | ok columns =>
    obtain ⟨sums, hsums⟩ := Columns.accepts_of_collect hcollect segment hmem
    simp [hs] at hsums
  | error other =>
    obtain ⟨before, first, after, rfl, hbefore, hfirst⟩ :=
      Columns.exists_rejected_of_collect hcollect
    exact ⟨before, first, after, other, rfl, hbefore, hfirst, outcome_of_rejected hbefore hfirst⟩

theorem outcome_of_failure (h : ∀ segment ∈ segments, codec.Accepts segment) :
    codec.outcome segments (some error) = .error error := by
  obtain ⟨columns, hcollect⟩ := Columns.exists_collect_eq_ok (.empty codec.totalShards) h
  rw [outcome, hcollect]
  rfl

/-- **The roots of a digest, read off the segments**: each is the checksum
of the checksums of its column, one behind the other. -/
theorem exists_outcome_eq_ok (h : ∀ segment ∈ segments, codec.Accepts segment) :
    ∃ d, codec.outcome segments none = .ok d ∧
      d.contentLength = UInt64.ofNat segments.flatten.length ∧
      d.redundancy = .erasureCoded ∧
      d.roots.length = codec.totalShards + 1 ∧
      d.roots[0]? = some (Checksum.root (segments.map Checksum.ofContent)) ∧
      ∀ position < codec.totalShards, ∃ shards,
        segments.mapM (codec.shard? position) = some shards ∧
          d.roots[position + 1]? = some (Checksum.root (shards.map Checksum.ofContent)) := by
  obtain ⟨columns, hcollect⟩ :=
    Columns.exists_collect_eq_ok (Columns.empty codec.totalShards) h
  refine ⟨columns.digest, by rw [outcome, hcollect]; rfl, ?_, rfl, ?_, ?_, ?_⟩
  · rw [Columns.digest, Columns.contentLength_of_collect hcollect]
    simp [Columns.empty]
  · simp [Columns.digest, Columns.length_shards_of_collect_empty hcollect]
  · simp [Columns.digest, Columns.segments_of_collect hcollect, Columns.empty]
  · intro position hposition
    have hempty : (Columns.empty codec.totalShards).shards[position]? = some #[] := by
      simp [Columns.empty, hposition]
    obtain ⟨shards, column, hshards, hcolumn, heq⟩ :=
      Columns.shards_of_collect (Columns.length_shards_empty _) hcollect hempty
    refine ⟨shards, hshards, ?_⟩
    simp [Columns.digest, hcolumn, heq]

end Codec

end ErasureDigest

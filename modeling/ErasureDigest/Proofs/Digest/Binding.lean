import ErasureDigest.Proofs.Hashing.History
import ErasureDigest.Proofs.Hashing.Serial
import ErasureDigest.Proofs.Pool.Results

/-!
# What a root binds

A root is the checksum of checksums, one behind the other. Checksums have
one width, so the concatenation can be taken apart (`eq_of_flatMap_bytes`),
and two lists of byte strings with one root are equal, or a collision of
the checksum is at hand, among the strings or between the two
concatenations (`eq_or_collision_of_root`). Nothing else is used of the
checksum.

`Computes` holds of every way to a digest: in order, by any run of the
pool, or by a hasher after any calls. All come to what the segments come to
(`outcome_of_computes`), whatever content, segment size and codec, so roots
can be compared across all of them (`roots_bind`).
-/

namespace ErasureDigest

/-! ## Checksums of lists -/

/-- **Two different strings of a list with the same checksum.** -/
def Collision (strings : List Bytes) : Prop :=
  ∃ x ∈ strings, ∃ y ∈ strings, x ≠ y ∧ Checksum.ofContent x = Checksum.ofContent y

/-- The checksums of byte strings, one behind the other. -/
def Checksum.joined (strings : List Bytes) : Bytes :=
  strings.flatMap fun string => (ofContent string).bytes

namespace Collision

variable {strings more : List Bytes}

/-- A collision stays one among more strings. -/
theorem mono (h : Collision strings) (hsubset : strings ⊆ more) : Collision more := by
  obtain ⟨x, hx, y, hy, hne, heq⟩ := h
  exact ⟨x, hsubset hx, y, hsubset hy, hne, heq⟩

/-- Lists with the same checksums are equal, or a collision is among
them. -/
theorem eq_or_of_map {xs ys : List Bytes}
    (h : xs.map Checksum.ofContent = ys.map Checksum.ofContent) :
    xs = ys ∨ Collision (xs ++ ys) := by
  induction xs generalizing ys with
  | nil =>
    rw [List.map_nil, eq_comm, List.map_eq_nil_iff] at h
    exact Or.inl h.symm
  | cons x xs ih =>
    cases ys with
    | nil => simp at h
    | cons y ys =>
      rw [List.map_cons, List.map_cons, List.cons.injEq] at h
      obtain ⟨hhead, htail⟩ := h
      by_cases heq : x = y
      · rcases ih htail with rfl | hcollision
        · exact Or.inl (by rw [heq])
        · refine Or.inr (hcollision.mono fun string hstring => ?_)
          rw [List.mem_append] at hstring ⊢
          rcases hstring with hstring | hstring
          · exact Or.inl (List.mem_cons_of_mem _ hstring)
          · exact Or.inr (List.mem_cons_of_mem _ hstring)
      · exact Or.inr ⟨x, by simp, y, by simp, heq, hhead⟩

end Collision

namespace Checksum

/-- The width of a checksum takes a concatenation apart. -/
theorem eq_of_flatMap_bytes {sums sums' : List Checksum}
    (h : sums.flatMap (·.bytes) = sums'.flatMap (·.bytes)) : sums = sums' := by
  induction sums generalizing sums' with
  | nil =>
    cases sums' with
    | nil => rfl
    | cons sum' rest' =>
      have hlength := congrArg List.length h
      rw [List.flatMap_nil, List.flatMap_cons, List.length_append, sum'.length_bytes] at hlength
      simp only [List.length_nil] at hlength
      omega
  | cons sum rest ih =>
    cases sums' with
    | nil =>
      have hlength := congrArg List.length h
      rw [List.flatMap_nil, List.flatMap_cons, List.length_append, sum.length_bytes] at hlength
      simp only [List.length_nil] at hlength
      omega
    | cons sum' rest' =>
      rw [List.flatMap_cons, List.flatMap_cons] at h
      have hwidth : sum.bytes.length = sum'.bytes.length := by
        rw [sum.length_bytes, sum'.length_bytes]
      obtain ⟨hbytes, hrest⟩ := List.append_inj h hwidth
      rw [Checksum.ext hbytes, ih hrest]

/-- The root over the checksums of strings is the checksum of these,
joined. -/
theorem root_map_ofContent (strings : List Bytes) :
    root (strings.map ofContent) = ofContent (joined strings) := by
  rw [root, joined, List.flatMap_map]

/-- **One root, one list of strings**, or a collision among the strings
and the two joined lists of checksums. -/
theorem eq_or_collision_of_root {xs ys : List Bytes}
    (h : root (xs.map ofContent) = root (ys.map ofContent)) :
    xs = ys ∨ Collision (xs ++ ys ++ [joined xs, joined ys]) := by
  rw [root_map_ofContent, root_map_ofContent] at h
  by_cases hjoined : joined xs = joined ys
  · -- the same checksums in the same order
    have hmap : xs.map ofContent = ys.map ofContent := by
      refine eq_of_flatMap_bytes ?_
      rw [List.flatMap_map, List.flatMap_map]
      exact hjoined
    rcases Collision.eq_or_of_map hmap with heq | hcollision
    · exact Or.inl heq
    · exact Or.inr (hcollision.mono (List.subset_append_left _ _))
  · exact Or.inr ⟨joined xs, by simp, joined ys, by simp, hjoined, h⟩

end Checksum

/-! ## Computations -/

/-- The segments that a source is cut into. -/
def Source.segments (size : Nat) (source : Source) : List Bytes :=
  (Segmenter.start source size).drain.1.map (·.bytes)

/-- A source that delivers a content is cut into the pieces of it. -/
theorem Source.segments_of_delivers {source : Source} {content : Bytes} {size : Nat}
    (hdelivers : source.Delivers content none) (hsize : 0 < size) :
    source.segments size = content.pieces size :=
  (Segmenter.drain_of_delivers (s := .start source size) hdelivers hsize rfl).1

/-- **A computation that came to a digest**, over a content in segments of
some size. What is taken from a source is the content. -/
inductive Computes (codec : Codec) (size : Nat) : Bytes → List Bytes → Digest → Prop
  /-- In order. -/
  | serial {source : Source} {d : Digest} (h : Serial.digest codec size source = .ok d) :
      Computes codec size (source.segments size).flatten (source.segments size) d
  /-- By a pool, whatever the order of its actions. -/
  | parallel {source : Source} {workers : Nat} {steps : List (Pool.State × Pool.Action)}
      {s : Pool.State} {d : Digest} (hsize : 0 < size)
      (hrun : Pool.Run codec (.start source size workers) steps s) (hfinal : s.isFinal = true)
      (h : s.result codec = .ok d) :
      Computes codec size (source.segments size).flatten (source.segments size) d
  /-- By a hasher, whatever was called before the finish. -/
  | incremental {fresh : Hasher} {calls : List Hasher.Call} {d : Digest}
      (hnew : Hasher.new codec size = .ok fresh)
      (h : (fresh.history calls).hasher.finish.1 = .ok d) :
      Computes codec size (Hasher.accepted (fresh.history calls).log)
        ((Hasher.accepted (fresh.history calls).log).pieces size) d

section Outcome

variable {codec : Codec} {segments : List Bytes} {failure : Option Error} {d : Digest}

/-- A digest comes of segments without a failure behind them. -/
theorem Codec.outcome_eq_ok (h : codec.outcome segments failure = .ok d) :
    codec.outcome segments none = .ok d := by
  cases failure with
  | none => exact h
  | some error =>
    unfold Codec.outcome at h
    split at h <;> simp at h

/-- **The roots of a digest** are those of its columns of strings: the
segments', and the shards' at each position. -/
theorem Codec.roots_of_outcome (h : codec.outcome segments none = .ok d) :
    d.primaryRoot? = some (Checksum.root (segments.map Checksum.ofContent)) ∧
      ∀ position < codec.totalShards, ∃ shards,
        segments.mapM (codec.shard? position) = some shards ∧
          d.shardRoot? position = some (Checksum.root (shards.map Checksum.ofContent)) := by
  have haccepts : ∀ segment ∈ segments, codec.Accepts segment := by
    unfold Codec.outcome at h
    split at h
    · simp at h
    · next columns hcollect => exact Columns.accepts_of_collect hcollect
  obtain ⟨d', hd', -, -, -, hprimary, hshards⟩ := Codec.exists_outcome_eq_ok haccepts
  obtain rfl : d = d' := Except.ok.inj (h.symm.trans hd')
  refine ⟨?_, hshards⟩
  rw [Digest.primaryRoot?, List.head?_eq_getElem?]
  exact hprimary

end Outcome

/-- In order from a source that delivers a content: a computation over its
pieces. -/
theorem computes_of_delivers {codec : Codec} {size : Nat} {source : Source} {content : Bytes}
    {d : Digest} (hdelivers : source.Delivers content none)
    (h : Serial.digest codec size source = .ok d) :
    Computes codec size content (content.pieces size) d := by
  have hcomputes := Computes.serial h
  rwa [Source.segments_of_delivers hdelivers (Serial.size_pos_of_digest h),
    Bytes.flatten_pieces] at hcomputes

/-- **Every computation comes to what its segments come to**, and these
make up the content. -/
theorem outcome_of_computes {codec : Codec} {size : Nat} {content : Bytes} {segments : List Bytes}
    {d : Digest} (h : Computes codec size content segments d) :
    codec.outcome segments none = .ok d ∧ segments.flatten = content := by
  cases h with
  | @serial source d h =>
    refine ⟨?_, rfl⟩
    rw [Serial.digest_eq_outcome (Serial.size_pos_of_digest h)] at h
    exact Codec.outcome_eq_ok h
  | @parallel source workers steps s d hsize hrun hfinal h =>
    refine ⟨?_, rfl⟩
    have hslot : s.slot = none := by
      cases hslot : s.slot with
      | none => rfl
      | some error => simp [Pool.State.result, hslot] at h
    rw [Pool.result_eq_outcome (Pool.sound_of_run hrun) hfinal hslot] at h
    exact Codec.outcome_eq_ok h
  | @incremental fresh calls d hnew h =>
    refine ⟨?_, Bytes.flatten_pieces _ _⟩
    have hsize : 0 < size := by
      rcases Nat.eq_zero_or_pos size with rfl | hsize
      · simp [Hasher.new, checkSegmentSize, bind, Except.bind] at hnew
      · exact hsize
    obtain rfl : Hasher.start codec size = fresh :=
      Except.ok.inj ((Hasher.new_eq_ok hsize).symm.trans hnew)
    -- after the finish all that was accepted is in the columns
    have hcollect := (Hasher.tracks_history codec hsize calls).collect_of_finish hsize h
    rw [Codec.outcome, hcollect, Hasher.digest_of_finish h]
    rfl

/-! ## Roots bind -/

/-- **Every root binds the strings it covers.** Take any two computations
that came to a digest. With equal primary roots they have the same
segments, in number and order, and so the same content; with equal roots at
a shard position that both have, the shards there are the same. Otherwise
two different strings have the same checksum, each of them one of the
segments (of the shards), or the joined checksums, of one of the two. -/
theorem roots_bind {codec codec' : Codec} {size size' : Nat} {content content' : Bytes}
    {segments segments' : List Bytes} {d d' : Digest}
    (h : Computes codec size content segments d)
    (h' : Computes codec' size' content' segments' d') :
    (d.primaryRoot? = d'.primaryRoot? →
      segments = segments' ∧ content = content' ∨
        Collision (segments ++ segments' ++
          [Checksum.joined segments, Checksum.joined segments'])) ∧
    ∀ position, position < codec.totalShards → position < codec'.totalShards →
      ∃ shards shards', segments.mapM (codec.shard? position) = some shards ∧
        segments'.mapM (codec'.shard? position) = some shards' ∧
        (d.shardRoot? position = d'.shardRoot? position →
          shards = shards' ∨
            Collision (shards ++ shards' ++
              [Checksum.joined shards, Checksum.joined shards'])) := by
  obtain ⟨houtcome, hcontent⟩ := outcome_of_computes h
  obtain ⟨houtcome', hcontent'⟩ := outcome_of_computes h'
  obtain ⟨hprimary, hshards⟩ := Codec.roots_of_outcome houtcome
  obtain ⟨hprimary', hshards'⟩ := Codec.roots_of_outcome houtcome'
  constructor
  · intro hroots
    rw [hprimary, hprimary', Option.some.injEq] at hroots
    rcases Checksum.eq_or_collision_of_root hroots with rfl | hcollision
    · exact Or.inl ⟨rfl, by rw [← hcontent, ← hcontent']⟩
    · exact Or.inr hcollision
  · intro position hposition hposition'
    obtain ⟨shards, hmap, hroot⟩ := hshards position hposition
    obtain ⟨shards', hmap', hroot'⟩ := hshards' position hposition'
    refine ⟨shards, shards', hmap, hmap', fun hroots => ?_⟩
    rw [hroot, hroot', Option.some.injEq] at hroots
    exact Checksum.eq_or_collision_of_root hroots

/-- One segment of two bytes, in order and as its bytes arrive, under two
segment sizes and two codecs: the primary roots are equal, and the shards
of the first position compare. -/
theorem roots_of_two_sizes :
    ∃ d d', Computes (.copying 1 1) 2 [1, 2] [[1, 2]] d ∧
      Computes (.copying 2 2) 3 [1, 2] [[1, 2]] d' ∧ d.primaryRoot? = d'.primaryRoot? ∧
      ∃ shards shards', [[1, 2]].mapM ((Codec.copying 1 1).shard? 0) = some shards ∧
        [[1, 2]].mapM ((Codec.copying 2 2).shard? 0) = some shards' ∧
        (d.shardRoot? 0 = d'.shardRoot? 0 → shards = shards' ∨ Collision (shards ++ shards' ++
          [Checksum.joined shards, Checksum.joined shards'])) := by
  have hpieces : ∀ size, 2 ≤ size → Bytes.pieces size [1, 2] = [[1, 2]] := fun size hsize =>
    Bytes.pieces_of_length_le (by omega) (by simp) hsize
  obtain ⟨d, hd⟩ : ∃ d, Computes (.copying 1 1) 2 [1, 2] [[1, 2]] d := by
    have haccepts : ∀ segment ∈ Bytes.pieces 2 [1, 2], (Codec.copying 1 1).Accepts segment := by
      rw [hpieces 2 (by decide)]
      simpa using ⟨_, rfl⟩
    obtain ⟨d, hd, -⟩ := Codec.exists_outcome_eq_ok haccepts
    have hserial := Serial.digest_eq_outcome_of_delivers (.copying 1 1) Nat.two_pos
      (Source.delivers_ofBytes [1, 2])
    have hcomputes := computes_of_delivers (Source.delivers_ofBytes [1, 2]) (hserial.trans hd)
    rw [hpieces 2 (by decide)] at hcomputes
    exact ⟨d, hcomputes⟩
  obtain ⟨d', hd'⟩ : ∃ d', Computes (.copying 2 2) 3 [1, 2] [[1, 2]] d' := by
    obtain ⟨d', hfinish⟩ : ∃ d', ((Hasher.start (.copying 2 2) 3).history
        [.append [1], .append [2]]).hasher.finish.1 = .ok d' := ⟨_, rfl⟩
    have hcomputes := Computes.incremental (Hasher.new_eq_ok (by decide)) hfinish
    have haccepted : Hasher.accepted ((Hasher.start (.copying 2 2) 3).history
        [.append [1], .append [2]]).log = [1, 2] := rfl
    rw [haccepted, hpieces 3 (by decide)] at hcomputes
    exact ⟨d', hcomputes⟩
  have hprimary := (Codec.roots_of_outcome (outcome_of_computes hd).1).1
  have hprimary' := (Codec.roots_of_outcome (outcome_of_computes hd').1).1
  exact ⟨d, d', hd, hd', hprimary.trans hprimary'.symm,
    (roots_bind hd hd').2 0 (by decide) (by decide)⟩

end ErasureDigest

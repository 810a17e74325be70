import ErasureDigest.Proofs.Command.Hash
import ErasureDigest.Proofs.Json.Values

/-!
# The report as JSON

With `--json` a report is one document (`Report.tells_toPretty`). It is read back
field by field: what was hashed, with which settings, and the digest, each read
as if there were nothing else in the record. `run_hash_json` says so of every run
that hashes its target.
-/

namespace ErasureDigest

open Json.Reader

/-- A digest has a root for every shard position, and one over the segments. -/
theorem Codec.length_roots_of_outcome {codec : Codec} {segments : List Bytes}
    {failure : Option Error} {d : Digest} (h : codec.outcome segments failure = .ok d) :
    d.roots.length = codec.totalShards + 1 := by
  unfold outcome at h
  cases hcollect : (Columns.empty codec.totalShards).collect codec segments with
  | error error => simp [hcollect] at h
  | ok columns =>
    cases failure with
    | some error => simp [hcollect] at h
    | none =>
      obtain rfl : columns.digest = d := by simpa [hcollect] using h
      simp [Columns.digest, Columns.length_shards_of_collect_empty hcollect]

namespace Command

namespace Report

/-- A text that tells a report: one document, off which every part of the report
is read. -/
structure Tells (report : Report) (text : String) : Prop where
  document : ∃ chars body, Json.Derives .value chars ∧ Json.Spaced chars body ∧
    text = String.ofList body
  digest : Json.read Digest.ofJson text = .ok report.digest
  source : Json.read (only "source" Json.Reader.text) text = .ok report.target
  segmentSize : Json.read (only "segment_size" (natural "usize")) text =
    .ok report.profile.segmentSize
  dataShards : Json.read (only "data_shards" (natural "usize")) text =
    .ok report.profile.layout.dataShards
  parityShards : Json.read (only "parity_shards" (natural "usize")) text =
    .ok report.profile.layout.parityShards
  strategy : Json.read (only "strategy" Strategy.ofJson) text = .ok report.strategy

/-- **A report is told by the text it is written as.** -/
theorem tells_toPretty (report : Report) : report.Tells report.toJson.toPretty := by
  have htext := Json.isTextOf_toPretty report.toJson
  -- the fields of the digest are other than those of the report
  have hread {α : Type} {r : Json.Reader α} {kept : List (String × Json)} {value : α}
      (h : Reads r (.record kept) value) (hkept) : Json.read r report.toJson.toPretty = .ok value :=
    Json.read_of_isTextOf (h.of_filter hkept) htext
  refine ⟨?_, ?_, ?_, ?_, ?_, ?_, ?_⟩
  · obtain ⟨chars, body, hwrites, hbody, htext⟩ := htext
    exact ⟨chars, body, hwrites.derives, hbody, htext⟩
  · exact hread report.digest.reads_ofJson rfl
  · exact hread (reads_only (reads_text _) _) rfl
  · exact hread (reads_only (reads_natural _ _) _) rfl
  · exact hread (reads_only (reads_natural _ _) _) rfl
  · exact hread (reads_only (reads_natural _ _) _) rfl
  · exact hread (reads_only report.strategy.reads_ofJson _) rfl

end Report

variable {arguments : List String} {env : Environment} {fs : FileSystem} {input : Source}
variable {path? : Option String} {target : String} {flags : Layer} {profile : Profile}
variable {strategy : Strategy} {digest : Digest} {report : Report} {cores : Nat}

/-! ## What is reported -/

theorem hashTarget_eq_ok_iff : hashTarget fs input target profile strategy cores = .ok report ↔
    ∃ digest, digestTarget fs input target profile strategy cores = .ok digest ∧
      report = ⟨target, profile, strategy, digest⟩ := by
  rw [hashTarget]
  cases digestTarget fs input target profile strategy cores with
  | error error => simp
  | ok digest => simp [eq_comm]

/-- A digest of a target has a root for every shard position, and one more. -/
theorem length_roots_of_digestTarget (hcheck : profile.check = .ok ())
    (h : digestTarget fs input target profile strategy cores = .ok digest) :
    digest.roots.length =
      profile.layout.dataShards.toNat + profile.layout.parityShards.toNat + 1 := by
  have hlength {source : Source} (hdigest : profile.digest strategy source cores = .ok digest) :
      digest.roots.length =
        profile.layout.dataShards.toNat + profile.layout.parityShards.toNat + 1 := by
    rw [Profile.digest_eq_outcome hcheck] at hdigest
    rw [Codec.length_roots_of_outcome hdigest, ReedSolomon.totalShards_codecOf]
    rfl
  rw [digestTarget] at h
  split at h
  · exact hlength h
  · rw [Profile.digestFile] at h
    split at h
    · cases h
    · exact hlength h

/-- What a successful run reports. -/
theorem runHash_eq_ok_iff : runHash fs env input path? target flags cores = .ok report ↔
    ∃ settings digest, hashSettings fs env path? flags = .ok settings ∧
      settings.profile.check = .ok () ∧
      digestTarget fs input target settings.profile settings.strategy cores = .ok digest ∧
      report = ⟨target, settings.profile, settings.strategy, digest⟩ := by
  cases hsettings : hashSettings fs env path? flags with
  | error fault => simp [runHash, hsettings, Except.mapError, bind, Except.bind]
  | ok settings =>
    cases hcheck : settings.profile.check with
    | error error => simp [runHash_of_check_error hsettings hcheck, hcheck]
    | ok _ =>
      rw [runHash_of_check hsettings hcheck, hashTarget_eq_ok_iff]
      simp [hcheck]

/-- **The report of `hash --json` is read back whole.** Where the settings of a
call are in order and its target has a digest, the run prints one document, off
which the digest is read, and the target, the profile and the strategy it was
computed from and with; and no other run with that switch is done. -/
theorem run_hash_json (hcall : HashCall arguments env path? target flags true) (fs : FileSystem)
    (input : Source) (cores : Nat) :
    (∀ settings digest, hashSettings fs env path? flags = .ok settings →
      settings.profile.check = .ok () →
      digestTarget fs input target settings.profile settings.strategy cores = .ok digest →
      ∃ text, run arguments env fs input cores =
          ⟨.done, [text], if path?.isNone then warnings fs env else [], fs⟩ ∧
        Report.Tells ⟨target, settings.profile, settings.strategy, digest⟩ text ∧
        digest.roots.length =
          settings.layout.dataShards.toNat + settings.layout.parityShards.toNat + 1) ∧
    ((run arguments env fs input cores).ending = .done →
      ∃ settings digest, hashSettings fs env path? flags = .ok settings ∧
        settings.profile.check = .ok () ∧
        digestTarget fs input target settings.profile settings.strategy cores = .ok digest) := by
  have hrun := run_of_hash hcall fs input cores
  constructor
  · intro settings digest hsettings hcheck hdigest
    rw [runHash_eq_ok_iff.2 ⟨settings, digest, hsettings, hcheck, hdigest, rfl⟩] at hrun
    exact ⟨_, hrun, Report.tells_toPretty _, length_roots_of_digestTarget hcheck hdigest⟩
  · intro hdone
    cases hresult : runHash fs env input path? target flags cores with
    | error failure =>
      rw [hrun, hresult] at hdone
      cases hdone
    | ok report =>
      obtain ⟨settings, digest, hsettings, hcheck, hdigest, -⟩ := runHash_eq_ok_iff.1 hresult
      exact ⟨settings, digest, hsettings, hcheck, hdigest⟩

/-- A file whose name has a quote, a backslash and a line break. -/
theorem run_hash_json_of_odd_name :
    let fs : FileSystem := ⟨#[[("a\"\\\n", .file [1, 2, 3])]], [], []⟩
    ∃ digest text, run ["hash", "--json", "-s2", "--data-shards=2", "a\"\\\n"] ⟨[], none⟩ fs [] =
        ⟨.done, [text], [], fs⟩ ∧
      Report.Tells ⟨"a\"\\\n", ⟨2, ⟨2, 2⟩⟩, .parallel, digest⟩ text ∧ digest.roots.length = 5 := by
  intro fs
  have hread : Invocation.ofArguments
      ["hash", "--json", "-s2", "--data-shards=2", "a\"\\\n"] ⟨[], none⟩ =
        .ok ⟨none, .hash "a\"\\\n" ⟨some 2, none, some 2, none⟩ true⟩ := by
    decide +kernel
  have hcheck : (⟨2, ⟨2, 2⟩⟩ : Profile).check = .ok () := by decide
  obtain ⟨digest, hgives, -⟩ := Profile.exists_gives hcheck [1, 2, 3]
  obtain ⟨hdone, -⟩ := run_hash_json (Invocation.ofArguments_eq_hash_iff.1 hread) fs [] 1
  have hfile := hgives.file .parallel fs "a\"\\\n" 1 (by decide +kernel)
  have hdigest : digestTarget fs [] "a\"\\\n" ⟨2, ⟨2, 2⟩⟩ .parallel = .ok digest := by
    rw [digestTarget, if_neg (by decide), hfile]
  obtain ⟨text, hrun, htells, hlength⟩ := hdone ⟨2, .parallel, ⟨2, 2⟩⟩ digest
    (by decide +kernel) hcheck hdigest
  exact ⟨digest, text, hrun, htells, hlength⟩

end Command

end ErasureDigest

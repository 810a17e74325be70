import ErasureDigest.Binary

/-!
# The binary form of a digest

`Reads` says what a reader has to do with what is written: give a value
exactly where its form stands in front, and leave what is behind it. Readers
put together from such readers are such readers again, up to that of a
digest (`reads_readDigest`). `Steady` says that bytes behind change nothing
but a lack of bytes, so all that a piece of a written form can come to is
`truncated` (`Reads.truncated_of_prefix`).

Lists in memory are shorter than `UInt64.size`; the length of a longer one
would not fit the number in front of it, so the bound stands wherever a list
is written.
-/

namespace ErasureDigest

namespace Binary

variable {α β : Type} {read : Decoder α} {next : α → Decoder β} {write : α → Bytes}
variable {fits : α → Prop} {bytes rest : Bytes} {value : α}

/-! ## Readers one after the other -/

/-- **What two readers give** is what the second gives of what the first
left. -/
theorem run_bind_eq_ok {value : β} :
    (read >>= next).run bytes = .ok (value, rest) ↔
      ∃ first middle, read.run bytes = .ok (first, middle) ∧
        (next first).run middle = .ok (value, rest) := by
  rw [StateT.run_bind]
  cases hread : read.run bytes with
  | error fault => simp [bind, Except.bind]
  | ok pair => simp [bind, Except.bind, Prod.ext_iff, and_assoc]

theorem run_pure_eq_ok {given : α} :
    (pure given : Decoder α).run bytes = .ok (value, rest) ↔ value = given ∧ bytes = rest := by
  rw [StateT.run_pure]
  simp [pure, Except.pure, eq_comm]

theorem run_throw (fault : Fault) : (throw fault : Decoder α).run bytes = .error fault := rfl

theorem run_readByte_nil : readByte.run [] = .error .truncated := rfl

theorem run_readByte_cons (byte : UInt8) (rest : Bytes) :
    readByte.run (byte :: rest) = .ok (byte, rest) := rfl

theorem run_readBytes_of_short {count : Nat} (hshort : bytes.length < count) :
    (readBytes count).run bytes = .error .truncated := by
  have htaken : (bytes.take count).length < count := by
    rw [List.length_take]
    omega
  show StateT.run (if (bytes.take count).length < count then _ else _) bytes = _
  rw [if_pos htaken]
  rfl

theorem run_readBytes_of_le {count : Nat} (hlong : count ≤ bytes.length) :
    (readBytes count).run bytes = .ok (bytes.take count, bytes.drop count) := by
  have htaken : ¬ (bytes.take count).length < count := by
    rw [List.length_take]
    omega
  show StateT.run (if (bytes.take count).length < count then _ else _) bytes = _
  rw [if_neg htaken]
  rfl

/-! ## What readers give -/

/-- Whether a reader gives the values that `fits` holds of, each exactly
where its written form stands in front, and leaves what is behind. -/
def Reads (read : Decoder α) (write : α → Bytes) (fits : α → Prop) : Prop :=
  ∀ bytes value rest,
    read.run bytes = .ok (value, rest) ↔ fits value ∧ bytes = write value ++ rest

theorem reads_readByte : Reads readByte (fun byte => [byte]) fun _ => True := by
  intro bytes value rest
  cases bytes with
  | nil => simp [run_readByte_nil]
  | cons byte bytes => simp [run_readByte_cons, Prod.ext_iff]

theorem reads_readBytes (count : Nat) :
    Reads (readBytes count) (fun bytes => bytes) fun bytes => bytes.length = count := by
  intro bytes taken rest
  rcases Nat.lt_or_ge bytes.length count with hshort | hlong
  · rw [run_readBytes_of_short hshort]
    constructor
    · intro h
      cases h
    · rintro ⟨rfl, hbytes⟩
      obtain rfl : bytes = taken ++ rest := hbytes
      rw [List.length_append] at hshort
      omega
  · rw [run_readBytes_of_le hlong]
    constructor
    · intro h
      obtain ⟨rfl, rfl⟩ := Prod.mk.inj (Except.ok.inj h)
      exact ⟨List.length_take_of_le hlong, (List.take_append_drop _ _).symm⟩
    · rintro ⟨rfl, rfl⟩
      rw [List.take_left, List.drop_left]

/-- A number's eight bytes are the only ones that stand for it. -/
theorem reads_readNumber : Reads readNumber ofNumber fun _ => True := by
  intro bytes value rest
  rw [readNumber, run_bind_eq_ok]
  simp only [run_pure_eq_ok, reads_readBytes 8 _ _ _]
  constructor
  · rintro ⟨taken, _, ⟨hlength, rfl⟩, rfl, rfl⟩
    have hlt : Bytes.toNat taken < UInt64.size := by
      have := Bytes.toNat_lt taken
      rw [hlength] at this
      omega
    rw [ofNumber, UInt64.toNat_ofNat_of_lt' hlt, ← hlength, Bytes.littleEndian_toNat]
    exact ⟨trivial, rfl⟩
  · rintro ⟨-, rfl⟩
    refine ⟨ofNumber value, rest, ⟨by simp [ofNumber], rfl⟩, ?_, rfl⟩
    have hvalue : value.toNat < Nat.pow 256 8 := value.toNat_lt
    rw [ofNumber, Bytes.toNat_littleEndian hvalue, UInt64.ofNat_toNat]

theorem length_ofNumber (n : UInt64) : (ofNumber n).length = 8 :=
  Bytes.length_littleEndian _ _

/-- A variant is read where its position is. -/
theorem reads_readVariant [DecidableEq α] {variants : List α} (hnodup : variants.Nodup)
    (hlength : variants.length ≤ UInt32.size) :
    Reads (readVariant variants) (fun value => ofPosition (variants.idxOf value))
      (· ∈ variants) := by
  intro bytes value rest
  rw [readVariant, run_bind_eq_ok]
  simp only [reads_readBytes 4 _ _ _]
  constructor
  · rintro ⟨taken, middle, ⟨htaken, rfl⟩, hmatch⟩
    cases hfound : variants[Bytes.toNat taken]? with
    | none =>
      rw [hfound, run_throw] at hmatch
      cases hmatch
    | some found =>
      rw [hfound, run_pure_eq_ok] at hmatch
      obtain ⟨rfl, rfl⟩ := hmatch
      obtain ⟨hlt, hget⟩ := List.getElem?_eq_some_iff.1 hfound
      refine ⟨List.mem_of_getElem? hfound, ?_⟩
      rw [← hget, hnodup.idxOf_getElem _ hlt, ofPosition, ← htaken, Bytes.littleEndian_toNat]
  · rintro ⟨hmem, rfl⟩
    have hlt := List.idxOf_lt_length_of_mem hmem
    have hfits : variants.idxOf value < Nat.pow 256 4 := Nat.lt_of_lt_of_le hlt hlength
    refine ⟨_, rest, ⟨Bytes.length_littleEndian _ _, rfl⟩, ?_⟩
    rw [Bytes.toNat_littleEndian hfits, List.getElem?_eq_getElem hlt, List.getElem_idxOf hlt]
    exact run_pure_eq_ok.2 ⟨rfl, rfl⟩

/-- **Values one after the other**, by the number that is asked for. -/
theorem Reads.readMany (hread : Reads read write fits) (count : Nat) :
    Reads (readMany read count) (fun values => values.flatMap write)
      fun values => values.length = count ∧ ∀ value ∈ values, fits value := by
  induction count with
  | zero =>
    intro bytes values rest
    rw [Binary.readMany, run_pure_eq_ok]
    constructor
    · rintro ⟨rfl, rfl⟩
      exact ⟨⟨rfl, by simp⟩, rfl⟩
    · rintro ⟨⟨hlength, -⟩, rfl⟩
      obtain rfl := List.length_eq_zero_iff.1 hlength
      exact ⟨rfl, rfl⟩
  | succ count ih =>
    intro bytes values rest
    rw [Binary.readMany, run_bind_eq_ok]
    simp only [run_bind_eq_ok, run_pure_eq_ok, hread _ _ _, ih _ _ _]
    constructor
    · rintro ⟨value, _, ⟨hfits, rfl⟩, values, _, ⟨⟨rfl, hall⟩, rfl⟩, rfl, rfl⟩
      refine ⟨⟨rfl, ?_⟩, by simp⟩
      exact List.forall_mem_cons.2 ⟨hfits, hall⟩
    · rintro ⟨⟨hlength, hall⟩, rfl⟩
      obtain ⟨value, values, rfl⟩ := List.exists_cons_of_length_eq_add_one hlength
      obtain ⟨hfits, hall⟩ := List.forall_mem_cons.1 hall
      exact ⟨value, values.flatMap write ++ rest, ⟨hfits, by simp⟩, values, rest,
        ⟨⟨Nat.succ.inj hlength, hall⟩, rfl⟩, rfl, rfl⟩

/-- **And a list**, by the number in front of it. -/
theorem Reads.readList (hread : Reads read write fits) :
    Reads (readList read) (ofList write)
      fun values => values.length < UInt64.size ∧ ∀ value ∈ values, fits value := by
  intro bytes values rest
  rw [Binary.readList, run_bind_eq_ok]
  simp only [reads_readNumber _ _ _, hread.readMany _ _ _ _, true_and]
  constructor
  · rintro ⟨count, _, rfl, ⟨hlength, hall⟩, rfl⟩
    refine ⟨⟨hlength ▸ count.toNat_lt, hall⟩, ?_⟩
    rw [ofList, hlength, UInt64.ofNat_toNat, List.append_assoc]
  · rintro ⟨⟨hlt, hall⟩, rfl⟩
    exact ⟨UInt64.ofNat values.length, _, by rw [ofList, List.append_assoc],
      ⟨(UInt64.toNat_ofNat_of_lt' hlt).symm, hall⟩, rfl⟩

/-- **A string of bytes and a list of bytes look the same**, so what was
written as one can be read as the other. -/
theorem ofBytes_eq_ofList (bytes : Bytes) : ofBytes bytes = ofList (fun byte => [byte]) bytes := by
  rw [ofBytes, ofList, List.flatMap_singleton']

/-- A checksum is read from its length and its 32 bytes. -/
theorem reads_readChecksum : Reads readChecksum ofChecksum fun _ => True := by
  intro bytes value rest
  rw [readChecksum, run_bind_eq_ok]
  simp only [reads_readByte.readList _ _ _, ← ofBytes_eq_ofList]
  constructor
  · rintro ⟨taken, middle, ⟨-, rfl⟩, hmatch⟩
    by_cases hlength : taken.length = 32
    · rw [Checksum.ofBytes?, dif_pos hlength, run_pure_eq_ok] at hmatch
      obtain ⟨rfl, rfl⟩ := hmatch
      exact ⟨trivial, rfl⟩
    · rw [Checksum.ofBytes?, dif_neg hlength, run_throw] at hmatch
      cases hmatch
  · rintro ⟨-, rfl⟩
    have hlength := value.length_bytes
    have hlt : value.bytes.length < UInt64.size := by
      rw [hlength]
      decide
    refine ⟨value.bytes, rest, ⟨⟨hlt, by simp⟩, rfl⟩, ?_⟩
    rw [Checksum.ofBytes?, dif_pos hlength, run_pure_eq_ok]
    exact ⟨rfl, rfl⟩

/-- Every kind of redundancy has a position. -/
theorem reads_redundancy : Reads (readVariant redundancies) ofRedundancy fun _ => True := by
  intro bytes value rest
  have hmem : value ∈ redundancies := by
    cases value with
    | replica => exact List.mem_cons_self
    | erasureCoded => exact List.mem_cons_of_mem _ List.mem_cons_self
  rw [reads_readVariant (by decide) (by decide) bytes value rest]
  exact and_congr_left' (iff_of_true hmem trivial)

/-- **A digest** is read from the forms of its roots, its length and its
redundancy, one behind the other. -/
theorem reads_readDigest : Reads readDigest ofDigest fun d => d.roots.length < UInt64.size := by
  intro bytes d rest
  rw [readDigest, run_bind_eq_ok]
  simp only [run_bind_eq_ok, run_pure_eq_ok, reads_readChecksum.readList _ _ _,
    reads_readNumber _ _ _, reads_redundancy _ _ _]
  constructor
  · rintro ⟨roots, _, ⟨⟨hlt, -⟩, rfl⟩, length, _, ⟨-, rfl⟩, redundancy, _, ⟨-, rfl⟩, rfl, rfl⟩
    exact ⟨hlt, by simp [ofDigest]⟩
  · rintro ⟨hlt, rfl⟩
    exact ⟨d.roots, _, ⟨⟨hlt, by simp⟩, by simp [ofDigest]⟩, d.contentLength, _,
      ⟨trivial, rfl⟩, d.redundancy, rest, ⟨trivial, rfl⟩, rfl, rfl⟩

/-! ## What more bytes change -/

/-- Whether bytes behind others change nothing for a reader, unless it was
bytes that it lacked. -/
def Steady (read : Decoder α) : Prop :=
  ∀ bytes more, read.run bytes = .error .truncated ∨
    read.run (bytes ++ more) =
      (read.run bytes).map fun given => (given.1, given.2 ++ more)

theorem steady_pure (value : α) : Steady (pure value : Decoder α) :=
  fun _ _ => Or.inr rfl

theorem steady_throw (fault : Fault) : Steady (throw fault : Decoder α) :=
  fun _ _ => Or.inr rfl

theorem Steady.bind (hread : Steady read) (hnext : ∀ value, Steady (next value)) :
    Steady (read >>= next) := by
  intro bytes more
  simp only [StateT.run_bind]
  rcases hread bytes more with htruncated | hmore
  · exact Or.inl (by rw [htruncated]; rfl)
  rw [hmore]
  cases hrun : read.run bytes with
  | error fault => exact Or.inr rfl
  | ok given => exact hnext given.1 given.2 more

theorem steady_readByte : Steady readByte := by
  intro bytes more
  cases bytes with
  | nil => exact Or.inl rfl
  | cons byte bytes => exact Or.inr rfl

theorem steady_readBytes (count : Nat) : Steady (readBytes count) := by
  intro bytes more
  rcases Nat.lt_or_ge bytes.length count with hshort | hlong
  · exact Or.inl (run_readBytes_of_short hshort)
  · right
    rw [run_readBytes_of_le hlong,
      run_readBytes_of_le (Nat.le_trans hlong (by simp)),
      List.take_append_of_le_length hlong, List.drop_append_of_le_length hlong]
    rfl

theorem steady_readNumber : Steady readNumber :=
  (steady_readBytes 8).bind fun _ => steady_pure _

theorem steady_readVariant (variants : List α) : Steady (readVariant variants) := by
  refine (steady_readBytes 4).bind fun taken => ?_
  cases hfound : variants[Bytes.toNat taken]? with
  | none =>
    simp only [hfound]
    exact steady_throw _
  | some variant =>
    simp only [hfound]
    exact steady_pure variant

theorem Steady.readMany (hread : Steady read) (count : Nat) : Steady (readMany read count) := by
  induction count with
  | zero => exact steady_pure []
  | succ count ih => exact hread.bind fun _ => ih.bind fun _ => steady_pure _

theorem Steady.readList (hread : Steady read) : Steady (readList read) :=
  steady_readNumber.bind fun count => hread.readMany count.toNat

theorem steady_readChecksum : Steady readChecksum := by
  refine steady_readByte.readList.bind fun taken => ?_
  cases Checksum.ofBytes? taken with
  | none => exact steady_throw _
  | some c => exact steady_pure c

theorem steady_readDigest : Steady readDigest :=
  steady_readChecksum.readList.bind fun _ => steady_readNumber.bind fun _ =>
    (steady_readVariant redundancies).bind fun _ => steady_pure _

/-! ## What is written -/

/-- **A piece of a written form is too short**, and nothing else is said of
it. -/
theorem Reads.truncated_of_prefix (hread : Reads read write fits) (hsteady : Steady read)
    (hfits : fits value) {front : Bytes} (hfront : front <+: write value)
    (hne : front ≠ write value) : read.run front = .error .truncated := by
  obtain ⟨missing, hmissing⟩ := hfront
  have hwhole : read.run (front ++ missing) = .ok (value, []) :=
    (hread _ _ _).2 ⟨hfits, by rw [hmissing, List.append_nil]⟩
  rcases hsteady front missing with htruncated | hmore
  · exact htruncated
  rw [hwhole] at hmore
  cases hrun : read.run front with
  | error fault =>
    rw [hrun] at hmore
    cases hmore
  | ok given =>
    -- then nothing is missing
    rw [hrun] at hmore
    have hnil : [] = given.2 ++ missing := congrArg Prod.snd (Except.ok.inj hmore)
    obtain ⟨-, rfl⟩ := List.append_eq_nil_iff.1 hnil.symm
    rw [List.append_nil] at hmissing
    exact absurd hmissing hne

/-- **No written form is the front of another.** -/
theorem Reads.eq_of_prefix (hread : Reads read write fits) {value' : α} (hfits : fits value)
    (hfits' : fits value') (h : write value <+: write value') : value = value' := by
  obtain ⟨rest, hrest⟩ := h
  have hvalue := (hread (write value') value rest).2 ⟨hfits, hrest.symm⟩
  have hvalue' := (hread (write value') value' []).2 ⟨hfits', (List.append_nil _).symm⟩
  rw [hvalue] at hvalue'
  exact congrArg Prod.fst (Except.ok.inj hvalue')

/-- A checksum takes its length and its 32 bytes. -/
theorem ofChecksum_eq (c : Checksum) : ofChecksum c = ofNumber 32 ++ c.bytes := by
  rw [ofChecksum, ofBytes, c.length_bytes]
  rfl

/-- Bytes that hold the roots' lengths, each with as many bytes behind it as
it says and then the next; after the last one there may be anything. -/
inductive RootLengths : Bytes → List UInt64 → Prop
  | last (length : UInt64) (tail : Bytes) : RootLengths (ofNumber length ++ tail) [length]
  | cons {length : UInt64} {root bytes : Bytes} {lengths : List UInt64}
      (hroot : root.length = length.toNat) (hbytes : RootLengths bytes lengths) :
      RootLengths (ofNumber length ++ (root ++ bytes)) (length :: lengths)

/-- Two forms of numbers with anything behind them. -/
theorem ofNumber_append_inj {m n : UInt64} {bytes' : Bytes}
    (h : ofNumber m ++ bytes = ofNumber n ++ bytes') : m = n ∧ bytes = bytes' := by
  obtain ⟨hnumber, hbytes⟩ := List.append_inj h (by simp [length_ofNumber])
  exact ⟨reads_readNumber.eq_of_prefix trivial trivial (hnumber ▸ List.prefix_rfl), hbytes⟩

/-- **Where checksums are, all lengths are 32.** -/
theorem RootLengths.eq_of_flatMap {lengths : List UInt64} (h : RootLengths bytes lengths) :
    ∀ {roots : List Checksum} {rest : Bytes}, lengths.length ≤ roots.length →
      bytes = roots.flatMap ofChecksum ++ rest → ∀ length ∈ lengths, length = 32 := by
  induction h with
  | last length tail =>
    intro roots rest hle hbytes
    obtain ⟨c, roots, rfl⟩ := List.exists_cons_of_length_pos hle
    rw [List.flatMap_cons, ofChecksum_eq, List.append_assoc, List.append_assoc] at hbytes
    obtain ⟨rfl, -⟩ := ofNumber_append_inj hbytes
    simp
  | @cons length root bytes lengths hroot _ ih =>
    intro roots rest hle hbytes
    obtain ⟨c, roots, rfl⟩ := List.exists_cons_of_length_pos (Nat.lt_of_lt_of_le (by simp) hle)
    rw [List.flatMap_cons, ofChecksum_eq, List.append_assoc, List.append_assoc] at hbytes
    obtain ⟨rfl, htail⟩ := ofNumber_append_inj hbytes
    obtain ⟨-, hrest⟩ := List.append_inj htail (hroot.trans c.length_bytes.symm)
    exact List.forall_mem_cons.2 ⟨rfl, ih (Nat.le_of_succ_le_succ hle) hrest⟩

/-- **The binary form of a digest is canonical and ends by itself.** A
digest is read from some bytes exactly where its form stands in front of
them, any number of roots, any length and either redundancy, and what is
behind is left. Every piece of a form that lacks bytes at its end is refused
as too short, and so are bytes in which the length of some root is not 32.
No form is the front of another, so two digests never share one. -/
theorem digest_form_canonical :
    (∀ bytes d rest, readDigest.run bytes = .ok (d, rest) ↔
      d.roots.length < UInt64.size ∧ bytes = ofDigest d ++ rest) ∧
    (∀ d front, d.roots.length < UInt64.size → front <+: ofDigest d → front ≠ ofDigest d →
      readDigest.run front = .error .truncated) ∧
    (∀ (count : UInt64) lengths bytes, RootLengths bytes lengths →
      lengths.length ≤ count.toNat → (∃ length ∈ lengths, length ≠ 32) →
      ∃ fault, readDigest.run (ofNumber count ++ bytes) = .error fault) ∧
    (∀ d d', d.roots.length < UInt64.size → d'.roots.length < UInt64.size →
      ofDigest d <+: ofDigest d' → d = d') := by
  refine ⟨reads_readDigest,
    fun d front hlt => reads_readDigest.truncated_of_prefix steady_readDigest hlt,
    fun count lengths bytes hlengths hle hother => ?_,
    fun d d' hlt hlt' => reads_readDigest.eq_of_prefix hlt hlt'⟩
  cases hrun : readDigest.run (ofNumber count ++ bytes) with
  | error fault => exact ⟨fault, rfl⟩
  | ok given =>
    -- what is read is the form of a digest, and in it all lengths are 32
    obtain ⟨hlt, hform⟩ := (reads_readDigest _ given.1 given.2).1 hrun
    rw [ofDigest, ofList] at hform
    simp only [List.append_assoc] at hform
    obtain ⟨rfl, hroots⟩ := ofNumber_append_inj hform
    rw [UInt64.toNat_ofNat_of_lt' hlt] at hle
    obtain ⟨length, hmem, hne⟩ := hother
    exact absurd (hlengths.eq_of_flatMap hle hroots length hmem) hne

/-- The number of roots, the length, the position of the redundancy, and a
byte that is left. -/
example : readDigest.run
    [0, 0, 0, 0, 0, 0, 0, 0, 2, 1, 0, 0, 0, 0, 0, 0, 1, 0, 0, 0, 7] =
      .ok (⟨[], 258, .erasureCoded⟩, [7]) := rfl

end Binary

end ErasureDigest

import ErasureDigest.Proofs.Coding.Interpolation
import ErasureDigest.Proofs.Coding.Shards

/-!
# The codec, built on a library of matrix codes

`ReedSolomon` computes parity by interpolation. Here the codec of a layout
is built as a library of matrix codes lets it be built: a coder is made for
the numbers of shards, the data rows are handed to it with rows of zeros
behind them, and it fills in the parity after looking at their number and
sizes. Making a coder does not come back where the top square of the
Vandermonde matrix has no inverse.

`Library.Documented` says this of a library, and with any such library the
codec is made, and is the one of the layout (`codec?_eq`): the square has
an inverse for every valid layout, and padded segments pass all checks.
-/

namespace ErasureDigest

namespace ReedSolomon

/-- What the codec asks of a library of matrix codes. -/
structure Library where
  /-- A coder, made for numbers of data and parity shards. -/
  Coder : Type
  /-- Makes a coder, or says why not. Nothing is given where the call does
  not come back. -/
  make : (dataShards parityShards : Nat) → Option (Except ShapeFault Coder)
  /-- The rows with their parity filled in, or what is wrong with them. -/
  encode : Coder → List Bytes → Except ShapeFault (List Bytes)

/-- What a library finds wrong with numbers of shards. -/
def countsFault? (dataShards parityShards : Nat) : Option ShapeFault :=
  if dataShards = 0 then some .tooFewDataShards
  else if parityShards = 0 then some .tooFewParityShards
  else if 256 < dataShards + parityShards then some .tooManyShards
  else none

/-- What a library finds wrong with rows, where it expects `total` of
them: their number, an empty first row, or rows of different sizes. -/
def rowsFault? (total : Nat) (rows : List Bytes) : Option ShapeFault :=
  if rows.length < total then some .tooFewShards
  else if total < rows.length then some .tooManyShards
  else if (rows.headD []).isEmpty then some .emptyShard
  else if rows.any (·.length ≠ (rows.headD []).length) then some .incorrectShardSize
  else none

/-- The rows with the parity that the rows of the encoding matrix below its
top square give. -/
noncomputable def fill (dataShards parityShards : Nat) (rows : List Bytes) :
    Except ShapeFault (List Bytes) :=
  match rowsFault? (dataShards + parityShards) rows with
  | some fault => .error fault
  | none => .ok (rows.take dataShards ++ List.ofFn fun i : Fin parityShards =>
      parityRow (systematic (dataShards + parityShards) dataShards (Fin.natAdd dataShards i))
        (rows.headD []).length (rows.take dataShards))

namespace Library

/-- **How a library of matrix codes is documented to behave.** -/
structure Documented (lib : Library) : Prop where
  /-- Numbers it cannot work with are refused. -/
  refuses : ∀ dataShards parityShards fault, countsFault? dataShards parityShards = some fault →
    lib.make dataShards parityShards = some (.error fault)
  /-- Without an inverse of the top square there is no coder and no way
  back. -/
  sticks : ∀ dataShards parityShards, countsFault? dataShards parityShards = none →
    ¬ IsUnit (vandermonde dataShards dataShards).det → lib.make dataShards parityShards = none
  /-- With one there is a coder, which fills in parity. -/
  makes : ∀ dataShards parityShards, countsFault? dataShards parityShards = none →
    IsUnit (vandermonde dataShards dataShards).det →
    ∃ coder, lib.make dataShards parityShards = some (.ok coder) ∧
      ∀ rows, lib.encode coder rows = fill dataShards parityShards rows

/-- The shards of a segment, the parity rows filled in by a coder if there
is one. -/
def shards (lib : Library) (layout : Layout) (coder? : Option lib.Coder) (segment : Bytes) :
    Except Error (List Shard) :=
  if segment.isEmpty then .error (.encode .emptySegment)
  else
    let data := dataRows layout.dataShards.toNat segment
    let zeros := List.replicate layout.parityShards.toNat
      (List.replicate (shardSize layout.dataShards.toNat segment.length) 0)
    let filled : Except ShapeFault (List Bytes) := match coder? with
      | none => .ok data
      | some coder => lib.encode coder (data ++ zeros)
    match filled with
    | .error fault => .error (.encode (.shape fault))
    | .ok rows => .ok (shardsOf layout.dataShards.toNat rows)

/-- The codec of a layout, built on a library. Without parity shards no
coder is made. Nothing is given where making the coder does not come
back. -/
def codec? (lib : Library) (layout : Layout) : Option (Except Error Codec) :=
  match layout.check with
  | .error error => some (.error error)
  | .ok () =>
    if layout.parityShards.toNat = 0 then
      some (.ok ⟨layout.totalShards, lib.shards layout none⟩)
    else
      match lib.make layout.dataShards.toNat layout.parityShards.toNat with
      | none => none
      | some (.error fault) => some (.error (.encode (.shape fault)))
      | some (.ok coder) => some (.ok ⟨layout.totalShards, lib.shards layout (some coder)⟩)

end Library

variable {dataShards parityShards size : Nat} {data : List Bytes} {layout : Layout}
variable {segment : Bytes}

/-- **The parity rows by interpolation are those by the matrix.** -/
theorem map_combine_parityWeights (hd : dataShards ≤ 256) (hcount : data.length = dataShards)
    (hdata : ∀ row ∈ data, row.length = size) :
    (parityWeights dataShards parityShards).map (fun weights => combine size weights data) =
      List.ofFn fun i : Fin parityShards =>
        parityRow (systematic (dataShards + parityShards) dataShards (Fin.natAdd dataShards i))
          size data := by
  refine List.ext_getElem (by simp [parityWeights]) fun i hi hi' => ?_
  have hlt : i < parityShards := by simpa using hi'
  rw [List.getElem_ofFn, ← combine_eq_parityRow hd _ hcount hdata]
  simp [parityWeights]

/-- The rows of a padded segment, with rows of zeros for the parity, pass
all checks. -/
theorem rowsFault?_eq_none (hd : 0 < dataShards) (hsegment : segment ≠ []) :
    rowsFault? (dataShards + parityShards) (dataRows dataShards segment ++
      List.replicate parityShards (List.replicate (shardSize dataShards segment.length) 0)) =
        none := by
  obtain ⟨hlength, hdata⟩ := dataRows_spec hd hsegment
  have hpos := shardSize_pos hd (List.length_pos_iff.2 hsegment)
  obtain ⟨first, rest, hrows⟩ := List.exists_cons_of_length_pos (hlength ▸ hd)
  have hfirst : first.length = shardSize dataShards segment.length :=
    hdata first (by rw [hrows]; exact List.mem_cons_self)
  have hne : first.isEmpty = false := by
    rw [List.isEmpty_eq_false_iff, ← List.length_pos_iff, hfirst]
    exact hpos
  have hcount : (dataRows dataShards segment ++ List.replicate parityShards
      (List.replicate (shardSize dataShards segment.length) 0)).length =
        dataShards + parityShards := by
    rw [List.length_append, List.length_replicate, hlength]
  have hhead : (dataRows dataShards segment ++ List.replicate parityShards
      (List.replicate (shardSize dataShards segment.length) 0)).headD [] = first := by
    rw [hrows]
    rfl
  have hsizes : (dataRows dataShards segment ++ List.replicate parityShards
      (List.replicate (shardSize dataShards segment.length) 0)).any (·.length ≠ first.length) =
        false := by
    rw [List.any_eq_false]
    intro row hrow
    have hsize : row.length = shardSize dataShards segment.length := by
      rcases List.mem_append.1 hrow with hrow | hrow
      · exact hdata row hrow
      · rw [List.eq_of_mem_replicate hrow, List.length_replicate]
    simp [hsize, hfirst]
  rw [rowsFault?, hcount, hhead, hne, hsizes]
  simp

/-- So filling them in gives the rows of the segment. -/
theorem fill_dataRows (hlayout : layout.Valid) (hsegment : segment ≠ []) :
    fill layout.dataShards.toNat layout.parityShards.toNat
      (dataRows layout.dataShards.toNat segment ++ List.replicate layout.parityShards.toNat
        (List.replicate (shardSize layout.dataShards.toNat segment.length) 0)) =
      .ok (rows layout segment) := by
  have hd := hlayout.1
  have hle := hlayout.dataShards_le
  obtain ⟨hlength, hdata⟩ := dataRows_spec hd hsegment
  have htake : ∀ zeros : List Bytes, (dataRows layout.dataShards.toNat segment ++ zeros).take
      layout.dataShards.toNat = dataRows layout.dataShards.toNat segment :=
    fun _ => List.take_left' hlength
  have hhead : ∀ zeros : List Bytes,
      ((dataRows layout.dataShards.toNat segment ++ zeros).headD []).length =
        shardSize layout.dataShards.toNat segment.length := by
    intro zeros
    obtain ⟨first, rest, hrows⟩ := List.exists_cons_of_length_pos (hlength ▸ hd)
    rw [hrows]
    exact hdata first (by rw [hrows]; exact List.mem_cons_self)
  rw [fill, rowsFault?_eq_none hd hsegment]
  simp only [htake, hhead]
  rw [rows, map_combine_parityWeights hle hlength hdata]

namespace Library

variable {lib : Library}

/-- Without a coder the shards are those of the code without parity. -/
theorem shards_none (lib : Library) (hparity : layout.parityShards.toNat = 0) (segment : Bytes) :
    lib.shards layout none segment = ReedSolomon.encode layout segment := by
  by_cases hsegment : segment = []
  · subst hsegment
    rfl
  · have hempty : segment.isEmpty = false := by simpa using hsegment
    have hrows : rows layout segment = dataRows layout.dataShards.toNat segment := by
      rw [rows, parityWeights, hparity]
      simp
    rw [shards, hempty, encode_of_ne_nil layout hsegment, hrows]
    rfl

/-- With a coder that fills in parity they are those of the code. -/
theorem shards_some {coder : lib.Coder} (hlayout : layout.Valid)
    (hcoder : ∀ rows, lib.encode coder rows =
      fill layout.dataShards.toNat layout.parityShards.toNat rows) (segment : Bytes) :
    lib.shards layout (some coder) segment = ReedSolomon.encode layout segment := by
  by_cases hsegment : segment = []
  · subst hsegment
    rfl
  · have hempty : segment.isEmpty = false := by simpa using hsegment
    rw [shards, hempty, encode_of_ne_nil layout hsegment]
    simp only [hcoder, fill_dataRows hlayout hsegment]
    rfl

/-- **Whatever library is used, making the codec comes back, with the codec
of the layout or the layout's error.** -/
theorem codec?_eq (hlib : lib.Documented) (layout : Layout) :
    lib.codec? layout = some (codec layout) := by
  rw [codec?, codec]
  cases hcheck : layout.check with
  | error error => rfl
  | ok _ =>
    have hlayout : layout.Valid := Layout.check_eq_ok_iff.1 hcheck
    obtain ⟨hd, htotal⟩ := hlayout
    rw [Layout.totalShards, Layout.maxShards] at htotal
    by_cases hparity : layout.parityShards.toNat = 0
    · have hshards : lib.shards layout none = (codecOf layout).encode :=
        funext (lib.shards_none hparity)
      simp only [hparity, if_true, hshards]
      rfl
    · have hcounts : countsFault? layout.dataShards.toNat layout.parityShards.toNat = none := by
        rw [countsFault?, if_neg (by omega), if_neg hparity, if_neg (by omega)]
      have hunit : IsUnit (vandermonde layout.dataShards.toNat layout.dataShards.toNat).det :=
        isUnit_iff_ne_zero.2 (det_vandermonde_ne_zero (by omega))
      obtain ⟨coder, hmake, hcoder⟩ := hlib.makes _ _ hcounts hunit
      have hshards : lib.shards layout (some coder) = (codecOf layout).encode :=
        funext (shards_some (Layout.check_eq_ok_iff.1 hcheck) hcoder)
      simp only [hparity, if_false, hmake, hshards]
      rfl

/-- A valid layout has its codec. -/
theorem codec?_of_valid (hlib : lib.Documented) (hlayout : layout.Valid) :
    lib.codec? layout = some (.ok (codecOf layout)) := by
  rw [codec?_eq hlib, codec_of_valid hlayout]

/-- A library that computes parity by interpolation. -/
def interpolating : Library where
  Coder := Nat × List (List Gf256)
  make dataShards parityShards :=
    match countsFault? dataShards parityShards with
    | some fault => some (.error fault)
    | none => some (.ok (dataShards, parityWeights dataShards parityShards))
  encode coder rows :=
    match rowsFault? (coder.1 + coder.2.length) rows with
    | some fault => .error fault
    | none => .ok (rows.take coder.1 ++ coder.2.map fun weights =>
        combine (rows.headD []).length weights (rows.take coder.1))

/-- Rows that pass the checks are as many as expected and of one size. -/
theorem rows_of_rowsFault? {total : Nat} {rows : List Bytes} (h : rowsFault? total rows = none) :
    rows.length = total ∧ ∀ row ∈ rows, row.length = (rows.headD []).length := by
  unfold rowsFault? at h
  split at h
  · simp at h
  · split at h
    · simp at h
    · split at h
      · simp at h
      · split at h
        · simp at h
        · next hfew hmany _ hsizes =>
          refine ⟨by omega, fun row hrow => ?_⟩
          rw [Bool.not_eq_true, List.any_eq_false] at hsizes
          simpa using hsizes row hrow

/-- Numbers that are accepted are those of a layout with parity. -/
theorem counts_of_countsFault? (h : countsFault? dataShards parityShards = none) :
    0 < dataShards ∧ 0 < parityShards ∧ dataShards + parityShards ≤ 256 := by
  unfold countsFault? at h
  split at h
  · simp at h
  · split at h
    · simp at h
    · split at h
      · simp at h
      · omega

/-- **And it behaves as documented.** -/
theorem documented_interpolating : interpolating.Documented where
  refuses dataShards parityShards fault hfault := by simp only [interpolating, hfault]
  sticks dataShards parityShards hcounts hunit := by
    obtain ⟨-, -, htotal⟩ := counts_of_countsFault? hcounts
    exact absurd (isUnit_iff_ne_zero.2 (det_vandermonde_ne_zero (by omega))) hunit
  makes dataShards parityShards hcounts hunit := by
    obtain ⟨-, -, htotal⟩ := counts_of_countsFault? hcounts
    refine ⟨(dataShards, parityWeights dataShards parityShards), by simp only [interpolating, hcounts],
      fun rows => ?_⟩
    have hlength : (parityWeights dataShards parityShards).length = parityShards := by
      simp [parityWeights]
    simp only [interpolating, fill, hlength]
    cases hfault : rowsFault? (dataShards + parityShards) rows with
    | some fault => rfl
    | none =>
      obtain ⟨hcount, hsizes⟩ := rows_of_rowsFault? hfault
      have htake : (rows.take dataShards).length = dataShards := List.length_take_of_le (by omega)
      rw [map_combine_parityWeights (by omega) htake
        fun row hrow => hsizes row (List.mem_of_mem_take hrow)]

end Library

end ReedSolomon

end ErasureDigest

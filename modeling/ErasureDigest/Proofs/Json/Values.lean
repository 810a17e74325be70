import ErasureDigest.Json.Values
import ErasureDigest.Proofs.Digest.HexText
import ErasureDigest.Proofs.Json.Reading

/-!
# Domain values, written and read as JSON

A digest and a profile are read off every text that stands for what they are
written as, whatever the order of the fields, the case of hexadecimal digits and
the other fields among them (`Digest.reads_ofJson`, `Profile.reads_ofJson`).
-/

namespace ErasureDigest

open Json.Reader

/-! ## Checksums and names -/

/-- Digits of either case are read. -/
theorem Checksum.reads_ofJson {text : String} {c : Checksum}
    (h : text.toList.map Char.toLower = c.digits) : Reads ofJson (.text text) c := by
  intro chars hwrites count before rest hbefore hrest hcount
  have htext := reads_text text chars hwrites count before rest hbefore hrest hcount
  rw [ofJson, bind_of_ok htext, ofHex_of_toLower h]
  rfl

theorem Redundancy.reads_ofJson (r : Redundancy) : Reads ofJson r.toJson r :=
  reads_variant (by cases r <;> rfl)

theorem Strategy.reads_ofJson (s : Strategy) : Reads ofJson s.toJson s :=
  reads_variant (by cases s <;> rfl)

/-! ## Layouts and profiles -/

namespace Layout

/-- What has been read of a layout. -/
def draft (l : Layout) (names : List String) : Draft :=
  ⟨given names "data_shards" l.dataShards, given names "parity_shards" l.parityShards⟩

theorem reads_ofJson (l : Layout) : Reads ofJson l.toJson l := by
  refine reads_record (⟨?_, by simp, rfl, ?_⟩ : Assembles jsonFields _ _ _ l.draft l)
    "ErasureConfig"
  · refine .cons ?_ (.cons ?_ .nil)
    · exact fits_field _ (reads_natural _ _) (fun _ => rfl) (fun _ => by simp [draft])
    · exact fits_field _ (reads_natural _ _) (fun _ => rfl) (fun _ => by simp [draft])
  · intro names hnames
    simp only [List.forall_mem_cons] at hnames
    simp [draft, given_of_mem, hnames]

end Layout

namespace Profile

/-- What has been read of a profile. -/
def draft (p : Profile) (names : List String) : Draft :=
  ⟨given names "segment_size" p.segmentSize, given names "erasure" p.layout⟩

theorem reads_ofJson (p : Profile) : Reads ofJson p.toJson p := by
  refine reads_record (⟨?_, by simp, rfl, ?_⟩ : Assembles jsonFields _ _ _ p.draft p) "HashConfig"
  · refine .cons ?_ (.cons ?_ .nil)
    · exact fits_field _ (reads_natural _ _) (fun _ => rfl) (fun _ => by simp [draft])
    · exact fits_field _ p.layout.reads_ofJson (fun _ => rfl) (fun _ => by simp [draft])
  · intro names hnames
    simp only [List.forall_mem_cons] at hnames
    simp [draft, given_of_mem, hnames]

end Profile

/-! ## Digests -/

namespace Digest

/-- What has been read of a digest. -/
def draft (d : Digest) (names : List String) : Draft :=
  ⟨given names "integrity_hashes" d.roots, given names "content_length" d.contentLength,
    given names "redundancy_type" d.redundancy⟩

/-- A digest as a record whose roots are given by some texts. -/
def toJsonOf (d : Digest) (texts : List String) : Json :=
  .record [("integrity_hashes", .list (texts.map .text)),
    ("content_length", .number d.contentLength), ("redundancy_type", d.redundancy.toJson)]

theorem reads_toJsonOf (d : Digest) {texts : List String}
    (htexts : List.Forall₂ (fun text root => text.toList.map Char.toLower = root.digits)
      texts d.roots) : Reads ofJson (d.toJsonOf texts) d := by
  have hroots : List.Forall₂ (Reads Checksum.ofJson) (texts.map .text) d.roots := by
    rw [List.forall₂_map_left_iff]
    exact htexts.imp fun _ _ => Checksum.reads_ofJson
  refine reads_record (⟨?_, by simp, rfl, ?_⟩ : Assembles jsonFields _ _ _ d.draft d)
    "IntegrityResult"
  · refine .cons ?_ (.cons ?_ (.cons ?_ .nil))
    · exact fits_field _ (reads_sequence hroots) (fun _ => rfl) (fun _ => by simp [draft])
    · exact fits_field _ (reads_natural _ _) (fun _ => rfl) (fun _ => by simp [draft])
    · exact fits_field _ d.redundancy.reads_ofJson (fun _ => rfl) (fun _ => by simp [draft])
  · intro names hnames
    simp only [List.forall_mem_cons] at hnames
    simp [draft, given_of_mem, hnames]

/-- What a digest is written as gives its roots in lower case. -/
theorem toJson_eq (d : Digest) : d.toJson = d.toJsonOf (d.roots.map Checksum.toHex) := by
  rw [toJsonOf, List.map_map]
  rfl

theorem forall₂_toHex (roots : List Checksum) :
    List.Forall₂ (fun text root => text.toList.map Char.toLower = root.digits)
      (roots.map Checksum.toHex) roots := by
  rw [List.forall₂_map_left_iff]
  exact List.forall₂_same.2 fun root _ => root.map_toLower_toHex

theorem reads_ofJson (d : Digest) : Reads ofJson d.toJson d := by
  rw [toJson_eq]
  exact d.reads_toJsonOf (forall₂_toHex d.roots)

end Digest

/-- **Reading undoes writing.** A digest and a profile are read off what they are
written as, and off every text that says the same: with the fields in another
order, other fields among them, and the digits of the roots in either case. -/
theorem Json.read_of_written :
    (∀ d : Digest, Json.read Digest.ofJson d.toJson.toCompact = .ok d) ∧
    (∀ p : Profile, Json.read Profile.ofJson p.toJson.toCompact = .ok p) ∧
    (∀ (d : Digest) (texts : List String) (text : String),
      List.Forall₂ (fun text root => text.toList.map Char.toLower = root.digits) texts d.roots →
      Json.IsTextOf (d.toJsonOf texts) text → Json.read Digest.ofJson text = .ok d) ∧
    (∀ (p : Profile) (text : String),
      Json.IsTextOf p.toJson text → Json.read Profile.ofJson text = .ok p) := by
  refine ⟨?_, ?_, ?_, ?_⟩
  · intro d
    exact read_of_isTextOf d.reads_ofJson (isTextOf_toCompact _)
  · intro p
    exact read_of_isTextOf p.reads_ofJson (isTextOf_toCompact _)
  · intro d texts text htexts htext
    exact read_of_isTextOf (d.reads_toJsonOf htexts) htext
  · intro p text htext
    exact read_of_isTextOf p.reads_ofJson htext

/-- Fields in reverse, another field among them, blanks, and digits in capitals. -/
theorem Json.read_of_reversed :
    Json.read Digest.ofJson
        (" \x7b\"redundancy_type\" :\"erasure_coded\",\"note\":[-2.5e3,null]," ++
          "\"content_length\": 18446744073709551615,\"integrity_hashes\":[\"" ++
          String.ofList (List.replicate 64 'A') ++ "\"]\x7d") =
      .ok ⟨[⟨List.replicate 32 0xaa, rfl⟩], 18446744073709551615, .erasureCoded⟩ ∧
    Json.read Profile.ofJson
        "\x7b\"erasure\":\x7b\"parity_shards\":2,\"data_shards\":0\x7d,\"segment_size\":7\x7d" =
      .ok ⟨7, ⟨0, 2⟩⟩ := by
  obtain ⟨-, -, hdigest, hprofile⟩ := Json.read_of_written
  have hself := Json.spaced_self
  have hafter (chars : List Char) : Json.Spaced chars (chars ++ [' ']) :=
    ⟨[], [' '], Json.isBlank_nil, Json.isBlank_space, rfl⟩
  have hbefore (chars : List Char) : Json.Spaced chars (' ' :: chars) :=
    ⟨[' '], [], Json.isBlank_space, Json.isBlank_nil, by simp⟩
  constructor
  · have hnumber : Json.IsUnsigned ['2', '.', '5', 'e', '3'] :=
      ⟨['2'], ['.', '5'], ['e', '3'], Or.inr ⟨⟨by simp, by simp⟩, by simp⟩,
        Or.inr ⟨['5'], ⟨by simp, by simp⟩, rfl⟩,
        Or.inr ⟨'e', [], ['3'], by simp, by simp, ⟨by simp, by simp⟩, rfl⟩, rfl⟩
    have hnull : Json.Derives .value ['n', 'u', 'l', 'l'] := .word (by decide)
    have hnote := Json.Derives.list
      (.item (.negative hnumber) (hself _) (.lastItem hnull (hself _)))
    have hroots := Json.writes_compact (.list [.text (String.ofList (List.replicate 64 'A'))])
    have hlast := @Json.Writes.lastField ["integrity_hashes", "content_length", "redundancy_type"]
      ("integrity_hashes", _) _ _ _ _ (Json.quotes_quote _) (hself _) hroots (hself _)
    have hlength := @Json.Writes.field _ [("integrity_hashes", _)] [] ("content_length", _)
      _ _ _ _ _ (Json.quotes_quote _) (hself _) (.number 18446744073709551615) (hbefore _) hlast
    have hother := @Json.Writes.other _ _ "note" _ _ _ _ _ (by decide)
      (Json.quotes_quote _) (hself _) hnote (hself _) hlength
    have hfirst := @Json.Writes.field _ [("integrity_hashes", _), ("content_length", _)] []
      ("redundancy_type", _) _ _ _ _ _ (Json.quotes_quote _) (hafter _)
      (.text (Json.quotes_quote "erasure_coded")) (hself _) hother
    exact hdigest _ [String.ofList (List.replicate 64 'A')] _ (.cons (by decide) .nil)
      ⟨_, _, .record hfirst, hbefore _, by decide +kernel⟩
  · have hdata := @Json.Writes.lastField ["data_shards", "parity_shards"] ("data_shards", _)
      _ _ _ _ (Json.quotes_quote _) (hself _) (.number 0) (hself _)
    have hlayout := @Json.Writes.field _ [("data_shards", _)] [] ("parity_shards", _) _ _ _ _ _
      (Json.quotes_quote _) (hself _) (.number 2) (hself _) hdata
    have herasure :=
      @Json.Writes.record [("data_shards", .number 0), ("parity_shards", .number 2)] _ hlayout
    have hlast := @Json.Writes.lastField ["segment_size", "erasure"] ("segment_size", _)
      _ _ _ _ (Json.quotes_quote _) (hself _) (.number 7) (hself _)
    have hfirst := @Json.Writes.field _ [("segment_size", _)] [] ("erasure", _) _ _ _ _ _
      (Json.quotes_quote _) (hself _) herasure (hself _) hlast
    exact hprofile ⟨7, ⟨0, 2⟩⟩ _ ⟨_, _, .record hfirst, hself _, by decide +kernel⟩

end ErasureDigest

import ErasureDigest.Error

/-!
# Checksums as text

Digits of either case spell the bytes that the digits in lower case were written
for (`Hex.decode_of_toLower`). So what is a checksum's text but for the case of
letters is read as that checksum (`Checksum.ofHex_of_toLower`), the text it is
written as among them (`Checksum.ofHex_toHex`).

Nothing else is (`Checksum.ofHex_cases`). Digits are read character by character,
but a text is refused for its length in bytes, or for a byte of it. The two views
agree: a digit is one byte, and any other character starts with a byte that is no
digit (`Bytes.find?_utf8EncodeChar`).
-/

namespace ErasureDigest

namespace Hex

theorem toNat_digit_lt {n : Nat} (h : n < 16) : (digit n).toNat < 128 := by
  have hlt : ∀ m < 16, (digit m).toNat < 128 := by decide
  exact hlt n h

/-- Beyond ASCII no character has another case. -/
theorem toLower_of_le {c : Char} (h : 128 ≤ c.toNat) : c.toLower = c := by
  have hupper : ¬(c.val ≥ 'A'.val ∧ c.val ≤ 'Z'.val) := by
    rintro ⟨-, hle⟩
    have hle : c.toNat ≤ 90 := UInt32.le_iff_toNat_le.1 hle
    omega
  exact dif_neg hupper

/-- A digit of either case, by its lower case. -/
theorem value?_of_toLower {c : Char} {n : Nat} (hn : n < 16) (h : c.toLower = digit n) :
    value? c = some n ∧ c.utf8Size = 1 := by
  have hascii : ∀ k < 128, ∀ n < 16, (Char.ofNat k).toLower = digit n →
      value? (Char.ofNat k) = some n ∧ (Char.ofNat k).utf8Size = 1 := by decide +kernel
  rcases Nat.lt_or_ge c.toNat 128 with hlt | hle
  · have hc := hascii c.toNat hlt n hn
    rw [Char.ofNat_toNat] at hc
    exact hc h
  · have hdigit := toNat_digit_lt hn
    rw [← h, toLower_of_le hle] at hdigit
    omega

theorem toLower_digit {n : Nat} (h : n < 16) : (digit n).toLower = digit n := by
  have hlower : ∀ m < 16, (digit m).toLower = digit m := by decide
  exact hlower n h

/-- **Digits of either case spell what they spell in lower case**, and each is one
byte of text. -/
theorem decode_of_toLower {text : List Char} {bytes : Bytes}
    (h : text.map Char.toLower = encode bytes) :
    decode text = .ok bytes ∧ ∀ c ∈ text, c.utf8Size = 1 := by
  induction bytes generalizing text with
  | nil =>
    obtain rfl : text = [] := List.map_eq_nil_iff.1 h
    exact ⟨rfl, nofun⟩
  | cons b bytes ih =>
    have hbyte : b.toNat < 256 := b.toNat_lt
    obtain ⟨hi, text, rfl, hhi, h⟩ := List.map_eq_cons_iff.1 h
    obtain ⟨lo, text, rfl, hlo, h⟩ := List.map_eq_cons_iff.1 h
    obtain ⟨hhigh, hhighsize⟩ := value?_of_toLower (by omega) hhi
    obtain ⟨hlow, hlowsize⟩ := value?_of_toLower (by omega) hlo
    obtain ⟨hdecode, hsize⟩ := ih h
    refine ⟨?_, ?_⟩
    · simp only [decode, hhigh, hlow, hdecode, bind, Except.bind, pure, Except.pure]
      rw [Nat.div_add_mod, UInt8.ofNat_toNat]
    · intro c hc
      rcases List.mem_cons.1 hc with rfl | hc
      · exact hhighsize
      · rcases List.mem_cons.1 hc with rfl | hc
        · exact hlowsize
        · exact hsize c hc

theorem map_toLower_encode (bytes : Bytes) : (encode bytes).map Char.toLower = encode bytes := by
  induction bytes with
  | nil => rfl
  | cons b bytes ih =>
    have hbyte : b.toNat < 256 := b.toNat_lt
    simp only [encode, List.flatMap_cons, List.map_append] at ih ⊢
    rw [ih, ofByte, List.map_cons, List.map_cons, List.map_nil, toLower_digit (by omega),
      toLower_digit (by omega)]

end Hex

/-- Characters of one byte each are as many as the bytes of the text. -/
theorem utf8ByteSize_of_forall {text : List Char} (h : ∀ c ∈ text, c.utf8Size = 1) :
    (String.ofList text).utf8ByteSize = text.length := by
  induction text with
  | nil => rfl
  | cons c rest ih =>
    have hrest := ih fun d hd => h d (List.mem_cons_of_mem c hd)
    rw [String.ofList_cons, String.utf8ByteSize_append, String.utf8ByteSize_singleton,
      h c List.mem_cons_self, hrest, List.length_cons, Nat.add_comm]

namespace Checksum

/-- **A checksum is read off its digits in either case.** -/
theorem ofHex_of_toLower {text : String} {c : Checksum}
    (h : text.toList.map Char.toLower = c.digits) : ofHex text = .ok c := by
  obtain ⟨hdecode, hsize⟩ := Hex.decode_of_toLower h
  have hlength : text.toList.length = 64 := by
    rw [← List.length_map, h, digits, Hex.length_encode, c.length_bytes]
  have hsizes : text.utf8ByteSize = 64 := by
    rw [← hlength, ← utf8ByteSize_of_forall hsize, String.ofList_toList]
  rw [ofHex, parse, if_neg (by simp [hsizes]), hdecode]
  simp only [ofBytes?, c.length_bytes, dite_true]
  rfl

/-- The text of a checksum is in lower case. -/
theorem map_toLower_toHex (c : Checksum) : c.toHex.toList.map Char.toLower = c.digits := by
  rw [toHex, String.toList_ofList]
  exact Hex.map_toLower_encode c.bytes

theorem ofHex_toHex (c : Checksum) : ofHex c.toHex = .ok c :=
  ofHex_of_toLower c.map_toLower_toHex

end Checksum

/-! ## What is no digit -/

namespace Hex

/-- The digits of either case. -/
def alphabet : String := "0123456789abcdefABCDEF"

variable {text : List Char} {bytes : Bytes} {c : Char} {n : Nat}

theorem toNat_lt_of_mem_alphabet (h : c ∈ alphabet.toList) : c.toNat < 128 := by
  have hlt : alphabet.toList.all (·.toNat < 128) = true := by decide +kernel
  exact of_decide_eq_true (List.all_eq_true.1 hlt c h)

theorem utf8Size_of_mem_alphabet (h : c ∈ alphabet.toList) : c.utf8Size = 1 := by
  have hlt : c.val.toNat < 128 := toNat_lt_of_mem_alphabet h
  exact Char.utf8Size_eq_one_iff.2 (UInt32.le_iff_toNat_le.2 (Nat.le_of_lt_succ hlt))

theorem toNat_lt_of_value? (h : value? c = some n) : c.toNat < 128 := by
  have hle {d : Char} (hd : d.toNat < 128) (hc : c ≤ d) : c.toNat < 128 :=
    Nat.lt_of_le_of_lt (UInt32.le_iff_toNat_le.1 hc) hd
  rw [value?] at h
  split at h
  · next hdigit => exact hle (by decide) hdigit.2
  split at h
  · next hlower => exact hle (by decide) hlower.2
  split at h
  · next hupper => exact hle (by decide) hupper.2
  · cases h

/-- A value is that of its digit, in either case, and of nothing else. -/
theorem value?_eq_some_iff : value? c = some n ↔ n < 16 ∧ c.toLower = digit n := by
  constructor
  · intro h
    have hascii : ∀ k < 128, ∀ v ∈ value? (Char.ofNat k),
        v < 16 ∧ (Char.ofNat k).toLower = digit v := by decide +kernel
    have hc := hascii c.toNat (toNat_lt_of_value? h) n
    rw [Char.ofNat_toNat] at hc
    exact hc h
  · rintro ⟨hn, hlower⟩
    exact (value?_of_toLower hn hlower).1

/-- The digits are the characters that have a value. -/
theorem not_mem_alphabet_iff : c ∉ alphabet.toList ↔ value? c = none := by
  have hascii : ∀ k < 128, Char.ofNat k ∉ alphabet.toList ↔ value? (Char.ofNat k) = none := by
    decide +kernel
  rcases Nat.lt_or_ge c.toNat 128 with hlt | hle
  · have hc := hascii c.toNat hlt
    rwa [Char.ofNat_toNat] at hc
  · refine iff_of_true (fun hmem => ?_) (Option.eq_none_iff_forall_ne_some.2 fun n hn => ?_)
    · exact absurd (toNat_lt_of_mem_alphabet hmem) (by omega)
    · exact absurd (toNat_lt_of_value? hn) (by omega)

/-- **A text is refused for its first character that is no digit.** -/
theorem decode_eq_error_iff :
    decode text = .error c ↔ text.find? (· ∉ alphabet.toList) = some c := by
  simp only [not_mem_alphabet_iff]
  induction text using decode.induct with
  | case1 hi lo rest hhi => simp [decode, hhi]
  | case2 hi lo rest high hhi hlo => simp [decode, hhi, hlo]
  | case3 hi lo rest high low hlo hhi ih =>
    rw [List.find?_cons_of_neg (by simp [hhi]), List.find?_cons_of_neg (by simp [hlo]), ← ih]
    simp only [decode, hhi, hlo]
    cases decode rest <;> simp [bind, Except.bind, pure, Except.pure]
  | case4 last hlast =>
    obtain ⟨n, hn⟩ := Option.isSome_iff_exists.1 hlast
    simp [decode, hn]
  | case5 last hlast =>
    rw [Option.not_isSome_iff_eq_none] at hlast
    simp [decode, hlast]
  | case6 => simp [decode]

/-- A text that is read holds digits only. -/
theorem mem_alphabet_of_decode (h : decode text = .ok bytes) :
    ∀ c ∈ text, c ∈ alphabet.toList := by
  intro c hc
  have hnone : text.find? (· ∉ alphabet.toList) = none := by
    cases hfind : text.find? (· ∉ alphabet.toList) with
    | none => rfl
    | some first =>
      rw [decode_eq_error_iff.2 hfind] at h
      cases h
  simpa using List.find?_eq_none.1 hnone c hc

/-- Bytes that were read are written as the text in lower case, if no digit was left
over. -/
theorem encode_of_decode (h : decode text = .ok bytes) (hpairs : text.length = 2 * bytes.length) :
    encode bytes = text.map Char.toLower := by
  induction text using decode.induct generalizing bytes with
  | case1 hi lo rest hhi => simp [decode, hhi] at h
  | case2 hi lo rest high hhi hlo => simp [decode, hhi, hlo] at h
  | case3 hi lo rest high low hlo hhi ih =>
    obtain ⟨hhigh, hhilower⟩ := value?_eq_some_iff.1 hhi
    obtain ⟨hlow, hlolower⟩ := value?_eq_some_iff.1 hlo
    simp only [decode, hhi, hlo] at h
    cases htail : decode rest with
    | error c => simp [htail, bind, Except.bind] at h
    | ok tail =>
      simp only [htail, bind, Except.bind, pure, Except.pure, Except.ok.injEq] at h
      subst h
      have hrest := ih htail (by simp only [List.length_cons] at hpairs; omega)
      have hbyte : (UInt8.ofNat (16 * high + low)).toNat = 16 * high + low := by
        rw [UInt8.toNat_ofNat']
        omega
      have hfirst : (16 * high + low) / 16 = high := by omega
      have hsecond : (16 * high + low) % 16 = low := by omega
      rw [encode, List.flatMap_cons, ofByte, hbyte, hfirst, hsecond, List.map_cons, List.map_cons,
        hhilower, hlolower, ← hrest]
      rfl
  | case4 last hlast =>
    rw [decode, if_pos hlast] at h
    cases h
    cases hpairs
  | case5 last hlast => simp [decode, hlast] at h
  | case6 =>
    cases h
    rfl

end Hex

namespace Bytes

variable {c : Char}

/-- The bytes of a text are those of its characters in order. -/
theorem ofText_eq_flatMap (text : String) :
    ofText text = text.toList.flatMap String.utf8EncodeChar := by
  rw [ofText, String.toUTF8_eq_toByteArray, ← String.utf8Encode_toList, List.utf8Encode,
    List.toList_data_toByteArray]

/-- In ASCII a character is the byte with its number. -/
theorem utf8EncodeChar_of_lt (h : c.toNat < 128) :
    String.utf8EncodeChar c = [UInt8.ofNat c.toNat] := by
  have hval : c.val.toNat = c.toNat := rfl
  rw [String.utf8EncodeChar, if_pos (by omega)]
  rfl

/-- Beyond ASCII a character starts with a byte beyond ASCII. -/
theorem utf8EncodeChar_of_le (h : 128 ≤ c.toNat) :
    ∃ first rest, String.utf8EncodeChar c = first :: rest ∧ 128 ≤ first.toNat := by
  have hval : c.val.toNat = c.toNat := rfl
  simp only [String.utf8EncodeChar, hval]
  rw [if_neg (by omega)]
  split
  · exact ⟨_, _, rfl, by rw [UInt8.toNat_ofNat']; omega⟩
  split
  · exact ⟨_, _, rfl, by rw [UInt8.toNat_ofNat']; omega⟩
  · exact ⟨_, _, rfl, by rw [UInt8.toNat_ofNat']; omega⟩

/-- **A digit has no byte that is none, and any other character starts with one.** -/
theorem find?_utf8EncodeChar (c : Char) :
    (String.utf8EncodeChar c).find? (· ∉ ofText Hex.alphabet) =
      if c ∈ Hex.alphabet.toList then none else some ((String.utf8EncodeChar c).headD 0) := by
  rcases Nat.lt_or_ge c.toNat 128 with hlt | hle
  · have hascii : ∀ k < 128,
        UInt8.ofNat k ∈ ofText Hex.alphabet ↔ Char.ofNat k ∈ Hex.alphabet.toList := by
      decide +kernel
    have hdigit := hascii c.toNat hlt
    rw [Char.ofNat_toNat] at hdigit
    rw [utf8EncodeChar_of_lt hlt]
    by_cases hc : c ∈ Hex.alphabet.toList
    · rw [if_pos hc, List.find?_cons_of_neg (by simp [hdigit, hc]), List.find?_nil]
    · rw [if_neg hc, List.find?_cons_of_pos (by simp [hdigit, hc]), List.headD_cons]
  · obtain ⟨first, rest, hbytes, hfirst⟩ := utf8EncodeChar_of_le hle
    have hascii : (ofText Hex.alphabet).all (·.toNat < 128) = true := by decide +kernel
    have hne : first ∉ ofText Hex.alphabet := fun hmem => by
      have hlt := of_decide_eq_true (List.all_eq_true.1 hascii first hmem)
      omega
    have hc : c ∉ Hex.alphabet.toList := fun hmem => by
      have hlt := Hex.toNat_lt_of_mem_alphabet hmem
      omega
    rw [if_neg hc, hbytes, List.find?_cons_of_pos (by simpa using hne), List.headD_cons]

/-- So the first byte that is no digit starts the first character that is none. -/
theorem find?_flatMap_utf8EncodeChar {chars : List Char}
    (h : chars.find? (· ∉ Hex.alphabet.toList) = some c) :
    (chars.flatMap String.utf8EncodeChar).find? (· ∉ ofText Hex.alphabet) =
      some ((String.utf8EncodeChar c).headD 0) := by
  induction chars with
  | nil => cases h
  | cons char rest ih =>
    rw [List.flatMap_cons, List.find?_append, find?_utf8EncodeChar]
    by_cases hchar : char ∈ Hex.alphabet.toList
    · rw [List.find?_cons_of_neg (by simpa using hchar)] at h
      rw [if_pos hchar, Option.none_or, ih h]
    · rw [List.find?_cons_of_pos (by simpa using hchar)] at h
      cases h
      rw [if_neg hchar, Option.some_or]

end Bytes

namespace Checksum

/-! ## Every text -/

/-- A text of exactly 64 digits, of either case. -/
def IsSpelling (text : String) : Prop :=
  text.length = 64 ∧ ∀ char ∈ text.toList, char ∈ Hex.alphabet.toList

/-- Digits are as many as the bytes of the text. -/
theorem utf8ByteSize_of_digits {text : String}
    (h : ∀ char ∈ text.toList, char ∈ Hex.alphabet.toList) : text.utf8ByteSize = text.length := by
  rw [← String.length_toList,
    ← utf8ByteSize_of_forall fun c hc => Hex.utf8Size_of_mem_alphabet (h c hc),
    String.ofList_toList]

/-- **A text spells a checksum, or is refused for its length, or for a byte of it.** -/
theorem ofHex_cases (text : String) :
    (IsSpelling text ∧ ∃ c, ofHex text = .ok c ∧ c.toHex = text.toLower) ∨
      ¬IsSpelling text ∧
        ((text.utf8ByteSize ≠ 64 ∧
            ofHex text = .error (.configuration (.checksumText (.length text.utf8ByteSize)))) ∨
          (text.utf8ByteSize = 64 ∧
            ∃ byte, (Bytes.ofText text).find? (· ∉ Bytes.ofText Hex.alphabet) = some byte ∧
              ofHex text = .error (.configuration (.checksumText (.digit byte))))) := by
  rw [ofHex, parse]
  by_cases hsize : text.utf8ByteSize = 64
  · rw [if_neg (not_not_intro hsize)]
    cases hdecode : Hex.decode text.toList with
    | error char =>
      have hchar := Hex.decode_eq_error_iff.1 hdecode
      have hbyte := Bytes.find?_flatMap_utf8EncodeChar hchar
      rw [← Bytes.ofText_eq_flatMap] at hbyte
      have hnot : char ∉ Hex.alphabet.toList := by simpa using List.find?_some hchar
      exact Or.inr ⟨fun hspelling => hnot (hspelling.2 char (List.mem_of_find?_eq_some hchar)),
        Or.inr ⟨hsize, _, hbyte, rfl⟩⟩
    | ok bytes =>
      have hdigits := Hex.mem_alphabet_of_decode hdecode
      have hlength : text.length = 64 := by rw [← utf8ByteSize_of_digits hdigits, hsize]
      have hchars : text.toList.length = 64 := by rw [String.length_toList, hlength]
      have hbytes : bytes.length = 32 := by rw [Hex.length_of_decode hdecode, hchars]
      have hlower := Hex.encode_of_decode hdecode (by omega)
      refine Or.inl ⟨⟨hlength, hdigits⟩, ⟨bytes, hbytes⟩, ?_, String.toList_inj.1 ?_⟩
      · simp only [ofBytes?, hbytes, dite_true]
        rfl
      · rw [toHex, String.toList_ofList, digits, hlower]
        exact String.toList_map.symm
  · rw [if_pos hsize]
    refine Or.inr ⟨fun hspelling => hsize ?_, Or.inl ⟨hsize, rfl⟩⟩
    rw [utf8ByteSize_of_digits hspelling.2, hspelling.1]

/-- **The text of a checksum is read exactly.** A text of exactly 64 digits, of either
case, spells a checksum, which is written as the text in lower case; and every checksum
is read off what it is written as. Any other text is refused: for its length, if that is
not 64 bytes, and else for its first byte that is no digit. -/
theorem ofHex_of_every_text :
    (∀ text, (∃ c, ofHex text = .ok c) ↔ IsSpelling text) ∧
    (∀ text c, ofHex text = .ok c → c.toHex = text.toLower) ∧
    (∀ c, ofHex c.toHex = .ok c) ∧
    ∀ text, ¬IsSpelling text →
      (text.utf8ByteSize ≠ 64 →
        ofHex text = .error (.configuration (.checksumText (.length text.utf8ByteSize)))) ∧
      (text.utf8ByteSize = 64 →
        ∃ byte, (Bytes.ofText text).find? (· ∉ Bytes.ofText Hex.alphabet) = some byte ∧
          ofHex text = .error (.configuration (.checksumText (.digit byte)))) := by
  refine ⟨fun text => ?_, fun text c h => ?_, ofHex_toHex, fun text hnot => ?_⟩
  · rcases ofHex_cases text with ⟨hspelling, c, hread, -⟩ | ⟨hnot, hrefused⟩
    · exact iff_of_true ⟨c, hread⟩ hspelling
    · refine iff_of_false (fun ⟨c, h⟩ => ?_) hnot
      rcases hrefused with ⟨-, hread⟩ | ⟨-, byte, -, hread⟩
      · cases hread.symm.trans h
      · cases hread.symm.trans h
  · rcases ofHex_cases text with ⟨-, c', hread, hlower⟩ | ⟨-, ⟨-, hread⟩ | ⟨-, byte, -, hread⟩⟩
    · cases hread.symm.trans h
      exact hlower
    · cases hread.symm.trans h
    · cases hread.symm.trans h
  · rcases ofHex_cases text with ⟨hspelling, -⟩ | ⟨-, ⟨hsize, hread⟩ | ⟨hsize, byte, hbyte, hread⟩⟩
    · exact absurd hspelling hnot
    · exact ⟨fun _ => hread, fun h => absurd h hsize⟩
    · exact ⟨fun h => absurd hsize h, fun _ => ⟨byte, hbyte, hread⟩⟩

/-- 64 bytes can be fewer characters; of the first beyond ASCII its first byte is
told. -/
example : ofHex ("a" ++ String.ofList (List.replicate 31 'é') ++ "b") =
    .error (.configuration (.checksumText (.digit 0xc3))) := by
  rfl

end Checksum

end ErasureDigest

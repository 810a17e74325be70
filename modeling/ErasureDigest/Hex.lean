import ErasureDigest.Bytes

/-!
# Hexadecimal text

Two digits per byte, the high half first. Writing uses lower case;
reading takes either case and says nothing of the length, which its
callers fix.
-/

namespace ErasureDigest

namespace Hex

/-- The lower-case digit of a value below sixteen. -/
def digit (value : Nat) : Char :=
  if value < 10 then Char.ofNat (48 + value) else Char.ofNat (87 + value)

/-- The value of a digit of either case. -/
def value? (c : Char) : Option Nat :=
  if '0' ≤ c ∧ c ≤ '9' then some (c.toNat - 48)
  else if 'a' ≤ c ∧ c ≤ 'f' then some (c.toNat - 87)
  else if 'A' ≤ c ∧ c ≤ 'F' then some (c.toNat - 55)
  else none

/-- The two digits of a byte. -/
def ofByte (b : UInt8) : List Char :=
  [digit (b.toNat / 16), digit (b.toNat % 16)]

/-- Two digits per byte, in order. -/
def encode (bytes : Bytes) : List Char :=
  bytes.flatMap ofByte

/-- The bytes that pairs of digits spell. The first character that is no
digit is the error; a last digit without a partner spells nothing. -/
def decode : List Char → Except Char Bytes
  | hi :: lo :: rest =>
    match value? hi, value? lo with
    | none, _ => .error hi
    | some _, none => .error lo
    | some h, some l => do
      let bytes ← decode rest
      pure (UInt8.ofNat (16 * h + l) :: bytes)
  | [last] => if (value? last).isSome then .ok [] else .error last
  | [] => .ok []

theorem length_encode (bytes : Bytes) : (encode bytes).length = 2 * bytes.length := by
  induction bytes with
  | nil => rfl
  | cons b rest ih =>
    simp only [encode, List.flatMap_cons, List.length_append, List.length_cons] at ih ⊢
    simp only [ofByte, List.length_cons, List.length_nil]
    omega

/-- Decoding gives one byte per pair of digits. -/
theorem length_of_decode {text : List Char} {bytes : Bytes} (h : decode text = .ok bytes) :
    bytes.length = text.length / 2 := by
  induction text using decode.induct generalizing bytes with
  | case1 hi lo rest hhi => simp [decode, hhi] at h
  | case2 hi lo rest x hhi hlo => simp [decode, hhi, hlo] at h
  | case3 hi lo rest x y hhi hlo ih =>
    simp only [decode, hhi, hlo] at h
    cases hr : decode rest with
    | error c => simp [hr, bind, Except.bind] at h
    | ok tail =>
      simp only [hr, bind, Except.bind, pure, Except.pure, Except.ok.injEq] at h
      subst h
      have := ih hr
      simp only [List.length_cons]
      omega
  | case4 last hlast => simp [decode, hlast] at h; simp [← h]
  | case5 last hlast => simp [decode, hlast] at h
  | case6 => simp [decode] at h; simp [← h]

end Hex

end ErasureDigest

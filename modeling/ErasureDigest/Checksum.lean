import ErasureDigest.Blake3.Tree
import ErasureDigest.Hex
import ErasureDigest.Text.Quoted

/-!
# Checksums

A checksum is 32 bytes, the BLAKE3 hash of a byte string. A root combines
an ordered list of checksums by hashing them one after the other, so it
depends on their order. As text a checksum is 64 lower-case hexadecimal
digits; `Checksum.parse` takes either case and nothing else.
-/

namespace ErasureDigest

/-- A hash of 32 bytes. -/
structure Checksum where
  bytes : Bytes
  length_bytes : bytes.length = 32
  deriving DecidableEq

/-- Why a text is no checksum. -/
inductive HexFault
  /-- The text is not 64 bytes long in UTF-8. -/
  | length (received : Nat)
  /-- The first byte that is no hexadecimal digit. -/
  | digit (byte : UInt8)
  deriving DecidableEq, Repr

namespace HexFault

/-- A byte as messages show it: the quoted character if it is ASCII, its
number otherwise. -/
def showByte (byte : UInt8) : String :=
  if byte < 128 then Quoted.ofChar (Char.ofNat byte.toNat)
  else String.ofList ('0' :: 'x' :: Hex.ofByte byte)

/-- The fault in words. -/
def message : HexFault → String
  | length received => s!"expected 64 hex bytes, received {received}"
  | digit byte => s!"invalid hex character: {showByte byte}"

end HexFault

namespace Checksum

theorem ext {a b : Checksum} (h : a.bytes = b.bytes) : a = b := by
  cases a; cases b; simp_all

/-- The checksum of a byte string. -/
def ofContent (content : Bytes) : Checksum :=
  ⟨(Blake3.hash content).toBytes, Blake3.Chain.length_toBytes _⟩

/-- One checksum over a list of checksums in order. -/
def root (checksums : List Checksum) : Checksum :=
  ofContent (checksums.flatMap (·.bytes))

/-- The bytes as a checksum, if there are 32. -/
def ofBytes? (bytes : Bytes) : Option Checksum :=
  if h : bytes.length = 32 then some ⟨bytes, h⟩ else none

/-- The 64 lower-case digits. -/
def digits (c : Checksum) : List Char :=
  Hex.encode c.bytes

/-- The 64 lower-case digits as a text. -/
def toHex (c : Checksum) : String :=
  String.ofList c.digits

/-- The short form for logs: the first sixteen digits. -/
def brief (c : Checksum) : String :=
  "Checksum(" ++ String.ofList (c.digits.take 16) ++ ")"

instance : ToString Checksum := ⟨toHex⟩

/-- The checksum that a text of 64 digits spells. The length, in bytes of
UTF-8, is checked before the digits. -/
def parse (text : String) : Except HexFault Checksum :=
  if text.utf8ByteSize ≠ 64 then .error (.length text.utf8ByteSize)
  else
    match Hex.decode text.toList with
    | .error c => .error (.digit ((String.utf8EncodeChar c).headD 0))
    | .ok bytes =>
      match ofBytes? bytes with
      | some c => .ok c
      | none => .error (.length text.utf8ByteSize)

end Checksum

end ErasureDigest

/-!
# Byte strings

Contents, segments and shards are lists of bytes. Two operations are
shared by everything above: cutting a byte string into pieces of one
size (`Bytes.pieces`), and fixed-width little-endian numbers
(`Bytes.littleEndian`). The pieces are the string again when joined
(`Bytes.flatten_pieces`), and only the last may be short.
-/

namespace ErasureDigest

/-- A byte string. -/
abbrev Bytes := List UInt8

namespace Bytes

/-- The bytes in consecutive pieces of `size`, the last one shorter when
`size` does not divide the length. A size of zero cuts nothing. -/
def pieces (size : Nat) (bytes : Bytes) : List Bytes :=
  if bytes.isEmpty then []
  else if size = 0 then [bytes]
  else bytes.take size :: pieces size (bytes.drop size)
termination_by bytes.length
decreasing_by
  have : bytes ≠ [] := by simp_all
  have := List.length_pos_iff.2 this
  simp only [List.length_drop]
  omega

@[simp] theorem pieces_nil (size : Nat) : pieces size [] = [] := by
  rw [pieces]; rfl

/-- A non-empty string starts with its first `size` bytes. -/
theorem pieces_of_ne_nil {size : Nat} {bytes : Bytes} (hsize : 0 < size) (h : bytes ≠ []) :
    pieces size bytes = bytes.take size :: pieces size (bytes.drop size) := by
  rw [pieces]
  have : size ≠ 0 := by omega
  simp [h, this]

/-- Nothing is lost and nothing moves: the pieces join to the string. -/
theorem flatten_pieces (size : Nat) (bytes : Bytes) : (pieces size bytes).flatten = bytes := by
  fun_induction pieces size bytes with
  | case1 bytes h => simp_all
  | case2 bytes => simp
  | case3 bytes h hsize ih => rw [List.flatten_cons, ih, List.take_append_drop]

/-- The number in `width` bytes, least significant first; higher bits are
dropped. -/
def littleEndian : (width : Nat) → (value : Nat) → Bytes
  | 0, _ => []
  | width + 1, value => UInt8.ofNat value :: littleEndian width (value / 256)

/-- The number that bytes stand for, least significant first. -/
def toNat : Bytes → Nat
  | [] => 0
  | b :: rest => b.toNat + 256 * toNat rest

@[simp] theorem length_littleEndian (width value : Nat) :
    (littleEndian width value).length = width := by
  induction width generalizing value with
  | zero => rfl
  | succ width ih => simp [littleEndian, ih]

/-- Reading undoes writing for a number that fits. -/
theorem toNat_littleEndian {width value : Nat} (h : value < Nat.pow 256 width) :
    toNat (littleEndian width value) = value := by
  induction width generalizing value with
  | zero => simp [littleEndian, toNat] at *; omega
  | succ width ih =>
    have hq : value / 256 < Nat.pow 256 width := by
      change value < Nat.pow 256 width * 256 at h
      exact Nat.div_lt_of_lt_mul (by omega)
    simp only [littleEndian, toNat, ih hq, UInt8.toNat_ofNat']
    omega

/-- Bytes stand for a number that fits as many of them. -/
theorem toNat_lt (bytes : Bytes) : toNat bytes < Nat.pow 256 bytes.length := by
  induction bytes with
  | nil => decide
  | cons b rest ih =>
    have hb := b.toNat_lt
    change b.toNat + 256 * toNat rest < Nat.pow 256 rest.length * 256
    omega

/-- And writing undoes reading, leading zeros included. -/
theorem littleEndian_toNat (bytes : Bytes) : littleEndian bytes.length (toNat bytes) = bytes := by
  induction bytes with
  | nil => rfl
  | cons b rest ih =>
    have hb := b.toNat_lt
    have hlow : UInt8.ofNat (b.toNat + 256 * toNat rest) = b := by
      apply UInt8.toNat_inj.1
      simp only [UInt8.toNat_ofNat']
      omega
    have hhigh : (b.toNat + 256 * toNat rest) / 256 = toNat rest := by omega
    rw [toNat, List.length_cons, littleEndian, hlow, hhigh, ih]

/-- The text these bytes spell in UTF-8, if they do. -/
def utf8? (bytes : Bytes) : Option String :=
  String.fromUTF8? ⟨bytes.toArray⟩

/-- The UTF-8 bytes of a text. -/
def ofText (text : String) : Bytes :=
  text.toUTF8.data.toList

end Bytes

end ErasureDigest

import ErasureDigest.Bytes

/-!
# The BLAKE3 compression function

Sixteen 32-bit words of state, seven rounds over one block of sixteen
message words, and the first half of the result folded with the second:
`compress` takes a chaining value of eight words to the next.
-/

namespace ErasureDigest

namespace Blake3

/-- A chaining value: eight words. -/
structure Chain where
  c0 : UInt32
  c1 : UInt32
  c2 : UInt32
  c3 : UInt32
  c4 : UInt32
  c5 : UInt32
  c6 : UInt32
  c7 : UInt32
  deriving DecidableEq, Repr

/-- Sixteen words: the working state, and also one message block. -/
structure Block where
  w0 : UInt32
  w1 : UInt32
  w2 : UInt32
  w3 : UInt32
  w4 : UInt32
  w5 : UInt32
  w6 : UInt32
  w7 : UInt32
  w8 : UInt32
  w9 : UInt32
  w10 : UInt32
  w11 : UInt32
  w12 : UInt32
  w13 : UInt32
  w14 : UInt32
  w15 : UInt32
  deriving DecidableEq, Repr

/-- The initial chaining value. -/
def initial : Chain :=
  ⟨0x6a09e667, 0xbb67ae85, 0x3c6ef372, 0xa54ff53a, 0x510e527f, 0x9b05688c, 0x1f83d9ab, 0x5be0cd19⟩

/-! ## Rounds -/

/-- Rotation to the right by less than a word. -/
@[inline] def rotate (w : UInt32) (count : UInt32) : UInt32 :=
  (w >>> count) ||| (w <<< (32 - count))

/-- Four words of the state, mixed together. -/
structure Quarter where
  a : UInt32
  b : UInt32
  c : UInt32
  d : UInt32

/-- Mixes two message words into four words of the state. -/
@[inline] def mix (a b c d x y : UInt32) : Quarter :=
  let a := a + b + x
  let d := rotate (d ^^^ a) 16
  let c := c + d
  let b := rotate (b ^^^ c) 12
  let a := a + b + y
  let d := rotate (d ^^^ a) 8
  let c := c + d
  let b := rotate (b ^^^ c) 7
  ⟨a, b, c, d⟩

/-- One round: the four columns, then the four diagonals. -/
def round (v m : Block) : Block :=
  let p := mix v.w0 v.w4 v.w8 v.w12 m.w0 m.w1
  let q := mix v.w1 v.w5 v.w9 v.w13 m.w2 m.w3
  let r := mix v.w2 v.w6 v.w10 v.w14 m.w4 m.w5
  let s := mix v.w3 v.w7 v.w11 v.w15 m.w6 m.w7
  let p' := mix p.a q.b r.c s.d m.w8 m.w9
  let q' := mix q.a r.b s.c p.d m.w10 m.w11
  let r' := mix r.a s.b p.c q.d m.w12 m.w13
  let s' := mix s.a p.b q.c r.d m.w14 m.w15
  ⟨p'.a, q'.a, r'.a, s'.a, s'.b, p'.b, q'.b, r'.b, r'.c, s'.c, p'.c, q'.c, q'.d, r'.d, s'.d, p'.d⟩

/-- The order in which the next round reads the message words. -/
def permute (m : Block) : Block :=
  ⟨m.w2, m.w6, m.w3, m.w10, m.w7, m.w0, m.w4, m.w13, m.w1, m.w11, m.w12, m.w5, m.w9, m.w14, m.w15,
    m.w8⟩

/-- `count` rounds, the message permuted between them. -/
def rounds : (count : Nat) → (v m : Block) → Block
  | 0, v, _ => v
  | 1, v, m => round v m
  | count + 2, v, m => rounds (count + 1) (round v m) (permute m)

/-! ## Compression -/

/-- The marks that tell the uses of the compression function apart. -/
structure Marks where
  chunkStart : Bool
  chunkEnd : Bool
  parent : Bool
  root : Bool

/-- The marks as a word. -/
def Marks.word (marks : Marks) : UInt32 :=
  (if marks.chunkStart then 1 else 0) ||| (if marks.chunkEnd then 2 else 0) |||
    (if marks.parent then 4 else 0) ||| (if marks.root then 8 else 0)

/-- The next chaining value after a block of `length` bytes, `counter`
being the chunk's position. -/
def compress (chain : Chain) (block : Block) (counter length : Nat) (marks : Marks) : Chain :=
  let low := UInt32.ofNat (counter % Nat.pow 2 32)
  let high := UInt32.ofNat (counter / Nat.pow 2 32)
  let v := rounds 7
    ⟨chain.c0, chain.c1, chain.c2, chain.c3, chain.c4, chain.c5, chain.c6, chain.c7,
      initial.c0, initial.c1, initial.c2, initial.c3, low, high, UInt32.ofNat length, marks.word⟩
    block
  ⟨v.w0 ^^^ v.w8, v.w1 ^^^ v.w9, v.w2 ^^^ v.w10, v.w3 ^^^ v.w11,
    v.w4 ^^^ v.w12, v.w5 ^^^ v.w13, v.w6 ^^^ v.w14, v.w7 ^^^ v.w15⟩

/-! ## Words and bytes -/

/-- A word from its four bytes, least significant first. -/
@[inline] def wordOf (a b c d : UInt8) : UInt32 :=
  a.toUInt32 ||| (b.toUInt32 <<< 8) ||| (c.toUInt32 <<< 16) ||| (d.toUInt32 <<< 24)

/-- The first word of a byte string, missing bytes read as zero, and what
follows it. -/
@[inline] def splitWord : Bytes → UInt32 × Bytes
  | a :: b :: c :: d :: rest => (wordOf a b c d, rest)
  | [a, b, c] => (wordOf a b c 0, [])
  | [a, b] => (wordOf a b 0 0, [])
  | [a] => (wordOf a 0 0 0, [])
  | [] => (0, [])

/-- A message block from the first 64 bytes of a string, padded with zeros,
and what follows them. -/
def Block.read (bytes : Bytes) : Block × Bytes :=
  let (w0, bytes) := splitWord bytes
  let (w1, bytes) := splitWord bytes
  let (w2, bytes) := splitWord bytes
  let (w3, bytes) := splitWord bytes
  let (w4, bytes) := splitWord bytes
  let (w5, bytes) := splitWord bytes
  let (w6, bytes) := splitWord bytes
  let (w7, bytes) := splitWord bytes
  let (w8, bytes) := splitWord bytes
  let (w9, bytes) := splitWord bytes
  let (w10, bytes) := splitWord bytes
  let (w11, bytes) := splitWord bytes
  let (w12, bytes) := splitWord bytes
  let (w13, bytes) := splitWord bytes
  let (w14, bytes) := splitWord bytes
  let (w15, bytes) := splitWord bytes
  (⟨w0, w1, w2, w3, w4, w5, w6, w7, w8, w9, w10, w11, w12, w13, w14, w15⟩, bytes)

/-- The block that holds two chaining values side by side. -/
def Block.ofChains (left right : Chain) : Block :=
  ⟨left.c0, left.c1, left.c2, left.c3, left.c4, left.c5, left.c6, left.c7,
    right.c0, right.c1, right.c2, right.c3, right.c4, right.c5, right.c6, right.c7⟩

/-- A chaining value as 32 bytes, each word least significant byte
first. -/
def Chain.toBytes (chain : Chain) : Bytes :=
  [chain.c0, chain.c1, chain.c2, chain.c3, chain.c4, chain.c5, chain.c6, chain.c7].flatMap
    fun (w : UInt32) => [w.toUInt8, (w >>> 8).toUInt8, (w >>> 16).toUInt8, (w >>> 24).toUInt8]

@[simp] theorem Chain.length_toBytes (chain : Chain) : chain.toBytes.length = 32 := rfl

end Blake3

end ErasureDigest

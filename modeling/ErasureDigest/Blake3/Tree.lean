import ErasureDigest.Blake3.Compression

/-!
# The BLAKE3 hash tree

A byte string is cut into chunks of 1024 bytes, each hashed on its own
from blocks of 64; the chunks' chaining values are the leaves of a binary
tree. Neighbours are joined level by level, an odd last one moving up
unchanged, which makes every left subtree a full power of two. The last
compression, of the only chunk or of the top pair, carries the root mark,
and its chaining value is the hash.
-/

namespace ErasureDigest

namespace Blake3

/-- Bytes per chunk. -/
def chunkSize : Nat := 1024

/-- Bytes per message block. -/
def blockSize : Nat := 64

/-- Blocks per chunk. -/
def chunkBlocks : Nat := chunkSize / blockSize

/-- The chaining value of the chunk at `position`, of which at most
`count` blocks are left to read, and the bytes after the chunk. `first`
tells whether no block has been read yet. The only chunk of a string is
the root. -/
def absorb (position : Nat) : (count : Nat) → (chain : Chain) → (first : Bool) → Bytes →
    Chain × Bytes
  | 0, chain, _, bytes => (chain, bytes)
  | count + 1, chain, first, bytes =>
    match Block.read bytes with
    | (block, []) =>
      (compress chain block position bytes.length ⟨first, true, false, position == 0⟩, [])
    | (block, rest) =>
      absorb position count
        (compress chain block position blockSize ⟨first, count == 0, false, false⟩) false rest

/-- The chaining values of the first `count` chunks of a string, or of all
if there are fewer, the first at `position`. The empty string has one
empty chunk. -/
def leaves : (count : Nat) → (position : Nat) → Bytes → List Chain
  | 0, _, _ => []
  | count + 1, position, bytes =>
    match absorb position chunkBlocks initial true bytes with
    | (chain, []) => [chain]
    | (chain, rest) => chain :: leaves count (position + 1) rest

/-- The chaining value above two neighbours. -/
def join (root : Bool) (left right : Chain) : Chain :=
  compress initial (.ofChains left right) 0 blockSize ⟨false, false, true, root⟩

/-- One level up: neighbours joined, an odd last one unchanged. -/
def level : List Chain → List Chain
  | left :: right :: rest => join false left right :: level rest
  | rest => rest

/-- The top of the tree over these leaves, at most `height` levels up. -/
def top : (height : Nat) → List Chain → Chain
  | _, [] => initial
  | _, [single] => single
  | _, [left, right] => join true left right
  | 0, left :: _ => left
  | height + 1, chains => top height (level chains)

/-- The hash of a byte string. -/
def hash (bytes : Bytes) : Chain :=
  let chains := leaves (bytes.length / chunkSize + 1) 0 bytes
  top chains.length chains

end Blake3

end ErasureDigest

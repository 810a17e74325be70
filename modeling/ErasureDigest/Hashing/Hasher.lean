import ErasureDigest.Hashing.Serial

/-!
# Hashing as content arrives

A hasher takes content in chunks of any length up to a segment, hashes
every segment as soon as it is complete, and keeps only the bytes of the
segment that is still short. Every call gives its outcome and the hasher
after it, also when it fails. After a digest was given the hasher takes
nothing more until it is started again.
-/

namespace ErasureDigest

/-- A digest being computed from chunks. -/
structure Hasher where
  codec : Codec
  segmentSize : Nat
  /-- The bytes of the segment that is not complete yet. -/
  buffer : Bytes
  /-- The checksums of the segments hashed so far. -/
  columns : Columns
  /-- Whether the digest was given. -/
  finished : Bool

namespace Hasher

/-- A hasher that has taken nothing. -/
def start (codec : Codec) (segmentSize : Nat) : Hasher :=
  ⟨codec, segmentSize, [], .empty codec.totalShards, false⟩

/-- A new hasher; a segment size of zero is refused. -/
def new (codec : Codec) (segmentSize : Nat) : Except Error Hasher := do
  checkSegmentSize segmentSize
  pure (start codec segmentSize)

/-- Forgets all content and starts again. -/
def init (h : Hasher) : Hasher :=
  { h with buffer := [], columns := .empty h.codec.totalShards, finished := false }

/-- Hashes what is waiting as one segment, after which nothing waits. A
failure changes nothing. -/
def hashBuffer (h : Hasher) : Except Error Unit × Hasher :=
  match h.codec.sums h.buffer with
  | .error error => (.error error, h)
  | .ok sums =>
    (.ok (), { h with columns := h.columns.push sums h.buffer.length, buffer := [] })

/-- Takes the next chunk, which may not be longer than a segment. A chunk
that completes a segment is cut there: the segment is hashed, and the rest
waits. If hashing fails, the buffer is cut back to what it held before. -/
def append (h : Hasher) (chunk : Bytes) : Except Error Unit × Hasher :=
  if h.finished then (.error .finished, h)
  else if h.segmentSize < chunk.length then
    (.error (.inputTooLarge chunk.length h.segmentSize), h)
  else if h.segmentSize ≤ h.buffer.length then
    (.error (.bufferOverflow h.buffer.length h.segmentSize), h)
  else
    let needed := h.segmentSize - h.buffer.length
    if chunk.length < needed then (.ok (), { h with buffer := h.buffer ++ chunk })
    else
      match { h with buffer := h.buffer ++ chunk.take needed }.hashBuffer with
      | (.error error, failed) =>
        (.error error, { failed with buffer := failed.buffer.take h.buffer.length })
      | (.ok (), hashed) =>
        (.ok (), { hashed with buffer := hashed.buffer ++ chunk.drop needed })

/-- Hashes what is still waiting and gives the digest. -/
def finish (h : Hasher) : Except Error Digest × Hasher :=
  if h.finished then (.error .finished, h)
  else
    match if h.buffer.isEmpty then (.ok (), h) else h.hashBuffer with
    | (.error error, failed) => (.error error, failed)
    | (.ok (), hashed) => (.ok hashed.columns.digest, { hashed with finished := true })

/-- The number of bytes hashed, those still waiting not counted. -/
def contentLength (h : Hasher) : Nat := h.columns.contentLength

/-- The number of segments hashed. -/
def segmentCount (h : Hasher) : Nat := h.columns.segmentCount

end Hasher

end ErasureDigest

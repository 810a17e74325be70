import ErasureDigest.Checksum

/-!
# Causes of failure

Every failure ends the computation that met it; there is no partial
digest. Errors are kept as causes, and `Error.message` alone holds their
wording. `Error.isInternal` tells failures that only a scheduling fault
could bring about from those that input or source bring about.
-/

namespace ErasureDigest

/-- What the system says when it refuses a file operation. -/
inductive SystemFault
  | noEntry
  | alreadyExists
  | notDirectory
  | isDirectory
  | nameTooLong
  deriving DecidableEq, Repr

/-- The system's wording, with its error number. -/
def SystemFault.message : SystemFault → String
  | noEntry => "No such file or directory (os error 2)"
  | alreadyExists => "File exists (os error 17)"
  | notDirectory => "Not a directory (os error 20)"
  | isDirectory => "Is a directory (os error 21)"
  | nameTooLong => "File name too long (os error 36)"

/-- Why reading or writing failed. -/
inductive IoFault
  /-- The system refused. -/
  | system (fault : SystemFault)
  /-- A path holds the character zero, which ends a path for the system. -/
  | zeroInPath
  /-- A text was asked for and the bytes are not UTF-8. -/
  | notText
  /-- Any other failure of a source, in its own words. -/
  | other (message : String)
  deriving DecidableEq, Repr

/-- The fault in words. -/
def IoFault.message : IoFault → String
  | system fault => fault.message
  | zeroInPath => "file name contained an unexpected NUL byte"
  | notText => "stream did not contain valid UTF-8"
  | other message => message

/-- How a set of shards can fail to fit the layout it is meant for. -/
inductive ShapeFault
  | tooFewShards
  | tooManyShards
  | tooFewDataShards
  | tooManyDataShards
  | tooFewParityShards
  | tooManyParityShards
  | incorrectShardSize
  | tooFewShardsPresent
  | emptyShard
  deriving DecidableEq, Repr

/-- The fault in words. -/
def ShapeFault.message : ShapeFault → String
  | tooFewShards => "The number of provided shards is smaller than the one in codec"
  | tooManyShards => "The number of provided shards is greater than the one in codec"
  | tooFewDataShards => "The number of provided data shards is smaller than the one in codec"
  | tooManyDataShards => "The number of provided data shards is greater than the one in codec"
  | tooFewParityShards => "The number of provided parity shards is smaller than the one in codec"
  | tooManyParityShards =>
    "The number of provided parity shards is greater than the one in codec"
  | incorrectShardSize => "At least one of the provided shards is not of the correct size"
  | tooFewShardsPresent =>
    "The number of shards present is smaller than number of parity shards, cannot reconstruct " ++
      "missing shards"
  | emptyShard => "The first shard provided is of zero length"

/-- Why a segment could not be turned into shards. -/
inductive EncodeFault
  /-- There is nothing to split. -/
  | emptySegment
  /-- The codec gave another number of shards than it announced. -/
  | shardCount (produced expected : Nat)
  /-- The shards do not fit the layout. -/
  | shape (fault : ShapeFault)
  /-- The codec refuses the segment, for a reason of its own. -/
  | refused (reason : String)
  deriving DecidableEq, Repr

/-- The fault in words. -/
def EncodeFault.message : EncodeFault → String
  | emptySegment => "cannot encode empty segment"
  | shardCount produced expected => s!"codec produced {produced} shards, expected {expected}"
  | shape fault => fault.message
  | refused reason => reason

/-- What is wrong with a setting or a text that stands for a value. -/
inductive ConfigFault
  | zeroSegmentSize
  | zeroDataShards
  | tooManyShards (max total : Nat)
  | checksumText (fault : HexFault)
  /-- Any other fault, in its own words. -/
  | other (message : String)
  deriving DecidableEq, Repr

/-- The fault in words. -/
def ConfigFault.message : ConfigFault → String
  | zeroSegmentSize => "segment_size must be > 0"
  | zeroDataShards => "data_shards must be > 0"
  | tooManyShards max total => s!"total shards must be <= {max}, got {total}"
  | checksumText fault => s!"invalid checksum hex: {fault.message}"
  | other message => message

/-- Why a digest could not be computed. -/
inductive Error
  /-- A chunk longer than a segment was appended. -/
  | inputTooLarge (size max : Nat)
  /-- A whole segment was already waiting when a chunk was appended. -/
  | bufferOverflow (buffered max : Nat)
  /-- The source failed while it was read. -/
  | sourceRead (fault : IoFault)
  /-- A segment could not be encoded. -/
  | encode (fault : EncodeFault)
  /-- No result was filed for a segment that was read. -/
  | missingSegment (id : Nat)
  /-- Two results were filed for one segment. -/
  | duplicateSegment (id : Nat)
  /-- A result was filed for a segment that was never read. -/
  | unexpectedSegment (id total : Nat)
  /-- The hasher has given its digest and was not started again. -/
  | finished
  /-- The source could not be opened. -/
  | io (fault : IoFault)
  /-- A setting is out of its range. -/
  | configuration (fault : ConfigFault)
  deriving DecidableEq, Repr

namespace Error

/-- The error in words. -/
def message : Error → String
  | inputTooLarge size max => s!"Input too large: {size} bytes (max: {max})"
  | bufferOverflow buffered max => s!"Hasher buffer overflow: {buffered} bytes buffered (max: {max})"
  | sourceRead fault => s!"Failed to read source: {fault.message}"
  | encode fault => s!"Erasure encoding error: {fault.message}"
  | missingSegment id => s!"Missing hash result for segment {id}"
  | duplicateSegment id => s!"Duplicate hash result for segment {id}"
  | unexpectedSegment id total =>
    s!"Hash result for segment {id} beyond the {total} segments read"
  | finished => "Hasher already finished, call init() before reuse"
  | io fault => s!"I/O error: {fault.message}"
  | configuration fault => s!"Configuration error: {fault.message}"

/-- Whether only a fault in scheduling can bring the error about. -/
def isInternal : Error → Bool
  | missingSegment _ | duplicateSegment _ | unexpectedSegment .. | bufferOverflow .. => true
  | _ => false

/-- The input or output failure behind the error, if there is one. -/
def cause? : Error → Option IoFault
  | sourceRead fault | io fault => some fault
  | _ => none

end Error

/-- The checksum that a text of 64 digits spells, a fault being one of
configuration. -/
def Checksum.ofHex (text : String) : Except Error Checksum :=
  (Checksum.parse text).mapError fun fault => .configuration (.checksumText fault)

end ErasureDigest

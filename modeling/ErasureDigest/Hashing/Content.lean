import ErasureDigest.FileSystem
import ErasureDigest.Hashing.Hasher
import ErasureDigest.Hashing.Pool.Run
import ErasureDigest.Profile

/-!
# Digests of contents

What callers use: the digest of a source, of a byte string, or of a file,
under a profile. The profile is checked before anything is read, and after
a file is opened.

The pool gets workers for the cores of the machine; a machine that does not
tell how many it has counts as one with a single core.
-/

namespace ErasureDigest

namespace Profile

/-- Computes with the codec of a profile; the source of one that is not
accepted is left alone. -/
def spendWith (profile : Profile) (source : Source) (compute : Codec → Spent) : Spent :=
  match profile.codec with
  | .error error => ⟨.error error, source⟩
  | .ok codec => compute codec

/-- Digests a source, its segments hashed one after the other. -/
def spendSerial (profile : Profile) (source : Source) : Spent :=
  profile.spendWith source fun codec => Serial.spend codec profile.segmentSize.toNat source

/-- Digests a source, its segments hashed by the worker pool. -/
def spendParallel (profile : Profile) (source : Source) (cores : Nat := 1) : Spent :=
  profile.spendWith source fun codec =>
    Pool.spend codec profile.segmentSize.toNat (Pool.workersFor cores) source

/-- Digests a source by the chosen strategy. -/
def spend (profile : Profile) (strategy : Strategy) (source : Source) (cores : Nat := 1) :
    Spent :=
  match strategy with
  | .serial => profile.spendSerial source
  | .parallel => profile.spendParallel source cores

/-- The digest of a source, its segments hashed one after the other. -/
def digestSerial (profile : Profile) (source : Source) : Except Error Digest :=
  (profile.spendSerial source).outcome

/-- The digest of a source, its segments hashed by the worker pool. -/
def digestParallel (profile : Profile) (source : Source) (cores : Nat := 1) :
    Except Error Digest :=
  (profile.spendParallel source cores).outcome

/-- The digest of a source by the chosen strategy. -/
def digest (profile : Profile) (strategy : Strategy) (source : Source) (cores : Nat := 1) :
    Except Error Digest :=
  (profile.spend strategy source cores).outcome

/-- The digest of a byte string. -/
def digestBytes (profile : Profile) (content : Bytes) (cores : Nat := 1) : Except Error Digest :=
  profile.digest .parallel (.ofBytes content) cores

/-- The digest of a file by the chosen strategy. -/
def digestFile (profile : Profile) (strategy : Strategy) (fs : FileSystem) (path : String)
    (cores : Nat := 1) : Except Error Digest :=
  match fs.openSource path with
  | .error fault => .error (.io fault)
  | .ok source => profile.digest strategy source cores

/-- A hasher under a profile, if the profile is accepted. -/
def hasher (profile : Profile) : Except Error Hasher := do
  let codec ← profile.codec
  Hasher.new codec profile.segmentSize.toNat

end Profile

end ErasureDigest

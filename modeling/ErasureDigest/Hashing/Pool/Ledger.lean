import ErasureDigest.Digest.SegmentSums

/-!
# The ledger of results

Workers finish segments in any order and file each result under the
segment's number. A number is filed once; read back, the results are in the
order of the segments, and a gap or a number too many is an error.
-/

namespace ErasureDigest

/-- The result of one segment. -/
structure Entry where
  sums : SegmentSums
  /-- The length of the segment in bytes. -/
  length : Nat
  deriving DecidableEq

/-- Results by segment number. -/
structure Ledger where
  /-- The slots up to the largest number filed. -/
  slots : Array (Option Entry)
  deriving DecidableEq

namespace Ledger

/-- The ledger without results. -/
def empty : Ledger := ⟨#[]⟩

/-- The result filed under a number. -/
def find? (ledger : Ledger) (id : Nat) : Option Entry := ledger.slots[id]?.join

/-- Writes a result under a number, the slots growing to hold it. -/
def put (ledger : Ledger) (id : Nat) (entry : Entry) : Ledger :=
  let ⟨slots⟩ := ledger
  if id < slots.size then ⟨slots.setIfInBounds id (some entry)⟩
  else ⟨(slots ++ Array.replicate (id - slots.size) none).push (some entry)⟩

/-- Files a result under a number not filed before. -/
def file (ledger : Ledger) (id : Nat) (entry : Entry) : Except Error Ledger :=
  if (ledger.find? id).isSome then .error (.duplicateSegment id) else .ok (ledger.put id entry)

/-- The entries of consecutive slots, the first being slot `id`; an empty
slot is an error. -/
def collect (id : Nat) : List (Option Entry) → Except Error (List Entry)
  | [] => .ok []
  | none :: _ => .error (.missingSegment id)
  | some entry :: rest =>
    match collect (id + 1) rest with
    | .ok entries => .ok (entry :: entries)
    | .error error => .error error

/-- The results of segments `0` to `total - 1`, in order. -/
def ordered (ledger : Ledger) (total : Nat) : Except Error (List Entry) :=
  if total < ledger.slots.size then
    .error (.unexpectedSegment (ledger.slots.size - 1) total)
  else
    match collect 0 ledger.slots.toList with
    | .error error => .error error
    | .ok entries =>
      if ledger.slots.size < total then .error (.missingSegment ledger.slots.size)
      else .ok entries

end Ledger

end ErasureDigest

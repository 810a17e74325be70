import ErasureDigest.Error

/-!
# Shard layouts

A layout says into how many data shards a segment is split and how many
parity shards are added. Any numbers can be written down; `Layout.check`
accepts those that can be computed with: at least one data shard, and no
more shards than the field has elements.

The two numbers are words of 64 bits, and their sum is taken without bound. A
sum of words wraps around from 2 ^ 64 on, so that 2 ^ 64 - 1 data shards and
one of parity would pass for no shards at all, or ends the computation. What
is said here of such layouts, which are refused for too many shards, is said
of the sum without bound only.
-/

namespace ErasureDigest

/-- How many data and parity shards a segment becomes. -/
structure Layout where
  dataShards : UInt64
  parityShards : UInt64
  deriving DecidableEq, Repr

namespace Layout

/-- The most shards a layout may have. -/
def maxShards : Nat := 256

/-- Four data shards and two of parity. -/
def standard : Layout := ⟨4, 2⟩

instance : Inhabited Layout := ⟨standard⟩

/-- Data and parity shards together, the sum without bound. -/
def totalShards (layout : Layout) : Nat :=
  layout.dataShards.toNat + layout.parityShards.toNat

/-- Parity shards per data shard. -/
def overheadRatio (layout : Layout) : Float :=
  layout.parityShards.toFloat / layout.dataShards.toFloat

/-- How many shards may be lost. -/
def maxFailures (layout : Layout) : Nat :=
  layout.parityShards.toNat

/-- Accepts a layout with data shards and at most `maxShards` shards. -/
def check (layout : Layout) : Except Error Unit :=
  if layout.dataShards = 0 then .error (.configuration .zeroDataShards)
  else if maxShards < layout.totalShards then
    .error (.configuration (.tooManyShards maxShards layout.totalShards))
  else .ok ()

/-- The layouts that can be computed with. -/
def Valid (layout : Layout) : Prop :=
  0 < layout.dataShards.toNat ∧ layout.totalShards ≤ maxShards

instance (layout : Layout) : Decidable layout.Valid :=
  inferInstanceAs (Decidable (_ ∧ _))

/-- The check accepts exactly the valid layouts. -/
theorem check_eq_ok_iff {layout : Layout} : layout.check = .ok () ↔ layout.Valid := by
  have hzero : layout.dataShards = 0 ↔ layout.dataShards.toNat = 0 := by
    rw [← UInt64.toNat_inj]; rfl
  unfold check Valid
  by_cases h : layout.dataShards = 0
  · simp [h]
  · have : layout.dataShards.toNat ≠ 0 := fun h' => h (hzero.2 h')
    simp only [h, if_false]
    by_cases ht : maxShards < layout.totalShards
    · simp only [ht, if_true, reduceCtorEq, false_iff, not_and]
      omega
    · simp only [ht, if_false, true_iff]
      omega

/-- A layout, if it is accepted. -/
def ofShards (dataShards parityShards : UInt64) : Except Error Layout := do
  let layout : Layout := ⟨dataShards, parityShards⟩
  layout.check
  pure layout

end Layout

end ErasureDigest

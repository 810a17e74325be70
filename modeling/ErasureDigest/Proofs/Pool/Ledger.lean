import ErasureDigest.Hashing.Pool.Ledger
import ErasureDigest.Proofs.Digest.Collection

/-!
# What the ledger keeps

A result that is put under a number is found there and nowhere else
(`find?_put`). A ledger with a result under each number below the total,
and no more slots than that, reads back in order without an error
(`exists_ordered_eq_ok`), and adding results in that order is collecting
the segments they stand for (`collect_of_entries`).
-/

namespace ErasureDigest

namespace Ledger

variable {ledger : Ledger} {id total : Nat} {entry : Entry}

@[simp] theorem find?_empty (id : Nat) : empty.find? id = none := rfl

/-- **Under its number the result is found**, and elsewhere what was there
before. -/
theorem find?_put (ledger : Ledger) (id : Nat) (entry : Entry) (other : Nat) :
    (ledger.put id entry).find? other = if other = id then some entry else ledger.find? other := by
  obtain ⟨slots⟩ := ledger
  simp only [put, find?]
  by_cases hlt : id < slots.size
  · rw [if_pos hlt, Array.getElem?_setIfInBounds]
    by_cases heq : id = other
    · simp [← heq, hlt]
    · rw [if_neg heq, if_neg fun h => heq h.symm]
  · rw [if_neg hlt, Array.getElem?_push]
    have hsize : (slots ++ Array.replicate (id - slots.size) none).size = id := by
      rw [Array.size_append, Array.size_replicate]
      omega
    rw [hsize]
    by_cases heq : other = id
    · rw [if_pos heq, if_pos heq]
      rfl
    · -- the slots put in between are empty, as was everything past the last one
      rw [if_neg heq, if_neg heq, Array.getElem?_append, Array.getElem?_replicate]
      by_cases hother : other < slots.size
      · rw [if_pos hother]
      · rw [if_neg hother, Array.getElem?_eq_none (by omega)]
        split <;> rfl

/-- The slots reach to the largest number. -/
theorem size_put (ledger : Ledger) (id : Nat) (entry : Entry) :
    (ledger.put id entry).slots.size = max ledger.slots.size (id + 1) := by
  obtain ⟨slots⟩ := ledger
  simp only [put]
  split
  · simp only [Array.size_setIfInBounds]
    omega
  · simp only [Array.size_push, Array.size_append, Array.size_replicate]
    omega

/-- There is nothing past the last slot. -/
theorem lt_size_of_find? (h : (ledger.find? id).isSome = true) : id < ledger.slots.size := by
  rcases Nat.lt_or_ge id ledger.slots.size with hlt | hle
  · exact hlt
  · simp [find?, Array.getElem?_eq_none hle] at h

/-- Slots that are all filled read back as they stand. -/
theorem exists_collect_eq_ok {slots : List (Option Entry)} (h : ∀ slot ∈ slots, slot.isSome = true)
    (id : Nat) : ∃ entries, collect id slots = .ok entries ∧ entries.map some = slots := by
  induction slots generalizing id with
  | nil => exact ⟨[], rfl, rfl⟩
  | cons slot rest ih =>
    obtain ⟨entries, hcollect, hentries⟩ :=
      ih (fun slot hslot => h slot (List.mem_cons_of_mem _ hslot)) (id + 1)
    obtain ⟨entry, rfl⟩ := Option.isSome_iff_exists.1 (h slot List.mem_cons_self)
    exact ⟨entry :: entries, by rw [collect, hcollect], by rw [List.map_cons, hentries]⟩

/-- **Without a gap and without a number too many**, the results read back
in the order of their numbers. -/
theorem exists_ordered_eq_ok (hsize : ledger.slots.size ≤ total)
    (hfiled : ∀ id < total, (ledger.find? id).isSome = true) :
    ∃ entries, ledger.ordered total = .ok entries ∧ entries.length = total ∧
      ∀ id : Nat, entries[id]? = ledger.find? id := by
  have htotal : ledger.slots.size = total := by
    rcases Nat.eq_zero_or_pos total with hzero | hpos
    · omega
    · have := lt_size_of_find? (hfiled (total - 1) (by omega))
      omega
  have hall : ∀ slot ∈ ledger.slots.toList, slot.isSome = true := by
    intro slot hslot
    obtain ⟨id, hid⟩ := List.mem_iff_getElem?.1 hslot
    rw [Array.getElem?_toList] at hid
    have hlt := (Array.getElem?_eq_some_iff.1 hid).1
    have := hfiled id (htotal ▸ hlt)
    rwa [find?, hid] at this
  obtain ⟨entries, hcollect, hentries⟩ := exists_collect_eq_ok hall 0
  refine ⟨entries, ?_, ?_, fun id => ?_⟩
  · rw [ordered, if_neg (by omega), hcollect]
    simp only
    rw [if_neg (by omega)]
  · rw [← List.length_map (f := some), hentries, Array.length_toList, htotal]
  · rw [find?, ← Array.getElem?_toList, ← hentries, List.getElem?_map]
    cases entries[id]? <;> rfl

end Ledger

/-- Whether an entry is the result of a segment. -/
def Entry.IsFor (codec : Codec) (entry : Entry) (segment : Bytes) : Prop :=
  codec.sums segment = .ok entry.sums ∧ entry.length = segment.length

/-- **Adding the results of segments is collecting the segments.** -/
theorem Columns.collect_of_entries {codec : Codec} {columns : Columns} {segments : List Bytes}
    {entries : List Entry} (hlength : entries.length = segments.length)
    (hfor : ∀ (id : Nat) (entry : Entry) (segment : Bytes), entries[id]? = some entry →
      segments[id]? = some segment → entry.IsFor codec segment) :
    columns.collect codec segments =
      .ok (entries.foldl (fun columns entry => columns.push entry.sums entry.length) columns) := by
  induction segments generalizing entries columns with
  | nil =>
    obtain rfl : entries = [] := List.length_eq_zero_iff.1 hlength
    rfl
  | cons segment rest ih =>
    rcases entries with - | ⟨entry, entries⟩
    · simp at hlength
    · obtain ⟨hsums, hbytes⟩ := hfor 0 entry segment rfl rfl
      rw [Columns.collect_cons_eq_ok]
      refine ⟨entry.sums, hsums, ?_⟩
      rw [List.foldl_cons, hbytes]
      exact ih (Nat.succ.inj hlength) fun id entry segment hentry hsegment =>
        hfor (id + 1) entry segment hentry hsegment

end ErasureDigest

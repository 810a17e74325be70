import ErasureDigest.Proofs.Pool.Ledger
import Mathlib.Data.List.Induction
import Mathlib.Data.Nat.Find

/-!
# Any filings, read back

Results are filed in any order, a number perhaps twice or never. What is
found under a number is the first result filed under it
(`find?_fileAll`), and the last slot is always filled (`LastFilled`), so
the slots end at the largest number. A ledger of which these two hold
reads back in one of three ways: beyond the total, with a gap, or complete
(`ordered_of_beyond`, `ordered_of_gap`, `exists_ordered_eq_ok`). Which one
depends on the numbers filed alone, and not on their order.
-/

namespace ErasureDigest

namespace Ledger

/-- A call to file: the number and the result. -/
abbrev Filing := Nat × Entry

/-- The ledger after a call to file, which a refusal leaves as it was. -/
def afterFiling (ledger : Ledger) (filing : Filing) : Ledger :=
  match ledger.file filing.1 filing.2 with
  | .ok filed => filed
  | .error _ => ledger

/-- The ledger after calls to file, one after the other. -/
def fileAll (filings : List Filing) : Ledger := filings.foldl afterFiling empty

/-- Whether a call filed its result under a number. -/
def Filed (filings : List Filing) (id : Nat) : Prop :=
  ∃ before entry after, filings = before ++ (id, entry) :: after ∧
    ∃ filed, (fileAll before).file id entry = .ok filed

variable {ledger other : Ledger} {filings : List Filing} {id total gap : Nat} {entry : Entry}

/-! ## One call -/

/-- A number with a result is refused. -/
theorem file_of_isSome (h : (ledger.find? id).isSome = true) (entry : Entry) :
    ledger.file id entry = .error (.duplicateSegment id) := by
  rw [file, if_pos h]

/-- Any other is taken. -/
theorem file_of_eq_none (h : ledger.find? id = none) (entry : Entry) :
    ledger.file id entry = .ok (ledger.put id entry) := by
  rw [file, if_neg (by simp [h])]

theorem afterFiling_of_isSome (h : (ledger.find? id).isSome = true) (entry : Entry) :
    ledger.afterFiling (id, entry) = ledger := by
  rw [afterFiling, file_of_isSome h]

theorem afterFiling_of_eq_none (h : ledger.find? id = none) (entry : Entry) :
    ledger.afterFiling (id, entry) = ledger.put id entry := by
  rw [afterFiling, file_of_eq_none h]

/-- **A result found stays**, and a new one is found where there was none. -/
theorem find?_afterFiling (ledger : Ledger) (filing : Filing) (number : Nat) :
    (ledger.afterFiling filing).find? number = (ledger.find? number).or ([filing].lookup number) := by
  obtain ⟨id, entry⟩ := filing
  have hlookup : [(id, entry)].lookup number = if number = id then some entry else none := by
    by_cases heq : number = id
    · subst heq
      simp
    · simp [List.lookup_cons, beq_eq_false_iff_ne.2 heq, heq]
  rw [hlookup]
  cases hfound : ledger.find? id with
  | some earlier =>
    rw [afterFiling_of_isSome (by simp [hfound])]
    by_cases heq : number = id
    · subst heq
      simp [hfound]
    · simp [heq]
  | none =>
    rw [afterFiling_of_eq_none hfound, find?_put]
    by_cases heq : number = id
    · subst heq
      simp [hfound]
    · simp [heq]

/-- The last slot, if there is one, holds a result. -/
def LastFilled (ledger : Ledger) : Prop :=
  ∀ last, ledger.slots.size = last + 1 → (ledger.find? last).isSome = true

theorem lastFilled_empty : LastFilled empty := by
  intro last hlast
  simp [empty] at hlast

/-- Filing a result keeps that: the slots grow up to it, or not at all. -/
theorem LastFilled.afterFiling (h : ledger.LastFilled) (filing : Filing) :
    (ledger.afterFiling filing).LastFilled := by
  obtain ⟨id, entry⟩ := filing
  cases hfound : ledger.find? id with
  | some earlier =>
    rw [afterFiling_of_isSome (by simp [hfound])]
    exact h
  | none =>
    rw [afterFiling_of_eq_none hfound]
    intro last hlast
    rw [size_put] at hlast
    rw [find?_put]
    by_cases heq : last = id
    · rw [if_pos heq]
      rfl
    · rw [if_neg heq]
      exact h last (by omega)

/-! ## Any calls -/

theorem fileAll_concat (filings : List Filing) (filing : Filing) :
    fileAll (filings ++ [filing]) = (fileAll filings).afterFiling filing := by
  simp [fileAll]

/-- **What is found is what was filed first.** -/
theorem find?_fileAll (filings : List Filing) (number : Nat) :
    (fileAll filings).find? number = filings.lookup number := by
  induction filings using List.reverseRecOn with
  | nil => rfl
  | append_singleton filings filing ih =>
    rw [fileAll_concat, find?_afterFiling, ih, List.lookup_append]

theorem lastFilled_fileAll (filings : List Filing) : (fileAll filings).LastFilled := by
  induction filings using List.reverseRecOn with
  | nil => exact lastFilled_empty
  | append_singleton filings filing ih =>
    rw [fileAll_concat]
    exact ih.afterFiling filing

/-- A number has a result exactly if it was filed. -/
theorem isSome_find?_fileAll (filings : List Filing) (number : Nat) :
    ((fileAll filings).find? number).isSome = true ↔ number ∈ filings.map Prod.fst := by
  rw [find?_fileAll, List.lookup_isSome_iff, List.mem_map]
  constructor
  · rintro ⟨filing, hmem, hnumber⟩
    exact ⟨filing, hmem, (beq_iff_eq.1 hnumber).symm⟩
  · rintro ⟨filing, hmem, rfl⟩
    exact ⟨filing, hmem, beq_self_eq_true _⟩

/-- The first of the calls with a number is the one that succeeded. -/
theorem filed_iff : Filed filings id ↔ ((fileAll filings).find? id).isSome = true := by
  constructor
  · rintro ⟨before, entry, after, rfl, -⟩
    rw [isSome_find?_fileAll]
    simp
  · intro hsome
    obtain ⟨entry, hentry⟩ := Option.isSome_iff_exists.1 hsome
    rw [find?_fileAll] at hentry
    obtain ⟨before, after, hsplit, hbefore⟩ := List.lookup_eq_some_iff.1 hentry
    have hfirst : (fileAll before).find? id = none := by
      rw [find?_fileAll]
      exact List.lookup_eq_none_iff.2 hbefore
    exact ⟨before, entry, after, hsplit, _, file_of_eq_none hfirst entry⟩

/-- A call is refused if its number was filed, and taken otherwise. -/
theorem file_fileAll_eq_error_iff :
    (fileAll filings).file id entry = .error (.duplicateSegment id) ↔ Filed filings id := by
  rw [filed_iff]
  constructor
  · intro hrefused
    by_contra hnone
    rw [file_of_eq_none (by simpa using hnone)] at hrefused
    simp at hrefused
  · intro hsome
    exact file_of_isSome hsome entry

/-! ## Reading back -/

/-- A slot past the total gives the number of the last one. -/
theorem ordered_of_beyond (h : total < ledger.slots.size) :
    ledger.ordered total = .error (.unexpectedSegment (ledger.slots.size - 1) total) := by
  rw [ordered, if_pos h]

/-- Collecting stops at the first empty slot. -/
theorem collect_of_gap {before after : List (Option Entry)}
    (hbefore : ∀ slot ∈ before, slot.isSome = true) (id : Nat) :
    collect id (before ++ none :: after) = .error (.missingSegment (id + before.length)) := by
  induction before generalizing id with
  | nil => rfl
  | cons slot before ih =>
    obtain ⟨entry, rfl⟩ := Option.isSome_iff_exists.1 (hbefore slot List.mem_cons_self)
    rw [List.cons_append, collect, ih fun slot hslot => hbefore slot (List.mem_cons_of_mem _ hslot)]
    rw [List.length_cons, show id + 1 + before.length = id + (before.length + 1) by omega]

/-- Slots in front of a number are filled if all numbers below it have
results. -/
theorem isSome_of_mem_take (hbefore : ∀ id < gap, (ledger.find? id).isSome = true) :
    ∀ slot ∈ ledger.slots.toList.take gap, slot.isSome = true := by
  intro slot hslot
  obtain ⟨id, hid, rfl⟩ := List.mem_take_iff_getElem.1 hslot
  have hlt : id < ledger.slots.size := by
    rw [← Array.length_toList]
    omega
  have hsome := hbefore id (by omega)
  rw [find?, Array.getElem?_eq_getElem hlt] at hsome
  simpa using hsome

/-- **The first number without a result is the error**, whether its slot is
empty or missing. -/
theorem ordered_of_gap (hsize : ledger.slots.size ≤ total) (hgap : gap < total)
    (hempty : ledger.find? gap = none) (hbefore : ∀ id < gap, (ledger.find? id).isSome = true) :
    ledger.ordered total = .error (.missingSegment gap) := by
  have hfilled := isSome_of_mem_take hbefore
  rw [ordered, if_neg (by omega)]
  rcases Nat.lt_or_ge gap ledger.slots.size with hlt | hge
  · have hlt' : gap < ledger.slots.toList.length := by simpa using hlt
    have hslot : ledger.slots.toList[gap] = none := by
      rw [find?, Array.getElem?_eq_getElem hlt] at hempty
      simpa using hempty
    have hsplit : ledger.slots.toList =
        ledger.slots.toList.take gap ++ none :: ledger.slots.toList.drop (gap + 1) := by
      rw [← hslot, List.getElem_cons_drop, List.take_append_drop]
    rw [hsplit, collect_of_gap hfilled, List.length_take_of_le (Nat.le_of_lt hlt'), Nat.zero_add]
  · -- all slots are filled, and there are no more of them than the gap says
    have hnot : ¬ ledger.slots.size < gap := by
      intro hlt
      exact absurd (lt_size_of_find? (hbefore _ hlt)) (Nat.lt_irrefl _)
    have hgap' : gap = ledger.slots.size := by omega
    rw [List.take_of_length_le (by simpa using hge)] at hfilled
    obtain ⟨entries, hcollect, -⟩ := exists_collect_eq_ok hfilled 0
    rw [hcollect]
    simp only
    rw [if_pos (by omega), hgap']

/-- Two ledgers with their last slots filled that find the same are the
same. -/
theorem eq_of_find? (h : ledger.LastFilled) (hother : other.LastFilled)
    (hfind : ∀ id, ledger.find? id = other.find? id) : ledger = other := by
  have hle : ∀ {a b : Ledger}, a.LastFilled → (∀ id, a.find? id = b.find? id) →
      a.slots.size ≤ b.slots.size := by
    intro a b ha hab
    rcases Nat.eq_zero_or_pos a.slots.size with hzero | hpos
    · omega
    · have hlast := ha (a.slots.size - 1) (by omega)
      rw [hab] at hlast
      have := lt_size_of_find? hlast
      omega
  have hsize := Nat.le_antisymm (hle h hfind) (hle hother fun id => (hfind id).symm)
  obtain ⟨slots⟩ := ledger
  obtain ⟨slots'⟩ := other
  congr 1
  refine Array.ext hsize fun id hid hid' => ?_
  have := hfind id
  simpa [find?, hid, hid'] using this

/-! ## The order of the calls -/

/-- With distinct numbers the first result under a number is the only one. -/
theorem lookup_eq_some_iff_mem (hdistinct : (filings.map Prod.fst).Nodup) :
    filings.lookup id = some entry ↔ (id, entry) ∈ filings := by
  rw [List.lookup_eq_some_iff]
  constructor
  · rintro ⟨before, after, rfl, -⟩
    simp
  · intro hmem
    obtain ⟨before, after, rfl⟩ := List.append_of_mem hmem
    refine ⟨before, after, rfl, fun filing hfiling => ?_⟩
    rw [List.map_append, List.map_cons, List.nodup_append] at hdistinct
    have hne := hdistinct.2.2 filing.1 (List.mem_map_of_mem hfiling) id List.mem_cons_self
    exact bne_iff_ne.2 (Ne.symm hne)

/-- **Distinct numbers can be filed in any order.** -/
theorem fileAll_perm {filings' : List Filing} (hperm : filings'.Perm filings)
    (hdistinct : (filings.map Prod.fst).Nodup) : fileAll filings' = fileAll filings := by
  have hdistinct' : (filings'.map Prod.fst).Nodup := (hperm.map Prod.fst).nodup_iff.2 hdistinct
  refine eq_of_find? (lastFilled_fileAll _) (lastFilled_fileAll _) fun number => ?_
  rw [find?_fileAll, find?_fileAll]
  refine Option.ext fun entry => ?_
  rw [lookup_eq_some_iff_mem hdistinct, lookup_eq_some_iff_mem hdistinct', hperm.mem_iff]

/-! ## What reading back gives -/

/-- **A number beyond the total** is the error, the largest one filed. -/
theorem ordered_fileAll_of_beyond (hbeyond : id ∈ filings.map Prod.fst) (hle : total ≤ id) :
    ∃ largest ∈ filings.map Prod.fst, (∀ other ∈ filings.map Prod.fst, other ≤ largest) ∧
      (fileAll filings).ordered total = .error (.unexpectedSegment largest total) := by
  have hlt := lt_size_of_find? ((isSome_find?_fileAll filings id).2 hbeyond)
  refine ⟨(fileAll filings).slots.size - 1, ?_, fun other hother => ?_, ?_⟩
  · rw [← isSome_find?_fileAll]
    exact lastFilled_fileAll filings _ (by omega)
  · have := lt_size_of_find? ((isSome_find?_fileAll filings other).2 hother)
    omega
  · exact ordered_of_beyond (by omega)

/-- The slots do not reach past numbers that are all below the total. -/
theorem size_fileAll_le (hbelow : ∀ id ∈ filings.map Prod.fst, id < total) :
    (fileAll filings).slots.size ≤ total := by
  rcases Nat.eq_zero_or_pos (fileAll filings).slots.size with hzero | hpos
  · omega
  · have hlast := lastFilled_fileAll filings ((fileAll filings).slots.size - 1) (by omega)
    have := hbelow _ ((isSome_find?_fileAll filings _).1 hlast)
    omega

/-- **Else a number missing below the total** is the error, the smallest
one not filed. -/
theorem ordered_fileAll_of_gap (hbelow : ∀ id ∈ filings.map Prod.fst, id < total)
    (hmissing : ∃ id, id < total ∧ id ∉ filings.map Prod.fst) :
    ∃ gap < total, gap ∉ filings.map Prod.fst ∧ (∀ id < gap, id ∈ filings.map Prod.fst) ∧
      (fileAll filings).ordered total = .error (.missingSegment gap) := by
  classical
  obtain ⟨hgap, hnot⟩ := Nat.find_spec hmissing
  have hbefore : ∀ id < Nat.find hmissing, id ∈ filings.map Prod.fst := by
    intro id hid
    have hmin := Nat.find_min hmissing hid
    rw [not_and, not_not] at hmin
    exact hmin (by omega)
  refine ⟨Nat.find hmissing, hgap, hnot, hbefore, ?_⟩
  refine ordered_of_gap (size_fileAll_le hbelow) hgap ?_ fun id hid => ?_
  · rw [← isSome_find?_fileAll, Bool.not_eq_true, Option.isSome_eq_false_iff,
      Option.isNone_iff_eq_none] at hnot
    exact hnot
  · exact (isSome_find?_fileAll filings id).2 (hbefore id hid)

/-- **Else the results are read back**, each under its number. -/
theorem ordered_fileAll_of_complete (hcomplete : ∀ id, id ∈ filings.map Prod.fst ↔ id < total) :
    ∃ entries, (fileAll filings).ordered total = .ok entries ∧ entries.length = total ∧
      ∀ id : Nat, entries[id]? = filings.lookup id := by
  obtain ⟨entries, hordered, hlength, hentries⟩ :=
    exists_ordered_eq_ok (size_fileAll_le fun id hid => (hcomplete id).1 hid) fun id hid =>
      (isSome_find?_fileAll filings id).2 ((hcomplete id).2 hid)
  refine ⟨entries, hordered, hlength, fun id => ?_⟩
  rw [hentries, find?_fileAll]

/-- So what was read back is complete. -/
theorem complete_of_ordered {entries : List Entry}
    (h : (fileAll filings).ordered total = .ok entries) (id : Nat) :
    id ∈ filings.map Prod.fst ↔ id < total := by
  have hbelow : ∀ id ∈ filings.map Prod.fst, id < total := by
    intro id hid
    by_contra hle
    obtain ⟨largest, -, -, herror⟩ := ordered_fileAll_of_beyond hid (Nat.not_lt.1 hle)
    simp [h] at herror
  refine ⟨hbelow id, fun hlt => ?_⟩
  by_contra hnot
  obtain ⟨gap, -, -, -, herror⟩ := ordered_fileAll_of_gap hbelow ⟨id, hlt, hnot⟩
  simp [h] at herror

/-- **A ledger files a number once and reads the results back in order.**
After any calls to file, the next call is refused exactly if one with its
number succeeded before, and then changes nothing. Reading back a total
succeeds exactly if the numbers filed are those below the total, and gives
under each number the result filed first. A number beyond the total is an
error with the largest number, else a number missing below it one with the
smallest. With distinct numbers the order of the calls does not matter. -/
theorem ordered_of_filings (filings : List Filing) (total : Nat) :
    let ids := filings.map Prod.fst
    let result := (fileAll filings).ordered total
    (∀ id entry,
      ((fileAll filings).file id entry = .error (.duplicateSegment id) ↔ Filed filings id) ∧
      (Filed filings id → fileAll (filings ++ [(id, entry)]) = fileAll filings) ∧
      (¬ Filed filings id → ∃ filed, (fileAll filings).file id entry = .ok filed)) ∧
    ((∃ entries, result = .ok entries) ↔ ∀ id, id ∈ ids ↔ id < total) ∧
    (∀ entries, result = .ok entries → entries.length = total ∧
      ∀ id : Nat, entries[id]? = filings.lookup id) ∧
    ((∃ id ∈ ids, total ≤ id) → ∃ largest ∈ ids, (∀ id ∈ ids, id ≤ largest) ∧
      result = .error (.unexpectedSegment largest total)) ∧
    ((∀ id ∈ ids, id < total) → (∃ id, id < total ∧ id ∉ ids) →
      ∃ gap < total, gap ∉ ids ∧ (∀ id < gap, id ∈ ids) ∧
        result = .error (.missingSegment gap)) ∧
    ∀ filings' : List Filing, filings'.Perm filings → ids.Nodup →
      (fileAll filings').ordered total = result := by
  intro ids result
  refine ⟨fun id entry => ⟨file_fileAll_eq_error_iff, fun h => ?_, fun h => ?_⟩,
    ⟨?_, fun h => ?_⟩, fun entries h => ?_, ?_, ordered_fileAll_of_gap,
    fun filings' hperm hdistinct => ?_⟩
  · rw [fileAll_concat]
    exact afterFiling_of_isSome (filed_iff.1 h) entry
  · rw [filed_iff] at h
    exact ⟨_, file_of_eq_none (by simpa using h) entry⟩
  · rintro ⟨entries, h⟩ id
    exact complete_of_ordered h id
  · obtain ⟨entries, hordered, -⟩ := ordered_fileAll_of_complete h
    exact ⟨entries, hordered⟩
  · obtain ⟨entries', hordered, hentries⟩ :=
      ordered_fileAll_of_complete (complete_of_ordered h)
    obtain rfl : entries' = entries := Except.ok.inj (hordered.symm.trans h)
    exact hentries
  · rintro ⟨id, hid, hle⟩
    exact ordered_fileAll_of_beyond hid hle
  · rw [fileAll_perm hperm hdistinct]

/-- A number filed twice and one left out. -/
example (a b c : Entry) :
    (fileAll [(2, c), (0, a)]).file 0 b = .error (.duplicateSegment 0) ∧
    (fileAll [(2, c), (0, a), (0, b)]).ordered 3 = .error (.missingSegment 1) :=
  ⟨rfl, rfl⟩

end Ledger

end ErasureDigest

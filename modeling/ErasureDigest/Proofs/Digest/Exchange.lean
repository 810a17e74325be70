import ErasureDigest.Proofs.Digest.Strings

/-!
# Two segments exchanged

A root follows the order of the strings it is taken over, and no more. With
two different segments exchanged the primary root is another one. The root
at a shard position is another one where the two segments have different
shards there, and stays where they have the same (`roots_of_exchange`). They
have the same shards at fewer positions than there are data shards, but
segments that share a shard exist: `shardRoot?_of_common_shard` is a root
that does not see an exchange, without any collision.
-/

namespace ErasureDigest

/-! ## Two places of a list -/

section Places

variable {list front middle tail : List Bytes} {x y : Bytes} {i j : Nat}

/-- What stands at two places of a list, and around them. -/
theorem exists_append_of_getElem? (hij : i < j) (hx : list[i]? = some x) (hy : list[j]? = some y) :
    ∃ front middle tail, list = front ++ x :: (middle ++ y :: tail) ∧ front.length = i ∧
      front.length + 1 + middle.length = j := by
  obtain ⟨hj, rfl⟩ := List.getElem?_eq_some_iff.1 hy
  obtain ⟨hi, rfl⟩ := List.getElem?_eq_some_iff.1 hx
  refine ⟨list.take i, (list.drop (i + 1)).take (j - (i + 1)), list.drop (j + 1), ?_, ?_, ?_⟩
  · have hdrop : list.drop j = (list.drop (i + 1)).drop (j - (i + 1)) := by
      rw [List.drop_drop]
      congr 1
      omega
    rw [List.getElem_cons_drop, hdrop, List.take_append_drop, List.getElem_cons_drop,
      List.take_append_drop]
  · rw [List.length_take]
    omega
  · rw [List.length_take, List.length_take, List.length_drop]
    omega

/-- Two places written. -/
theorem set_set_append (front middle tail : List Bytes) (x y x' y' : Bytes) :
    ((front ++ x :: (middle ++ y :: tail)).set front.length x').set
      (front.length + 1 + middle.length) y' = front ++ x' :: (middle ++ y' :: tail) := by
  have hplace : front.length + 1 + middle.length - front.length = middle.length + 1 := by omega
  rw [List.set_append_right _ _ (Nat.le_refl _), Nat.sub_self, List.set_cons_zero,
    List.set_append_right _ _ (by omega), hplace, List.set_cons_succ,
    List.set_append_right _ _ (Nat.le_refl _), Nat.sub_self, List.set_cons_zero]

/-- Exchanging two strings changes a list exactly when they differ. -/
theorem append_exchange_eq_iff : front ++ x :: (middle ++ y :: tail) =
    front ++ y :: (middle ++ x :: tail) ↔ x = y := by
  constructor
  · intro h
    exact (List.cons.inj (List.append_cancel_left h)).1
  · rintro rfl
    rfl

end Places

namespace Profile

/-- The content with its segments at two places exchanged. -/
def exchange (profile : Profile) (i j : Nat) (content : Bytes) : Bytes :=
  (((profile.segments content).set i ((profile.segments content).getD j [])).set j
    ((profile.segments content).getD i [])).flatten

variable {profile : Profile} {content x y : Bytes} {i j : Nat}

section Exchange

variable (hsize : 0 < profile.segmentSize.toNat) (hij : i < j)
  (hx : (profile.segments content)[i]? = some x) (hy : (profile.segments content)[j]? = some y)
  (hfull : y.length = profile.segmentSize.toNat)
include hsize hij hx hy hfull

omit hfull in
/-- A segment with another one behind it is full. -/
theorem length_of_getElem?_segments : x.length = profile.segmentSize.toNat := by
  obtain ⟨hj, rfl⟩ := List.getElem?_eq_some_iff.1 hy
  obtain ⟨hi, rfl⟩ := List.getElem?_eq_some_iff.1 hx
  exact Bytes.length_getElem_pieces hsize (Nat.lt_of_le_of_lt hij hj)

/-- **The segments of the content with two of them exchanged** are the
segments, with these two exchanged. -/
theorem segments_exchange : ∃ front middle tail : List Bytes,
    profile.segments content = front ++ x :: (middle ++ y :: tail) ∧
      profile.segments (profile.exchange i j content) = front ++ y :: (middle ++ x :: tail) := by
  obtain ⟨front, middle, tail, hsegments, rfl, rfl⟩ := exists_append_of_getElem? hij hx hy
  refine ⟨front, middle, tail, hsegments, ?_⟩
  have hpieces : Bytes.pieces profile.segmentSize.toNat content =
      (front ++ x :: middle) ++ y :: tail := by
    rw [List.append_assoc, List.cons_append]
    exact hsegments
  -- all segments but those of the tail are full, with the two exchanged as before
  have hfulls := Bytes.length_of_pieces_eq_append hsize hpieces
  rw [List.forall_mem_append, List.forall_mem_cons] at hfulls
  obtain ⟨hfront, hxfull, hmiddle⟩ := hfulls
  have hfronts : ∀ p ∈ front ++ y :: (middle ++ [x]), p.length = profile.segmentSize.toNat := by
    simp only [List.forall_mem_append, List.forall_mem_cons]
    exact ⟨hfront, hfull, hmiddle, hxfull, by simp⟩
  have htail : Bytes.pieces profile.segmentSize.toNat tail.flatten = tail := by
    have hpieces' : Bytes.pieces profile.segmentSize.toNat content =
        (front ++ x :: (middle ++ [y])) ++ tail := by
      simp [hpieces]
    refine Bytes.pieces_flatten_of_pieces_eq_append hsize hpieces' ?_
    simp only [List.forall_mem_append, List.forall_mem_cons]
    exact ⟨hfront, hxfull, hmiddle, hfull, by simp⟩
  have hexchange : profile.exchange front.length (front.length + 1 + middle.length) content =
      (front ++ y :: (middle ++ [x])).flatten ++ tail.flatten := by
    rw [exchange, List.getD_eq_getElem?_getD, List.getD_eq_getElem?_getD, hx, hy, hsegments,
      Option.getD_some, Option.getD_some, set_set_append]
    simp
  rw [segments, hexchange, Bytes.pieces_flatten_append hsize hfronts, htail]
  simp

/-- An exchange keeps the length. -/
theorem length_exchange : (profile.exchange i j content).length = content.length := by
  obtain ⟨front, middle, tail, hsegments, hexchange⟩ := segments_exchange hsize hij hx hy hfull
  calc (profile.exchange i j content).length
      = (profile.segments (profile.exchange i j content)).flatten.length := by
        rw [flatten_segments]
    _ = (profile.segments content).flatten.length := by
        rw [hsegments, hexchange]
        simp only [List.flatten_append, List.flatten_cons, List.length_append]
        omega
    _ = content.length := by rw [flatten_segments]

end Exchange

section Shards

variable (hcheck : profile.check = .ok ()) (hij : i < j)
  (hx : (profile.segments content)[i]? = some x) (hy : (profile.segments content)[j]? = some y)
include hcheck hx hy

/-- Two segments have the same shard at a position exactly when they have
the same row. -/
theorem shard?_eq_iff_row_eq {position : Nat} (hposition : position < profile.totalShards) :
    (ReedSolomon.codecOf profile.layout).shard? position x =
        (ReedSolomon.codecOf profile.layout).shard? position y ↔
      ReedSolomon.row profile.layout position x = ReedSolomon.row profile.layout position y := by
  obtain ⟨hsize, hlayout⟩ := check_eq_ok_iff.1 hcheck
  have hxne : x ≠ [] := Bytes.ne_nil_of_mem_pieces hsize (List.mem_of_getElem? hx)
  have hyne : y ≠ [] := Bytes.ne_nil_of_mem_pieces hsize (List.mem_of_getElem? hy)
  rw [ReedSolomon.shard?_codecOf hlayout hxne hposition,
    ReedSolomon.shard?_codecOf hlayout hyne hposition, Option.some.injEq]

include hij

/-- **An exchange shows at a position exactly where the two segments have
different shards.** -/
theorem shardsAt_exchange_eq_iff (hfull : y.length = profile.segmentSize.toNat) {position : Nat}
    (hposition : position < profile.totalShards) :
    profile.shardsAt position content = profile.shardsAt position (profile.exchange i j content) ↔
      (ReedSolomon.codecOf profile.layout).shard? position x =
        (ReedSolomon.codecOf profile.layout).shard? position y := by
  obtain ⟨front, middle, tail, hsegments, hexchange⟩ :=
    segments_exchange (check_eq_ok_iff.1 hcheck).1 hij hx hy hfull
  rw [shard?_eq_iff_row_eq hcheck hx hy hposition, shardsAt_eq_map hcheck hposition,
    shardsAt_eq_map hcheck hposition, hsegments, hexchange]
  simp only [List.map_append, List.map_cons]
  exact append_exchange_eq_iff

/-- **Different segments share fewer shards than there are data shards.** -/
theorem card_common_shards_lt (hfull : y.length = profile.segmentSize.toNat) (hne : x ≠ y) :
    ((Finset.range profile.totalShards).filter fun position =>
      (ReedSolomon.codecOf profile.layout).shard? position x =
        (ReedSolomon.codecOf profile.layout).shard? position y).card <
          profile.layout.dataShards.toNat := by
  obtain ⟨hsize, hlayout⟩ := check_eq_ok_iff.1 hcheck
  have hxne : x ≠ [] := Bytes.ne_nil_of_mem_pieces hsize (List.mem_of_getElem? hx)
  have hlengths : x.length = y.length :=
    (length_of_getElem?_segments hsize hij hx hy).trans hfull.symm
  by_contra hmany
  refine hne (ReedSolomon.eq_of_row hlayout hxne hlengths (Nat.not_lt.1 hmany) ?_)
  intro position hmem
  obtain ⟨hrange, heq⟩ := Finset.mem_filter.1 hmem
  have hposition := Finset.mem_range.1 hrange
  exact ⟨hposition, (shard?_eq_iff_row_eq hcheck hx hy hposition).1 heq⟩

end Shards

/-- All strings that are hashed for the digest of a content. -/
def hashed (profile : Profile) (content : Bytes) : List Bytes :=
  profile.segments content ++ Checksum.joined (profile.segments content) ::
    (List.range profile.totalShards).flatMap fun position =>
      profile.shardsAt position content ++ [Checksum.joined (profile.shardsAt position content)]

/-- **What an exchange of two segments does to the roots.** Whatever library
of matrix codes the codec is built on, as long as it keeps to what it
documents: with two full segments exchanged that differ, the length and the
number of roots stay, and the primary root is another one. A shard root is
another one where the two have different shards, and is the same where they
have the same, at fewer positions than there are data shards. A root that
would have to differ and does not comes with a collision among the strings
behind it. -/
theorem roots_of_exchange {lib : ReedSolomon.Library} (hlib : lib.Documented)
    (hcheck : profile.check = .ok ()) (hij : i < j)
    (hx : (profile.segments content)[i]? = some x) (hy : (profile.segments content)[j]? = some y)
    (hfull : y.length = profile.segmentSize.toNat) (hne : x ≠ y) :
    lib.codec? profile.layout = some (.ok (ReedSolomon.codecOf profile.layout)) ∧
    ∃ d d', profile.Gives content d ∧ profile.Gives (profile.exchange i j content) d' ∧
      d.contentLength = d'.contentLength ∧ d.roots.length = profile.totalShards + 1 ∧
      d'.roots.length = profile.totalShards + 1 ∧
      (d.primaryRoot? ≠ d'.primaryRoot? ∨ CollisionBetween (profile.segments content)
        (profile.segments (profile.exchange i j content))) ∧
      (∀ position < profile.totalShards,
        ((ReedSolomon.codecOf profile.layout).shard? position x =
            (ReedSolomon.codecOf profile.layout).shard? position y →
          d.shardRoot? position = d'.shardRoot? position) ∧
        ((ReedSolomon.codecOf profile.layout).shard? position x ≠
            (ReedSolomon.codecOf profile.layout).shard? position y →
          d.shardRoot? position ≠ d'.shardRoot? position ∨
            CollisionBetween (profile.shardsAt position content)
              (profile.shardsAt position (profile.exchange i j content)))) ∧
      ((Finset.range profile.totalShards).filter fun position =>
        (ReedSolomon.codecOf profile.layout).shard? position x =
          (ReedSolomon.codecOf profile.layout).shard? position y).card <
            profile.layout.dataShards.toNat := by
  have hsize := (check_eq_ok_iff.1 hcheck).1
  obtain ⟨d, hd, hroots, hlength, -⟩ := exists_gives hcheck content
  obtain ⟨d', hd', hroots', hlength', -⟩ := exists_gives hcheck (profile.exchange i j content)
  obtain ⟨front, middle, tail, hsegments, hexchange⟩ := segments_exchange hsize hij hx hy hfull
  refine ⟨codec?_of_check hlib hcheck, d, d', hd, hd', ?_, hroots, hroots', ?_, ?_,
    card_common_shards_lt hcheck hij hx hy hfull hne⟩
  · rw [hlength, hlength', length_exchange hsize hij hx hy hfull]
  · refine hd.primaryRoot?_ne_or_collision hcheck hd' ?_
    rw [hsegments, hexchange]
    exact fun heq => hne (append_exchange_eq_iff.1 heq)
  · intro position hposition
    rw [ne_eq, ← shardsAt_exchange_eq_iff hcheck hij hx hy hfull hposition]
    exact ⟨hd.shardRoot?_congr hcheck hd' hposition,
      hd.shardRoot?_ne_or_collision hcheck hd' hposition⟩

/-- Four segments, the first and the third exchanged, which begin with the
same byte: the root at the first data position stays, the primary root and
the other two become others. -/
theorem roots_of_exchanged_ends :
    (ReedSolomon.Library.interpolating.Documented ∧ (⟨2, ⟨2, 1⟩⟩ : Profile).check = .ok () ∧
      ((⟨2, ⟨2, 1⟩⟩ : Profile).segments [1, 2, 5, 6, 1, 3, 7])[0]? = some [1, 2] ∧
      ((⟨2, ⟨2, 1⟩⟩ : Profile).segments [1, 2, 5, 6, 1, 3, 7])[2]? = some [1, 3] ∧
      ([1, 2] : Bytes) ≠ [1, 3]) ∧
    (⟨2, ⟨2, 1⟩⟩ : Profile).exchange 0 2 [1, 2, 5, 6, 1, 3, 7] = [1, 3, 5, 6, 1, 2, 7] ∧
    ∃ d d', (⟨2, ⟨2, 1⟩⟩ : Profile).Gives [1, 2, 5, 6, 1, 3, 7] d ∧
      (⟨2, ⟨2, 1⟩⟩ : Profile).Gives [1, 3, 5, 6, 1, 2, 7] d' ∧
      d.primaryRoot? ≠ d'.primaryRoot? ∧ d.shardRoot? 0 = d'.shardRoot? 0 ∧
      d.shardRoot? 1 ≠ d'.shardRoot? 1 ∧ d.shardRoot? 2 ≠ d'.shardRoot? 2 := by
  have hlib := ReedSolomon.Library.documented_interpolating
  have hcheck : (⟨2, ⟨2, 1⟩⟩ : Profile).check = .ok () := rfl
  have hx : ((⟨2, ⟨2, 1⟩⟩ : Profile).segments [1, 2, 5, 6, 1, 3, 7])[0]? = some [1, 2] := by
    decide +kernel
  have hy : ((⟨2, ⟨2, 1⟩⟩ : Profile).segments [1, 2, 5, 6, 1, 3, 7])[2]? = some [1, 3] := by
    decide +kernel
  have hexchange : (⟨2, ⟨2, 1⟩⟩ : Profile).exchange 0 2 [1, 2, 5, 6, 1, 3, 7] =
      [1, 3, 5, 6, 1, 2, 7] := by
    decide +kernel
  obtain ⟨-, d, d', hd, hd', -, -, -, hprimary, hshards, -⟩ :=
    roots_of_exchange hlib hcheck Nat.two_pos hx hy rfl (by decide)
  rw [hexchange] at hd' hprimary hshards
  refine ⟨⟨hlib, hcheck, hx, hy, by decide⟩, hexchange, d, d', hd, hd', ?_, ?_, ?_, ?_⟩
  · exact hprimary.resolve_right (by decide +kernel)
  · exact (hshards 0 (by decide)).1 (by decide +kernel)
  · exact ((hshards 1 (by decide)).2 (by decide +kernel)).resolve_right (by decide +kernel)
  · exact ((hshards 2 (by decide)).2 (by decide +kernel)).resolve_right (by decide +kernel)

/-- **A root that does not see an exchange.** Two segments of two bytes that
begin with the same byte are exchanged: the root at the first data position
stays, and no two of all the strings that are hashed for the two digests
have the same checksum. -/
theorem shardRoot?_of_common_shard :
    (⟨2, ⟨2, 1⟩⟩ : Profile).check = .ok () ∧
    (⟨2, ⟨2, 1⟩⟩ : Profile).segments [1, 2, 1, 3] = [[1, 2], [1, 3]] ∧
    (⟨2, ⟨2, 1⟩⟩ : Profile).exchange 0 1 [1, 2, 1, 3] = [1, 3, 1, 2] ∧
    ∃ d d', (⟨2, ⟨2, 1⟩⟩ : Profile).Gives [1, 2, 1, 3] d ∧
      (⟨2, ⟨2, 1⟩⟩ : Profile).Gives [1, 3, 1, 2] d' ∧
      (∃ root, d.shardRoot? 0 = some root ∧ d'.shardRoot? 0 = some root) ∧
      ¬ Collision ((⟨2, ⟨2, 1⟩⟩ : Profile).hashed [1, 2, 1, 3] ++
        (⟨2, ⟨2, 1⟩⟩ : Profile).hashed [1, 3, 1, 2]) := by
  have hcheck : (⟨2, ⟨2, 1⟩⟩ : Profile).check = .ok () := rfl
  obtain ⟨d, hd, -⟩ := exists_gives hcheck [1, 2, 1, 3]
  obtain ⟨d', hd', -⟩ := exists_gives hcheck [1, 3, 1, 2]
  have hposition : 0 < (⟨2, ⟨2, 1⟩⟩ : Profile).totalShards := by decide
  have hstays := hd.shardRoot?_congr hcheck hd' hposition (by decide +kernel)
  have hroot := hd.shardRoot?_eq hcheck hposition
  exact ⟨hcheck, by decide +kernel, by decide +kernel, d, d', hd, hd',
    ⟨_, hroot, hstays ▸ hroot⟩, by decide +kernel⟩

end Profile

end ErasureDigest

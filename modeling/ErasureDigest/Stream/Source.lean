import ErasureDigest.Error

/-!
# Sources

A source is the list of what it will do when it is read: hand out bytes,
give a read without bytes, be interrupted, or fail. After the last event it
has ended. `Source.fill` collects bytes for one segment and stops as soon as
the segment is full, without looking at the next event.

`Source.weight` bounds how often a source can be read from:
`weight_rest_fill_lt` says that a fill which gives bytes lowers it.
-/

namespace ErasureDigest

/-- What a source does when it is read. -/
inductive Event
  /-- Bytes, handed out over as many reads as it takes. -/
  | data (bytes : Bytes)
  /-- One read that gives no byte. -/
  | pause
  /-- One read that is interrupted; the reader simply tries again. -/
  | interrupted
  /-- One read that fails. -/
  | failure (fault : IoFault)
  deriving DecidableEq, Repr

/-- What a source will do, in order. -/
abbrev Source := List Event

/-- What one attempt to fill a segment gave, and what the source will do
after it. -/
structure Filled where
  bytes : Except IoFault Bytes
  rest : Source

namespace Source

/-- The source that hands out a byte string held in memory. -/
def ofBytes (bytes : Bytes) : Source := [.data bytes]

/-- The source whose first read fails. -/
def failing (fault : IoFault) : Source := [.failure fault]

/-- Collects bytes until `room` of them are there, a read gives none, or
the source ends. A failure drops what was collected. -/
def fill : (room : Nat) → Source → Filled
  | _, [] => ⟨.ok [], []⟩
  | room, event :: rest =>
    if room = 0 then ⟨.ok [], event :: rest⟩
    else
      match event with
      | .interrupted => fill room rest
      | .pause => ⟨.ok [], rest⟩
      | .failure fault => ⟨.error fault, rest⟩
      | .data bytes =>
        match bytes.drop room with
        -- all of it fits, so the next event is looked at
        | [] =>
          let filled := fill (room - bytes.length) rest
          ⟨filled.bytes.map (bytes ++ ·), filled.rest⟩
        -- the segment is full, and what is left waits for the next one
        | left => ⟨.ok (bytes.take room), .data left :: rest⟩

/-! ## Progress -/

-- a sum of numbers starts at the literal zero, whatever else is imported
attribute [local instance (1100)] Zero.ofOfNat0

/-- How much an event can give: its bytes and one more. -/
def eventWeight : Event → Nat
  | .data bytes => bytes.length + 1
  | _ => 1

/-- How much a source can give. -/
def weight (source : Source) : Nat :=
  (source.map eventWeight).sum

@[simp] theorem weight_nil : weight [] = 0 := rfl

@[simp] theorem weight_cons (event : Event) (rest : Source) :
    weight (event :: rest) = eventWeight event + weight rest := by
  simp [weight]

/-- A fill weighs no less than what it leaves and what it gives. -/
theorem length_add_weight_rest_fill_le (room : Nat) (source : Source) (bytes : Bytes)
    (h : (fill room source).bytes = .ok bytes) :
    bytes.length + weight (fill room source).rest ≤ weight source := by
  induction source generalizing room bytes with
  | nil =>
    simp only [fill, Except.ok.injEq] at h ⊢
    subst h; simp
  | cons event rest ih =>
    unfold fill at h ⊢
    by_cases hroom : room = 0
    · simp only [hroom, if_true, Except.ok.injEq] at h ⊢
      subst h; simp
    · simp only [hroom, if_false] at h ⊢
      cases event with
      | interrupted =>
        have := ih room bytes h
        simp only [weight_cons]
        omega
      | pause =>
        simp only [Except.ok.injEq] at h
        subst h; simp [eventWeight]
      | failure fault => simp at h
      | data content =>
        cases hd : content.drop room with
        | nil =>
          simp only [hd] at h ⊢
          cases hf : (fill (room - content.length) rest).bytes with
          | error fault => simp [hf, Except.map] at h
          | ok more =>
            simp only [hf, Except.map, Except.ok.injEq] at h
            subst h
            have := ih (room - content.length) more hf
            simp only [List.length_append, weight_cons, eventWeight]
            omega
        | cons b left =>
          simp only [hd, Except.ok.injEq] at h ⊢
          subst h
          have hlen := congrArg List.length hd
          simp only [List.length_drop, List.length_cons] at hlen
          simp only [List.length_take, weight_cons, eventWeight, List.length_cons]
          omega

/-- A fill that gives bytes leaves a lighter source. -/
theorem weight_rest_fill_lt {room : Nat} {source : Source} {bytes : Bytes}
    (h : (fill room source).bytes = .ok bytes) (hne : bytes ≠ []) :
    weight (fill room source).rest < weight source := by
  have := length_add_weight_rest_fill_le room source bytes h
  have := List.length_pos_iff.2 hne
  omega

end Source

end ErasureDigest

import ErasureDigest.Proofs.Json.Skipping
import Mathlib.Data.List.Forall2
import Mathlib.Data.List.Nodup

/-!
# Documents, read

A reader reads a document when it takes the document's value from each text that
stands for it (`Reads`). Texts, numbers, names, lists and records are read so
once their parts are (`reads_sequence`, `reads_record`), and what is read at the
front of a text is what the whole text stands for (`read_of_isTextOf`).

Fields of a record come in any order. What has been put together after some of
them depends on which they are and not on their order (`Assembles`).
-/

namespace ErasureDigest

namespace Json

namespace Reader

variable {α σ : Type} {r : Reader α} {value : α} {count : Nat}
variable {chars before rest body lead : List Char}

/-! ## Values between blanks -/

/-- A reader takes a value from some characters, whatever blanks stand in front
of them and whatever may follow a value. -/
def Takes (r : Reader α) (chars : List Char) (value : α) : Prop :=
  ∀ count before rest, IsBlank before → Follows rest →
    (before ++ (chars ++ rest)).length < count →
      r count (before ++ (chars ++ rest)) = .ok (value, rest)

/-- A reader takes a value from all texts of a document. -/
def Reads (r : Reader α) (j : Json) (value : α) : Prop :=
  ∀ chars, Writes (.value j) chars → Takes r chars value

/-- What stands after a value and its blanks is left, with the blanks. -/
theorem Takes.exists_blanks {item : List Char} (h : Takes r chars value)
    (hitem : Spaced chars item) (hrest : Follows rest) (hcount : (item ++ rest).length < count) :
    ∃ blanks, IsBlank blanks ∧ (blanks ++ rest).length ≤ (item ++ rest).length ∧
      r count (item ++ rest) = .ok (value, blanks ++ rest) := by
  obtain ⟨before, after, hbefore, hafter, rfl⟩ := hitem
  simp only [List.append_assoc] at hcount ⊢
  refine ⟨after, hafter, ?_,
    h count before (after ++ rest) hbefore (follows_of_isBlank hafter hrest) hcount⟩
  simp only [List.length_append]
  omega

theorem takes_skipValue (h : Derives .value chars) : Takes skipValue chars () := by
  intro count before rest hbefore hrest hcount
  have hskip : skipValue count (before ++ (chars ++ rest)) = skipValue count (chars ++ rest) :=
    skipAll_of_isBlank hbefore count [] _
  rw [List.length_append] at hcount
  rw [hskip, skipValue_of_derives h hrest (by omega)]

/-! ## Texts and numbers -/

/-- A quoted text, its opening quote taken. -/
theorem quoted_of_quotes {name : String} {body : List Char} (h : SpellsAll name.toList body)
    (rest : List Char) (hcount : (body ++ '"' :: rest).length < count) :
    quoted count (body ++ '"' :: rest) = .ok (name, rest) := by
  rw [List.length_append] at hcount
  exact quoted_of_spellsAll h (by omega) rest

theorem reads_text (s : String) : Reads text (.text s) s := by
  rintro _ ⟨body, hbody, rfl⟩ count before rest hbefore _ hcount
  simp only [List.cons_append, List.append_assoc, List.nil_append] at hcount ⊢
  rw [List.length_append, List.length_cons] at hcount
  rw [text, bind_of_ok (peek_of_isBlank hbefore (by decide) _), if_pos rfl,
    bind_of_ok (advance_cons _ _ _), quoted_of_quotes hbody rest (by omega)]

theorem reads_natural (expected : String) (n : UInt64) :
    Reads (natural expected) (.number n) n := by
  rintro _ ⟨⟩ count before rest hbefore hrest _
  obtain ⟨c, tail, hdigits, hc⟩ := (isUnsigned_digits n).exists_cons
  have hminus : c ≠ '-' := Numeral.ne_of_isDigit hc rfl
  have hblank : isBlank c = false := by
    have hne {d : Char} (hd : d.isDigit = false) : c ≠ d := Numeral.ne_of_isDigit hc hd
    simp [isBlank, hne]
  have hnumber : numberTail true count _ = _ := numberTail_digits n hrest
  rw [hdigits, List.cons_append] at hnumber ⊢
  rw [natural, bind_of_ok (peek_of_isBlank hbefore hblank _), if_pos (Or.inr hc)]
  simp only [hminus, if_false, decide_true, ne_eq, not_false_eq_true]
  rw [bind_of_ok hnumber]
  rfl

/-- A variant is read off its name. -/
theorem reads_variant {variants : List (String × α)} {name : String}
    (h : variants.lookup name = some value) : Reads (variant variants) (.text name) value := by
  rintro _ ⟨body, hbody, rfl⟩ count before rest hbefore _ hcount
  simp only [List.cons_append, List.append_assoc, List.nil_append] at hcount ⊢
  rw [List.length_append, List.length_cons] at hcount
  rw [variant, bind_of_ok (peek_of_isBlank hbefore (by decide) _)]
  simp only
  rw [bind_of_ok (advance_cons _ _ _), bind_of_ok (quoted_of_quotes hbody rest (by omega)),
    variantOf, h]
  rfl

/-! ## Lists -/

/-- What stands in front of a part: nothing before the first, and before any
other a comma after blanks. -/
def Leads (first : Bool) (lead : List Char) : Prop :=
  if first then lead = [] else ∃ blanks, IsBlank blanks ∧ lead = blanks ++ [',']

theorem leads_first : Leads true [] := rfl

theorem leads_comma {blanks : List Char} (hblanks : IsBlank blanks) :
    Leads false (blanks ++ [',']) :=
  ⟨blanks, hblanks, rfl⟩

theorem hasItem_of_leads {first : Bool} {c : Char} (hlead : Leads first lead)
    (hbefore : IsBlank before) (hc : isBlank c = false) (hclosing : c ≠ ']') (rest : List Char) :
    hasItem first count (lead ++ (before ++ c :: rest)) = .ok (true, c :: rest) := by
  have hpeek : peek count _ = _ := peek_of_isBlank hbefore hc rest
  cases first with
  | true =>
    obtain rfl : lead = [] := hlead
    rw [hasItem, List.nil_append, bind_of_ok hpeek, if_neg hclosing, if_pos rfl]
    rfl
  | false =>
    obtain ⟨blanks, hblanks, rfl⟩ := hlead
    rw [hasItem, List.append_assoc, List.singleton_append,
      bind_of_ok (peek_of_isBlank hblanks (by decide) _), if_neg (by decide), if_neg (by decide),
      if_pos rfl, bind_of_ok (advance_cons _ _ _), bind_of_ok hpeek, if_neg hclosing]
    rfl

theorem hasItem_end (hbefore : IsBlank before) (first : Bool) (rest : List Char) :
    hasItem first count (before ++ ']' :: rest) = .ok (false, ']' :: rest) := by
  rw [hasItem, bind_of_ok (peek_of_isBlank hbefore (by decide) _), if_pos rfl]
  rfl

/-- The items of a list end where it does. -/
theorem items_end (hbefore : IsBlank before) {room : Nat} (hroom : 0 < room) (first : Bool)
    (rest : List Char) :
    items r room first count (before ++ ']' :: rest) = .ok ([], ']' :: rest) := by
  obtain ⟨room, rfl⟩ := Nat.exists_eq_add_one_of_ne_zero (Nat.ne_zero_of_lt hroom)
  rw [items, bind_of_ok (hasItem_end hbefore first rest), if_neg (by decide)]
  rfl

/-- An item is taken, and then the others. -/
theorem items_item {first : Bool} {item : List Char} {values : List α} {j : Json}
    (h : Reads r j value) (hwrites : Writes (.value j) chars) (hitem : Spaced chars item)
    (hlead : Leads first lead) (hrest : Follows rest) {room : Nat} {text : List Char}
    (hcount : (lead ++ (item ++ rest)).length < count)
    (hothers : ∀ blanks, IsBlank blanks → (blanks ++ rest).length < (item ++ rest).length →
      items r room false count (blanks ++ rest) = .ok (values, text)) :
    items r (room + 1) first count (lead ++ (item ++ rest)) = .ok (value :: values, text) := by
  obtain ⟨before, after, hbefore, hafter, rfl⟩ := hitem
  obtain ⟨c, tail, rfl, hc, hclosing, -⟩ := hwrites.derives.exists_cons
  have hshorter :
      (after ++ rest).length < (before ++ c :: tail ++ after ++ rest).length := by
    simp only [List.length_append, List.length_cons]
    omega
  simp only [List.append_assoc, List.cons_append, List.length_append, List.length_cons]
    at hcount ⊢
  have htake := h _ hwrites count [] (after ++ rest) isBlank_nil (follows_of_isBlank hafter hrest)
    (by simp only [List.nil_append, List.cons_append, List.length_append, List.length_cons]; omega)
  rw [List.nil_append, List.cons_append] at htake
  rw [items, bind_of_ok (hasItem_of_leads hlead hbefore hc hclosing _), if_pos rfl,
    bind_of_ok htake, bind_of_ok (hothers after hafter hshorter)]
  rfl

/-- **The items of a list are read one after the other.** -/
theorem items_of_writes {js : List Json} {values : List α} (h : List.Forall₂ (Reads r) js values)
    (hwrites : Writes (.items js) body) {first : Bool} (hlead : Leads first lead) {room : Nat}
    (rest : List Char) (hroom : (lead ++ (body ++ ']' :: rest)).length < room)
    (hcount : (lead ++ (body ++ ']' :: rest)).length < count) :
    items r room first count (lead ++ (body ++ ']' :: rest)) = .ok (values, ']' :: rest) := by
  generalize hphrase : Phrase.items js = phrase at hwrites
  induction hwrites generalizing js values first lead room with
  | lastItem hvalue hitem =>
    obtain rfl := Phrase.items.inj hphrase
    obtain _ | ⟨hread, ⟨⟩⟩ := h
    obtain ⟨room, rfl⟩ := Nat.exists_eq_add_one_of_ne_zero (Nat.ne_zero_of_lt hroom)
    simp only [List.length_append, List.length_cons] at hroom
    exact items_item hread hvalue hitem hlead (follows_cons (by decide)) hcount
      fun blanks hblanks _ => items_end hblanks (by omega) false rest
  | @item j others chars item tail hvalue hitem hothers _ ih =>
    obtain rfl := Phrase.items.inj hphrase
    obtain _ | ⟨hread, hreads⟩ := h
    obtain ⟨room, rfl⟩ := Nat.exists_eq_add_one_of_ne_zero (Nat.ne_zero_of_lt hroom)
    rw [List.append_assoc, List.cons_append] at hroom hcount ⊢
    refine items_item hread hvalue hitem hlead (follows_cons (by decide)) hcount ?_
    intro blanks hblanks hshorter
    have htext : blanks ++ ',' :: (tail ++ ']' :: rest) =
        (blanks ++ [',']) ++ (tail ++ ']' :: rest) := by simp
    rw [List.length_append] at hroom hcount
    rw [htext] at hshorter ⊢
    exact ih hreads (leads_comma hblanks) (by omega) (by omega) rfl
  | _ => cases hphrase

/-- **A list is read when its items are.** -/
theorem reads_sequence {js : List Json} {values : List α}
    (h : List.Forall₂ (Reads r) js values) : Reads (sequence r) (.list js) values := by
  intro chars hwrites count before rest hbefore hrest hcount
  have hitems : ∃ inner, chars = '[' :: (inner ++ [']']) ∧
      ∀ room, (inner ++ ']' :: rest).length < room → (inner ++ ']' :: rest).length < count →
        items r room true count (inner ++ ']' :: rest) = .ok (values, ']' :: rest) := by
    cases hwrites with
    | emptyList hblanks =>
      obtain ⟨⟩ := h
      exact ⟨_, rfl, fun room hroom _ => items_end hblanks (Nat.zero_lt_of_lt hroom) true rest⟩
    | list hwrites =>
      exact ⟨_, rfl, fun room hroom hcount =>
        items_of_writes h hwrites leads_first rest hroom hcount⟩
  obtain ⟨inner, rfl, hitems⟩ := hitems
  simp only [List.cons_append, List.append_assoc, List.nil_append] at hcount ⊢
  rw [List.length_append, List.length_cons] at hcount
  have hbound : bound count (inner ++ ']' :: rest) = .ok (count, inner ++ ']' :: rest) := rfl
  have hend : listEnd count (']' :: rest) = .ok ((), rest) := by
    rw [listEnd, bind_of_ok (peek_cons (by decide) _), if_pos rfl, advance_cons]
  rw [sequence, bind_of_ok (peek_of_isBlank hbefore (by decide) _), if_pos rfl,
    bind_of_ok (advance_cons _ _ _), bind_of_ok hbound,
    bind_of_ok (hitems count (by omega) (by omega)), bind_of_ok hend]
  rfl

/-! ## Records -/

/-- A value in its place, once the field of its name has been read. -/
def given (names : List String) (name : String) (value : α) : Option α :=
  if name ∈ names then some value else none

section Given

variable {names : List String} {name other : String}

@[simp] theorem given_nil : given [] name value = none := rfl

@[simp] theorem given_self : given (name :: names) name value = some value :=
  if_pos List.mem_cons_self

@[simp] theorem given_cons_of_ne (h : name ≠ other) :
    given (other :: names) name value = given names name value := by
  simp [given, h]

theorem given_of_mem (h : name ∈ names) : given names name value = some value := if_pos h

theorem isSome_given : (given names name value).isSome = decide (name ∈ names) := by
  by_cases h : name ∈ names <;> simp [given, h]

end Given

/-- A field fits a member of a record when it takes in that member and nothing
else. `state names` is what has been put together once the members with these
names have been read. -/
structure Fits (state : List String → σ) (field : Field σ) (member : String × Json) : Prop where
  name_eq : field.name = member.1
  isSet_eq : ∀ names, field.isSet (state names) = decide (member.1 ∈ names)
  reads : ∀ names, Reads (field.read (state names)) member.2 (state (member.1 :: names))

/-- A field that is read into its place. -/
theorem fits_field {state : List String → σ} {j : Json} (name : String) {get? : σ → Option α}
    {put : σ → α → σ} (h : Reads r j value)
    (hget : ∀ names, get? (state names) = given names name value)
    (hput : ∀ names, put (state names) value = state (name :: names)) :
    Fits state (field name get? put r) (name, j) where
  name_eq := rfl
  isSet_eq names := (congrArg Option.isSome (hget names)).trans isSome_given
  reads names := by
    intro chars hwrites count before rest hbefore hrest hcount
    rw [← hput names]
    change (r >>= fun value => pure (put (state names) value)) count _ = _
    rw [bind_of_ok (h chars hwrites count before rest hbefore hrest hcount)]
    rfl

/-- How a record is put together from its members in any order. -/
structure Assembles (known : List (Field σ)) (empty : σ) (build : σ → Option α)
    (members : List (String × Json)) (state : List String → σ) (value : α) : Prop where
  fits : List.Forall₂ (Fits state) known members
  nodup : (members.map (·.1)).Nodup
  state_nil : state [] = empty
  build_state : ∀ names, (∀ member ∈ members, member.1 ∈ names) → build (state names) = some value

section Fits

variable {known : List (Field σ)} {members : List (String × Json)} {state : List String → σ}

/-- A member is found under its name. -/
theorem exists_fits (h : List.Forall₂ (Fits state) known members)
    (hnodup : (members.map (·.1)).Nodup) {member : String × Json} (hmember : member ∈ members) :
    ∃ field, known.find? (·.name = member.1) = some field ∧ Fits state field member := by
  induction h with
  | nil => cases hmember
  | @cons field first known members hfits _ ih =>
    rw [List.map_cons, List.nodup_cons] at hnodup
    rcases List.mem_cons.1 hmember with rfl | hmember
    · exact ⟨field, List.find?_cons_of_pos (by simp [hfits.name_eq]), hfits⟩
    · obtain ⟨found, hfind, hfound⟩ := ih hnodup.2 hmember
      have hne : first.1 ≠ member.1 := fun heq =>
        hnodup.1 (heq ▸ List.mem_map_of_mem hmember)
      exact ⟨found, by rw [List.find?_cons_of_neg (by simp [hfits.name_eq, hne]), hfind], hfound⟩

/-- Nothing is found under another name. -/
theorem find?_other (h : List.Forall₂ (Fits state) known members) {other : String}
    (hother : other ∉ members.map (·.1)) : known.find? (·.name = other) = none := by
  induction h with
  | nil => rfl
  | cons hfits _ ih =>
    rw [List.map_cons, List.mem_cons, not_or] at hother
    rw [List.find?_cons_of_neg (by simp [hfits.name_eq, Ne.symm hother.1]), ih hother.2]

/-- With all members nothing is missing. -/
theorem find?_unset (h : List.Forall₂ (Fits state) known members) {names : List String}
    (hnames : ∀ member ∈ members, member.1 ∈ names) :
    known.find? (fun field => !field.isSet (state names)) = none := by
  induction h with
  | nil => rfl
  | cons hfits _ ih =>
    rw [List.forall_mem_cons] at hnames
    rw [List.find?_cons_of_neg (by simp [hfits.isSet_eq, hnames.1]), ih hnames.2]

end Fits

theorem hasField_of_leads {first : Bool} (hlead : Leads first lead) (hbefore : IsBlank before)
    (rest : List Char) :
    hasField first count (lead ++ (before ++ '"' :: rest)) = .ok (true, '"' :: rest) := by
  have hpeek : peek count (before ++ '"' :: rest) = _ := peek_of_isBlank hbefore (by decide) rest
  cases first with
  | true =>
    obtain rfl : lead = [] := hlead
    rw [hasField, List.nil_append, bind_of_ok hpeek, if_neg (by decide)]
    rfl
  | false =>
    obtain ⟨blanks, hblanks, rfl⟩ := hlead
    rw [hasField, List.append_assoc, List.singleton_append,
      bind_of_ok (peek_of_isBlank hblanks (by decide) _), if_neg (by decide)]
    simp only [Bool.not_false, if_true, ne_eq, not_true_eq_false, if_false]
    rw [bind_of_ok (advance_cons _ _ _), bind_of_ok hpeek]
    rfl

theorem hasField_end (hbefore : IsBlank before) (first : Bool) (rest : List Char) :
    hasField first count (before ++ '\x7d' :: rest) = .ok (false, '\x7d' :: rest) := by
  rw [hasField, bind_of_ok (peek_of_isBlank hbefore (by decide) _), if_pos rfl]
  rfl

theorem colon_of_isBlank (hbefore : IsBlank before) (rest : List Char) :
    colon count (before ++ ':' :: rest) = .ok ((), rest) := by
  rw [colon, bind_of_ok (peek_of_isBlank hbefore (by decide) _), if_pos rfl, advance_cons]

section Fields

variable {known : List (Field σ)} {state : σ}

/-- The fields of an object end where it does. -/
theorem fields_end (hbefore : IsBlank before) {room : Nat} (hroom : 0 < room) (first : Bool)
    (state : σ) (rest : List Char) :
    fields known room first state count (before ++ '\x7d' :: rest) =
      .ok (state, '\x7d' :: rest) := by
  obtain ⟨room, rfl⟩ := Nat.exists_eq_add_one_of_ne_zero (Nat.ne_zero_of_lt hroom)
  rw [fields, bind_of_ok (hasField_end hbefore first rest), if_neg (by decide)]
  rfl

/-- What is done with the value of a field of some name. -/
def fieldValue (known : List (Field σ)) (name : String) (state : σ) : Reader σ :=
  match known.find? (·.name = name) with
  | some field => do
    if field.isSet state then throw (.mismatch (.duplicateField name))
    field.read state
  | none => do
    skipValue
    pure state

/-- After the name of a field, its value and the other fields are read. -/
theorem fields_name {first : Bool} {quoted name : List Char} {label : String}
    (hquoted : Quotes label quoted) (hname : Spaced quoted name) (hlead : Leads first lead)
    (room : Nat) (hcount : (lead ++ (name ++ ':' :: rest)).length < count) :
    fields known (room + 1) first state count (lead ++ (name ++ ':' :: rest)) =
      (fieldValue known label state >>= fields known room false) count rest := by
  obtain ⟨inner, hinner, rfl⟩ := hquoted
  obtain ⟨before, after, hbefore, hafter, rfl⟩ := hname
  have htext : lead ++ (before ++ '"' :: (inner ++ ['"']) ++ after ++ ':' :: rest) =
      lead ++ (before ++ '"' :: (inner ++ '"' :: (after ++ ':' :: rest))) := by simp
  rw [htext] at hcount ⊢
  simp only [List.length_append, List.length_cons] at hcount
  have hcolon : colon count _ = _ := colon_of_isBlank hafter rest
  rw [fields, bind_of_ok (hasField_of_leads hlead hbefore _), if_pos rfl,
    bind_of_ok (advance_cons _ _ _),
    bind_of_ok (quoted_of_quotes hinner (after ++ ':' :: rest) (by simp; omega)), fieldValue]
  cases known.find? (·.name = label) with
  | none =>
    simp only [bind_assoc, pure_bind]
    rw [bind_of_ok hcolon]
  | some field =>
    cases hset : field.isSet state with
    | true =>
      simp only [hset, if_true]
      rfl
    | false =>
      simp only [hset]
      rw [if_neg (by decide), if_neg (by decide), bind_of_ok hcolon]

/-- A field is taken, name and value, and the others are left. -/
theorem fields_member {first : Bool} {quoted name item : List Char} {label : String}
    {state' : σ} (hquoted : Quotes label quoted) (hname : Spaced quoted name)
    (hitem : Spaced chars item) (hlead : Leads first lead) (hrest : Follows rest)
    (htake : Takes (fieldValue known label state) chars state') {room : Nat}
    (hroom : (lead ++ (name ++ ':' :: (item ++ rest))).length < room)
    (hcount : (lead ++ (name ++ ':' :: (item ++ rest))).length < count) :
    ∃ blanks left, IsBlank blanks ∧ (blanks ++ rest).length < left ∧
      (blanks ++ rest).length < count ∧
      fields known room first state count (lead ++ (name ++ ':' :: (item ++ rest))) =
        fields known left false state' count (blanks ++ rest) := by
  obtain ⟨room, rfl⟩ := Nat.exists_eq_add_one_of_ne_zero (Nat.ne_zero_of_lt hroom)
  have hrest' : fields known (room + 1) first state count _ = _ :=
    fields_name hquoted hname hlead room hcount
  rw [List.length_append, List.length_append, List.length_cons] at hroom hcount
  obtain ⟨blanks, hblanks, hlength, hvalue⟩ := htake.exists_blanks hitem hrest
    (show (item ++ rest).length < count by omega)
  refine ⟨blanks, room, hblanks, by omega, by omega, ?_⟩
  rw [hrest', bind_of_ok hvalue]

variable {α : Type} {value : α} {empty : σ} {build : σ → Option α}
variable {members remaining : List (String × Json)} {assemble : List String → σ}

/-- The fields not yet read, and the names of those that have been. -/
structure Splits (members remaining : List (String × Json)) (names : List String) : Prop where
  sub : ∀ member ∈ remaining, member ∈ members
  nodup : (remaining.map (·.1)).Nodup
  not_mem : ∀ member ∈ remaining, member.1 ∉ names
  mem : ∀ member ∈ members, member ∈ remaining ∨ member.1 ∈ names

namespace Splits

variable {names : List String}

theorem start (hnodup : (members.map (·.1)).Nodup) : Splits members members [] where
  sub _ hmember := hmember
  nodup := hnodup
  not_mem _ _ := List.not_mem_nil
  mem _ hmember := Or.inl hmember

theorem done (h : Splits members [] names) {member : String × Json} (hmember : member ∈ members) :
    member.1 ∈ names :=
  (h.mem member hmember).resolve_left List.not_mem_nil

/-- Reading any of the fields leaves the others. -/
theorem read {before after : List (String × Json)} {member : String × Json}
    (h : Splits members (before ++ member :: after) names) :
    Splits members (before ++ after) (member.1 :: names) := by
  have hkeep : ∀ m ∈ before ++ after, m ∈ before ++ member :: after := fun m hm => by
    rw [List.mem_append] at hm
    rw [List.mem_append, List.mem_cons]
    exact hm.imp id Or.inr
  have hnodup := h.nodup
  rw [List.map_append, List.map_cons, List.nodup_middle, ← List.map_append, List.nodup_cons]
    at hnodup
  refine ⟨fun m hm => h.sub m (hkeep m hm), hnodup.2, fun m hm hname => ?_, fun m hm => ?_⟩
  · rcases List.mem_cons.1 hname with hname | hname
    · exact hnodup.1 (hname ▸ List.mem_map_of_mem hm)
    · exact h.not_mem m (hkeep m hm) hname
  · rcases h.mem m hm with hm | hm
    · rw [List.mem_append, List.mem_cons] at hm
      rcases hm with hm | rfl | hm
      · exact Or.inl (List.mem_append_left _ hm)
      · exact Or.inr List.mem_cons_self
      · exact Or.inl (List.mem_append_right _ hm)
    · exact Or.inr (List.mem_cons_of_mem _ hm)

end Splits

theorem Assembles.takes_member (h : Assembles known empty build members assemble value)
    {member : String × Json} (hmember : member ∈ members) {names : List String}
    (hname : member.1 ∉ names) (hwrites : Writes (.value member.2) chars) :
    Takes (fieldValue known member.1 (assemble names)) chars (assemble (member.1 :: names)) := by
  obtain ⟨field, hfind, hfits⟩ := exists_fits h.fits h.nodup hmember
  intro count before rest hbefore hrest hcount
  rw [fieldValue, hfind]
  simp only [hfits.isSet_eq, hname, decide_false]
  rw [if_neg (by decide)]
  exact hfits.reads names chars hwrites count before rest hbefore hrest hcount

theorem Assembles.takes_other (h : Assembles known empty build members assemble value)
    {other : String} (hother : other ∉ members.map (·.1)) (hderives : Derives .value chars) :
    Takes (fieldValue known other state) chars state := by
  intro count before rest hbefore hrest hcount
  rw [fieldValue, find?_other h.fits hother]
  simp only
  rw [bind_of_ok (takes_skipValue hderives count before rest hbefore hrest hcount)]
  rfl

/-- **The fields of an object are read in whatever order they stand.** -/
theorem fields_of_writes (h : Assembles known empty build members assemble value)
    (hwrites : Writes (.members (members.map (·.1)) remaining) body) {names : List String}
    (hsplits : Splits members remaining names) {first : Bool} (hlead : Leads first lead)
    {room : Nat} (rest : List Char) (hroom : (lead ++ (body ++ '\x7d' :: rest)).length < room)
    (hcount : (lead ++ (body ++ '\x7d' :: rest)).length < count) :
    ∃ names', (∀ member ∈ members, member.1 ∈ names') ∧
      fields known room first (assemble names) count (lead ++ (body ++ '\x7d' :: rest)) =
        .ok (assemble names', '\x7d' :: rest) := by
  generalize hphrase : Phrase.members (members.map (·.1)) remaining = phrase at hwrites
  induction hwrites generalizing remaining names first lead room with
  | lastField hquoted hname hvalue hitem =>
    obtain ⟨rfl, rfl⟩ := Phrase.members.inj hphrase
    have hmem := hsplits.sub _ List.mem_cons_self
    have htake := h.takes_member hmem (hsplits.not_mem _ List.mem_cons_self) hvalue
    rw [List.append_assoc, List.cons_append] at hroom hcount ⊢
    obtain ⟨blanks, left, hblanks, hleft, -, hfields⟩ := fields_member hquoted hname hitem hlead
      (follows_cons (by decide)) htake hroom hcount
    have hdone := @Splits.read members names [] [] _ hsplits
    exact ⟨_, fun _ => hdone.done, hfields.trans (fields_end hblanks (by omega) false _ rest)⟩
  | @field _ before after member _ _ _ _ tail hquoted hname hvalue hitem hothers _ ih =>
    obtain ⟨rfl, rfl⟩ := Phrase.members.inj hphrase
    have hmem : member ∈ before ++ member :: after :=
      List.mem_append_right before List.mem_cons_self
    have htake := h.takes_member (hsplits.sub _ hmem) (hsplits.not_mem _ hmem) hvalue
    simp only [List.append_assoc, List.cons_append] at hroom hcount ⊢
    obtain ⟨blanks, left, hblanks, hleft, hcount, hfields⟩ := fields_member hquoted hname hitem
      hlead (follows_cons (by decide)) htake hroom hcount
    rw [hfields]
    rw [List.append_cons blanks] at hleft hcount ⊢
    exact ih hsplits.read (leads_comma hblanks) hleft hcount rfl
  | lastOther hother hquoted hname hvalue hitem =>
    obtain ⟨rfl, rfl⟩ := Phrase.members.inj hphrase
    rw [List.append_assoc, List.cons_append] at hroom hcount ⊢
    obtain ⟨blanks, left, hblanks, hleft, -, hfields⟩ := fields_member hquoted hname hitem hlead
      (follows_cons (by decide)) (h.takes_other hother hvalue) hroom hcount
    exact ⟨_, fun _ => hsplits.done, hfields.trans (fields_end hblanks (by omega) false _ rest)⟩
  | @other _ _ _ _ _ _ _ tail hother hquoted hname hvalue hitem hothers ih =>
    obtain ⟨rfl, rfl⟩ := Phrase.members.inj hphrase
    simp only [List.append_assoc, List.cons_append] at hroom hcount ⊢
    obtain ⟨blanks, left, hblanks, hleft, hcount, hfields⟩ := fields_member hquoted hname hitem
      hlead (follows_cons (by decide)) (h.takes_other hother hvalue) hroom hcount
    rw [hfields]
    rw [List.append_cons blanks] at hleft hcount ⊢
    exact ih hsplits (leads_comma hblanks) hleft hcount rfl
  | _ => cases hphrase

/-- **A record is read when its fields are.** -/
theorem reads_record (h : Assembles known empty build members assemble value) (name : String) :
    Reads (record name known empty build) (.record members) value := by
  intro chars hwrites count before rest hbefore hrest hcount
  have hfields : ∃ inner, chars = '\x7b' :: (inner ++ ['\x7d']) ∧
      ∀ room, (inner ++ '\x7d' :: rest).length < room →
        (inner ++ '\x7d' :: rest).length < count →
        ∃ names, (∀ member ∈ members, member.1 ∈ names) ∧
          fields known room true empty count (inner ++ '\x7d' :: rest) =
            .ok (assemble names, '\x7d' :: rest) := by
    rw [← h.state_nil]
    cases hwrites with
    | emptyRecord hblanks =>
      exact ⟨_, rfl, fun room hroom _ => ⟨[], nofun,
        fields_end hblanks (Nat.zero_lt_of_lt hroom) true _ rest⟩⟩
    | record hwrites =>
      exact ⟨_, rfl, fun room hroom hcount =>
        fields_of_writes h hwrites (.start h.nodup) leads_first rest hroom hcount⟩
  obtain ⟨inner, rfl, hfields⟩ := hfields
  simp only [List.cons_append, List.append_assoc, List.nil_append] at hcount ⊢
  rw [List.length_append, List.length_cons] at hcount
  obtain ⟨names, hnames, hfields⟩ := hfields count (by omega) (by omega)
  have hbound : bound count (inner ++ '\x7d' :: rest) = .ok (count, inner ++ '\x7d' :: rest) := rfl
  rw [record, bind_of_ok (peek_of_isBlank hbefore (by decide) _), if_pos rfl,
    bind_of_ok (advance_cons _ _ _), bind_of_ok hbound, bind_of_ok hfields,
    find?_unset h.fits hnames]
  simp only
  rw [bind_of_ok (advance_cons _ _ _), pure_bind, h.build_state names hnames]
  rfl

end Fields

/-! ## Some fields of a record -/

/-- Reads one field of a record, whatever the others are. -/
def only (name : String) (r : Reader α) : Reader α :=
  record "" [field name id (fun _ value => some value) r] none id

theorem reads_only {j : Json} (h : Reads r j value) (name : String) :
    Reads (only name r) (.record [(name, j)]) value := by
  refine reads_record (⟨.cons ?_ .nil, by simp, rfl, ?_⟩ :
    Assembles _ _ _ _ (fun names => given names name value) value) ""
  · exact fits_field name h (fun _ => rfl) (fun _ => given_self.symm)
  · intro names hnames
    exact given_of_mem (hnames _ List.mem_cons_self)

/-- What is read of some fields is read of a record that has others besides. -/
theorem Reads.of_filter {fields kept : List (String × Json)} (h : Reads r (.record kept) value)
    (hkept : fields.filter (·.1 ∈ kept.map (·.1)) = kept) : Reads r (.record fields) value :=
  fun chars hwrites => h chars (hwrites.record_of_filter hkept)

end Reader

/-! ## Whole texts -/

/-- **A reader gives the value of a document for every text that stands for the
document.** -/
theorem read_of_isTextOf {α : Type} {r : Reader α} {j : Json} {value : α} {text : String}
    (h : Reader.Reads r j value) (htext : IsTextOf j text) : read r text = .ok value := by
  obtain ⟨chars, _, hwrites, ⟨before, after, hbefore, hafter, rfl⟩, rfl⟩ := htext
  have hread := h chars hwrites ((before ++ (chars ++ after)).length + 1) before after hbefore
    (by simpa using follows_of_isBlank hafter follows_nil) (Nat.lt_succ_self _)
  have hblank : after.dropWhile Reader.isBlank = [] := by
    simpa using Reader.dropWhile_of_isBlank hafter []
  rw [read, String.toList_ofList, List.append_assoc, hread]
  simp only [bind, Except.bind, hblank, List.isEmpty_nil, if_true]
  rfl

end Json

end ErasureDigest

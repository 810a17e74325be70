import ErasureDigest.Json.Document
import ErasureDigest.Json.Reader
import ErasureDigest.Proofs.Text.Digits
import Mathlib.Tactic.SplitIfs

/-!
# The texts of JSON

What JSON looks like, apart from any reader and any writer. `Derives` is the
grammar: a word, a number, a text, or a list or object of such, with blanks
between tokens. `Writes` says which of these texts stand for a document:
blanks may stand anywhere between tokens and characters may be escaped, the
fields of a record come in any order, and fields with other names may stand
among them, whatever well-formed values they have.

A text that stands for a document is well formed (`Writes.derives`), and stands
as well for the document with fewer fields (`Writes.of_filter`). Both ways to
write a document give texts that stand for it (`writes_compact`,
`writes_prettyAt`).
-/

namespace ErasureDigest

namespace Json

/-! ## Words -/

/-- Characters that may stand between tokens. -/
def IsBlank (text : List Char) : Prop := ∀ c ∈ text, Reader.isBlank c = true

/-- What stands with blanks around it. -/
def Spaced (chars text : List Char) : Prop :=
  ∃ before after, IsBlank before ∧ IsBlank after ∧ text = before ++ chars ++ after

/-- Four hexadecimal digits and their value. -/
def IsHex4 (digits : List Char) (n : Nat) : Prop :=
  ∃ a b c d x y z w, digits = [a, b, c, d] ∧ Hex.value? a = some x ∧ Hex.value? b = some y ∧
    Hex.value? c = some z ∧ Hex.value? d = some w ∧ n = ((x * 16 + y) * 16 + z) * 16 + w

/-- The letters of short escapes, with what they stand for. -/
def shortEscapes : List (Char × Char) :=
  [('"', '"'), ('\\', '\\'), ('/', '/'), ('b', '\x08'), ('f', '\x0c'), ('n', '\n'), ('r', '\r'),
    ('t', '\t')]

/-- Whether a character may stand for itself between quotes. -/
def IsPlain (c : Char) : Prop := c ≠ '"' ∧ c ≠ '\\' ∧ 32 ≤ c.toNat

/-- How a character may be written between quotes. One beyond the first 65536
takes two escapes with numbers. -/
inductive Spells : Char → List Char → Prop
  | plain {c : Char} (h : IsPlain c) : Spells c [c]
  | short {letter c : Char} (h : (letter, c) ∈ shortEscapes) : Spells c ['\\', letter]
  | numbered {n : Nat} {digits : List Char} (h : IsHex4 digits n)
    (hn : n < 0xd800 ∨ 0xdfff < n) : Spells (Char.ofNat n) ('\\' :: 'u' :: digits)
  | paired {high low : Nat} {digits digits' : List Char} (hhigh : IsHex4 digits high)
    (hlow : IsHex4 digits' low) (hh : 0xd800 ≤ high ∧ high ≤ 0xdbff)
    (hl : 0xdc00 ≤ low ∧ low ≤ 0xdfff) :
    Spells (Char.ofNat ((high - 0xd800) * 0x400 + (low - 0xdc00) + 0x10000))
      ('\\' :: 'u' :: (digits ++ '\\' :: 'u' :: digits'))

/-- How characters may be written between quotes, one after the other. -/
inductive SpellsAll : List Char → List Char → Prop
  | nil : SpellsAll [] []
  | cons {c : Char} {chars rest body : List Char} (h : Spells c chars)
    (hrest : SpellsAll rest body) : SpellsAll (c :: rest) (chars ++ body)

/-- A text between quotes. -/
def Quotes (value : String) (chars : List Char) : Prop :=
  ∃ body, SpellsAll value.toList body ∧ chars = '"' :: (body ++ ['"'])

/-- What may stand between quotes, its escapes taken by their form only. -/
inductive QuotedForm : List Char → Prop
  | nil : QuotedForm []
  | plain {c : Char} {rest : List Char} (h : IsPlain c) (hrest : QuotedForm rest) :
    QuotedForm (c :: rest)
  | short {letter : Char} {rest : List Char} (h : letter ∈ shortEscapes.map (·.1))
    (hrest : QuotedForm rest) : QuotedForm ('\\' :: letter :: rest)
  | numbered {n : Nat} {digits rest : List Char} (h : IsHex4 digits n)
    (hrest : QuotedForm rest) : QuotedForm ('\\' :: 'u' :: (digits ++ rest))

/-- At least one digit. -/
def IsDigits (chars : List Char) : Prop := chars ≠ [] ∧ ∀ c ∈ chars, c.isDigit = true

/-- The digits before the point: a zero alone, or no zero in front. -/
def IsWhole (chars : List Char) : Prop :=
  chars = ['0'] ∨ IsDigits chars ∧ chars.head? ≠ some '0'

/-- The point with the digits after it, if there is one. -/
def IsFraction (chars : List Char) : Prop :=
  chars = [] ∨ ∃ digits, IsDigits digits ∧ chars = '.' :: digits

/-- The power of ten, if there is one. -/
def IsExponent (chars : List Char) : Prop :=
  chars = [] ∨ ∃ letter sign digits, letter ∈ ['e', 'E'] ∧ sign ∈ [[], ['+'], ['-']] ∧
    IsDigits digits ∧ chars = letter :: (sign ++ digits)

/-- A number without its sign. -/
def IsUnsigned (chars : List Char) : Prop :=
  ∃ whole fraction exponent, IsWhole whole ∧ IsFraction fraction ∧ IsExponent exponent ∧
    chars = whole ++ (fraction ++ exponent)

/-! ## The grammar -/

/-- What the grammar derives: a value, values with commas between them, or
named values with commas between them. -/
inductive Nonterminal
  | value
  | items
  | members

/-- **The grammar of JSON.** -/
inductive Derives : Nonterminal → List Char → Prop
  | word {chars : List Char}
    (h : chars ∈ [['n', 'u', 'l', 'l'], ['t', 'r', 'u', 'e'], ['f', 'a', 'l', 's', 'e']]) :
    Derives .value chars
  | positive {chars : List Char} (h : IsUnsigned chars) : Derives .value chars
  | negative {chars : List Char} (h : IsUnsigned chars) : Derives .value ('-' :: chars)
  | text {body : List Char} (h : QuotedForm body) : Derives .value ('"' :: (body ++ ['"']))
  | emptyList {blanks : List Char} (h : IsBlank blanks) : Derives .value ('[' :: (blanks ++ [']']))
  | list {body : List Char} (h : Derives .items body) : Derives .value ('[' :: (body ++ [']']))
  | emptyObject {blanks : List Char} (h : IsBlank blanks) :
    Derives .value ('\x7b' :: (blanks ++ ['\x7d']))
  | object {body : List Char} (h : Derives .members body) :
    Derives .value ('\x7b' :: (body ++ ['\x7d']))
  | lastItem {chars item : List Char} (h : Derives .value chars) (hitem : Spaced chars item) :
    Derives .items item
  | item {chars item rest : List Char} (h : Derives .value chars) (hitem : Spaced chars item)
    (hrest : Derives .items rest) : Derives .items (item ++ ',' :: rest)
  | lastMember {quoted name chars item : List Char} (hquoted : QuotedForm quoted)
    (hname : Spaced ('"' :: (quoted ++ ['"'])) name) (h : Derives .value chars)
    (hitem : Spaced chars item) : Derives .members (name ++ ':' :: item)
  | member {quoted name chars item rest : List Char} (hquoted : QuotedForm quoted)
    (hname : Spaced ('"' :: (quoted ++ ['"'])) name) (h : Derives .value chars)
    (hitem : Spaced chars item) (hrest : Derives .members rest) :
    Derives .members (name ++ ':' :: (item ++ ',' :: rest))

/-! ## The texts of a document -/

/-- What a text can stand for: a document, several with commas between them, or
fields with commas between them, among which there may be fields with none of
some names. -/
inductive Phrase
  | value (j : Json)
  | items (items : List Json)
  | members (names : List String) (fields : List (String × Json))

/-- What the grammar says of a phrase. -/
def Phrase.nonterminal : Phrase → Nonterminal
  | value _ => .value
  | items _ => .items
  | members _ _ => .members

/-- **The texts that stand for a document.** -/
inductive Writes : Phrase → List Char → Prop
  | text {value : String} {chars : List Char} (h : Quotes value chars) :
    Writes (.value (.text value)) chars
  | number (n : UInt64) : Writes (.value (.number n)) (digits n)
  | emptyList {blanks : List Char} (h : IsBlank blanks) :
    Writes (.value (.list [])) ('[' :: (blanks ++ [']']))
  | list {values : List Json} {body : List Char} (h : Writes (.items values) body) :
    Writes (.value (.list values)) ('[' :: (body ++ [']']))
  | lastItem {j : Json} {chars item : List Char} (h : Writes (.value j) chars)
    (hitem : Spaced chars item) : Writes (.items [j]) item
  | item {j : Json} {values : List Json} {chars item rest : List Char}
    (h : Writes (.value j) chars) (hitem : Spaced chars item)
    (hrest : Writes (.items values) rest) : Writes (.items (j :: values)) (item ++ ',' :: rest)
  | emptyRecord {blanks : List Char} (h : IsBlank blanks) :
    Writes (.value (.record [])) ('\x7b' :: (blanks ++ ['\x7d']))
  | record {fields : List (String × Json)} {body : List Char}
    (h : Writes (.members (fields.map (·.1)) fields) body) :
    Writes (.value (.record fields)) ('\x7b' :: (body ++ ['\x7d']))
  | lastField {names : List String} {field : String × Json} {quoted name chars item : List Char}
    (hquoted : Quotes field.1 quoted) (hname : Spaced quoted name)
    (h : Writes (.value field.2) chars) (hitem : Spaced chars item) :
    Writes (.members names [field]) (name ++ ':' :: item)
  /-- Any of the fields may come first. -/
  | field {names : List String} {before after : List (String × Json)} {field : String × Json}
    {quoted name chars item rest : List Char} (hquoted : Quotes field.1 quoted)
    (hname : Spaced quoted name) (h : Writes (.value field.2) chars) (hitem : Spaced chars item)
    (hrest : Writes (.members names (before ++ after)) rest) :
    Writes (.members names (before ++ field :: after)) (name ++ ':' :: (item ++ ',' :: rest))
  | lastOther {names : List String} {other : String} {quoted name chars item : List Char}
    (hother : other ∉ names) (hquoted : Quotes other quoted) (hname : Spaced quoted name)
    (h : Derives .value chars) (hitem : Spaced chars item) :
    Writes (.members names []) (name ++ ':' :: item)
  | other {names : List String} {fields : List (String × Json)} {other : String}
    {quoted name chars item rest : List Char} (hother : other ∉ names)
    (hquoted : Quotes other quoted) (hname : Spaced quoted name) (h : Derives .value chars)
    (hitem : Spaced chars item) (hrest : Writes (.members names fields) rest) :
    Writes (.members names fields) (name ++ ':' :: (item ++ ',' :: rest))

/-- A whole text that stands for a document, blanks around it. -/
def IsTextOf (j : Json) (text : String) : Prop :=
  ∃ chars body, Writes (.value j) chars ∧ Spaced chars body ∧ text = String.ofList body

/-! ## Blanks -/

theorem isBlank_nil : IsBlank [] := by
  intro c hc
  cases hc

theorem isBlank_space : IsBlank [' '] := by
  intro c hc
  rw [List.mem_singleton.1 hc]
  rfl

theorem isBlank_newLine (depth : Nat) : IsBlank (newLine depth) := by
  intro c hc
  rw [newLine, List.mem_cons, List.mem_replicate] at hc
  rcases hc with rfl | ⟨-, rfl⟩ <;> rfl

theorem spaced_self (chars : List Char) : Spaced chars chars :=
  ⟨[], [], isBlank_nil, isBlank_nil, by simp⟩

/-! ## Documents are well formed -/

theorem Spells.length_pos {c : Char} {chars : List Char} (h : Spells c chars) :
    0 < chars.length := by
  cases h <;> simp

theorem mem_letters_of_mem_shortEscapes {letter c : Char} (h : (letter, c) ∈ shortEscapes) :
    letter ∈ shortEscapes.map (·.1) :=
  List.mem_map_of_mem h

/-- What spells a character is well formed. -/
theorem Spells.quotedForm {c : Char} {chars rest : List Char} (h : Spells c chars)
    (hrest : QuotedForm rest) : QuotedForm (chars ++ rest) := by
  cases h with
  | plain h => exact .plain h hrest
  | short h => exact .short (mem_letters_of_mem_shortEscapes h) hrest
  | numbered h hn => exact .numbered h hrest
  | paired hhigh hlow hh hl =>
    simp only [List.cons_append, List.append_assoc]
    exact .numbered hhigh (.numbered hlow hrest)

theorem SpellsAll.quotedForm {chars body : List Char} (h : SpellsAll chars body) :
    QuotedForm body := by
  induction h with
  | nil => exact .nil
  | cons h hrest ih => exact h.quotedForm ih

theorem Quotes.exists_quotedForm {value : String} {chars : List Char} (h : Quotes value chars) :
    ∃ body, QuotedForm body ∧ chars = '"' :: (body ++ ['"']) := by
  obtain ⟨body, hbody, rfl⟩ := h
  exact ⟨body, hbody.quotedForm, rfl⟩

theorem isDigits_toDigits (n : Nat) : IsDigits (Nat.toDigits 10 n) :=
  ⟨Nat.toDigits_ne_nil, fun _ => Numeral.isDigit_of_mem⟩

theorem isWhole_digits (n : UInt64) : IsWhole (digits n) := by
  by_cases hzero : n.toNat = 0
  · left
    rw [digits, hzero]
    rfl
  · exact Or.inr ⟨isDigits_toDigits _, fun hhead => hzero (Numeral.eq_zero_of_head?_toDigits hhead)⟩

theorem isUnsigned_digits (n : UInt64) : IsUnsigned (digits n) :=
  ⟨digits n, [], [], isWhole_digits n, Or.inl rfl, Or.inl rfl, by simp⟩

/-- **A text that stands for a document is well formed.** -/
theorem Writes.derives {phrase : Phrase} {chars : List Char} (h : Writes phrase chars) :
    Derives phrase.nonterminal chars := by
  induction h with
  | text h =>
    obtain ⟨body, hbody, rfl⟩ := h.exists_quotedForm
    exact .text hbody
  | number n => exact .positive (isUnsigned_digits n)
  | emptyList h => exact .emptyList h
  | list h ih => exact .list ih
  | lastItem h hitem ih => exact .lastItem ih hitem
  | item h hitem hrest ih ihrest => exact .item ih hitem ihrest
  | emptyRecord h => exact .emptyObject h
  | record h ih => exact .object ih
  | lastField hquoted hname h hitem ih =>
    obtain ⟨body, hbody, rfl⟩ := hquoted.exists_quotedForm
    exact .lastMember hbody hname ih hitem
  | field hquoted hname h hitem hrest ih ihrest =>
    obtain ⟨body, hbody, rfl⟩ := hquoted.exists_quotedForm
    exact .member hbody hname ih hitem ihrest
  | lastOther hother hquoted hname h hitem =>
    obtain ⟨body, hbody, rfl⟩ := hquoted.exists_quotedForm
    exact .lastMember hbody hname h hitem
  | other hother hquoted hname h hitem hrest ihrest =>
    obtain ⟨body, hbody, rfl⟩ := hquoted.exists_quotedForm
    exact .member hbody hname h hitem ihrest

/-- **Of fewer fields the others are others.** -/
theorem Writes.of_filter {names names' : List String} {fields : List (String × Json)}
    {body : List Char} (hnames : ∀ name ∈ names', name ∈ names)
    (h : Writes (.members names fields) body) :
    Writes (.members names' (fields.filter (·.1 ∈ names'))) body := by
  generalize hphrase : Phrase.members names fields = phrase at h
  induction h generalizing fields with
  | lastField hquoted hname h hitem =>
    obtain ⟨rfl, rfl⟩ := Phrase.members.inj hphrase
    rw [List.filter_cons, List.filter_nil]
    split
    · exact .lastField hquoted hname h hitem
    · next hkept => exact .lastOther (by simpa using hkept) hquoted hname h.derives hitem
  | @field names before after field quoted name chars item rest hquoted hname h hitem hrest _ ih =>
    obtain ⟨rfl, rfl⟩ := Phrase.members.inj hphrase
    have ih := ih rfl
    rw [List.filter_append] at ih
    rw [List.filter_append, List.filter_cons]
    split
    · exact .field hquoted hname h hitem ih
    · next hkept => exact .other (by simpa using hkept) hquoted hname h.derives hitem ih
  | lastOther hother hquoted hname h hitem =>
    obtain ⟨rfl, rfl⟩ := Phrase.members.inj hphrase
    exact .lastOther (fun hmem => hother (hnames _ hmem)) hquoted hname h hitem
  | other hother hquoted hname h hitem hrest ih =>
    obtain ⟨rfl, rfl⟩ := Phrase.members.inj hphrase
    exact .other (fun hmem => hother (hnames _ hmem)) hquoted hname h hitem (ih rfl)
  | _ => cases hphrase

/-- A text that stands for a record stands for the record of some of its
fields. -/
theorem Writes.record_of_filter {fields kept : List (String × Json)} {chars : List Char}
    (hkept : fields.filter (·.1 ∈ kept.map (·.1)) = kept)
    (h : Writes (.value (.record fields)) chars) : Writes (.value (.record kept)) chars := by
  cases h with
  | emptyRecord hblanks =>
    obtain rfl : [] = kept := hkept
    exact .emptyRecord hblanks
  | record h =>
    have hnames : ∀ name ∈ kept.map (·.1), name ∈ fields.map (·.1) := by
      rw [← hkept]
      exact fun name hname => (List.filter_sublist.map _).subset hname
    have hbody := h.of_filter hnames
    rw [hkept] at hbody
    exact .record hbody

/-! ## Both ways to write a document -/

/-- The digits of a byte's half. -/
theorem value?_digitChar {n : Nat} (h : n < 16) : Hex.value? (Nat.digitChar n) = some n := by
  have hdigit : ∀ m < 16, Hex.value? (Nat.digitChar m) = some m := by decide
  exact hdigit n h

/-- Escaping spells a character. -/
theorem spells_escape (c : Char) : Spells c (escape c) := by
  unfold escape
  split_ifs with h1 h2 h3 h4 h5 h6 h7 h8
  iterate 7
    · subst c
      exact .short (by decide)
  · have hhex : IsHex4 ['0', '0', Nat.digitChar (c.toNat / 16), Nat.digitChar (c.toNat % 16)]
        c.toNat :=
      ⟨_, _, _, _, 0, 0, _, _, rfl, rfl, rfl, value?_digitChar (by omega),
        value?_digitChar (by omega), by omega⟩
    have hspells := Spells.numbered hhex (Or.inl (by omega))
    rwa [Char.ofNat_toNat] at hspells
  · exact .plain ⟨h1, h2, by omega⟩

theorem quotes_quote (value : String) : Quotes value (quote value) := by
  refine ⟨value.toList.flatMap escape, ?_, rfl⟩
  induction value.toList with
  | nil => exact .nil
  | cons c rest ih =>
    rw [List.flatMap_cons]
    exact .cons (spells_escape c) ih

/-- Fields in their own order are fields in some order. -/
theorem Writes.first {names : List String} {fields : List (String × Json)}
    {field : String × Json} {quoted name chars item rest : List Char}
    (hquoted : Quotes field.1 quoted) (hname : Spaced quoted name)
    (h : Writes (.value field.2) chars) (hitem : Spaced chars item)
    (hrest : Writes (.members names fields) rest) :
    Writes (.members names (field :: fields)) (name ++ ':' :: (item ++ ',' :: rest)) :=
  @Writes.field names [] fields field _ _ _ _ _ hquoted hname h hitem hrest

mutual

/-- **A document on one line stands for itself.** -/
theorem writes_compact : (j : Json) → Writes (.value j) j.compact
  | .text value => .text (quotes_quote value)
  | .number n => .number n
  | .list [] => .emptyList isBlank_nil
  | .list (item :: rest) => .list (writes_compactItems (item :: rest) (by simp))
  | .record [] => .emptyRecord isBlank_nil
  | .record (field :: rest) => .record (writes_compactFields _ (field :: rest) (by simp))

theorem writes_compactItems : (items : List Json) → items ≠ [] →
    Writes (.items items) (compactItems items)
  | [], hne => absurd rfl hne
  | [item], _ => .lastItem (writes_compact item) (spaced_self _)
  | item :: next :: rest, _ =>
    .item (writes_compact item) (spaced_self _) (writes_compactItems (next :: rest) (by simp))

theorem writes_compactFields (names : List String) :
    (fields : List (String × Json)) → fields ≠ [] →
    Writes (.members names fields) (compactFields fields)
  | [], hne => absurd rfl hne
  | [(name, value)], _ =>
    .lastField (quotes_quote name) (spaced_self _) (writes_compact value) (spaced_self _)
  | (name, value) :: next :: rest, _ => by
    have hrest := writes_compactFields names (next :: rest) (by simp)
    have hfields := @Writes.first names (next :: rest) (name, value) _ _ _ _ _
      (quotes_quote name) (spaced_self _) (writes_compact value) (spaced_self _) hrest
    simpa only [compactFields, List.append_assoc, List.cons_append] using hfields

end

mutual

/-- **And so does one with an item a line**, at every depth. -/
theorem writes_prettyAt (depth : Nat) : (j : Json) → Writes (.value j) (prettyAt depth j)
  | .text value => .text (quotes_quote value)
  | .number n => .number n
  | .list [] => .emptyList isBlank_nil
  | .list (item :: rest) => .list (writes_prettyItems (depth + 1) depth (item :: rest) (by simp))
  | .record [] => .emptyRecord isBlank_nil
  | .record (field :: rest) =>
    .record (writes_prettyFields _ (depth + 1) depth (field :: rest) (by simp))

theorem writes_prettyItems (depth outer : Nat) : (items : List Json) → items ≠ [] →
    Writes (.items items) (prettyItems depth items ++ newLine outer)
  | [], hne => absurd rfl hne
  | [item], _ => .lastItem (writes_prettyAt depth item)
    ⟨_, _, isBlank_newLine depth, isBlank_newLine outer, rfl⟩
  | item :: next :: rest, _ => by
    have hrest := writes_prettyItems depth outer (next :: rest) (by simp)
    have hitems := Writes.item (writes_prettyAt depth item)
      ⟨_, [], isBlank_newLine depth, isBlank_nil, (List.append_nil _).symm⟩ hrest
    simpa only [prettyItems, List.append_assoc, List.cons_append] using hitems

theorem writes_prettyFields (names : List String) (depth outer : Nat) :
    (fields : List (String × Json)) → fields ≠ [] →
    Writes (.members names fields) (prettyFields depth fields ++ newLine outer)
  | [], hne => absurd rfl hne
  | [(name, value)], _ => by
    have hfields := @Writes.lastField names (name, value) _ _ _ _ (quotes_quote name)
      ⟨_, [], isBlank_newLine depth, isBlank_nil, (List.append_nil _).symm⟩
      (writes_prettyAt depth value) ⟨[' '], _, isBlank_space, isBlank_newLine outer, rfl⟩
    simpa only [prettyFields, List.append_assoc, List.cons_append, List.nil_append] using hfields
  | (name, value) :: next :: rest, _ => by
    have hrest := writes_prettyFields names depth outer (next :: rest) (by simp)
    have hfields := @Writes.first names (next :: rest) (name, value) _ _ _ _ _ (quotes_quote name)
      ⟨_, [], isBlank_newLine depth, isBlank_nil, (List.append_nil _).symm⟩
      (writes_prettyAt depth value)
      ⟨[' '], [], isBlank_space, isBlank_nil, (List.append_nil _).symm⟩ hrest
    simpa only [prettyFields, List.append_assoc, List.cons_append, List.nil_append] using hfields

end

theorem isTextOf_toCompact (j : Json) : IsTextOf j j.toCompact :=
  ⟨j.compact, j.compact, writes_compact j, spaced_self _, rfl⟩

theorem isTextOf_toPretty (j : Json) : IsTextOf j j.toPretty :=
  ⟨j.prettyAt 0, j.prettyAt 0, writes_prettyAt 0 j, spaced_self _, rfl⟩

end Json

end ErasureDigest

import ErasureDigest.Proofs.Text.Digits
import ErasureDigest.Toml.Document

/-!
# Plain lines of a TOML document

A header with a bare name, and a bare key with a number or a text for its value.
What such a line puts into the tree is settled by the line alone, whatever comes
behind it (`lines_header`, `lines_key`), so a header with two keys below it
becomes one table (`lines_pair`).
-/

namespace ErasureDigest

namespace Toml

variable {α β : Type} {r : Reader α} {next : α → Reader β} {given : α}
variable {text rest tail chars : List Char} {name : String} {c : Char} {count : Nat}

/-! ## Characters -/

/-- What a reader is followed by goes on with what it gives and leaves. -/
theorem bind_of_some (h : r text = some (given, rest)) : (r >>= next) text = next given rest := by
  change (r text).bind (fun found => next found.1 found.2) = _
  rw [h]
  rfl

theorem get_eq (text : List Char) : (get : Reader (List Char)) text = some (text, text) := rfl

theorem set_eq (rest text : List Char) : (set rest : Reader Unit) text = some ((), rest) := rfl

theorem skipBlanks_eq (text : List Char) :
    skipBlanks text = some ((), text.dropWhile isBlank) := rfl

theorem peek?_eq (text : List Char) : peek? text = some (text.head?, text) := rfl

theorem take_cons (c : Char) (rest : List Char) : take (c :: rest) = some (c, rest) := rfl

theorem advance_eq (count : Nat) (text : List Char) :
    advance count text = some ((), text.drop count) := rfl

theorem lineEnd_newline (rest : List Char) : lineEnd ('\n' :: rest) = some ((), rest) := rfl

/-! ## Keys -/

/-- A name that needs no quotes. -/
def IsBareName (name : String) : Prop := name.toList ≠ [] ∧ ∀ c ∈ name.toList, isBare c = true

instance (name : String) : Decidable (IsBareName name) :=
  decidable_of_iff (name.toList.isEmpty = false ∧ name.toList.all isBare = true)
    (by simp [IsBareName])

theorem ne_of_isBare {mark : Char} (hc : isBare c = true) (hmark : isBare mark = false) :
    c ≠ mark := by
  rintro rfl
  rw [hc] at hmark
  cases hmark

theorem skipBlanks_of_isBare (hc : isBare c = true) (rest : List Char) :
    skipBlanks (c :: rest) = some ((), c :: rest) := by
  have hblank : isBlank c = false := by
    simp [isBlank, ne_of_isBare hc (@rfl _ (isBare ' ')), ne_of_isBare hc (@rfl _ (isBare '\t'))]
  rw [skipBlanks_eq, List.dropWhile_cons_of_neg (by simp [hblank])]

/-- What ends a bare name and adds no part to it. -/
def EndsKey (tail : List Char) : Prop :=
  (∀ c, tail.head? = some c → isBare c = false) ∧ (tail.dropWhile isBlank).head? ≠ some '.'

theorem takeWhile_isBare (hname : IsBareName name) (htail : EndsKey tail) :
    (name.toList ++ tail).takeWhile isBare = name.toList ∧
      (name.toList ++ tail).dropWhile isBare = tail := by
  rw [List.takeWhile_append_of_pos hname.2, List.dropWhile_append_of_pos hname.2]
  cases tail with
  | nil => exact ⟨List.append_nil _, rfl⟩
  | cons c tail =>
    have hc : isBare c = false := htail.1 c rfl
    rw [List.takeWhile_cons_of_neg (by simp [hc]), List.dropWhile_cons_of_neg (by simp [hc])]
    exact ⟨List.append_nil _, rfl⟩

theorem keyPart_bare (hname : IsBareName name) (htail : EndsKey tail) :
    keyPart count (name.toList ++ tail) = some (name, tail) := by
  obtain ⟨htake, hdrop⟩ := takeWhile_isBare hname htail
  have hne : name.toList.isEmpty = false := List.isEmpty_eq_false_iff.2 hname.1
  obtain ⟨c, rest, hcons⟩ := List.exists_cons_of_ne_nil hname.1
  have hbare := hname.2 c (hcons ▸ List.mem_cons_self)
  have hquote : ∀ after, c :: (rest ++ tail) = '"' :: after → False := fun after h =>
    ne_of_isBare hbare rfl (List.cons.inj h).1
  have hliteral : ∀ after, c :: (rest ++ tail) = '\'' :: after → False := fun after h =>
    ne_of_isBare hbare rfl (List.cons.inj h).1
  rw [keyPart, bind_of_some (get_eq _)]
  rw [hcons, List.cons_append] at htake hdrop ⊢
  -- the match is decided by what stands in the context
  simp only
  rw [htake, hdrop, ← hcons, hne, if_neg (by decide), String.ofList_toList]
  rfl

theorem key_bare (hname : IsBareName name) (htail : EndsKey tail) :
    key count (name.toList ++ tail) = some (([], name), tail.dropWhile isBlank) := by
  have hskip : skipBlanks (name.toList ++ tail) = some ((), name.toList ++ tail) := by
    obtain ⟨c, rest, hcons⟩ := List.exists_cons_of_ne_nil hname.1
    rw [hcons, List.cons_append,
      skipBlanks_of_isBare (hname.2 c (hcons ▸ List.mem_cons_self)) (rest ++ tail)]
  have hparts : keyParts count maxDepth (name.toList ++ tail) =
      some ([name], tail.dropWhile isBlank) := by
    rw [maxDepth, keyParts, bind_of_some hskip, bind_of_some (keyPart_bare hname htail),
      bind_of_some (skipBlanks_eq tail), bind_of_some (peek?_eq _), if_neg htail.2]
    rfl
  rw [key, bind_of_some hparts]
  rfl

/-! ## Numbers -/

/-- Digits up to the end of a line. -/
def IsRow (rest text : List Char) : Prop :=
  ∃ digits, (∀ c ∈ digits, c.isDigit = true) ∧ text = digits ++ '\n' :: rest

theorem isRow_of_twoDigits? {low high n : Nat} {text' : List Char} (h : IsRow rest text)
    (htwo : twoDigits? low high text = some (n, text')) : IsRow rest text' := by
  obtain ⟨digits, hdigits, rfl⟩ := h
  have hnewline : Char.isDigit '\n' = false := rfl
  match digits with
  | [] => cases rest <;> simp [twoDigits?, hnewline] at htwo
  | [a] => simp [twoDigits?, hnewline] at htwo
  | a :: b :: digits =>
    simp only [List.cons_append, twoDigits?] at htwo
    split at htwo
    · split at htwo
      · obtain ⟨-, rfl⟩ := Prod.mk.inj (Option.some.inj htwo)
        exact ⟨digits, fun c hc => hdigits c (by simp [hc]), rfl⟩
      · cases htwo
    · cases htwo

theorem after?_of_isRow {marks : List Char} (h : IsRow rest text)
    (hmarks : ∀ c ∈ marks, c.isDigit = false ∧ c ≠ '\n') : after? marks text = none := by
  obtain ⟨digits, hdigits, rfl⟩ := h
  cases digits with
  | nil =>
    have hnewline : '\n' ∉ marks := fun hmem => (hmarks _ hmem).2 rfl
    simp [after?, hnewline]
  | cons c digits =>
    have hc : c ∉ marks := fun hmem => by
      have := hdigits c List.mem_cons_self
      rw [(hmarks c hmem).1] at this
      cases this
    simp [after?, hc]

/-- Digits alone are no date and no time. -/
theorem afterMoment?_of_isRow (h : IsRow rest text) : afterMoment? text = none := by
  have hdate : afterDate? text = none := by
    rw [Option.eq_none_iff_forall_ne_some]
    intro found hfound
    simp only [afterDate?, Option.bind_eq_bind, Option.bind_eq_some_iff] at hfound
    obtain ⟨⟨century, text₁⟩, h₁, ⟨year, text₂⟩, h₂, text₃, h₃, -⟩ := hfound
    rw [after?_of_isRow (isRow_of_twoDigits? (isRow_of_twoDigits? h h₁) h₂) (by simp)] at h₃
    cases h₃
  have htime : afterTime? text = none := by
    rw [Option.eq_none_iff_forall_ne_some]
    intro found hfound
    simp only [afterTime?, Option.bind_eq_bind, Option.bind_eq_some_iff] at hfound
    obtain ⟨⟨hour, text₁⟩, h₁, text₂, h₂, -⟩ := hfound
    rw [after?_of_isRow (isRow_of_twoDigits? h h₁) (by simp)] at h₂
    cases h₂
  rw [afterMoment?, hdate, htime]

theorem moreDigits_of_forall (h : ∀ c ∈ chars, c.isDigit = true) (rest : List Char) :
    moreDigits Char.isDigit (chars ++ '\n' :: rest) = some (chars, '\n' :: rest) := by
  induction chars with
  | nil => rfl
  | cons c chars ih =>
    have hc := h c List.mem_cons_self
    have hunderscore : c ≠ '_' := Numeral.ne_of_isDigit hc rfl
    rw [List.cons_append, moreDigits]
    · rw [if_pos hc, ih fun d hd => h d (List.mem_cons_of_mem c hd)]
      rfl
    · rintro d after rfl
      exact absurd rfl hunderscore

theorem digits_of_forall (hc : c.isDigit = true) (h : ∀ d ∈ chars, d.isDigit = true)
    (rest : List Char) :
    digits Char.isDigit (c :: (chars ++ '\n' :: rest)) = some (c :: chars, '\n' :: rest) := by
  rw [digits, bind_of_some (take_cons c _), if_neg (by simp [hc])]
  dsimp only
  rw [bind_of_some (get_eq _), moreDigits_of_forall h]
  rfl

/-- Digits stand for the number they were written for. -/
theorem ofDigits_toDigits {n : Nat} (h : n ≤ limit) : ofDigits 10 (Nat.toDigits 10 n) = n := by
  have hvalue : ∀ c ∈ Nat.toDigits 10 n, (Hex.value? c).getD 0 = Numeral.digitOf c := by
    intro c hc
    have hrange : '0' ≤ c ∧ c ≤ '9' := by
      simpa [Char.isDigit, Char.le_def] using Numeral.isDigit_of_mem hc
    rw [Hex.value?, if_pos hrange]
    rfl
  rw [ofDigits, List.map_congr_left hvalue, Numeral.capped_toDigits h]

theorem integer_of_lt {n : Nat} (hn : n < Nat.pow 2 63) (text : List Char) :
    integer (n : Int) text = some (.integer n, text) := by
  have hpow : Int.pow 2 63 = (Nat.pow 2 63 : Nat) := by decide
  have hbounds : -((Nat.pow 2 63 : Nat) : Int) ≤ n ∧ (n : Int) < (Nat.pow 2 63 : Nat) := by
    generalize Nat.pow 2 63 = bound at hn
    omega
  rw [integer, hpow, if_pos hbounds]
  rfl

theorem decimal_toDigits {n : Nat} (hn : n < Nat.pow 2 63) (rest : List Char) :
    decimal false (Nat.toDigits 10 n ++ '\n' :: rest) = some (.integer n, '\n' :: rest) := by
  have hfraction : fractionPart? ('\n' :: rest) = some (none, '\n' :: rest) := rfl
  have hexponent : exponentPart? ('\n' :: rest) = some (none, '\n' :: rest) := rfl
  have hvalue : ofDigits 10 (Nat.toDigits 10 n) = n :=
    ofDigits_toDigits (Nat.le_succ_of_le (Nat.le_of_lt hn))
  rcases Nat.eq_zero_or_pos n with rfl | hpos
  · have hpure : (pure ['0'] : Reader (List Char)) ('\n' :: rest) =
        some (['0'], '\n' :: rest) := rfl
    have hdigits : Nat.toDigits 10 0 = ['0'] := rfl
    rw [hdigits] at hvalue ⊢
    rw [decimal, bind_of_some (peek?_eq _), List.singleton_append, List.head?_cons, if_pos rfl,
      bind_of_some (advance_eq 1 _), List.drop_one, List.tail_cons, bind_of_some hpure]
    dsimp only
    rw [bind_of_some hfraction, bind_of_some hexponent, if_pos ⟨rfl, rfl⟩, hvalue]
    exact integer_of_lt hn _
  · obtain ⟨c, digits, hcons⟩ := List.exists_cons_of_ne_nil (@Nat.toDigits_ne_nil n 10)
    have hdigits : ∀ d ∈ c :: digits, d.isDigit = true := fun d hd =>
      Numeral.isDigit_of_mem (hcons ▸ hd)
    have hzero : some c ≠ some '0' := fun h =>
      Nat.ne_of_gt hpos (Numeral.eq_zero_of_head?_toDigits ((congrArg List.head? hcons).trans h))
    have hwhole := digits_of_forall (hdigits c List.mem_cons_self)
      (fun d hd => hdigits d (List.mem_cons_of_mem c hd)) rest
    rw [hcons] at hvalue ⊢
    rw [decimal, bind_of_some (peek?_eq _), List.cons_append, List.head?_cons, if_neg hzero,
      bind_of_some hwhole]
    dsimp only
    rw [bind_of_some hfraction, bind_of_some hexponent, if_pos ⟨rfl, rfl⟩, hvalue]
    exact integer_of_lt hn _

/-- **A number is read off its digits** where a line ends behind them. -/
theorem numeric_toDigits {n : Nat} (hn : n < Nat.pow 2 63) (rest : List Char) :
    numeric (Nat.toDigits 10 n ++ '\n' :: rest) = some (.integer n, '\n' :: rest) := by
  have hrow : IsRow rest (Nat.toDigits 10 n ++ '\n' :: rest) :=
    ⟨_, fun _ => Numeral.isDigit_of_mem, rfl⟩
  have hdecimal := decimal_toDigits hn rest
  obtain ⟨c, digits, hcons⟩ := List.exists_cons_of_ne_nil (@Nat.toDigits_ne_nil n 10)
  have hdigits : ∀ d ∈ c :: digits, d.isDigit = true := fun d hd =>
    Numeral.isDigit_of_mem (hcons ▸ hd)
  have hc := hdigits c List.mem_cons_self
  have hbase : ∀ mark, mark.isDigit = false → mark ≠ '\n' → ∀ after,
      c :: (digits ++ '\n' :: rest) = '0' :: mark :: after → False := by
    intro mark hmark hnewline after h
    have hsecond := (List.cons.inj h).2
    cases digits with
    | nil => exact hnewline (List.cons.inj hsecond).1.symm
    | cons d digits =>
      exact Numeral.ne_of_isDigit (hdigits d (by simp)) hmark (List.cons.inj hsecond).1
  have hhex := hbase 'x' rfl (by decide)
  have hoctal := hbase 'o' rfl (by decide)
  have hbinary := hbase 'b' rfl (by decide)
  have hfirst : ∀ mark, mark.isDigit = false → ∀ after,
      c :: (digits ++ '\n' :: rest) = mark :: after → False := by
    intro mark hmark after h
    exact Numeral.ne_of_isDigit hc hmark (List.cons.inj h).1
  have hinf := hfirst 'i' rfl
  have hnan := hfirst 'n' rfl
  have hminus : some c ≠ some '-' := fun h => Numeral.ne_of_isDigit hc rfl (Option.some.inj h)
  have hplus : some c ≠ some '+' := fun h => Numeral.ne_of_isDigit hc rfl (Option.some.inj h)
  rw [numeric, bind_of_some (get_eq _), afterMoment?_of_isRow hrow]
  rw [hcons, List.cons_append] at hdecimal ⊢
  simp only
  rw [number, bind_of_some (get_eq _)]
  simp only [List.head?_cons, hminus, hplus, or_self, if_false, decide_false]
  rw [bind_of_some (get_eq _)]
  simp only
  exact hdecimal

/-! ## Values -/

/-- Characters that stand for themselves between quotes. -/
def IsQuotable (chars : List Char) : Prop :=
  ∀ c ∈ chars, isPlain c = true ∧ c ≠ '"' ∧ c ≠ '\\'

instance (chars : List Char) : Decidable (IsQuotable chars) :=
  decidable_of_iff ((chars.all fun c => isPlain c && c != '"' && c != '\\') = true)
    (by simp [IsQuotable, and_assoc])

theorem basicTail_quote {seen : List Char} (hchars : IsQuotable chars)
    (hcount : chars.length < count) (rest : List Char) :
    basicTail count seen (chars ++ '"' :: rest) = some (seen.reverse ++ chars, rest) := by
  induction chars generalizing count seen with
  | nil =>
    obtain ⟨count, rfl⟩ := Nat.exists_eq_add_of_lt hcount
    rw [basicTail, List.nil_append, bind_of_some (take_cons _ _), if_pos rfl, List.append_nil]
    rfl
  | cons c chars ih =>
    obtain ⟨count, rfl⟩ := Nat.exists_eq_add_of_lt hcount
    obtain ⟨hplain, hquote, hescape⟩ := hchars c List.mem_cons_self
    rw [basicTail, List.cons_append, bind_of_some (take_cons _ _), if_neg hquote, if_neg hescape,
      if_pos hplain, ih (fun d hd => hchars d (List.mem_cons_of_mem c hd)) (by simp; omega)]
    simp

/-- A text is read off what stands between its quotes. -/
theorem quoted_quote (hne : chars ≠ []) (hchars : IsQuotable chars)
    (hcount : chars.length < count) (rest : List Char) :
    quoted count ('"' :: (chars ++ '"' :: rest)) = some (String.ofList chars, rest) := by
  have htail := @basicTail_quote _ _ [] hchars hcount rest
  obtain ⟨c, chars, rfl⟩ := List.exists_cons_of_ne_nil hne
  have hquote := (hchars c List.mem_cons_self).2.1
  have hlines : ∀ after, c :: (chars ++ '"' :: rest) = '"' :: '"' :: after → False :=
    fun after h => hquote (List.cons.inj h).1
  rw [List.cons_append] at htail ⊢
  rw [quoted, bind_of_some (get_eq _)]
  -- one quote opens the text, as no second one follows
  simp only
  rw [bind_of_some (set_eq _ _), bind_of_some htail]
  rfl

/-- What is written for a value at the end of a line. -/
def StandsFor (chars : List Char) (node : Node) : Prop :=
  (∀ c, chars.head? = some c → isBlank c = false) ∧
    ∀ count room rest, chars.length ≤ count →
      value count room (chars ++ '\n' :: rest) = some (node, '\n' :: rest)

/-- **The digits of a number stand for it.** -/
theorem standsFor_toDigits {n : Nat} (hn : n < Nat.pow 2 63) :
    StandsFor (Nat.toDigits 10 n) (.scalar (.integer n)) := by
  obtain ⟨c, digits, hcons⟩ := List.exists_cons_of_ne_nil (@Nat.toDigits_ne_nil n 10)
  have hc : c.isDigit = true := Numeral.isDigit_of_mem (hcons ▸ List.mem_cons_self)
  have hne : ∀ mark, mark.isDigit = false → c ≠ mark := fun mark => Numeral.ne_of_isDigit hc
  constructor
  · intro first hfirst
    obtain rfl : c = first := by simpa [hcons] using hfirst
    simp [isBlank, hne]
  · intro count room rest hcount
    have hnumeric := numeric_toDigits hn rest
    rw [hcons, List.cons_append] at hnumeric
    rw [hcons] at hcount ⊢
    obtain ⟨count, rfl⟩ := Nat.exists_eq_add_of_lt hcount
    rw [List.cons_append, value, bind_of_some (peek?_eq _)]
    dsimp only [List.head?_cons]
    rw [if_neg (by simp [hne]), if_neg (hne _ rfl), if_neg (hne _ rfl), if_neg (hne _ rfl),
      if_neg (hne _ rfl), if_pos (by simp [hc]), bind_of_some hnumeric]
    rfl

/-- **A text between quotes stands for itself.** -/
theorem standsFor_quote (hne : chars ≠ []) (hchars : IsQuotable chars) :
    StandsFor ('"' :: (chars ++ ['"'])) (.scalar (.text (String.ofList chars))) := by
  refine ⟨by rintro _ ⟨⟩; rfl, fun count room rest hcount => ?_⟩
  rw [List.length_cons, List.length_append, List.length_singleton] at hcount
  obtain ⟨count, rfl⟩ := Nat.exists_eq_add_of_lt hcount
  rw [List.cons_append, List.append_assoc, List.singleton_append, value,
    bind_of_some (peek?_eq _)]
  dsimp only [List.head?_cons]
  rw [if_pos (Or.inl rfl), bind_of_some (quoted_quote hne hchars (by omega) ('\n' :: rest))]
  rfl

/-! ## Lines -/

variable {draft draft' : Draft} {root : Entries}

/-- A line with a header, before the lines that follow. -/
def headerThen (name : String) (rest : List Char) : List Char :=
  '[' :: (name.toList ++ ']' :: '\n' :: rest)

/-- A line with a key and what is written for its value, before the lines that
follow. -/
def keyThen (name : String) (chars rest : List Char) : List Char :=
  name.toList ++ ' ' :: '=' :: ' ' :: (chars ++ '\n' :: rest)

theorem lines_end (count : Nat) (draft : Draft) : lines (count + 1) draft [] = some (draft, []) :=
  rfl

/-- An empty line adds nothing. -/
theorem lines_blank (count : Nat) (draft : Draft) (rest : List Char) :
    lines (count + 1) draft ('\n' :: rest) = lines count draft rest := by
  have hskip : skipBlanks ('\n' :: rest) = some ((), '\n' :: rest) := rfl
  rw [lines, bind_of_some hskip, bind_of_some (peek?_eq _)]
  dsimp only [List.head?_cons]
  rw [if_pos (Or.inr (Or.inl rfl)), bind_of_some (lineEnd_newline rest)]

/-- A header opens its table. -/
theorem lines_header (hname : IsBareName name)
    (hroot : draft.root.openTable [] name = some root) (count : Nat)
    (rest : List Char) :
    lines (count + 1) draft (headerThen name rest) =
      lines count ⟨root, [name]⟩ rest := by
  have hskip : ∀ after, skipBlanks ('[' :: after) = some ((), '[' :: after) := fun _ => rfl
  have htail : EndsKey (']' :: '\n' :: rest) := 
    ⟨by rintro _ ⟨⟩; rfl, show some ']' ≠ some '.' by decide⟩
  have hkey : key (count + 1) (name.toList ++ ']' :: '\n' :: rest) =
      some (([], name), ']' :: '\n' :: rest) := key_bare hname htail
  have hsingle : ['[', '['].isPrefixOf ('[' :: (name.toList ++ ']' :: '\n' :: rest)) = false := by
    obtain ⟨c, chars, hcons⟩ := List.exists_cons_of_ne_nil hname.1
    have hc : ('[' == c) = false :=
      beq_false_of_ne (ne_of_isBare (hname.2 c (hcons ▸ List.mem_cons_self)) rfl).symm
    simp [List.isPrefixOf, hcons, hc]
  have hclosing : word [']'] (']' :: '\n' :: rest) = some ((), '\n' :: rest) := rfl
  have hheader : headerLine (count + 1) draft ('[' :: (name.toList ++ ']' :: '\n' :: rest)) =
      some (⟨root, [name]⟩, rest) := by
    rw [headerLine, bind_of_some (get_eq _), hsingle]
    dsimp only
    rw [if_neg (by decide), bind_of_some (advance_eq 1 _), List.drop_one, List.tail_cons,
      bind_of_some hkey]
    dsimp only
    rw [if_neg (by decide), bind_of_some hclosing, bind_of_some (lineEnd_newline rest),
      if_neg (by decide), hroot]
    rfl
  rw [headerThen, lines, bind_of_some (hskip _), bind_of_some (peek?_eq _)]
  dsimp only [List.head?_cons]
  rw [if_neg (by decide), if_pos rfl, bind_of_some hheader]

/-- A key with its value is set in the table of the last header. -/
theorem lines_key {node : Node} (hname : IsBareName name)
    (hstands : StandsFor chars node) (hcount : chars.length ≤ count)
    (hset : draft.set [] name node = some draft') (rest : List Char) :
    lines (count + 1) draft (keyThen name chars rest) = lines count draft' rest := by
  obtain ⟨hblank, hvalue⟩ := hstands
  have htail : EndsKey (' ' :: '=' :: ' ' :: (chars ++ '\n' :: rest)) :=
    ⟨by rintro _ ⟨⟩; rfl, show some '=' ≠ some '.' by decide⟩
  have hkey : key (count + 1) (name.toList ++ ' ' :: '=' :: ' ' :: (chars ++ '\n' :: rest)) =
      some (([], name), '=' :: ' ' :: (chars ++ '\n' :: rest)) := key_bare hname htail
  have hskip : skipBlanks (' ' :: (chars ++ '\n' :: rest)) = some ((), chars ++ '\n' :: rest) := by
    rw [skipBlanks_eq, List.dropWhile_cons_of_pos rfl]
    cases chars with
    | nil => rfl
    | cons c chars =>
      rw [List.cons_append, List.dropWhile_cons_of_neg (by simp [hblank c rfl])]
  have hkeyLine : keyLine (count + 1) draft
      (name.toList ++ ' ' :: '=' :: ' ' :: (chars ++ '\n' :: rest)) = some (draft', rest) := by
    rw [keyLine, bind_of_some hkey]
    dsimp only
    rw [bind_of_some (take_cons _ _), if_neg (not_not_intro rfl), bind_of_some hskip,
      bind_of_some (hvalue _ _ rest (by omega)), bind_of_some (lineEnd_newline rest), hset]
    rfl
  obtain ⟨c, letters, hcons⟩ := List.exists_cons_of_ne_nil hname.1
  have hbare := hname.2 c (hcons ▸ List.mem_cons_self)
  have hne : ∀ mark, isBare mark = false → c ≠ mark := fun mark => ne_of_isBare hbare
  rw [hcons, List.cons_append] at hkeyLine
  rw [keyThen, hcons, List.cons_append, lines, bind_of_some (skipBlanks_of_isBare hbare _),
    bind_of_some (peek?_eq _)]
  dsimp only [List.head?_cons]
  rw [if_neg (not_or.2 ⟨hne _ rfl, not_or.2 ⟨hne _ rfl, hne _ rfl⟩⟩), if_neg (hne _ rfl),
    bind_of_some hkeyLine]

/-- A key that is not there yet is set in the table of the last header. -/
theorem set_of_lookup_eq_none {entries : Entries} {key : String} (hkey : entries.lookup key = none)
    (root : Entries) (name : String) (node : Node) :
    (Draft.mk ((name, .table .header entries) :: root) [name]).set [] key node =
      some ⟨(name, .table .header ((key, node) :: entries)) :: root, [name]⟩ := by
  have hset : entries.set .header [] key node = some ((key, node) :: entries) := by
    simp [Entries.set, Entries.update, hkey]
  simp [Draft.set, Entries.update, Entries.replace, hset]

/-- **A header and two keys below it** become one table. -/
theorem lines_pair {chars' : List Char} {first second : String} {node node' : Node}
    (hname : IsBareName name) (hfirst : IsBareName first) (hsecond : IsBareName second)
    (hne : second ≠ first) (hnew : draft.root.lookup name = none) (hstands : StandsFor chars node)
    (hstands' : StandsFor chars' node') (hcount : chars.length ≤ count)
    (hcount' : chars'.length ≤ count) (rest : List Char) :
    lines (count + 3) draft (headerThen name (keyThen first chars (keyThen second chars' rest))) =
      lines count ⟨(name, .table .header [(second, node'), (first, node)]) :: draft.root, [name]⟩
        rest := by
  have hopen : draft.root.openTable [] name = some ((name, .table .header []) :: draft.root) := by
    simp [Entries.openTable, Entries.update, hnew]
  have hlookup : List.lookup second [(first, node)] = none := by
    rw [List.lookup_cons, beq_false_of_ne hne]
    rfl
  rw [lines_header hname hopen,
    lines_key hfirst hstands (Nat.le_succ_of_le hcount) (set_of_lookup_eq_none rfl _ name node),
    lines_key hsecond hstands' hcount' (set_of_lookup_eq_none hlookup _ name node')]

end Toml

end ErasureDigest

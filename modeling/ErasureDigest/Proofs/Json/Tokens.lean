import ErasureDigest.Proofs.Json.Grammar

/-!
# Tokens of JSON, read

What readers do with the words of the grammar: blanks are passed over
(`peek_of_isBlank`), digits are taken up to what follows a value
(`wholePart_of_isWhole`, `numberTail_digits`), and what spells a text gives the
text (`quoted_of_spellsAll`).
-/

namespace ErasureDigest

namespace Json

/-- What may follow a value: its end, a blank, or the end or next part of what
it stands in. -/
def Follows (rest : List Char) : Prop :=
  ∀ c, rest.head? = some c → Reader.isBlank c = true ∨ c ∈ [',', ']', '\x7d']

section Follows

variable {rest : List Char} {c : Char}

theorem follows_nil : Follows [] := nofun

theorem follows_of_isBlank {blanks : List Char} (hblanks : IsBlank blanks) (h : Follows rest) :
    Follows (blanks ++ rest) := by
  cases blanks with
  | nil => exact h
  | cons b blanks =>
    rintro c hc
    obtain rfl : b = c := Option.some.inj hc
    exact Or.inl (hblanks b List.mem_cons_self)

theorem follows_cons (h : c ∈ [',', ']', '\x7d']) : Follows (c :: rest) := by
  rintro d hd
  obtain rfl : c = d := Option.some.inj hd
  exact Or.inr h

/-- What follows a value does not continue a number. -/
theorem Follows.not_continues (h : Follows rest) (hc : rest.head? = some c) :
    c.isDigit = false ∧ c ≠ '.' ∧ c ≠ 'e' ∧ c ≠ 'E' := by
  have hother : ∀ d ∈ [' ', '\n', '\t', '\r', ',', ']', '\x7d'],
      d.isDigit = false ∧ d ≠ '.' ∧ d ≠ 'e' ∧ d ≠ 'E' := by simp
  apply hother
  rcases h c hc with hc | hc
  · simp only [Reader.isBlank, Bool.or_eq_true, decide_eq_true_eq] at hc
    rcases hc with ((rfl | rfl) | rfl) | rfl <;> simp
  · exact List.mem_append_right [' ', '\n', '\t', '\r'] hc

end Follows

namespace Reader

variable {α β : Type} {r : Reader α} {next : α → Reader β} {value : α} {count : Nat}
variable {text rest before : List Char} {c : Char}

/-! ## Characters -/

/-- What a reader is followed by goes on with what it gives and leaves. -/
theorem bind_of_ok (h : r count text = .ok (value, rest)) :
    (r >>= next) count text = next value count rest := by
  change (r count text >>= fun given => next given.1 count given.2) = _
  rw [h]
  rfl

/-- Readers that do the same here are followed by the same. -/
theorem bind_of_eq {r' : Reader α} {text' : List Char} (h : r count text = r' count text') :
    (r >>= next) count text = (r' >>= next) count text' := by
  change (r count text >>= fun given => next given.1 count given.2) = _
  rw [h]
  rfl

theorem get_eq (count : Nat) (text : List Char) :
    (get : Reader (List Char)) count text = .ok (text, text) := rfl

theorem dropWhile_of_isBlank (hbefore : IsBlank before) (text : List Char) :
    (before ++ text).dropWhile isBlank = text.dropWhile isBlank := by
  rw [List.dropWhile_append_of_pos hbefore]

theorem peek_eq (count : Nat) (text : List Char) :
    peek count text = match text.dropWhile isBlank with
      | [] => .error .truncated
      | c :: rest => .ok (c, c :: rest) := by
  rw [peek, bind_of_ok (get_eq count text)]
  cases text.dropWhile isBlank <;> rfl

/-- Blanks are passed over. -/
theorem peek_of_isBlank (hbefore : IsBlank before) (hc : isBlank c = false) (rest : List Char) :
    peek count (before ++ c :: rest) = .ok (c, c :: rest) := by
  rw [peek_eq, dropWhile_of_isBlank hbefore, List.dropWhile_cons_of_neg (by simp [hc])]

theorem advance_cons (count : Nat) (c : Char) (rest : List Char) :
    advance count (c :: rest) = .ok ((), rest) := rfl

theorem take_cons (count : Nat) (c : Char) (rest : List Char) :
    take count (c :: rest) = .ok (c, rest) := rfl

theorem word_append (chars rest : List Char) :
    word chars count (chars ++ rest) = .ok ((), rest) := by
  induction chars with
  | nil => rfl
  | cons c chars ih =>
    rw [word, List.cons_append, bind_of_ok (take_cons count c _), if_pos rfl]
    exact ih

/-! ## Numbers -/

/-- What digits do not go on into. -/
def EndsDigits (rest : List Char) : Prop := ∀ c, rest.head? = some c → c.isDigit = false

theorem endsDigits_of_follows (h : Follows rest) : EndsDigits rest := fun _ hc =>
  (h.not_continues hc).1

theorem takeWhile_isDigit {chars : List Char} (h : ∀ c ∈ chars, c.isDigit = true)
    (hrest : EndsDigits rest) : (chars ++ rest).takeWhile Char.isDigit = chars := by
  rw [List.takeWhile_append_of_pos h]
  cases rest with
  | nil => exact List.append_nil chars
  | cons c rest => rw [List.takeWhile_cons_of_neg (by simp [hrest c rfl]), List.append_nil]

theorem dropWhile_isDigit {chars : List Char} (h : ∀ c ∈ chars, c.isDigit = true)
    (hrest : EndsDigits rest) : (chars ++ rest).dropWhile Char.isDigit = rest := by
  rw [List.dropWhile_append_of_pos h]
  cases rest with
  | nil => rfl
  | cons c rest => rw [List.dropWhile_cons_of_neg (by simp [hrest c rfl])]

/-- A row of digits is taken to its end. -/
theorem digitRun_of_forall {chars : List Char} (h : ∀ c ∈ chars, c.isDigit = true)
    (hrest : EndsDigits rest) :
    digitRun count (chars ++ rest) = .ok (chars.map fun c => c.toNat - 48, rest) := by
  have hrun : digitRun count (chars ++ rest) =
      .ok (((chars ++ rest).takeWhile Char.isDigit).map fun c => c.toNat - 48,
        (chars ++ rest).dropWhile Char.isDigit) := rfl
  rw [hrun, takeWhile_isDigit h hrest, dropWhile_isDigit h hrest]

/-- The digits before the point. -/
theorem wholePart_of_isWhole {chars : List Char} (h : IsWhole chars) (hrest : EndsDigits rest) :
    wholePart count (chars ++ rest) = .ok (chars.map fun c => c.toNat - 48, rest) := by
  rcases h with rfl | ⟨⟨hne, hdigits⟩, hhead⟩
  · rw [wholePart, List.singleton_append, bind_of_ok (take_cons _ _ _), if_pos rfl,
      bind_of_ok (get_eq _ _)]
    cases rest with
    | nil => rfl
    | cons c rest =>
      simp only [hrest c rfl]
      rfl
  · cases chars with
    | nil => exact absurd rfl hne
    | cons c chars =>
      have hzero : c ≠ '0' := fun h => hhead (congrArg some h)
      have hrun : digitRun count (chars ++ rest) = _ := digitRun_of_forall
        (fun d hd => hdigits d (List.mem_cons_of_mem c hd)) hrest
      rw [wholePart, List.cons_append, bind_of_ok (take_cons _ _ _), if_neg hzero,
        if_pos (hdigits c List.mem_cons_self), bind_of_ok hrun]
      rfl

theorem fractionPart?_of_follows (h : Follows rest) :
    fractionPart? count rest = .ok (none, rest) := by
  rw [fractionPart?, bind_of_ok (get_eq _ _)]
  split
  · exact absurd rfl (h.not_continues rfl).2.1
  · rfl

theorem exponentPart?_of_follows (h : Follows rest) :
    exponentPart? count rest = .ok (none, rest) := by
  rw [exponentPart?, bind_of_ok (get_eq _ _)]
  cases rest with
  | nil => rfl
  | cons c rest =>
    obtain ⟨-, -, hsmall, hlarge⟩ := h.not_continues rfl
    simp only [hsmall, hlarge, or_self, if_false]
    rfl

/-- **A number of 64 bits is read off its digits.** -/
theorem numberTail_digits (n : UInt64) (h : Follows rest) :
    numberTail true count (digits n ++ rest) = .ok (.natural n, rest) := by
  have hn : Numeral.capped 10 (maxNumber + 1) ((digits n).map fun c => c.toNat - 48) = n.toNat :=
    Numeral.capped_toDigits (Nat.le_of_lt n.toNat_lt)
  have hle : n.toNat ≤ maxNumber := Nat.le_sub_one_of_lt n.toNat_lt
  rw [numberTail, bind_of_ok (wholePart_of_isWhole (isWhole_digits n) (endsDigits_of_follows h)),
    bind_of_ok (fractionPart?_of_follows h), bind_of_ok (exponentPart?_of_follows h)]
  simp only [hn, hle, decide_true, UInt64.ofNat_toNat]
  rfl

/-! ## Texts -/

theorem hex4_of_isHex4 {digits : List Char} {n : Nat} (h : IsHex4 digits n) (rest : List Char) :
    hex4 count (digits ++ rest) = .ok (n, rest) := by
  obtain ⟨a, b, c, d, x, y, z, w, rfl, hx, hy, hz, hw, rfl⟩ := h
  rw [hex4, bind_of_ok (get_eq _ _)]
  simp only [List.cons_append, hx, hy, hz, hw]
  rfl

theorem escaped_short {letter : Char} (h : (letter, c) ∈ shortEscapes) (rest : List Char) :
    escaped count (letter :: rest) = .ok (c, rest) := by
  simp only [shortEscapes, List.mem_cons, Prod.mk.injEq, List.not_mem_nil, or_false] at h
  rw [escaped, bind_of_ok (take_cons _ _ _)]
  rcases h with ⟨rfl, rfl⟩ | ⟨rfl, rfl⟩ | ⟨rfl, rfl⟩ | ⟨rfl, rfl⟩ | ⟨rfl, rfl⟩ | ⟨rfl, rfl⟩ |
    ⟨rfl, rfl⟩ | ⟨rfl, rfl⟩ <;> rfl

theorem escaped_numbered {n : Nat} {digits : List Char} (h : IsHex4 digits n)
    (hn : n < 0xd800 ∨ 0xdfff < n) (rest : List Char) :
    escaped count ('u' :: (digits ++ rest)) = .ok (Char.ofNat n, rest) := by
  have hescape : unicodeEscape count (digits ++ rest) = .ok (Char.ofNat n, rest) := by
    rw [unicodeEscape, bind_of_ok (hex4_of_isHex4 h rest), if_neg (by omega), if_pos (by omega)]
    rfl
  rw [escaped, bind_of_ok (take_cons _ _ _)]
  exact hescape

theorem escaped_paired {high low : Nat} {digits digits' : List Char} (hhigh : IsHex4 digits high)
    (hlow : IsHex4 digits' low) (hh : 0xd800 ≤ high ∧ high ≤ 0xdbff)
    (hl : 0xdc00 ≤ low ∧ low ≤ 0xdfff) (rest : List Char) :
    escaped count ('u' :: (digits ++ '\\' :: 'u' :: (digits' ++ rest))) =
      .ok (Char.ofNat ((high - 0xd800) * 0x400 + (low - 0xdc00) + 0x10000), rest) := by
  have hescape : unicodeEscape count (digits ++ '\\' :: 'u' :: (digits' ++ rest)) =
      .ok (Char.ofNat ((high - 0xd800) * 0x400 + (low - 0xdc00) + 0x10000), rest) := by
    rw [unicodeEscape, bind_of_ok (hex4_of_isHex4 hhigh _), if_neg (by omega), if_neg (by omega)]
    dsimp only
    rw [bind_of_ok (take_cons _ _ _), if_neg (by simp), bind_of_ok (take_cons _ _ _),
      if_neg (by simp), bind_of_ok (hex4_of_isHex4 hlow rest), if_neg (by omega)]
    rfl
  rw [escaped, bind_of_ok (take_cons _ _ _)]
  exact hescape

/-- What spells a character is taken in as that character. -/
theorem quotedTail_of_spells {chars : List Char} (h : Spells c chars) (room : Nat)
    (seen text : List Char) :
    quotedTail (room + 1) seen count (chars ++ text) = quotedTail room (c :: seen) count text := by
  rw [quotedTail]
  cases h with
  | plain h =>
    obtain ⟨hquote, hbackslash, hcontrol⟩ := h
    rw [List.singleton_append, bind_of_ok (take_cons _ _ _), if_neg hquote, if_neg hbackslash,
      if_neg (Nat.not_lt.2 hcontrol)]
  | short h =>
    rw [List.cons_append, List.singleton_append, bind_of_ok (take_cons _ _ _), if_neg (by decide),
      if_pos rfl, bind_of_ok (escaped_short h text)]
  | numbered h hn =>
    rw [List.cons_append, List.cons_append, bind_of_ok (take_cons _ _ _), if_neg (by decide),
      if_pos rfl, bind_of_ok (escaped_numbered h hn text)]
  | paired hhigh hlow hh hl =>
    simp only [List.cons_append, List.append_assoc]
    rw [bind_of_ok (take_cons _ _ _), if_neg (by decide), if_pos rfl,
      bind_of_ok (escaped_paired hhigh hlow hh hl text)]

theorem quotedTail_of_spellsAll {chars body : List Char} (h : SpellsAll chars body)
    (seen : List Char) {room : Nat} (hroom : body.length < room) (rest : List Char) :
    quotedTail room seen count (body ++ '"' :: rest) = .ok (seen.reverse ++ chars, rest) := by
  induction h generalizing seen room with
  | nil =>
    obtain ⟨room, rfl⟩ := Nat.exists_eq_add_one_of_ne_zero (Nat.ne_zero_of_lt hroom)
    rw [List.nil_append, quotedTail, bind_of_ok (take_cons _ _ _), if_pos rfl, List.append_nil]
    rfl
  | @cons c spelled chars body h hrest ih =>
    obtain ⟨room, rfl⟩ := Nat.exists_eq_add_one_of_ne_zero (Nat.ne_zero_of_lt hroom)
    have hpos := h.length_pos
    rw [List.length_append] at hroom
    rw [List.append_assoc, quotedTail_of_spells h, ih (c :: seen) (by omega), List.reverse_cons,
      List.append_assoc, List.singleton_append]

/-- **What spells a text is read as that text.** -/
theorem quoted_of_spellsAll {value : String} {body : List Char} (h : SpellsAll value.toList body)
    (hcount : body.length < count) (rest : List Char) :
    quoted count (body ++ '"' :: rest) = .ok (value, rest) := by
  have hbound : bound count (body ++ '"' :: rest) = .ok (count, body ++ '"' :: rest) := rfl
  rw [quoted, bind_of_ok hbound, bind_of_ok (quotedTail_of_spellsAll h [] hcount rest)]
  exact congrArg (fun text => Except.ok (text, rest)) String.ofList_toList

end Reader

end Json

end ErasureDigest

import ErasureDigest.Proofs.Json.Tokens

/-!
# Values that are skipped

Whatever the grammar derives is passed over, to its last character and no
further (`skipValue_of_derives`). Lists and objects are entered and left on a
stack of open frames, not by recursion. So what is shown of a value holds inside
any frames: skipping it leads to where skipping goes on after a value
(`resume`), with enough steps left for the rest of the text.
-/

namespace ErasureDigest

namespace Json

/-! ## First characters -/

section Opens

variable {chars : List Char} {c : Char}

/-- Blanks, and then what neither is a blank nor closes anything. -/
def Opens (chars : List Char) : Prop :=
  ∃ blanks c rest, IsBlank blanks ∧ chars = blanks ++ c :: rest ∧ Reader.isBlank c = false ∧
    c ≠ ']' ∧ c ≠ '\x7d'

theorem Opens.append (h : Opens chars) (rest : List Char) : Opens (chars ++ rest) := by
  obtain ⟨blanks, c, tail, hblanks, rfl, hc⟩ := h
  exact ⟨blanks, c, tail ++ rest, hblanks, by simp, hc⟩

theorem Opens.spaced {text : List Char} (h : Opens chars) (htext : Spaced chars text) :
    Opens text := by
  obtain ⟨before, after, hbefore, -, rfl⟩ := htext
  obtain ⟨blanks, c, rest, hblanks, rfl, hc⟩ := h
  refine ⟨before ++ blanks, c, rest ++ after, ?_, by simp, hc⟩
  rintro d hd
  exact (List.mem_append.1 hd).elim (hbefore d) (hblanks d)

theorem opens_cons (h : Reader.isBlank c = false ∧ c ≠ ']' ∧ c ≠ '\x7d') (rest : List Char) :
    Opens (c :: rest) :=
  ⟨[], c, rest, isBlank_nil, rfl, h⟩

/-- A number begins with a digit. -/
theorem IsUnsigned.exists_cons (h : IsUnsigned chars) :
    ∃ c rest, chars = c :: rest ∧ c.isDigit = true := by
  obtain ⟨whole, fraction, exponent, rfl | ⟨⟨hne, hdigits⟩, -⟩, -, -, rfl⟩ := h
  · exact ⟨'0', _, rfl, rfl⟩
  · cases whole with
    | nil => exact absurd rfl hne
    | cons c whole => exact ⟨c, _, rfl, hdigits c List.mem_cons_self⟩

/-- A value begins with its first character. -/
theorem Derives.exists_cons (h : Derives .value chars) :
    ∃ c rest, chars = c :: rest ∧ Reader.isBlank c = false ∧ c ≠ ']' ∧ c ≠ '\x7d' := by
  cases h with
  | word h =>
    simp only [List.mem_cons, List.not_mem_nil, or_false] at h
    rcases h with rfl | rfl | rfl <;> exact ⟨_, _, rfl, by decide⟩
  | positive h =>
    obtain ⟨c, rest, rfl, hc⟩ := h.exists_cons
    have hne {d : Char} (hd : d.isDigit = false) : c ≠ d := Numeral.ne_of_isDigit hc hd
    exact ⟨c, rest, rfl, by simp [Reader.isBlank, hne], hne rfl, hne rfl⟩
  | negative | text | emptyList | list | emptyObject | object => exact ⟨_, _, rfl, by decide⟩

theorem Derives.opens_value (h : Derives .value chars) : Opens chars := by
  obtain ⟨c, rest, rfl, hc⟩ := h.exists_cons
  exact opens_cons hc rest

theorem Derives.opens_items (h : Derives .items chars) : Opens chars := by
  cases h with
  | lastItem h hitem => exact h.opens_value.spaced hitem
  | item h hitem hrest => exact (h.opens_value.spaced hitem).append _

theorem Derives.opens_members (h : Derives .members chars) : Opens chars := by
  cases h with
  | lastMember hquoted hname => exact (Opens.spaced (opens_cons (by decide) _) hname).append _
  | member hquoted hname => exact (Opens.spaced (opens_cons (by decide) _) hname).append _

end Opens

namespace Reader

variable {β : Type} {text rest before chars body : List Char} {c : Char} {count : Nat}
variable {frame : Frame} {outer frames : List Frame}

/-! ## Texts and numbers -/

/-- What may stand between quotes is passed over up to the closing quote. -/
theorem skipQuoted_of_quotedForm (h : QuotedForm body) {room : Nat} (hroom : body.length < room)
    (rest : List Char) : skipQuoted room count (body ++ '"' :: rest) = .ok ((), rest) := by
  induction h generalizing room with
  | nil =>
    obtain ⟨room, rfl⟩ := Nat.exists_eq_add_one_of_ne_zero (Nat.ne_zero_of_lt hroom)
    rw [List.nil_append, skipQuoted, bind_of_ok (take_cons _ _ _), if_pos rfl]
    rfl
  | plain h hrest ih =>
    obtain ⟨hquote, hbackslash, hcontrol⟩ := h
    obtain ⟨room, rfl⟩ := Nat.exists_eq_add_one_of_ne_zero (Nat.ne_zero_of_lt hroom)
    rw [List.cons_append, skipQuoted, bind_of_ok (take_cons _ _ _), if_neg hquote,
      if_neg hbackslash, if_neg (Nat.not_lt.2 hcontrol)]
    exact ih (Nat.lt_of_succ_lt_succ hroom)
  | @short letter body h hrest ih =>
    have hletters : ∀ letter ∈ shortEscapes.map (·.1),
        letter ≠ 'u' ∧ "\"\\/bfnrt".toList.contains letter = true := by simp [shortEscapes]
    have hletter := hletters letter h
    obtain ⟨room, rfl⟩ := Nat.exists_eq_add_one_of_ne_zero (Nat.ne_zero_of_lt hroom)
    rw [List.cons_append, List.cons_append, skipQuoted, bind_of_ok (take_cons _ _ _),
      if_neg (by decide), if_pos rfl, bind_of_ok (take_cons _ _ _), if_neg hletter.1,
      if_pos hletter.2]
    simp only [List.length_cons] at hroom
    exact ih (by omega)
  | numbered h hrest ih =>
    obtain ⟨room, rfl⟩ := Nat.exists_eq_add_one_of_ne_zero (Nat.ne_zero_of_lt hroom)
    rw [List.cons_append, List.cons_append, List.append_assoc, skipQuoted,
      bind_of_ok (take_cons _ _ _), if_neg (by decide), if_pos rfl, bind_of_ok (take_cons _ _ _),
      if_pos rfl, bind_of_ok (hex4_of_isHex4 h _)]
    simp only [List.length_cons, List.length_append] at hroom
    exact ih (by omega)

theorem skipDigits_of_isDigits (h : IsDigits chars) (hrest : EndsDigits rest) :
    skipDigits count (chars ++ rest) = .ok ((), rest) := by
  rw [skipDigits, bind_of_ok (digitRun_of_forall h.2 hrest),
    if_neg (by simpa only [List.isEmpty_iff, List.map_eq_nil_iff] using h.1)]
  rfl

/-- Skips the power of ten of a number, if one stands here. -/
def skipExponent : Reader Unit := do
  match ← get with
  | c :: rest =>
    if c = 'e' ∨ c = 'E' then
      set (if rest.head? = some '-' ∨ rest.head? = some '+' then rest.drop 1 else rest)
      skipDigits
  | [] => pure ()

/-- Skips what may stand after the digits before the point. -/
def skipFraction : Reader Unit := do
  if (← get).head? = some '.' then
    advance
    skipDigits
  skipExponent

theorem endsDigits_cons (h : c.isDigit = false) : EndsDigits (c :: rest) := by
  rintro d hd
  obtain rfl : c = d := Option.some.inj hd
  exact h

/-- What follows the digits of a fraction, or of a number without one. -/
theorem head?_exponent (h : IsExponent chars) (hrest : Follows rest)
    (hc : (chars ++ rest).head? = some c) : c.isDigit = false ∧ c ≠ '.' := by
  rcases h with rfl | ⟨letter, sign, digits, hletter, -, -, rfl⟩
  · obtain ⟨hdigit, hpoint, -, -⟩ := hrest.not_continues hc
    exact ⟨hdigit, hpoint⟩
  · have hother : ∀ d ∈ ['e', 'E'], d.isDigit = false ∧ d ≠ '.' := by simp
    obtain rfl : letter = c := Option.some.inj hc
    exact hother letter hletter

theorem endsDigits_exponent (h : IsExponent chars) (hrest : Follows rest) :
    EndsDigits (chars ++ rest) := fun _ hc => (head?_exponent h hrest hc).1

theorem endsDigits_fraction {fraction exponent : List Char} (h : IsFraction fraction)
    (hexponent : IsExponent exponent) (hrest : Follows rest) :
    EndsDigits (fraction ++ (exponent ++ rest)) := by
  rcases h with rfl | ⟨digits, -, rfl⟩
  · rw [List.nil_append]
    exact endsDigits_exponent hexponent hrest
  · exact endsDigits_cons (by decide)

theorem skipExponent_of_isExponent (h : IsExponent chars) (hrest : Follows rest) :
    skipExponent count (chars ++ rest) = .ok ((), rest) := by
  rw [skipExponent, bind_of_ok (get_eq _ _)]
  rcases h with rfl | ⟨letter, sign, digits, hletter, hsign, hdigits, rfl⟩
  · rw [List.nil_append]
    cases rest with
    | nil => rfl
    | cons c rest =>
      obtain ⟨-, -, hsmall, hlarge⟩ := hrest.not_continues rfl
      simp only [hsmall, hlarge, or_self, if_false]
      rfl
  · have hends := endsDigits_of_follows hrest
    have hskip : skipDigits count _ = _ := skipDigits_of_isDigits hdigits hends
    have hpast : (if (sign ++ digits ++ rest).head? = some '-' ∨
        (sign ++ digits ++ rest).head? = some '+' then (sign ++ digits ++ rest).drop 1
        else sign ++ digits ++ rest) = digits ++ rest := by
      simp only [List.mem_cons, List.not_mem_nil, or_false] at hsign
      rcases hsign with rfl | rfl | rfl
      · obtain ⟨hne, hall⟩ := hdigits
        cases digits with
        | nil => exact absurd rfl hne
        | cons d digits =>
          have hd := hall d List.mem_cons_self
          have hsigns : ∀ e ∈ ['-', '+'], e.isDigit = false := by simp
          refine if_neg ?_
          rintro (h | h) <;>
          · obtain rfl := Option.some.inj h
            exact absurd hd (by decide)
      · rfl
      · rfl
    have hletter : letter = 'e' ∨ letter = 'E' := by simpa using hletter
    rw [List.cons_append]
    simp only [hletter, if_true]
    rw [hpast]
    exact hskip

theorem skipFraction_of_isFraction {fraction exponent : List Char} (h : IsFraction fraction)
    (hexponent : IsExponent exponent) (hrest : Follows rest) :
    skipFraction count (fraction ++ (exponent ++ rest)) = .ok ((), rest) := by
  rw [skipFraction, bind_of_ok (get_eq _ _)]
  rcases h with rfl | ⟨digits, hdigits, rfl⟩
  · have hpoint : (exponent ++ rest).head? ≠ some '.' := fun h =>
      (head?_exponent hexponent hrest h).2 rfl
    rw [List.nil_append, if_neg hpoint]
    exact skipExponent_of_isExponent hexponent hrest
  · have hskip : skipDigits count _ = _ := skipDigits_of_isDigits hdigits
      (endsDigits_exponent hexponent hrest)
    rw [List.cons_append, if_pos (List.head?_cons ..), bind_of_ok (advance_cons _ _ _),
      bind_of_ok hskip]
    exact skipExponent_of_isExponent hexponent hrest

/-- Past the digits before the point goes on what follows them. -/
theorem skipNumber_of_isWhole (h : IsWhole chars) (hrest : EndsDigits rest) :
    skipNumber count (chars ++ rest) = skipFraction count rest := by
  rw [skipNumber, bind_of_ok (get_eq _ _)]
  rcases h with rfl | ⟨hdigits, hhead⟩
  · rw [List.singleton_append]
    have hnext : (rest.head?.map Char.isDigit).getD false ≠ true := by
      cases hhead : rest.head? with
      | none => decide
      | some c => simp [hrest c hhead]
    simp only [hnext]
    rfl
  · have hskip : skipDigits count _ = _ := skipDigits_of_isDigits hdigits hrest
    cases chars with
    | nil => exact absurd rfl hdigits.1
    | cons c chars =>
      have hzero : ∀ tail, c :: (chars ++ rest) = '0' :: tail → False := fun tail h =>
        hhead (congrArg some (List.cons.inj h).1)
      rw [List.cons_append] at hskip ⊢
      -- the match is decided by `hzero`
      simp only
      rw [bind_of_ok hskip]
      rfl

/-- **A number is passed over.** -/
theorem skipNumber_of_isUnsigned (h : IsUnsigned chars) (hrest : Follows rest) :
    skipNumber count (chars ++ rest) = .ok ((), rest) := by
  obtain ⟨whole, fraction, exponent, hwhole, hfraction, hexponent, rfl⟩ := h
  have hends := endsDigits_fraction hfraction hexponent hrest
  rw [List.append_assoc, List.append_assoc, skipNumber_of_isWhole hwhole hends,
    skipFraction_of_isFraction hfraction hexponent hrest]

/-! ## Names and frames -/

/-- Blanks in front of a reader that looks ahead make no difference. -/
theorem peek_bind_of_isBlank (hbefore : IsBlank before) (next : Char → Reader β)
    (text : List Char) : (peek >>= next) count (before ++ text) = (peek >>= next) count text := by
  have hpeek : peek count (before ++ text) = peek count text := by
    rw [peek_eq, peek_eq, dropWhile_of_isBlank hbefore]
  exact bind_of_eq hpeek

/-- A field's name is passed over, with the colon after it. -/
theorem skipName_of_spaced {name : List Char} (h : QuotedForm body)
    (hname : Spaced ('"' :: (body ++ ['"'])) name) {room : Nat} (hroom : name.length < room)
    (rest : List Char) : skipName room count (name ++ ':' :: rest) = .ok ((), rest) := by
  obtain ⟨before, after, hbefore, hafter, rfl⟩ := hname
  have htext : before ++ '"' :: (body ++ ['"']) ++ after ++ ':' :: rest =
      before ++ '"' :: (body ++ '"' :: (after ++ ':' :: rest)) := by simp
  have hbody : body.length < room := by
    simp only [List.length_append, List.length_cons] at hroom
    omega
  rw [htext, skipName, bind_of_ok (peek_of_isBlank hbefore (by decide) _), if_neg (by simp)]
  dsimp only
  rw [bind_of_ok (advance_cons _ _ _), bind_of_ok (skipQuoted_of_quotedForm h hbody _),
    bind_of_ok (peek_of_isBlank hafter (by decide) _), if_neg (by simp)]
  exact advance_cons _ _ _

/-- What skipping goes on with after a value, in at most `steps` steps. -/
def resume (steps : Nat) (frames : List Frame) : Reader Unit := do
  match ← afterValue (steps + 1) frames with
  | none => pure ()
  | some frames => skipAll steps frames

/-- Skips the first part of an open list or object, and what comes after it. -/
def skipPart (steps : Nat) (frame : Frame) (outer : List Frame) : Reader Unit := do
  if frame = .object then
    skipName (steps + 1)
  skipAll steps (frame :: outer)

theorem skipAll_of_isBlank (hbefore : IsBlank before) (steps : Nat) (frames : List Frame)
    (text : List Char) :
    skipAll steps frames count (before ++ text) = skipAll steps frames count text := by
  cases steps with
  | zero => rfl
  | succ steps =>
    rw [skipAll, skipStep, bind_assoc]
    exact peek_bind_of_isBlank hbefore _ text

theorem skipPart_of_isBlank (hbefore : IsBlank before) (steps : Nat) (frame : Frame)
    (outer : List Frame) (text : List Char) :
    skipPart steps frame outer count (before ++ text) = skipPart steps frame outer count text := by
  cases frame with
  | list => exact skipAll_of_isBlank hbefore steps _ text
  | object =>
    simp only [skipPart, skipName, if_true, bind_assoc]
    exact peek_bind_of_isBlank hbefore _ text

section Resume

variable {blanks : List Char}

theorem isBlank_closing (frame : Frame) : isBlank frame.closing = false := by
  cases frame <;> decide

/-- What closes a list or object ends a value of what it stands in. -/
theorem resume_closing (hblanks : IsBlank blanks) (steps : Nat) (frame : Frame)
    (outer : List Frame) (rest : List Char) :
    resume steps (frame :: outer) count (blanks ++ frame.closing :: rest) =
      resume steps outer count rest := by
  have hpeek : peek count _ = _ := peek_of_isBlank hblanks (isBlank_closing frame) rest
  rw [resume, afterValue, bind_assoc, bind_of_ok hpeek, if_pos rfl, bind_assoc,
    bind_of_ok (advance_cons _ _ _), resume]

/-- A frame that stays open goes on with its next part. -/
theorem skipAll_open (steps : Nat) (frame : Frame) (outer : List Frame) :
    (do
      let frames? ← (do
        if frame = .object then skipName (steps + 1)
        pure (some (frame :: outer)) : Reader (Option (List Frame)))
      match frames? with
      | none => pure ()
      | some frames => skipAll steps frames) = skipPart steps frame outer := by
  cases frame with
  | list => rfl
  | object =>
    simp only [skipPart, if_true, bind_assoc, pure_bind]

/-- A comma leads to the next part. -/
theorem resume_comma (hblanks : IsBlank blanks) (steps : Nat) (frame : Frame)
    (outer : List Frame) (rest : List Char) :
    resume steps (frame :: outer) count (blanks ++ ',' :: rest) =
      skipPart steps frame outer count rest := by
  have hpeek : peek count (blanks ++ ',' :: rest) = _ := peek_of_isBlank hblanks (by decide) rest
  have hcomma : ',' ≠ frame.closing := by cases frame <;> decide
  rw [resume, afterValue, bind_assoc, bind_of_ok hpeek, if_neg hcomma, if_pos rfl, bind_assoc,
    bind_of_ok (advance_cons _ _ _)]
  exact congrFun (congrFun (skipAll_open steps frame outer) count) rest

/-- A value whose start is its end. -/
theorem skipAll_of_skipStep {steps : Nat}
    (h : skipStep (steps + 1) frames count text = afterValue (steps + 1) frames count rest) :
    skipAll (steps + 1) frames count text = resume steps frames count rest := by
  rw [skipAll, resume]
  exact bind_of_eq h

/-- The character that opens a list or object. -/
def opening : Frame → Char
  | .list => '['
  | .object => '\x7b'

theorem skipStep_opening (steps : Nat) (frame : Frame) (outer : List Frame) (text : List Char) :
    skipStep steps outer count (opening frame :: text) =
      enter steps frame outer count (opening frame :: text) := by
  cases frame <;> rfl

/-- An empty list or object. -/
theorem skipAll_empty (hblanks : IsBlank blanks) (steps : Nat) (frame : Frame)
    (outer : List Frame) (rest : List Char) :
    skipAll (steps + 1) outer count (opening frame :: (blanks ++ frame.closing :: rest)) =
      resume steps outer count rest := by
  apply skipAll_of_skipStep
  have hpeek : peek count _ = _ := peek_of_isBlank hblanks (isBlank_closing frame) rest
  rw [skipStep_opening, enter, bind_of_ok (advance_cons _ _ _), bind_of_ok hpeek, if_pos rfl,
    bind_of_ok (advance_cons _ _ _)]

/-- A list or object that is not empty. -/
theorem skipAll_opening (hblanks : IsBlank blanks) (hc : isBlank c = false)
    (hclosing : c ≠ frame.closing) (steps : Nat) (outer : List Frame) (rest : List Char) :
    skipAll (steps + 1) outer count (opening frame :: (blanks ++ c :: rest)) =
      skipPart steps frame outer count (blanks ++ c :: rest) := by
  have hpeek : peek count _ = _ := peek_of_isBlank hblanks hc rest
  have hstep : skipStep (steps + 1) outer count (opening frame :: (blanks ++ c :: rest)) =
      (do
        if frame = .object then skipName (steps + 1)
        pure (some (frame :: outer)) : Reader (Option (List Frame))) count (c :: rest) := by
    rw [skipStep_opening, enter, bind_of_ok (advance_cons _ _ _), bind_of_ok hpeek,
      if_neg hclosing]
  rw [skipPart_of_isBlank hblanks, ← skipAll_open, skipAll]
  exact bind_of_eq hstep

end Resume

/-! ## What the grammar derives -/

/-- Skipping passes over a value, given enough steps, and over the parts of a
list or object with the end of it. -/
def Passes (count : Nat) : Nonterminal → List Char → Prop
  | .value, chars => ∀ steps frames rest, Follows rest → (chars ++ rest).length ≤ steps + 1 →
    ∃ left, rest.length ≤ left ∧
      skipAll (steps + 1) frames count (chars ++ rest) = resume left frames count rest
  | .items, body => PassesParts .list body
  | .members, body => PassesParts .object body
where
  PassesParts (frame : Frame) (body : List Char) : Prop :=
    ∀ steps outer rest, (body ++ frame.closing :: rest).length ≤ steps →
      ∃ left, rest.length ≤ left ∧
        skipPart steps frame outer count (body ++ frame.closing :: rest) =
          resume left outer count rest

theorem mem_follow (frame : Frame) : frame.closing ∈ [',', ']', '\x7d'] := by
  cases frame <;> decide

theorem passes_of_skipStep (hne : chars ≠ [])
    (h : ∀ steps frames rest, Follows rest → (chars ++ rest).length ≤ steps + 1 →
      skipStep (steps + 1) frames count (chars ++ rest) =
        afterValue (steps + 1) frames count rest) :
    Passes count .value chars := by
  intro steps frames rest hrest hsteps
  have hpos := List.length_pos_iff.2 hne
  refine ⟨steps, ?_, skipAll_of_skipStep (h steps frames rest hrest hsteps)⟩
  rw [List.length_append] at hsteps
  omega

theorem peek_cons (hc : isBlank c = false) (rest : List Char) :
    peek count (c :: rest) = .ok (c, c :: rest) :=
  peek_of_isBlank isBlank_nil hc rest

theorem passes_word
    (h : chars ∈ [['n', 'u', 'l', 'l'], ['t', 'r', 'u', 'e'], ['f', 'a', 'l', 's', 'e']]) :
    Passes count .value chars := by
  simp only [List.mem_cons, List.not_mem_nil, or_false] at h
  refine passes_of_skipStep (by rintro rfl; simp at h) ?_
  intro steps frames rest _ _
  rcases h with rfl | rfl | rfl
  all_goals
    rw [List.cons_append, skipStep, bind_of_ok (peek_cons (by decide) _)]
    simp only
    rw [bind_of_ok (advance_cons _ _ _), bind_of_ok (word_append _ rest)]

theorem passes_text (h : QuotedForm body) : Passes count .value ('"' :: (body ++ ['"'])) := by
  apply passes_of_skipStep (List.cons_ne_nil _ _)
  intro steps frames rest _ hsteps
  have hbody : body.length < steps + 1 := by
    simp only [List.length_append, List.length_cons] at hsteps
    omega
  rw [List.cons_append, List.append_assoc, List.singleton_append, skipStep,
    bind_of_ok (peek_cons (by decide) _)]
  simp only
  rw [bind_of_ok (advance_cons _ _ _), bind_of_ok (skipQuoted_of_quotedForm h hbody rest)]

theorem passes_negative (h : IsUnsigned chars) : Passes count .value ('-' :: chars) := by
  apply passes_of_skipStep (List.cons_ne_nil _ _)
  intro steps frames rest hrest _
  rw [List.cons_append, skipStep, bind_of_ok (peek_cons (by decide) _)]
  simp only
  rw [bind_of_ok (advance_cons _ _ _), bind_of_ok (skipNumber_of_isUnsigned h hrest)]

theorem passes_positive (h : IsUnsigned chars) : Passes count .value chars := by
  obtain ⟨c, tail, rfl, hc⟩ := h.exists_cons
  apply passes_of_skipStep (List.cons_ne_nil _ _)
  intro steps frames rest hrest _
  have hskip : skipNumber count _ = _ := skipNumber_of_isUnsigned h hrest
  have hne {d : Char} (hd : d.isDigit = false) : c ≠ d := Numeral.ne_of_isDigit hc hd
  have hblank : isBlank c = false := by simp [isBlank, hne]
  rw [List.cons_append] at hskip ⊢
  rw [skipStep, bind_of_ok (peek_cons hblank _)]
  have hn : c ≠ 'n' := hne rfl
  have ht : c ≠ 't' := hne rfl
  have hf : c ≠ 'f' := hne rfl
  have hquote : c ≠ '"' := hne rfl
  have hlist : c ≠ '[' := hne rfl
  have hobject : c ≠ '\x7b' := hne rfl
  have hminus : c ≠ '-' := hne rfl
  -- what stands in the context decides the match
  simp only
  rw [if_pos hc, bind_of_ok hskip]

theorem passes_empty {blanks : List Char} (hblanks : IsBlank blanks) (frame : Frame) :
    Passes count .value (opening frame :: (blanks ++ [frame.closing])) := by
  intro steps frames rest _ hsteps
  refine ⟨steps, ?_, ?_⟩
  · simp only [List.length_append, List.length_cons] at hsteps
    omega
  · rw [List.cons_append, List.append_assoc, List.singleton_append, skipAll_empty hblanks]

/-- What is enclosed is passed over when its parts are. -/
theorem passes_enclosed (h : Passes.PassesParts count frame body) (hbody : Opens body) :
    Passes count .value (opening frame :: (body ++ [frame.closing])) := by
  intro steps frames rest _ hsteps
  rw [List.cons_append, List.append_assoc, List.singleton_append] at hsteps ⊢
  obtain ⟨left, hleft, hskip⟩ := h steps frames rest (Nat.le_of_succ_le_succ hsteps)
  refine ⟨left, hleft, ?_⟩
  obtain ⟨blanks, c, tail, hblanks, rfl, hc, hlist, hobject⟩ := hbody
  have hclosing : c ≠ frame.closing := by
    cases frame
    · exact hlist
    · exact hobject
  rw [List.append_assoc, List.cons_append] at hskip ⊢
  rw [skipAll_opening hblanks hc hclosing, hskip]

/-- A value among the parts of a list or object. -/
theorem skipAll_spaced {item : List Char} (h : Passes count .value chars)
    (hitem : Spaced chars item) (hc : c ∈ [',', ']', '\x7d']) (steps : Nat) (frames : List Frame)
    (rest : List Char) (hsteps : (item ++ c :: rest).length ≤ steps) :
    ∃ left blanks, rest.length ≤ left ∧ IsBlank blanks ∧
      skipAll steps frames count (item ++ c :: rest) =
        resume left frames count (blanks ++ c :: rest) := by
  obtain ⟨before, after, hbefore, hafter, rfl⟩ := hitem
  have hfollows : Follows (after ++ c :: rest) := follows_of_isBlank hafter (follows_cons hc)
  simp only [List.length_append, List.length_cons] at hsteps
  obtain ⟨steps, rfl⟩ := Nat.exists_eq_add_one_of_ne_zero (show steps ≠ 0 by omega)
  obtain ⟨left, hleft, hskip⟩ := h steps frames (after ++ c :: rest) hfollows (by
    simp only [List.length_append, List.length_cons]
    omega)
  refine ⟨left, after, ?_, hafter, ?_⟩
  · simp only [List.length_append, List.length_cons] at hleft
    omega
  · rw [List.append_assoc, List.append_assoc, skipAll_of_isBlank hbefore, hskip]

/-- The last part is passed over with the end of what it is a part of. -/
theorem skipAll_last {item : List Char} (h : Passes count .value chars)
    (hitem : Spaced chars item) (steps : Nat) (outer : List Frame) (rest : List Char)
    (hsteps : (item ++ frame.closing :: rest).length ≤ steps) :
    ∃ left, rest.length ≤ left ∧
      skipAll steps (frame :: outer) count (item ++ frame.closing :: rest) =
        resume left outer count rest := by
  obtain ⟨left, blanks, hleft, hblanks, hskip⟩ :=
    skipAll_spaced h hitem (mem_follow frame) steps (frame :: outer) rest hsteps
  exact ⟨left, hleft, hskip.trans (resume_closing hblanks left frame outer rest)⟩

/-- Any other part is passed over with the comma after it. -/
theorem skipAll_next {item : List Char} (h : Passes count .value chars)
    (hitem : Spaced chars item) (hbody : Passes.PassesParts count frame body) (steps : Nat)
    (outer : List Frame) (rest : List Char)
    (hsteps : (item ++ ',' :: (body ++ frame.closing :: rest)).length ≤ steps) :
    ∃ left, rest.length ≤ left ∧
      skipAll steps (frame :: outer) count (item ++ ',' :: (body ++ frame.closing :: rest)) =
        resume left outer count rest := by
  obtain ⟨left, blanks, hleft, hblanks, hskip⟩ :=
    skipAll_spaced h hitem (by decide) steps (frame :: outer) _ hsteps
  obtain ⟨last, hlast, hparts⟩ := hbody left outer rest hleft
  exact ⟨last, hlast, by rw [hskip, resume_comma hblanks, hparts]⟩

/-- A part of an object begins with its name. -/
theorem skipPart_object {name : List Char} (h : QuotedForm body)
    (hname : Spaced ('"' :: (body ++ ['"'])) name) (steps : Nat) (outer : List Frame)
    (rest : List Char) (hsteps : (name ++ ':' :: rest).length ≤ steps) :
    skipPart steps .object outer count (name ++ ':' :: rest) =
      skipAll steps (.object :: outer) count rest := by
  rw [List.length_append] at hsteps
  have hroom : name.length < steps + 1 := by omega
  rw [skipPart, if_pos rfl, bind_of_ok (skipName_of_spaced h hname hroom rest)]

/-- **All that the grammar derives is passed over.** -/
theorem passes_of_derives {symbol : Nonterminal} (h : Derives symbol chars) :
    Passes count symbol chars := by
  induction h with
  | word h => exact passes_word h
  | positive h => exact passes_positive h
  | negative h => exact passes_negative h
  | text h => exact passes_text h
  | emptyList hblanks => exact passes_empty hblanks .list
  | list h ih => exact passes_enclosed ih h.opens_items
  | emptyObject hblanks => exact passes_empty hblanks .object
  | object h ih => exact passes_enclosed ih h.opens_members
  | lastItem h hitem ih => exact skipAll_last ih hitem
  | item h hitem hrest ih ihrest =>
    intro steps outer rest hsteps
    rw [List.append_assoc, List.cons_append] at hsteps ⊢
    exact skipAll_next ih hitem ihrest steps outer rest hsteps
  | lastMember hquoted hname h hitem ih =>
    intro steps outer rest hsteps
    rw [List.append_assoc, List.cons_append] at hsteps ⊢
    rw [skipPart_object hquoted hname steps outer _ hsteps]
    simp only [List.length_append, List.length_cons] at hsteps
    refine skipAll_last ih hitem steps outer rest ?_
    simp only [List.length_append, List.length_cons]
    omega
  | member hquoted hname h hitem hrest ih ihrest =>
    intro steps outer rest hsteps
    simp only [List.append_assoc, List.cons_append] at hsteps ⊢
    rw [skipPart_object hquoted hname steps outer _ hsteps]
    simp only [List.length_append, List.length_cons] at hsteps
    refine skipAll_next ih hitem ihrest steps outer rest ?_
    simp only [List.length_append, List.length_cons]
    omega

/-- **A value is skipped to its end.** -/
theorem skipValue_of_derives (h : Derives .value chars) (hrest : Follows rest)
    (hcount : (chars ++ rest).length < count) :
    skipValue count (chars ++ rest) = .ok ((), rest) := by
  obtain ⟨steps, rfl⟩ := Nat.exists_eq_add_one_of_ne_zero (Nat.ne_zero_of_lt hcount)
  have hpasses : Passes (steps + 1) .value chars := passes_of_derives h
  obtain ⟨left, -, hskip⟩ := hpasses steps [] rest hrest (Nat.le_of_lt hcount)
  have hbound : bound (steps + 1) (chars ++ rest) = .ok (steps + 1, chars ++ rest) := rfl
  rw [skipValue, bind_of_ok hbound, hskip]
  rfl

end Reader

end Json

end ErasureDigest

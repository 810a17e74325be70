import ErasureDigest.Command.Line

/-!
# The words of a command line

A word can give a switch with its value (`Switch.Gives`), or ask for the value
to stand in the next word (`Switch.Asks`). A draft that is ready takes in just
these as switches, if its command admits them (`Draft.Takes`). Besides there
are two dashes, and words that do not look like a switch
(`Draft.step_ready_cases`).
-/

namespace ErasureDigest

/-- Of two computations one after the other both come through, or none. -/
theorem bind_eq_ok {ε α β : Type} {first : Except ε α} {next : α → Except ε β} {b : β} :
    (first >>= next) = .ok b ↔ ∃ a, first = .ok a ∧ next a = .ok b := by
  cases first with
  | error _ => exact ⟨nofun, nofun⟩
  | ok a => exact ⟨fun h => ⟨a, rfl, h⟩, fun ⟨_, ha, h⟩ => Except.ok.inj ha ▸ h⟩

namespace Command

/-! ## What a word looks like -/

/-- A word after which the value of a switch comes: its name or its letter. -/
inductive Switch.Asks (switch : Switch) : (word : String) → Prop
  | name (htakes : switch.takesValue = true) : Asks switch ("--" ++ switch.long)
  | letter {letter : Char} (hletter : switch.short? = some letter)
    (htakes : switch.takesValue = true) : Asks switch ("-" ++ letter.toString)

/-- A word that gives a switch with its value, joined by an equals sign, or to
the letter of the switch. A switch without a value is given by its name. -/
inductive Switch.Gives (switch : Switch) : (value word : String) → Prop
  | bare (hbare : switch.takesValue = false) : Gives switch "" ("--" ++ switch.long)
  | name {value : String} (htakes : switch.takesValue = true) :
    Gives switch value ("--" ++ switch.long ++ "=" ++ value)
  | letter {letter first : Char} {rest : List Char} (hletter : switch.short? = some letter)
    (htakes : switch.takesValue = true) (hfirst : first ≠ '=') :
    Gives switch (String.ofList (first :: rest))
      ("-" ++ letter.toString ++ String.ofList (first :: rest))
  | equals {letter : Char} {value : String} (hletter : switch.short? = some letter)
    (htakes : switch.takesValue = true) :
    Gives switch value ("-" ++ letter.toString ++ "=" ++ value)

/-- Whether a command that has been given some switches can be given another:
it knows the switch, has not been given it, and can use the value. -/
structure Given.Admits (verb : Verb) (given : Given) (switch : Switch) (value : String) :
    Prop where
  known : switch ∈ verb.switches
  ne_help : switch ≠ .help
  ne_version : switch ≠ .version
  new : given.lookup switch = none
  usable : switch.accepts value = true

/-! ## The names of switches -/

namespace Switch

variable {switch switch' : Switch} {letter : Char}

theorem long_injective (h : switch.long = switch'.long) : switch = switch' := by
  revert h
  cases switch <;> cases switch' <;> decide

theorem short?_injective (h : switch.short? = some letter) (h' : switch'.short? = some letter) :
    switch = switch' := by
  rw [← h'] at h
  revert h h'
  cases switch <;> cases switch' <;> simp [short?]

/-- There is no equals sign in a name. -/
theorem ne_equals_of_mem_long {char : Char} (h : char ∈ switch.long.toList) : char ≠ '=' := by
  rintro rfl
  revert h
  cases switch <;> decide

theorem long_ne_nil : switch.long.toList ≠ [] := by
  cases switch <;> decide

/-- A name ends where nothing follows, or an equals sign. -/
theorem name_ends {attached : List Char}
    (hattached : attached = [] ∨ ∃ value, attached = '=' :: value) :
    (switch.long.toList ++ attached).takeWhile (· ≠ '=') = switch.long.toList ∧
      (switch.long.toList ++ attached).dropWhile (· ≠ '=') = attached := by
  have hname : ∀ char ∈ switch.long.toList, decide (char ≠ '=') = true :=
    fun char hchar => decide_eq_true (ne_equals_of_mem_long hchar)
  rw [List.takeWhile_append_of_pos hname, List.dropWhile_append_of_pos hname]
  rcases hattached with rfl | ⟨value, rfl⟩ <;> simp

/-- No letter is a dash. -/
theorem ne_dash_of_short? (h : switch.short? = some letter) : letter ≠ '-' := by
  rintro rfl
  revert h
  cases switch <;> decide

end Switch

namespace Verb

variable {verb : Verb} {switch : Switch} {letter : Char}

/-- What is found where no two answers fit. -/
theorem find?_eq_some_iff_of_unique {fits : Switch → Bool} {switches : List Switch}
    (hunique : ∀ other, fits other = true → fits switch = true → other = switch) :
    switches.find? fits = some switch ↔ switch ∈ switches ∧ fits switch = true := by
  constructor
  · intro h
    exact ⟨List.mem_of_find?_eq_some h, List.find?_some h⟩
  · rintro ⟨hmem, hfits⟩
    obtain ⟨other, hother⟩ := Option.isSome_iff_exists.1 (List.find?_isSome.2 ⟨switch, hmem, hfits⟩)
    rw [hother, hunique other (List.find?_some hother) hfits]

theorem longSwitch?_eq_some_iff {name : String} :
    verb.longSwitch? name = some switch ↔ switch ∈ verb.switches ∧ switch.long = name := by
  rw [longSwitch?, find?_eq_some_iff_of_unique, decide_eq_true_iff]
  intro other hother hswitch
  exact Switch.long_injective ((of_decide_eq_true hother).trans (of_decide_eq_true hswitch).symm)

theorem shortSwitch?_eq_some_iff : verb.shortSwitch? letter = some switch ↔
    switch ∈ verb.switches ∧ switch.short? = some letter := by
  rw [shortSwitch?, find?_eq_some_iff_of_unique, decide_eq_true_iff]
  intro other hother hswitch
  exact Switch.short?_injective (of_decide_eq_true hother) (of_decide_eq_true hswitch)

end Verb

namespace Draft

variable {verb : Verb} {given : Given} {outer : List Given} {operands : List String}
variable {draft draft' : Draft} {switch : Switch} {value text argument : String}

/-! ## Drafts between two arguments -/

/-- A draft that is ready for any argument. -/
def ready (verb : Verb) (given : Given) (outer : List Given) (operands : List String) : Draft :=
  ⟨verb, given, outer, operands, none, false, false⟩

/-- A draft for which every further word is an operand. -/
def behind (verb : Verb) (given : Given) (outer : List Given) (operands : List String) : Draft :=
  ⟨verb, given, outer, operands, none, true, false⟩

/-- A draft that waits for the value of a switch, ready but for that. -/
def waiting (verb : Verb) (given : Given) (outer : List Given) (operands : List String)
    (switch : Switch) : Draft :=
  ⟨verb, given, outer, operands, some switch, false, false⟩

theorem looksLikeSwitch_iff : looksLikeSwitch text = true ↔
    ∃ char chars, text.toList = '-' :: char :: chars := by
  rw [looksLikeSwitch]
  split
  · next char chars h => exact ⟨fun _ => ⟨char, chars, h⟩, fun _ => rfl⟩
  · next h => exact ⟨nofun, fun ⟨char, chars, heq⟩ => absurd heq (h char chars)⟩

theorem step_ready_long {chars : List Char} (harg : argument.toList = '-' :: '-' :: chars)
    (hchars : chars ≠ []) :
    (ready verb given outer operands).step argument =
      (ready verb given outer operands).long chars := by
  obtain ⟨char, rest, rfl⟩ := List.exists_cons_of_ne_nil hchars
  simp [step, ready, harg]

theorem step_ready_short {letter : Char} {letters : List Char}
    (harg : argument.toList = '-' :: letter :: letters) (hletter : letter ≠ '-') :
    (ready verb given outer operands).step argument =
      (ready verb given outer operands).short (letter :: letters) := by
  simp [step, ready, harg, hletter]

theorem step_ready_word (harg : looksLikeSwitch argument = false) :
    (ready verb given outer operands).step argument =
      (ready verb given outer operands).word argument := by
  have hne (char : Char) (chars : List Char) : argument.toList ≠ '-' :: char :: chars := fun h =>
    Bool.false_ne_true (harg.symm.trans (looksLikeSwitch_iff.2 ⟨char, chars, h⟩))
  simp only [step, ready, Bool.false_eq_true, if_false]
  split
  · next h => exact absurd h (hne _ _)
  · next h => exact absurd h (hne _ _)
  · next h => exact absurd h (hne _ _)
  · rfl

theorem step_waiting (hvalue : looksLikeSwitch value = false) :
    (waiting verb given outer operands switch).step value =
      (waiting verb given outer operands switch).give switch value := by
  simp [step, waiting, hvalue]

theorem step_behind : (behind verb given outer operands).step argument =
    if operands.length < verb.room then .ok (behind verb given outer (operands ++ [argument]))
    else .error .refused := rfl

theorem step_ready_dashes : (ready verb given outer operands).step "--" =
    .ok (behind verb given outer operands) := rfl

/-! ## Switches -/

/-- A switch is taken in that is admitted. -/
theorem give_eq_ok_iff (hknown : switch ∈ draft.verb.switches) :
    draft.give switch value = .ok draft' ↔ draft.given.Admits draft.verb switch value ∧
      draft' = { draft with given := (switch, value) :: draft.given, awaiting? := none } := by
  rw [give]
  split
  · next h => exact ⟨nofun, fun h' => absurd h h'.1.ne_help⟩
  split
  · next h => exact ⟨nofun, fun h' => absurd h h'.1.ne_version⟩
  split
  · next h =>
    refine ⟨nofun, fun ⟨hadmits, _⟩ => ?_⟩
    simp [hadmits.new, hadmits.usable] at h
  · next hhelp hversion h =>
    simp only [Bool.or_eq_true, Bool.not_eq_true', not_or, Bool.not_eq_true,
      Option.isSome_eq_false_iff, Option.isNone_iff_eq_none, Bool.not_eq_false] at h
    constructor
    · intro heq
      exact ⟨⟨hknown, hhelp, hversion, h.1, h.2⟩, (Except.ok.inj heq).symm⟩
    · rintro ⟨-, rfl⟩
      rfl

/-- The name of a switch is taken in. -/
theorem long_name (hknown : switch ∈ draft.verb.switches) :
    draft.long switch.long.toList =
      if switch.takesValue then .ok { draft with awaiting? := some switch }
      else draft.give switch "" := by
  obtain ⟨hname, hrest⟩ := switch.name_ends (Or.inl rfl)
  rw [List.append_nil] at hname hrest
  rw [long, hname, hrest, String.ofList_toList, Verb.longSwitch?_eq_some_iff.2 ⟨hknown, rfl⟩]
  cases htakes : switch.takesValue <;> simp [htakes]

/-- The name of a switch is taken in, with a value joined to it. -/
theorem long_joined (hknown : switch ∈ draft.verb.switches) (chars : List Char) :
    draft.long (switch.long.toList ++ '=' :: chars) =
      if switch.takesValue then draft.give switch (String.ofList chars)
      else .error .refused := by
  obtain ⟨hname, hrest⟩ := switch.name_ends (Or.inr ⟨chars, rfl⟩)
  rw [long, hname, hrest, String.ofList_toList, Verb.longSwitch?_eq_some_iff.2 ⟨hknown, rfl⟩]
  cases htakes : switch.takesValue <;> simp [htakes]

/-- Nothing else stands behind two dashes. -/
theorem name_of_long_eq_ok {chars : List Char} (h : draft.long chars = .ok draft') :
    ∃ switch ∈ draft.verb.switches, chars = switch.long.toList ∨
      ∃ value, chars = switch.long.toList ++ '=' :: value := by
  rw [long] at h
  split at h
  · cases h
  · next switch hswitch =>
    obtain ⟨hknown, hname⟩ := Verb.longSwitch?_eq_some_iff.1 hswitch
    refine ⟨switch, hknown, ?_⟩
    rw [hname, String.toList_ofList]
    have hchars := (List.takeWhile_append_dropWhile : chars.takeWhile (· ≠ '=') ++
      chars.dropWhile (· ≠ '=') = chars)
    cases hrest : chars.dropWhile (· ≠ '=') with
    | nil =>
      rw [hrest, List.append_nil] at hchars
      exact Or.inl hchars.symm
    | cons first value =>
      have hfirst : first = '=' := by
        have hhead := List.head?_dropWhile_not (· ≠ '=') chars
        rw [hrest] at hhead
        simpa using hhead
      subst hfirst
      rw [hrest] at hchars
      exact Or.inr ⟨value, hchars.symm⟩

section

variable {letter : Char}
variable (hknown : switch ∈ draft.verb.switches) (hletter : switch.short? = some letter)
variable (htakes : switch.takesValue = true)
include hknown hletter htakes

/-- The letter of a switch that takes a value is taken in. -/
theorem short_letter : draft.short [letter] = .ok { draft with awaiting? := some switch } := by
  simp [short, Verb.shortSwitch?_eq_some_iff.2 ⟨hknown, hletter⟩, htakes]

/-- And so it is with a value joined to it. -/
theorem short_joined {first : Char} (hfirst : first ≠ '=') (rest : List Char) :
    draft.short (letter :: first :: rest) =
      draft.give switch (String.ofList (first :: rest)) := by
  rw [short, Verb.shortSwitch?_eq_some_iff.2 ⟨hknown, hletter⟩]
  simp [htakes, hfirst]

/-- An equals sign between them is set aside. -/
theorem short_equals (chars : List Char) :
    draft.short (letter :: '=' :: chars) = draft.give switch (String.ofList chars) := by
  simp [short, Verb.shortSwitch?_eq_some_iff.2 ⟨hknown, hletter⟩, htakes]

end

/-- The other letters known on the way to `hash` ask for help or for the
version. -/
theorem takesValue_of_short_eq_ok {letter : Char} {letters : List Char}
    (hverb : draft.verb = .program ∨ draft.verb = .hash)
    (h : draft.short (letter :: letters) = .ok draft') :
    ∃ switch ∈ draft.verb.switches, switch.short? = some letter ∧ switch.takesValue = true := by
  rw [short] at h
  split at h
  · cases h
  · next switch hswitch =>
    obtain ⟨hknown, hletter⟩ := Verb.shortSwitch?_eq_some_iff.1 hswitch
    refine ⟨switch, hknown, hletter, ?_⟩
    rcases hverb with hverb | hverb <;> rw [hverb] at hknown <;>
      cases switch <;> simp_all [Verb.switches, Switch.short?, Switch.takesValue, give]

/-! ## One word -/

/-- What a word makes of a ready draft that gives a switch or asks for its
value. -/
inductive Takes (verb : Verb) (given : Given) (outer : List Given) (operands : List String)
    (word : String) : Draft → Prop
  | gives {switch : Switch} {value : String} (hadmits : given.Admits verb switch value)
    (hgives : switch.Gives value word) :
    Takes verb given outer operands word (ready verb ((switch, value) :: given) outer operands)
  | asks {switch : Switch} (hknown : switch ∈ verb.switches) (hasks : switch.Asks word) :
    Takes verb given outer operands word (waiting verb given outer operands switch)

theorem step_asks (hknown : switch ∈ verb.switches) (hasks : switch.Asks argument) :
    (ready verb given outer operands).step argument =
      .ok (waiting verb given outer operands switch) := by
  cases hasks with
  | name htakes =>
    rw [step_ready_long String.toList_append Switch.long_ne_nil, long_name hknown, htakes,
      if_pos rfl]
    rfl
  | @letter letter hletter htakes =>
    have harg : ("-" ++ letter.toString).toList = ['-', letter] := by simp
    rw [step_ready_short harg (Switch.ne_dash_of_short? hletter),
      short_letter hknown hletter htakes]
    rfl

theorem step_gives (hadmits : given.Admits verb switch value)
    (hgives : switch.Gives value argument) :
    (ready verb given outer operands).step argument =
      .ok (ready verb ((switch, value) :: given) outer operands) := by
  have hgive : (ready verb given outer operands).give switch value =
      .ok (ready verb ((switch, value) :: given) outer operands) :=
    (give_eq_ok_iff hadmits.known).2 ⟨hadmits, rfl⟩
  rw [← hgive]
  cases hgives with
  | bare hbare =>
    rw [step_ready_long String.toList_append Switch.long_ne_nil, long_name hadmits.known, hbare,
      if_neg Bool.false_ne_true]
  | name htakes =>
    have harg : ("--" ++ switch.long ++ "=" ++ value).toList =
        '-' :: '-' :: (switch.long.toList ++ '=' :: value.toList) := by simp
    rw [step_ready_long harg (by simp), long_joined hadmits.known, htakes, if_pos rfl,
      String.ofList_toList]
  | @letter letter first rest hletter htakes hfirst =>
    have harg : ("-" ++ letter.toString ++ String.ofList (first :: rest)).toList =
        '-' :: letter :: first :: rest := by simp
    rw [step_ready_short harg (Switch.ne_dash_of_short? hletter),
      short_joined hadmits.known hletter htakes hfirst]
  | @equals letter value hletter htakes =>
    have harg : ("-" ++ letter.toString ++ "=" ++ value).toList =
        '-' :: letter :: '=' :: value.toList := by simp
    rw [step_ready_short harg (Switch.ne_dash_of_short? hletter),
      short_equals hadmits.known hletter htakes, String.ofList_toList]

/-- What a ready draft takes in behind two dashes. -/
theorem takes_of_long {chars : List Char} (harg : argument.toList = '-' :: '-' :: chars)
    (h : (ready verb given outer operands).long chars = .ok draft) :
    Takes verb given outer operands argument draft := by
  obtain ⟨switch, hknown, rfl | ⟨value, rfl⟩⟩ := name_of_long_eq_ok h
  · have hword : argument = "--" ++ switch.long := String.toList_inj.1 (by simp [harg])
    subst hword
    rw [long_name hknown] at h
    cases htakes : switch.takesValue with
    | true =>
      rw [htakes, if_pos rfl] at h
      cases h
      exact .asks hknown (.name htakes)
    | false =>
      rw [htakes, if_neg Bool.false_ne_true] at h
      obtain ⟨hadmits, rfl⟩ := (give_eq_ok_iff hknown).1 h
      exact .gives hadmits (.bare htakes)
  · have hword : argument = "--" ++ switch.long ++ "=" ++ String.ofList value :=
      String.toList_inj.1 (by simp [harg])
    subst hword
    rw [long_joined hknown] at h
    cases htakes : switch.takesValue with
    | true =>
      rw [htakes, if_pos rfl] at h
      obtain ⟨hadmits, rfl⟩ := (give_eq_ok_iff hknown).1 h
      exact .gives hadmits (.name htakes)
    | false =>
      rw [htakes, if_neg Bool.false_ne_true] at h
      cases h

/-- What a ready draft takes in behind one dash, on the way to `hash`. -/
theorem takes_of_short {letter : Char} {letters : List Char}
    (hverb : verb = .program ∨ verb = .hash) (harg : argument.toList = '-' :: letter :: letters)
    (h : (ready verb given outer operands).short (letter :: letters) = .ok draft) :
    Takes verb given outer operands argument draft := by
  obtain ⟨switch, hknown, hletter, htakes⟩ := takesValue_of_short_eq_ok hverb h
  match letters with
  | [] =>
    have hword : argument = "-" ++ letter.toString := String.toList_inj.1 (by simp [harg])
    subst hword
    rw [short_letter hknown hletter htakes] at h
    cases h
    exact .asks hknown (.letter hletter htakes)
  | first :: rest =>
    by_cases hfirst : first = '='
    · subst hfirst
      have hword : argument = "-" ++ letter.toString ++ "=" ++ String.ofList rest :=
        String.toList_inj.1 (by simp [harg])
      subst hword
      rw [short_equals hknown hletter htakes] at h
      obtain ⟨hadmits, rfl⟩ := (give_eq_ok_iff hknown).1 h
      exact .gives hadmits (.equals hletter htakes)
    · have hword : argument = "-" ++ letter.toString ++ String.ofList (first :: rest) :=
        String.toList_inj.1 (by simp [harg])
      subst hword
      rw [short_joined hknown hletter htakes hfirst] at h
      obtain ⟨hadmits, rfl⟩ := (give_eq_ok_iff hknown).1 h
      exact .gives hadmits (.letter hletter htakes hfirst)

/-- **What a ready draft takes in on the way to `hash`**: two dashes, a word
that does not look like a switch, or a switch. -/
theorem step_ready_cases (hverb : verb = .program ∨ verb = .hash)
    (h : (ready verb given outer operands).step argument = .ok draft) :
    argument = "--" ∨ looksLikeSwitch argument = false ∨
      Takes verb given outer operands argument draft := by
  cases hlooks : looksLikeSwitch argument with
  | false => exact Or.inr (Or.inl rfl)
  | true =>
    obtain ⟨letter, letters, harg⟩ := looksLikeSwitch_iff.1 hlooks
    by_cases hletter : letter = '-'
    · subst hletter
      by_cases hletters : letters = []
      · subst hletters
        exact Or.inl (String.toList_inj.1 harg)
      · rw [step_ready_long harg hletters] at h
        exact Or.inr (Or.inr (takes_of_long harg h))
    · rw [step_ready_short harg hletter] at h
      exact Or.inr (Or.inr (takes_of_short hverb harg h))

end Draft

end Command

end ErasureDigest

import ErasureDigest.Proofs.Command.Words

/-!
# The command lines of `hash`

What a command line of `hash` looks like is described apart from its reader:
switches of the program, the word `hash`, and switches of `hash` with the
target among them (`HashLine`). Each switch stands at a command once at most,
in one word or two (`Series`). With the settings file that it names, also by a
variable, such a line is a call (`HashCall`).

The reader takes exactly the calls of `hash` for such
(`Invocation.ofArguments_eq_hash_iff`). In one direction
the description is followed word by word (`Draft.exists_ofHash_of_hashLine`).
In the other the reader is: it takes in switches until something else comes
(`Draft.exists_series`), and from no other command it comes back to `hash`
(`Draft.Astray.step`).
-/

namespace ErasureDigest

namespace Command

/-! ## What a command line looks like -/

/-- The words that write a switch with its value. A value that stands apart
does not look like a switch. -/
inductive Switch.Writes (switch : Switch) : (value : String) → List String → Prop
  | joined {value word : String} (hgives : switch.Gives value word) : Writes switch value [word]
  | apart {value word : String} (hasks : switch.Asks word)
    (hvalue : Draft.looksLikeSwitch value = false) : Writes switch value [word, value]

/-- Words that give switches to a command: those given before them and after
them, the last one first. -/
inductive Series (verb : Verb) : (before after : Given) → List String → Prop
  | nil {given : Given} : Series verb given given []
  | cons {before after : Given} {switch : Switch} {value : String} {words rest : List String}
    (hadmits : before.Admits verb switch value) (hwrites : switch.Writes value words)
    (hrest : Series verb ((switch, value) :: before) after rest) :
    Series verb before after (words ++ rest)

/-- A command line of `hash`: the switches given above it and those given to
it, and its target. A target that looks like a switch stands behind two dashes,
at the end. -/
inductive HashLine : List String → (above given : Given) → (target : String) → Prop
  | plain {above before given : Given} {target : String} {a b c closing : List String}
    (habove : Series .program [] above a) (hbefore : Series .hash [] before b)
    (htarget : Draft.looksLikeSwitch target = false) (hafter : Series .hash before given c)
    (hclosing : closing = [] ∨ closing = ["--"]) :
    HashLine (a ++ "hash" :: (b ++ target :: (c ++ closing))) above given target
  | literal {above given : Given} {target : String} {a b : List String}
    (habove : Series .program [] above a) (hgiven : Series .hash [] given b) :
    HashLine (a ++ "hash" :: (b ++ ["--", target])) above given target

/-- What the switches of `hash` name: each number as it is given, and nothing
that is not given. -/
structure Given.Names (given : Given) (flags : Layer) : Prop where
  segmentSize : flags.segmentSize?.map some = (given.lookup .segmentSize).map Numeral.parse?
  strategy : flags.strategy? = (given.lookup .serial).map fun _ => .serial
  dataShards : flags.dataShards?.map some = (given.lookup .dataShards).map Numeral.parse?
  parityShards : flags.parityShards?.map some = (given.lookup .parityShards).map Numeral.parse?

/-- **A call of `hash`**: a command line of it, with what its switches name. The
settings file is the one that is named at `hash`, else above it, else by the
variable, which may not be empty where a command names no file itself. -/
def HashCall (arguments : List String) (env : Environment) (path? : Option String)
    (target : String) (flags : Layer) (json : Bool) : Prop :=
  ∃ above given, HashLine arguments above given target ∧
    ¬ (env.value? Draft.settingsVariable = some "" ∧
      (given.lookup .config = none ∨ above.lookup .config = none)) ∧
    path? = ((given.lookup .config).or (above.lookup .config)).or
      (env.value? Draft.settingsVariable) ∧
    given.Names flags ∧ json = (given.lookup .json).isSome

namespace Draft

variable {verb : Verb} {given : Given} {outer : List Given} {operands : List String}
variable {draft draft' : Draft} {switch : Switch} {value text argument : String}

/-! ## Several words -/

/-- Words are taken in one after the other. -/
theorem foldlM_cons_eq_ok {words : List String} :
    (argument :: words).foldlM step draft = .ok draft' ↔
      ∃ next, draft.step argument = .ok next ∧ words.foldlM step next = .ok draft' := by
  rw [List.foldlM_cons, bind_eq_ok]

/-- Words that have been taken in are done with. -/
theorem foldlM_append_of_ok {words rest : List String}
    (h : words.foldlM step draft = .ok draft') :
    (words ++ rest).foldlM step draft = rest.foldlM step draft' := by
  rw [List.foldlM_append, h]
  rfl

/-- And so is one. -/
theorem foldlM_cons_of_ok {rest : List String} (h : draft.step argument = .ok draft') :
    (argument :: rest).foldlM step draft = rest.foldlM step draft' := by
  rw [List.foldlM_cons, h]
  rfl

/-- **The words that write switches give them.** -/
theorem foldlM_series {before after : Given} {words : List String}
    (h : Series verb before after words) :
    words.foldlM step (ready verb before outer operands) =
      .ok (ready verb after outer operands) := by
  induction h with
  | nil => rfl
  | @cons before after switch value words rest hadmits hwrites hrest ih =>
    cases hwrites with
    | joined hgives =>
      rw [List.singleton_append, foldlM_cons_of_ok (step_gives hadmits hgives)]
      exact ih
    | apart hasks hvalue =>
      have hgive : (waiting verb before outer operands switch).step value =
          .ok (ready verb ((switch, value) :: before) outer operands) := by
        rw [step_waiting hvalue]
        exact (give_eq_ok_iff hadmits.known).2 ⟨hadmits, rfl⟩
      rw [List.cons_append, List.singleton_append,
        foldlM_cons_of_ok (step_asks hadmits.known hasks), foldlM_cons_of_ok hgive]
      exact ih

/-- **Switches are taken in until something else comes**: the end, two dashes,
or a word that does not look like a switch. -/
theorem exists_series (hverb : verb = .program ∨ verb = .hash)
    (hawaiting : draft.awaiting? = none) : ∀ {before : Given} {words : List String},
      words.foldlM step (ready verb before outer operands) = .ok draft →
        ∃ switches rest after, words = switches ++ rest ∧ Series verb before after switches ∧
          rest.foldlM step (ready verb after outer operands) = .ok draft ∧
          (rest = [] ∨ (∃ more, rest = "--" :: more) ∨
            ∃ word more, rest = word :: more ∧ looksLikeSwitch word = false)
  | before, [], h => ⟨[], [], before, rfl, .nil, h, Or.inl rfl⟩
  | before, word :: words, h => by
    obtain ⟨next, hstep, hwords⟩ := foldlM_cons_eq_ok.1 h
    rcases step_ready_cases hverb hstep with rfl | hword | htakes
    · exact ⟨[], _, before, rfl, .nil, h, Or.inr (Or.inl ⟨words, rfl⟩)⟩
    · exact ⟨[], _, before, rfl, .nil, h, Or.inr (Or.inr ⟨word, words, rfl, hword⟩)⟩
    cases htakes with
    | gives hadmits hgives =>
      obtain ⟨switches, rest, after, rfl, hseries, hrest⟩ := exists_series hverb hawaiting hwords
      exact ⟨word :: switches, rest, after, rfl, .cons hadmits (.joined hgives) hseries, hrest⟩
    | @asks switch hknown hasks =>
      match words with
      | [] =>
        -- the value is still awaited
        cases hwords
        cases hawaiting
      | value :: words =>
        obtain ⟨next, hstep, hwords⟩ := foldlM_cons_eq_ok.1 hwords
        cases hvalue : looksLikeSwitch value with
        | true => simp [step, waiting, hvalue] at hstep
        | false =>
          rw [step_waiting hvalue] at hstep
          obtain ⟨hadmits, rfl⟩ := (give_eq_ok_iff hknown).1 hstep
          obtain ⟨switches, rest, after, rfl, hseries, hrest⟩ :=
            exists_series hverb hawaiting hwords
          exact ⟨word :: value :: switches, rest, after, rfl,
            .cons hadmits (.apart hasks hvalue) hseries, hrest⟩

/-- Behind two dashes every word is an operand, as far as there is room. -/
theorem foldlM_behind {words : List String}
    (h : words.foldlM step (behind verb given outer operands) = .ok draft) :
    draft = behind verb given outer (operands ++ words) ∧
      (words = [] ∨ (operands ++ words).length ≤ verb.room) := by
  induction words generalizing operands with
  | nil =>
    cases h
    rw [List.append_nil]
    exact ⟨rfl, Or.inl rfl⟩
  | cons word words ih =>
    obtain ⟨next, hstep, hwords⟩ := foldlM_cons_eq_ok.1 h
    rw [step_behind] at hstep
    split at hstep
    · next hroom =>
      cases hstep
      obtain ⟨hdraft, hlength⟩ := ih hwords
      rw [List.append_assoc, List.singleton_append] at hdraft hlength
      refine ⟨hdraft, Or.inr ?_⟩
      rcases hlength with rfl | hlength
      · rw [List.length_append, List.length_singleton]
        omega
      · exact hlength
    · cases hstep

/-! ## Commands other than `hash` -/

/-- A draft that is no longer on the way to `hash`. -/
def Astray (draft : Draft) : Prop :=
  draft.explaining = true ∨ draft.verb ≠ .program ∧ draft.verb ≠ .hash

theorem Astray.give (hastray : draft.Astray) (h : draft.give switch value = .ok draft') :
    draft'.Astray := by
  rw [Draft.give] at h
  split at h
  · cases h
  split at h
  · cases h
  split at h
  · cases h
  · cases h
    exact hastray

theorem Astray.operand (hastray : draft.Astray) (h : draft.operand text = .ok draft') :
    draft'.Astray := by
  rw [Draft.operand] at h
  split at h
  · cases h
    exact hastray
  · cases h

theorem Astray.long {chars : List Char} (hastray : draft.Astray)
    (h : draft.long chars = .ok draft') : draft'.Astray := by
  rw [Draft.long] at h
  split at h
  · cases h
  · split at h
    · cases h
      exact hastray
    · exact hastray.give h
    · exact hastray.give h
    · cases h

theorem Astray.short {letters : List Char} (hastray : draft.Astray)
    (h : draft.short letters = .ok draft') : draft'.Astray := by
  induction letters generalizing draft with
  | nil =>
    cases h
    exact hastray
  | cons letter rest ih =>
    rw [Draft.short] at h
    split at h
    · cases h
    · split at h
      · cases h
        exact hastray
      · exact hastray.give h
      · exact hastray.give h
      · split at h
        · next hgive => exact ih (hastray.give hgive) h
        · cases h

/-- No command but the program leads to `hash`. -/
theorem child?_ne_hash {child : Verb} (hverb : verb ≠ .program)
    (h : verb.child? text = some child) : child ≠ .program ∧ child ≠ .hash := by
  cases verb with
  | config =>
    simp only [Verb.child?] at h
    grind
  | program => exact absurd rfl hverb
  | hash | showSettings | showPath | init | help => cases h

theorem Astray.word (hastray : draft.Astray) (h : draft.word text = .ok draft') :
    draft'.Astray := by
  rw [Draft.word] at h
  split at h
  · cases h
    exact Or.inl rfl
  · next verb _ hchild =>
    cases h
    rcases hastray with hexplaining | hverb
    · exact Or.inl hexplaining
    · exact Or.inr (child?_ne_hash hverb.1 hchild)
  · exact hastray.operand h

/-- **No argument leads back to `hash`.** -/
theorem Astray.step (hastray : draft.Astray) (h : draft.step argument = .ok draft') :
    draft'.Astray := by
  rw [Draft.step] at h
  split at h
  · next hexplaining =>
    split at h
    · cases h
      exact Or.inl hexplaining
    · cases h
  split at h
  · split at h
    · cases h
    · exact hastray.give h
  split at h
  · exact hastray.operand h
  split at h
  · cases h
    exact hastray
  · exact hastray.long h
  · exact hastray.short h
  · exact hastray.word h

/-- And so it is with many. -/
theorem Astray.foldlM {words : List String} (hastray : draft.Astray)
    (h : words.foldlM Draft.step draft = .ok draft') : draft'.Astray := by
  induction words generalizing draft with
  | nil =>
    cases h
    exact hastray
  | cons word words ih =>
    obtain ⟨next, hstep, hwords⟩ := foldlM_cons_eq_ok.1 h
    exact ih (hastray.step hstep) hwords

/-! ## The command line of `hash` as a whole -/

/-- A draft of `hash` with a target. -/
def OfHash (above given : Given) (target : String) (draft : Draft) : Prop :=
  draft = ready .hash given [above] [target] ∨ draft = behind .hash given [above] [target]

section

variable {above : Given} {target : String} {arguments words : List String}

theorem step_hash (above : Given) :
    (ready .program above [] []).step "hash" = .ok (ready .hash [] [above] []) := by
  rw [step_ready_word (by decide)]
  rfl

theorem step_target (htarget : looksLikeSwitch target = false) :
    (ready .hash given [above] []).step target = .ok (ready .hash given [above] [target]) := by
  rw [step_ready_word htarget]
  rfl

/-- **A command line of `hash` is read as one.** -/
theorem exists_ofHash_of_hashLine (h : HashLine arguments above given target) :
    ∃ draft, arguments.foldlM step start = .ok draft ∧ OfHash above given target draft := by
  have hstart : start = ready .program [] [] [] := rfl
  cases h with
  | plain habove hbefore htarget hafter hclosing =>
    rw [hstart, foldlM_append_of_ok (foldlM_series habove), foldlM_cons_of_ok (step_hash above),
      foldlM_append_of_ok (foldlM_series hbefore), foldlM_cons_of_ok (step_target htarget),
      foldlM_append_of_ok (foldlM_series hafter)]
    rcases hclosing with rfl | rfl
    · exact ⟨_, rfl, Or.inl rfl⟩
    · exact ⟨_, rfl, Or.inr rfl⟩
  | literal habove hgiven =>
    rw [hstart, foldlM_append_of_ok (foldlM_series habove), foldlM_cons_of_ok (step_hash above),
      foldlM_append_of_ok (foldlM_series hgiven)]
    exact ⟨_, rfl, Or.inr rfl⟩

/-- A word of the program names `hash`, or leads astray. -/
theorem step_program_cases (hword : looksLikeSwitch text = false)
    (h : (ready .program above [] []).step text = .ok draft) :
    (text = "hash" ∧ draft = ready .hash [] [above] []) ∨ draft.Astray := by
  rw [step_ready_word hword] at h
  by_cases hhash : text = "hash"
  · subst hhash
    cases h
    exact Or.inl ⟨rfl, rfl⟩
  · right
    rw [word] at h
    split at h
    · cases h
      exact Or.inl rfl
    · next verb _ hchild =>
      cases h
      refine Or.inr ?_
      simp only [ready, Verb.child?, if_neg hhash] at hchild
      grind
    · cases h

/-- A word of `hash` is its target, and there is but one. -/
theorem step_hash_cases (hword : looksLikeSwitch text = false)
    (h : (ready .hash given [above] operands).step text = .ok draft) :
    operands = [] ∧ draft = ready .hash given [above] [text] := by
  rw [step_ready_word hword] at h
  cases operands with
  | nil =>
    cases h
    exact ⟨rfl, rfl⟩
  | cons first rest => cases h

/-- What comes behind the target. -/
theorem exists_closing (hawaiting : draft.awaiting? = none)
    (h : words.foldlM step (ready .hash given [above] [target]) = .ok draft) :
    ∃ c closing given', words = c ++ closing ∧ Series .hash given given' c ∧
      (closing = [] ∨ closing = ["--"]) ∧ OfHash above given' target draft := by
  obtain ⟨c, rest, given', rfl, hafter, hrest, rfl | ⟨more, rfl⟩ | ⟨word, more, rfl, hword⟩⟩ :=
    exists_series (Or.inr rfl) hawaiting h
  · cases hrest
    exact ⟨c, [], given', rfl, hafter, Or.inl rfl, Or.inl rfl⟩
  · rw [foldlM_cons_of_ok step_ready_dashes] at hrest
    obtain ⟨rfl, hmore⟩ := foldlM_behind hrest
    obtain rfl : more = [] := by
      rcases hmore with rfl | hroom
      · rfl
      · simpa [Verb.room] using hroom
    exact ⟨c, ["--"], given', rfl, hafter, Or.inr rfl, Or.inr rfl⟩
  · obtain ⟨next, hstep, -⟩ := foldlM_cons_eq_ok.1 hrest
    cases (step_hash_cases hword hstep).1

/-- What comes behind the word `hash`. -/
theorem exists_operand (hawaiting : draft.awaiting? = none) (hoperands : draft.operands = [target])
    (h : words.foldlM step (ready .hash [] [above] []) = .ok draft) :
    ∃ given, OfHash above given target draft ∧
      ∀ a, Series .program [] above a → HashLine (a ++ "hash" :: words) above given target := by
  obtain ⟨b, rest, before, rfl, hbefore, hrest, rfl | ⟨more, rfl⟩ | ⟨word, more, rfl, hword⟩⟩ :=
    exists_series (Or.inr rfl) hawaiting h
  · cases hrest
    cases hoperands
  · rw [foldlM_cons_of_ok step_ready_dashes] at hrest
    obtain ⟨rfl, -⟩ := foldlM_behind hrest
    cases hoperands
    exact ⟨before, Or.inr rfl, fun a habove => .literal habove hbefore⟩
  · obtain ⟨next, hstep, hmore⟩ := foldlM_cons_eq_ok.1 hrest
    obtain ⟨-, rfl⟩ := step_hash_cases hword hstep
    obtain ⟨c, closing, given, rfl, hafter, hclosing, hdraft⟩ := exists_closing hawaiting hmore
    obtain rfl : word = target := by
      rcases hdraft with rfl | rfl <;> cases hoperands <;> rfl
    exact ⟨given, hdraft, fun a habove => .plain habove hbefore hword hafter hclosing⟩

/-- **Nothing else is read as a call of `hash`.** -/
theorem exists_hashLine (hverb : draft.verb = .hash) (hexplaining : draft.explaining = false)
    (hawaiting : draft.awaiting? = none) (hoperands : draft.operands = [target])
    (h : arguments.foldlM step start = .ok draft) :
    ∃ above given, HashLine arguments above given target ∧ OfHash above given target draft := by
  have hnot : ¬ draft.Astray := by
    rintro (hastray | hastray)
    · rw [hexplaining] at hastray
      cases hastray
    · exact hastray.2 hverb
  have hstart : arguments.foldlM step (ready .program [] [] []) = .ok draft := h
  obtain ⟨a, rest, above, rfl, habove, hrest, rfl | ⟨more, rfl⟩ | ⟨word, more, rfl, hword⟩⟩ :=
    exists_series (Or.inl rfl) hawaiting hstart
  · cases hrest
    cases hverb
  · rw [foldlM_cons_of_ok step_ready_dashes] at hrest
    obtain ⟨rfl, -⟩ := foldlM_behind hrest
    cases hverb
  · obtain ⟨next, hstep, hmore⟩ := foldlM_cons_eq_ok.1 hrest
    rcases step_program_cases hword hstep with ⟨rfl, rfl⟩ | hastray
    · obtain ⟨given, hdraft, hline⟩ := exists_operand hawaiting hoperands hmore
      exact ⟨above, given, hline a habove, hdraft⟩
    · exact absurd (hastray.foldlM hmore) hnot

end

/-! ## What is asked for -/

section

variable {env : Environment} {path? : Option String} {target : String} {flags : Layer}
variable {json : Bool} {above : Given}

theorem request_eq_hash_iff : draft.request = .ok (.hash target flags json) ↔
    draft.verb = .hash ∧ draft.operands = [target] ∧ flags = draft.given.flags ∧
      json = (draft.given.lookup .json).isSome := by
  rw [request]
  split
  · next hverb hoperands => simp [hverb, hoperands, eq_comm]
  all_goals simp_all

theorem finish_eq_hash_iff : draft.finish env = .ok ⟨path?, .hash target flags json⟩ ↔
    draft.explaining = false ∧ draft.awaiting? = none ∧ draft.settingsPath? env = .ok path? ∧
      draft.request = .ok (.hash target flags json) := by
  rw [finish]
  split
  · next h => simp [h]
  split
  · next hawaiting => simp [Option.isSome_iff_ne_none.1 hawaiting]
  · next hexplaining hawaiting =>
    rw [Option.not_isSome_iff_eq_none] at hawaiting
    rw [Bool.not_eq_true] at hexplaining
    simp only [bind_eq_ok]
    constructor
    · rintro ⟨named, hpath, request, hrequest, h⟩
      cases h
      exact ⟨hexplaining, hawaiting, hpath, hrequest⟩
    · rintro ⟨-, -, hpath, hrequest⟩
      exact ⟨path?, hpath, _, hrequest, rfl⟩

/-- The settings file that a draft of `hash` names. -/
theorem settingsPath?_eq_ok_iff (hdraft : OfHash above given target draft) :
    draft.settingsPath? env = .ok path? ↔
      ¬ (env.value? settingsVariable = some "" ∧
        (given.lookup .config = none ∨ above.lookup .config = none)) ∧
      path? = ((given.lookup .config).or (above.lookup .config)).or
        (env.value? settingsVariable) := by
  obtain ⟨hgiven, houter⟩ : draft.given = given ∧ draft.outer = [above] := by
    rcases hdraft with rfl | rfl <;> exact ⟨rfl, rfl⟩
  rw [settingsPath?, hgiven, houter]
  cases hnamed : given.lookup .config <;> cases habove : above.lookup .config <;>
    by_cases hempty : env.value? settingsVariable = some "" <;>
    simp [hnamed, habove, hempty, eq_comm]

end

end Draft

section

variable {verb : Verb} {before after given : Given} {words : List String} {flags : Layer}

/-- The values of switches are all accepted. -/
theorem Series.accepts (h : Series verb before after words)
    (hbefore : ∀ switch value, before.lookup switch = some value → switch.accepts value = true) :
    ∀ switch value, after.lookup switch = some value → switch.accepts value = true := by
  induction h with
  | nil => exact hbefore
  | @cons before after switch value words rest hadmits hwrites hrest ih =>
    refine ih fun other text hlookup => ?_
    rw [List.lookup_cons] at hlookup
    split at hlookup
    · next hother =>
      cases hlookup
      rw [eq_of_beq hother]
      exact hadmits.usable
    · exact hbefore other text hlookup

/-- To name an accepted number is to hold what it is read as. -/
theorem map_some_eq_map_parse?_iff {number? : Option UInt64} {text? : Option String}
    (h : ∀ text, text? = some text → (Numeral.parse? text).isSome = true) :
    number?.map some = text?.map Numeral.parse? ↔ number? = text?.bind Numeral.parse? := by
  cases text? with
  | none => simp
  | some text =>
    obtain ⟨number, hnumber⟩ := Option.isSome_iff_exists.1 (h text rfl)
    simp [hnumber]

/-- What switches with accepted values name is what the reader takes from
them. -/
theorem Given.names_iff
    (h : ∀ switch value, given.lookup switch = some value → switch.accepts value = true) :
    given.Names flags ↔ flags = given.flags := by
  obtain ⟨size?, strategy?, data?, parity?⟩ := flags
  rw [Given.flags, Layer.mk.injEq, ← map_some_eq_map_parse?_iff (h .segmentSize),
    ← map_some_eq_map_parse?_iff (h .dataShards), ← map_some_eq_map_parse?_iff (h .parityShards)]
  exact ⟨fun ⟨hsize, hstrategy, hdata, hparity⟩ => ⟨hsize, hstrategy, hdata, hparity⟩,
    fun ⟨hsize, hstrategy, hdata, hparity⟩ => ⟨hsize, hstrategy, hdata, hparity⟩⟩

/-- The switches of a command line are accepted. -/
theorem HashLine.accepts {arguments : List String} {above : Given} {target : String}
    (h : HashLine arguments above given target) :
    ∀ switch value, given.lookup switch = some value → switch.accepts value = true := by
  cases h with
  | plain _ hbefore _ hafter _ => exact hafter.accepts (hbefore.accepts nofun)
  | literal _ hgiven => exact hgiven.accepts nofun

end

/-- **The calls of `hash` are read as such, and nothing else is.** -/
theorem Invocation.ofArguments_eq_hash_iff {arguments : List String} {env : Environment}
    {path? : Option String} {target : String} {flags : Layer} {json : Bool} :
    ofArguments arguments env = .ok ⟨path?, .hash target flags json⟩ ↔
      HashCall arguments env path? target flags json := by
  rw [ofArguments, bind_eq_ok]
  constructor
  · rintro ⟨draft, hread, hfinish⟩
    obtain ⟨hexplaining, hawaiting, hpath, hrequest⟩ := Draft.finish_eq_hash_iff.1 hfinish
    obtain ⟨hverb, hoperands, hflags, hjson⟩ := Draft.request_eq_hash_iff.1 hrequest
    obtain ⟨above, given, hline, hdraft⟩ :=
      Draft.exists_hashLine hverb hexplaining hawaiting hoperands hread
    obtain ⟨hvariable, hpath⟩ := (Draft.settingsPath?_eq_ok_iff hdraft).1 hpath
    obtain rfl : given = draft.given := by rcases hdraft with rfl | rfl <;> rfl
    exact ⟨above, draft.given, hline, hvariable, hpath,
      (Given.names_iff hline.accepts).2 hflags, hjson⟩
  · rintro ⟨above, given, hline, hvariable, hpath, hnames, hjson⟩
    obtain ⟨draft, hread, hdraft⟩ := Draft.exists_ofHash_of_hashLine hline
    have hsettings := (Draft.settingsPath?_eq_ok_iff hdraft).2 ⟨hvariable, hpath⟩
    have hflags := (Given.names_iff hline.accepts).1 hnames
    refine ⟨draft, hread, ?_⟩
    rw [Draft.finish_eq_hash_iff, Draft.request_eq_hash_iff]
    rcases hdraft with rfl | rfl
    · exact ⟨rfl, rfl, hsettings, rfl, rfl, hflags, hjson⟩
    · exact ⟨rfl, rfl, hsettings, rfl, rfl, hflags, hjson⟩

end Command

end ErasureDigest

import ErasureDigest.FileSystem

/-!
# Trees that grow

A place that a path names is a row of entries, each in the directory that the
one before names (`FileSystem.Leads`). So where a path leads depends on the
directories on the way alone: it leads the same way in every tree that still
has these (`FileSystem.exists_locate_of_keeps`).

Making directories adds new ones and changes nothing else
(`FileSystem.extends_createDirectories`). Files are read as before, and a path
that names a file then has named it before, unless it goes back by two dots
through a directory that was missing (`FileSystem.Extends.read_before`).
-/

namespace ErasureDigest

namespace FileSystem

variable {fs fs' : FileSystem} {place : Place} {names : List String} {path name : String}
variable {directory : Nat} {node : Node} {content : Bytes}

/-! ## Trees -/

/-- Every directory that is named is there, and the working directory is given
by names that lead down. -/
structure Sound (fs : FileSystem) : Prop where
  root : 0 < fs.directories.size
  named : ∀ directory name number, fs.lookIn? directory name = some (.directory number) →
    number < fs.directories.size
  workDir : ".." ∉ fs.workDir

/-- Every directory is where it was. -/
structure Keeps (fs fs' : FileSystem) : Prop where
  workDir : fs'.workDir = fs.workDir
  directory : ∀ directory name number, fs.lookIn? directory name = some (.directory number) →
    fs'.lookIn? directory name = some (.directory number)

/-- All is where it was, and what is new are directories with new numbers. -/
structure Extends (fs fs' : FileSystem) : Prop where
  workDir : fs'.workDir = fs.workDir
  size : fs.directories.size ≤ fs'.directories.size
  keeps : ∀ directory name node, fs.lookIn? directory name = some node →
    fs'.lookIn? directory name = some node
  adds : ∀ directory name node, fs'.lookIn? directory name = some node →
    fs.lookIn? directory name = some node ∨
      ∃ number, fs.directories.size ≤ number ∧ node = .directory number

namespace Extends

theorem refl (fs : FileSystem) : Extends fs fs where
  workDir := rfl
  size := Nat.le_refl _
  keeps _ _ _ h := h
  adds _ _ _ h := Or.inl h

theorem trans {fs'' : FileSystem} (h : Extends fs fs') (h' : Extends fs' fs'') :
    Extends fs fs'' where
  workDir := h'.workDir.trans h.workDir
  size := Nat.le_trans h.size h'.size
  keeps _ _ _ hnode := h'.keeps _ _ _ (h.keeps _ _ _ hnode)
  adds directory name node hnode := by
    rcases h'.adds directory name node hnode with hnode | ⟨number, hnumber, hnode⟩
    · exact h.adds directory name node hnode
    · exact Or.inr ⟨number, Nat.le_trans h.size hnumber, hnode⟩

theorem toKeeps (h : Extends fs fs') : Keeps fs fs' :=
  ⟨h.workDir, fun _ _ _ => h.keeps _ _ _⟩

end Extends

/-- An empty root, and nothing else. -/
theorem sound_empty {workDir : List String} (h : ".." ∉ workDir) : (empty workDir).Sound where
  root := Nat.one_pos
  named directory name number hnumber := by
    have hnone : (empty workDir).lookIn? directory name = none := by
      cases directory <;> rfl
    rw [hnone] at hnumber
    cases hnumber
  workDir := h

/-! ## Places -/

/-- A trail leads to something from the root: each entry stands in the directory
that the one before names. -/
def Leads (fs : FileSystem) : (trail : List (Nat × String)) → Option Node → Prop
  | [], node? => node? = some (.directory 0)
  | (directory, name) :: trail, node? =>
    node? = fs.lookIn? directory name ∧ fs.Leads trail (some (.directory directory))

/-- A directory that a trail leads to is there. -/
theorem Sound.lt_size (hsound : fs.Sound) {trail : List (Nat × String)}
    (h : fs.Leads trail (some (.directory directory))) : directory < fs.directories.size := by
  cases trail with
  | nil =>
    obtain rfl : directory = 0 := by simpa [Leads] using h
    exact hsound.root
  | cons entry trail => exact hsound.named _ _ _ h.1.symm

/-- Where nothing stands, or a file, there is a name in a directory. -/
theorem Leads.exists_cons {trail : List (Nat × String)} {node? : Option Node}
    (h : fs.Leads trail node?) (hnode : ∀ number, node? ≠ some (.directory number)) :
    ∃ directory name rest, trail = (directory, name) :: rest ∧
      fs.lookIn? directory name = node? ∧ fs.Leads rest (some (.directory directory)) := by
  cases trail with
  | nil => exact absurd h (hnode 0)
  | cons entry rest => exact ⟨entry.1, entry.2, rest, rfl, h.1.symm, h.2⟩

theorem leads_up (h : fs.Leads place.trail place.node?) :
    fs.Leads place.up.trail place.up.node? := by
  obtain ⟨trail, node?⟩ := place
  cases trail with
  | nil => exact h
  | cons entry trail => exact h.2

/-- Names lead from place to place. -/
theorem leads_walk {place' : Place} (h : fs.Leads place.trail place.node?)
    (hwalk : fs.walk place names = .ok place') : fs.Leads place'.trail place'.node? := by
  fun_induction walk fs place names with
  | case1 place =>
    obtain rfl := Except.ok.inj hwalk
    exact h
  | case2 | case3 | case6 => cases hwalk
  | case4 place rest directory hnode ih => exact ih h hwalk
  | case5 place rest directory hnode hname ih => exact ih (leads_up h) hwalk
  | case7 place name rest directory hnode hdot hdots hsize ih =>
    exact ih ⟨rfl, hnode ▸ h⟩ hwalk

/-- Names lead along the same trail wherever the directories on it are kept. -/
theorem exists_walk_of_keeps (h : Keeps fs fs') {start start' : Place}
    (htrail : start'.trail = start.trail)
    (hnode : ∀ number, start.node? = some (.directory number) →
      start'.node? = some (.directory number))
    (hwalk : fs.walk start names = .ok place) :
    ∃ node?, fs'.walk start' names = .ok ⟨place.trail, node?⟩ := by
  fun_induction walk fs start names generalizing start' with
  | case1 start =>
    obtain rfl := Except.ok.inj hwalk
    exact ⟨start'.node?, by rw [walk, ← htrail]⟩
  | case2 | case3 | case6 => cases hwalk
  | case4 start rest directory hdirectory ih =>
    obtain ⟨node?, hwalk'⟩ := ih htrail hnode hwalk
    refine ⟨node?, ?_⟩
    rw [walk, hnode _ hdirectory]
    simpa using hwalk'
  | case5 start rest directory hdirectory hname ih =>
    have hup : start'.up.trail = start.up.trail ∧
        ∀ number, start.up.node? = some (.directory number) →
          start'.up.node? = some (.directory number) := by
      obtain ⟨trail, node?⟩ := start
      obtain ⟨trail', node?'⟩ := start'
      obtain rfl : trail' = trail := htrail
      cases trail' with
      | nil => exact ⟨rfl, hnode⟩
      | cons entry trail => exact ⟨rfl, fun _ hnumber => hnumber⟩
    obtain ⟨node?, hwalk'⟩ := ih hup.1 hup.2 hwalk
    refine ⟨node?, ?_⟩
    rw [walk, hnode _ hdirectory]
    simpa using hwalk'
  | case7 start name rest directory hdirectory hdot hdots hsize ih =>
    have hbelow : (fs'.below start'.trail directory name).trail =
        (fs.below start.trail directory name).trail := congrArg ((directory, name) :: ·) htrail
    obtain ⟨node?, hwalk'⟩ := ih hbelow (h.directory directory name) hwalk
    refine ⟨node?, ?_⟩
    rw [walk, hnode _ hdirectory]
    simpa [hdot, hdots, hsize] using hwalk'

theorem follow_eq_ok_iff : fs.follow path names = .ok place ↔ Path.fault? path = none ∧
    fs.walk .root ((if Path.isAbsolute path then [] else fs.workDir) ++ names) = .ok place := by
  unfold follow
  cases Path.fault? path with
  | some fault => simp
  | none =>
    cases fs.walk .root ((if Path.isAbsolute path then [] else fs.workDir) ++ names) with
    | error fault => exact ⟨nofun, nofun⟩
    | ok found =>
      constructor
      · intro h
        exact ⟨rfl, congrArg Except.ok (Except.ok.inj h)⟩
      · rintro ⟨-, h⟩
        exact congrArg Except.ok (Except.ok.inj h)

theorem leads_follow (h : fs.follow path names = .ok place) :
    fs.Leads place.trail place.node? :=
  leads_walk (show fs.Leads Place.root.trail Place.root.node? from rfl) (follow_eq_ok_iff.1 h).2

/-- **A path leads the same way wherever directories are kept.** -/
theorem exists_locate_of_keeps (h : Keeps fs fs') (hlocate : fs.locate path = .ok place) :
    ∃ node?, fs'.locate path = .ok ⟨place.trail, node?⟩ ∧ fs'.Leads place.trail node? := by
  obtain ⟨hfault, hwalk⟩ := follow_eq_ok_iff.1 hlocate
  obtain ⟨node?, hwalk'⟩ :=
    exists_walk_of_keeps h (@rfl _ Place.root.trail) (fun _ hnumber => hnumber) hwalk
  rw [← h.workDir] at hwalk'
  have hlocate' : fs'.locate path = _ := follow_eq_ok_iff.2 ⟨hfault, hwalk'⟩
  exact ⟨node?, hlocate', leads_follow hlocate'⟩

/-! ## Making directories -/

/-- An empty directory that has no name yet changes nothing. -/
theorem lookIn?_push (fs : FileSystem) (directory : Nat) (name : String) :
    ({ fs with directories := fs.directories.push [] } : FileSystem).lookIn? directory name =
      fs.lookIn? directory name := by
  simp only [lookIn?, Array.getElem?_push]
  split
  · next h => simp [h]
  · rfl

/-- A directory made where nothing stands. -/
theorem lookIn?_putDirectory (hsound : fs.Sound) {trail : List (Nat × String)}
    {node? : Option Node} (hleads : fs.Leads trail (some (.directory directory)))
    (other : Nat) (otherName : String) :
    (fs.putDirectory path ⟨(directory, name) :: trail, node?⟩).lookIn? other otherName =
      if other = directory ∧ otherName = name then some (.directory fs.directories.size)
      else fs.lookIn? other otherName := by
  have hlt := hsound.lt_size hleads
  rw [putDirectory, lookIn?_put (by simp; omega), lookIn?_push]

theorem size_put (fs : FileSystem) (path : String) (place : Place) (node : Node) :
    (fs.put path place node).directories.size = fs.directories.size := by
  unfold put
  split
  · rfl
  · simp

theorem workDir_put (fs : FileSystem) (path : String) (place : Place) (node : Node) :
    (fs.put path place node).workDir = fs.workDir := by
  unfold put
  split <;> rfl

section CreateDirectory

variable (hsound : fs.Sound)
include hsound

theorem extends_putDirectory (hleads : fs.Leads place.trail place.node?)
    (hnone : place.node? = none) :
    Extends fs (fs.putDirectory path place) ∧ (fs.putDirectory path place).Sound := by
  obtain ⟨trail, node?⟩ := place
  obtain rfl : node? = none := hnone
  obtain ⟨directory, name, rest, rfl, hfree, hrest⟩ := hleads.exists_cons nofun
  have hlookIn? := @lookIn?_putDirectory _ path name directory hsound rest none hrest
  have hsize : (fs.putDirectory path ⟨(directory, name) :: rest, none⟩).directories.size =
      fs.directories.size + 1 := by simp [putDirectory, size_put]
  refine ⟨⟨workDir_put .., by omega, ?_, ?_⟩, ⟨by omega, ?_, ?_⟩⟩
  · intro other otherName node hnode
    rw [hlookIn?, if_neg, hnode]
    rintro ⟨rfl, rfl⟩
    rw [hfree] at hnode
    cases hnode
  · intro other otherName node hnode
    rw [hlookIn?] at hnode
    split at hnode
    · exact Or.inr ⟨_, Nat.le_refl _, (Option.some.inj hnode).symm⟩
    · exact Or.inl hnode
  · intro other otherName number hnumber
    rw [hlookIn?] at hnumber
    split at hnumber
    · obtain rfl : fs.directories.size = number := by simpa using hnumber
      omega
    · have := hsound.named _ _ _ hnumber
      omega
  · rw [putDirectory, workDir_put]
    exact hsound.workDir

theorem extends_createDirectory (h : fs.createDirectory path = .ok fs') :
    Extends fs fs' ∧ fs'.Sound := by
  unfold createDirectory at h
  cases hfollow : fs.follow path (Path.names path) with
  | error fault => simp [hfollow, bind, Except.bind] at h
  | ok place =>
    cases hnode : place.node? with
    | some node => simp [hfollow, hnode, bind, Except.bind] at h
    | none =>
      obtain rfl : fs.putDirectory path place = fs' := by
        simpa [hfollow, hnode, bind, Except.bind, pure, Except.pure] using h
      exact extends_putDirectory hsound (leads_follow hfollow) hnode

/-- Making the directories of a path, as far as it succeeds. -/
theorem extends_createAll (lengths : List Nat) :
    Extends fs (fs.createAll path lengths).2 ∧ (fs.createAll path lengths).2.Sound := by
  have hstay : Extends fs fs ∧ fs.Sound := ⟨.refl fs, hsound⟩
  induction lengths with
  | nil => exact hstay
  | cons length holders ih =>
    rw [createAll]
    split
    · exact hstay
    · split
      · next hmade => exact extends_createDirectory hsound hmade
      · obtain ⟨hextends, hsound'⟩ := ih
        split
        · next hmade =>
          rw [hmade] at hextends hsound'
          exact ⟨hextends, hsound'⟩
        · next fs' hmade =>
          rw [hmade] at hextends hsound'
          split
          · next fs'' hmade' =>
            obtain ⟨hextends', hsound''⟩ := extends_createDirectory hsound' hmade'
            exact ⟨hextends.trans hextends', hsound''⟩
          · exact ⟨hextends, hsound'⟩
      · exact hstay

/-- **Making directories adds directories and changes nothing else.** -/
theorem extends_createDirectories (path : String) :
    Extends fs (fs.createDirectories path).2 ∧ (fs.createDirectories path).2.Sound :=
  extends_createAll hsound _

end CreateDirectory

/-! ## Files -/

/-- A path that names a file leads to a name in a directory. -/
theorem read_eq_ok_iff : fs.read path = .ok content ↔
    ∃ place, fs.locate path = .ok place ∧ place.node? = some (.file content) := by
  unfold read lookup
  cases fs.locate path with
  | error fault => simp [bind, Except.bind]
  | ok place =>
    obtain ⟨trail, node?⟩ := place
    cases node? with
    | none => simp [bind, Except.bind]
    | some node => cases node <;> simp [bind, Except.bind, pure, Except.pure]

theorem exists_of_read (h : fs.read path = .ok content) : fs.exists? path = true := by
  unfold exists?
  unfold read at h
  cases hlookup : fs.lookup path with
  | error fault => simp [hlookup] at h
  | ok node => rfl

/-- Every path that named a file names one with the same content. -/
def KeepsFiles (fs fs' : FileSystem) : Prop :=
  ∀ path content, fs.read path = .ok content → fs'.read path = .ok content

theorem KeepsFiles.refl (fs : FileSystem) : KeepsFiles fs fs :=
  fun _ _ hread => hread

theorem KeepsFiles.trans {fs'' : FileSystem} (h : KeepsFiles fs fs') (h' : KeepsFiles fs' fs'') :
    KeepsFiles fs fs'' :=
  fun path content hread => h' path content (h path content hread)

/-- Files that are kept are read as before where directories are kept as well. -/
theorem Keeps.keepsFiles (h : Keeps fs fs')
    (hfiles : ∀ directory name content, fs.lookIn? directory name = some (.file content) →
      fs'.lookIn? directory name = some (.file content)) : KeepsFiles fs fs' := by
  intro path content hread
  obtain ⟨⟨trail, node?⟩, hlocate, hnode⟩ := read_eq_ok_iff.1 hread
  obtain rfl : node? = some (.file content) := hnode
  obtain ⟨node?', hlocate', hleads'⟩ := exists_locate_of_keeps h hlocate
  obtain ⟨directory, name, rest, rfl, hlookIn?, -⟩ := (leads_follow hlocate).exists_cons nofun
  exact read_eq_ok_iff.2 ⟨_, hlocate', hleads'.1.trans (hfiles _ _ _ hlookIn?)⟩

theorem Extends.keepsFiles (h : Extends fs fs') : KeepsFiles fs fs' :=
  h.toKeeps.keepsFiles fun _ _ _ => h.keeps _ _ _

/-- Nothing, or a directory that was not there before. -/
def IsNew (fs : FileSystem) (node? : Option Node) : Prop :=
  node? = none ∨ ∃ number, fs.directories.size ≤ number ∧ node? = some (.directory number)

theorem not_isNew_file : ¬ fs.IsNew (some (.file content)) := by
  rintro (h | ⟨number, -, h⟩) <;> cases h

namespace Extends

/-- What a directory holds now it has held before, unless it is new. -/
theorem lookIn?_or (h : Extends fs fs') (directory : Nat) (name : String) :
    fs'.lookIn? directory name = fs.lookIn? directory name ∨
      fs.IsNew (fs'.lookIn? directory name) := by
  cases hnode : fs'.lookIn? directory name with
  | none => exact Or.inr (Or.inl rfl)
  | some node =>
    rcases h.adds _ _ _ hnode with hnode | ⟨number, hnumber, rfl⟩
    · exact Or.inl hnode.symm
    · exact Or.inr (Or.inr ⟨number, hnumber, rfl⟩)

/-- In a new directory all is new. -/
theorem isNew_lookIn? (h : Extends fs fs') (hnew : fs.directories.size ≤ directory)
    (name : String) : fs.IsNew (fs'.lookIn? directory name) := by
  rcases h.lookIn?_or directory name with hsame | hnew'
  · refine Or.inl (hsame.trans ?_)
    rw [lookIn?, Array.getElem?_eq_none hnew]
    rfl
  · exact hnew'

/-- What is new leads to new things alone, but for going back. -/
theorem isNew_walk (h : Extends fs fs') {start : Place} (hdots : ".." ∉ names)
    (hstart : fs.IsNew start.node?) (hwalk : fs'.walk start names = .ok place) :
    fs.IsNew place.node? := by
  fun_induction walk fs' start names with
  | case1 start =>
    obtain rfl := Except.ok.inj hwalk
    exact hstart
  | case2 | case3 | case6 => cases hwalk
  | case4 start rest directory hnode ih =>
    exact ih (fun hmem => hdots (List.mem_cons_of_mem _ hmem)) hstart hwalk
  | case5 => exact absurd List.mem_cons_self hdots
  | case7 start name rest directory hnode hdot hname hsize ih =>
    refine ih (fun hmem => hdots (List.mem_cons_of_mem _ hmem)) ?_ hwalk
    rcases hstart with hnone | ⟨number, hnumber, hdirectory⟩
    · rw [hnone] at hnode
      cases hnode
    · obtain rfl : number = directory := by simpa [hdirectory] using hnode
      exact h.isNew_lookIn? hnumber name

/-- Names that lead to what is not new have led there before. -/
theorem walk_of_not_isNew (h : Extends fs fs') {start : Place} (hdots : ".." ∉ names)
    (hwalk : fs'.walk start names = .ok place) (hplace : ¬ fs.IsNew place.node?) :
    fs.walk start names = .ok place := by
  fun_induction walk fs' start names with
  | case1 start => exact hwalk
  | case2 | case3 | case6 => cases hwalk
  | case4 start rest directory hnode ih =>
    have hrest := ih (fun hmem => hdots (List.mem_cons_of_mem _ hmem)) hwalk
    rw [walk, hnode]
    simpa using hrest
  | case5 => exact absurd List.mem_cons_self hdots
  | case7 start name rest directory hnode hdot hname hsize ih =>
    have hdots' : ".." ∉ rest := fun hmem => hdots (List.mem_cons_of_mem _ hmem)
    have hrest := ih hdots' hwalk
    have hsame : fs'.lookIn? directory name = fs.lookIn? directory name :=
      (h.lookIn?_or directory name).resolve_right fun hnew =>
        hplace (h.isNew_walk hdots' hnew hwalk)
    rw [below, hsame] at hrest
    rw [walk, hnode]
    simpa [hdot, hname, hsize, below] using hrest

/-- **A file that a path names now it has named before**, unless the path goes
back by two dots. -/
theorem read_before (h : Extends fs fs') (hsound : fs.Sound)
    (hdots : ".." ∉ Path.names path) (hread : fs'.read path = .ok content) :
    fs.read path = .ok content := by
  obtain ⟨place, hlocate, hnode⟩ := read_eq_ok_iff.1 hread
  obtain ⟨hfault, hwalk⟩ := follow_eq_ok_iff.1 hlocate
  rw [h.workDir] at hwalk
  have hnames : ".." ∉ (if Path.isAbsolute path then [] else fs.workDir) ++
      (Path.names path ++ if Path.endsWithSlash path then ["."] else []) := by
    simp only [List.mem_append, not_or]
    refine ⟨?_, hdots, ?_⟩
    · split
      · exact List.not_mem_nil
      · exact hsound.workDir
    · split <;> simp
  have hold : ¬ fs.IsNew place.node? := by
    rw [hnode]
    exact not_isNew_file
  have hlocate' : fs.locate path = _ :=
    follow_eq_ok_iff.2 ⟨hfault, h.walk_of_not_isNew hnames hwalk hold⟩
  exact read_eq_ok_iff.2 ⟨place, hlocate', hnode⟩

end Extends

end FileSystem

end ErasureDigest

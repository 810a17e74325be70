import ErasureDigest.Proofs.FileSystem.Growth

/-!
# Files that are written

Writing puts content at one name (`FileSystem.lookIn?_write`). The path still
leads there afterwards, so that it is read back (`FileSystem.read_write`), and
where the path names no file all files are kept (`FileSystem.keepsFiles_write`).
-/

namespace ErasureDigest

/-- What is written as text is read as that text. -/
theorem Bytes.utf8?_ofText (text : String) : utf8? (ofText text) = some text := by
  have hbytes : (⟨text.toUTF8.data.toList.toArray⟩ : ByteArray) = text.toUTF8 := by simp
  rw [utf8?, ofText, hbytes]
  exact dif_pos text.isValidUTF8

namespace FileSystem

variable {fs fs' : FileSystem} {path : String} {content : Bytes}

/-- A path that can be written leads to a name that stands for no directory. -/
theorem exists_of_write (h : fs.write path content = .ok fs') :
    ∃ directory name rest node?, fs.locate path = .ok ⟨(directory, name) :: rest, node?⟩ ∧
      (∀ number, node? ≠ some (.directory number)) ∧
      fs' = fs.put path ⟨(directory, name) :: rest, node?⟩ (.file content) := by
  unfold write at h
  split at h
  · cases hfollow : fs.follow path ((Path.names path).dropLast ++ ["."]) <;>
      simp [hfollow, bind, Except.bind] at h
  · cases hlocate : fs.locate path with
    | error fault => simp [hlocate, bind, Except.bind] at h
    | ok place =>
      obtain ⟨trail, node?⟩ := place
      have hnode : ∀ number, node? ≠ some (.directory number) := by
        rintro number rfl
        simp [hlocate, bind, Except.bind] at h
      obtain rfl : fs.put path ⟨trail, node?⟩ (.file content) = fs' := by
        cases node? with
        | none => simpa [hlocate, bind, Except.bind, pure, Except.pure] using h
        | some node =>
          cases node with
          | directory number => exact absurd rfl (hnode number)
          | file earlier => simpa [hlocate, bind, Except.bind, pure, Except.pure] using h
      obtain ⟨directory, name, rest, rfl, -, -⟩ := (leads_follow hlocate).exists_cons hnode
      exact ⟨directory, name, rest, node?, rfl, hnode, rfl⟩

section Write

variable (hsound : fs.Sound) (h : fs.write path content = .ok fs')
include hsound h

/-- **Writing puts the content at one name**, which stood for no directory. -/
theorem lookIn?_write : ∃ directory name rest node?,
    fs.locate path = .ok ⟨(directory, name) :: rest, node?⟩ ∧
      fs.lookIn? directory name = node? ∧ (∀ number, node? ≠ some (.directory number)) ∧
      ∀ other otherName, fs'.lookIn? other otherName =
        if other = directory ∧ otherName = name then some (.file content)
        else fs.lookIn? other otherName := by
  obtain ⟨directory, name, rest, node?, hlocate, hnode, rfl⟩ := exists_of_write h
  obtain ⟨hlookIn?, hrest⟩ := leads_follow hlocate
  exact ⟨directory, name, rest, node?, hlocate, hlookIn?.symm, hnode, fun other otherName =>
    lookIn?_put (hsound.lt_size hrest)⟩

theorem keeps_write : Keeps fs fs' := by
  obtain ⟨directory, name, rest, node?, -, hnode, hnone, hlookIn?⟩ := lookIn?_write hsound h
  constructor
  · obtain ⟨_, _, _, _, -, -, rfl⟩ := exists_of_write h
    exact workDir_put ..
  · intro other otherName number hother
    rw [hlookIn?, if_neg, hother]
    rintro ⟨rfl, rfl⟩
    exact hnone number (hnode.symm.trans hother)

theorem sound_write : fs'.Sound := by
  obtain ⟨directory, name, rest, node?, -, -, -, hlookIn?⟩ := lookIn?_write hsound h
  obtain ⟨_, _, _, _, -, -, rfl⟩ := exists_of_write h
  refine ⟨by rw [size_put]; exact hsound.root, fun other otherName number hother => ?_, ?_⟩
  · rw [size_put]
    rw [hlookIn?] at hother
    split at hother
    · cases hother
    · exact hsound.named _ _ _ hother
  · rw [workDir_put]
    exact hsound.workDir

/-- **What has been written is read.** -/
theorem read_write : fs'.read path = .ok content := by
  obtain ⟨directory, name, rest, node?, hlocate, -, -, hlookIn?⟩ := lookIn?_write hsound h
  obtain ⟨node?', hlocate', hleads'⟩ := exists_locate_of_keeps (keeps_write hsound h) hlocate
  refine read_eq_ok_iff.2 ⟨_, hlocate', hleads'.1.trans ?_⟩
  rw [hlookIn?, if_pos ⟨rfl, rfl⟩]

/-- **Where the path named no file, no file is lost.** -/
theorem keepsFiles_write (hfree : ∀ earlier, fs.read path ≠ .ok earlier) : KeepsFiles fs fs' := by
  obtain ⟨directory, name, rest, node?, hlocate, hnode, -, hlookIn?⟩ := lookIn?_write hsound h
  refine (keeps_write hsound h).keepsFiles fun other otherName earlier hearlier => ?_
  rw [hlookIn?, if_neg, hearlier]
  rintro ⟨rfl, rfl⟩
  exact hfree earlier (read_eq_ok_iff.2 ⟨_, hlocate, hnode.symm.trans hearlier⟩)

end Write

end FileSystem

end ErasureDigest

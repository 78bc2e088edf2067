import Buenos.Fs.Vfs.Model

/-!
# Volume and path in one name

`vfs_parse_pathname` on the full name of a file, `[volume]path`.

* `fullName` — the full name.
* `parseVolume_append`, `vfsParsePathname_fullName` — what the parser makes of a full name.
* `MountName` — the names that `vfs_mount` stores as they are.

Principal result: `parse_fullName`, the names of `sfs` files that the parser takes apart.
-/

namespace Buenos.Vfs

open Buenos.Fs (sfsIsValidPath)

/-- Maximum length of the full name of a file, including mountpoint and directories. -/
def VFS_PATH_LENGTH : ℕ := 256

/-- `[volume]path`. -/
def fullName (volume path : Str) : Str := 91 :: (volume ++ 93 :: path)

section Parse

variable {volume path : Str} {i : ℕ}

/-- The loop over the volume name finds the `]` if it is reached before the buffer is full. -/
theorem parseVolume_append (hclosed : 93 ∉ volume) :
    parseVolume i (volume ++ 93 :: path) =
      if i + volume.length < VFS_NAME_LENGTH - 1 then some (volume, path) else none := by
  induction volume generalizing i with
  | nil =>
    rw [List.nil_append, parseVolume, List.length_nil, Nat.add_zero, if_pos rfl]
    split
    · rw [if_neg (by omega)]
    · rw [if_pos (by omega)]
  | cons c volume ih =>
    obtain ⟨hc, hrest⟩ := List.ne_and_not_mem_of_not_mem_cons hclosed
    rw [List.cons_append, parseVolume, if_neg hc.symm, ih hrest, List.length_cons, Nat.add_right_comm]
    split
    · rename_i hfull
      rw [if_neg (by omega)]
    · split
      · rw [if_pos (by omega)]
        rfl
      · rw [if_neg (by omega)]
        rfl

/-- **`vfs_parse_pathname` of a full name.** -/
theorem vfsParsePathname_fullName (hclosed : 93 ∉ volume) :
    vfsParsePathname (fullName volume path) =
      if volume.length < VFS_NAME_LENGTH - 1 ∧ path ≠ [] ∧ path.length < VFS_NAME_LENGTH then
        some (volume, path)
      else none := by
  unfold vfsParsePathname fullName
  simp only [parseVolume_append hclosed, Nat.zero_add]
  by_cases hshort : volume.length < VFS_NAME_LENGTH - 1
  · rw [if_pos hshort]
    by_cases hfits : path = [] ∨ VFS_NAME_LENGTH ≤ path.length
    · rw [if_neg fun h => hfits.elim h.2.1 (not_le.2 h.2.2)]
      exact if_pos hfits
    · obtain ⟨hne, hlen⟩ := not_or.1 hfits
      rw [if_pos ⟨hshort, hne, not_le.1 hlen⟩]
      exact if_neg hfits
  · rw [if_neg hshort, if_neg fun h => hshort h.1]

theorem parseVolume_length {r : Str × Str} {rest : Str} (h : parseVolume i rest = some r) :
    rest.length = r.1.length + r.2.length + 1 ∧ i + r.1.length < VFS_NAME_LENGTH - 1 := by
  induction rest generalizing i r with
  | nil => cases h
  | cons c rest ih =>
    rw [parseVolume] at h
    split at h
    · cases h
    · rename_i hi
      split at h
      · cases h
        exact ⟨by simp, not_le.1 hi⟩
      · obtain ⟨r', hr', rfl⟩ := Option.map_eq_some_iff.1 h
        obtain ⟨hlen, hlt⟩ := ih hr'
        simp only [List.length_cons]
        omega

/-- The parser takes names of 31 characters at most. -/
theorem vfsParsePathname_length {pathname : Str} (h : (vfsParsePathname pathname).isSome = true) :
    pathname.length ≤ 31 := by
  unfold vfsParsePathname at h
  split at h
  · rename_i rest
    cases hvolume : parseVolume 0 rest with
    | none =>
      rw [hvolume] at h
      cases h
    | some r =>
      obtain ⟨hlen, hlt⟩ := parseVolume_length hvolume
      simp only [hvolume] at h
      split at h
      · cases h
      · rename_i hfits
        have hfile := (not_or.1 hfits).2
        unfold VFS_NAME_LENGTH at hlt hfile
        rw [List.length_cons]
        omega
  · simp only at h
    split at h
    · cases h
    · rename_i hfits
      have hfile := (not_or.1 hfits).2
      unfold VFS_NAME_LENGTH at hfile
      omega

/-- The names that `vfs_mount` stores without truncation, without a closing bracket. -/
structure MountName (name : Str) : Prop where
  nonempty : name ≠ []
  stored : stringcopy name VFS_NAME_LENGTH = name
  closed : 93 ∉ name

/-- These are the names of 1 to 15 characters. -/
theorem mountName_iff {name : Str} :
    MountName name ↔ 1 ≤ name.length ∧ name.length ≤ 15 ∧ 93 ∉ name := by
  have hpos : 1 ≤ name.length ↔ name ≠ [] := List.length_pos_iff
  have hstored : name.length ≤ 15 ↔ stringcopy name VFS_NAME_LENGTH = name := by
    refine ⟨fun h => List.take_of_length_le h, fun h => ?_⟩
    rw [← h, stringcopy, List.length_take]
    exact min_le_left _ _
  rw [hpos, hstored]
  exact ⟨fun h => ⟨h.nonempty, h.stored, h.closed⟩, fun h => ⟨h.1, h.2.1, h.2.2⟩⟩

/-- **Which files of a volume have a full name that the parser takes apart**: the volume name is one
character shorter than a mount point may be, and the whole path fits into the buffer of a file name. -/
theorem parse_fullName (hvolume : MountName volume) (hpath : sfsIsValidPath path = true)
    (hlength : (fullName volume path).length ≤ VFS_PATH_LENGTH) :
    vfsParsePathname (fullName volume path) = some (volume, path) ↔
      volume.length ≤ 14 ∧ path.length ≤ 15 := by
  have hne : path ≠ [] := by
    rintro rfl
    cases hpath
  rw [vfsParsePathname_fullName hvolume.closed]
  have hiff : (volume.length < VFS_NAME_LENGTH - 1 ∧ path ≠ [] ∧ path.length < VFS_NAME_LENGTH) ↔
      volume.length ≤ 14 ∧ path.length ≤ 15 := by
    unfold VFS_NAME_LENGTH
    refine ⟨fun h => ⟨by omega, by omega⟩, fun h => ⟨by omega, hne, by omega⟩⟩
  rw [← hiff]
  split
  · rename_i h
    exact iff_of_true rfl h
  · rename_i h
    exact iff_of_false (fun heq => by cases heq) h

end Parse

/-- `[arkimedes]/a/b`. -/
theorem parse_fullName_arkimedes :
    vfsParsePathname (fullName [97, 114, 107, 105, 109, 101, 100, 101, 115] [47, 97, 47, 98]) =
      some ([97, 114, 107, 105, 109, 101, 100, 101, 115], [47, 97, 47, 98]) :=
  (parse_fullName ⟨by decide, by decide, by decide⟩ (by decide) (by decide)).2 ⟨by decide, by decide⟩

/-- A mount point of 15 characters, and `/directory/file1` on a volume with a short name. -/
theorem parse_fullName_fails :
    (MountName [118, 111, 108, 117, 109, 101, 45, 49, 53, 45, 99, 104, 97, 114, 115] ∧
      sfsIsValidPath [47, 97] = true ∧
      (fullName [118, 111, 108, 117, 109, 101, 45, 49, 53, 45, 99, 104, 97, 114, 115] [47, 97]).length ≤
        VFS_PATH_LENGTH ∧
      vfsParsePathname
        (fullName [118, 111, 108, 117, 109, 101, 45, 49, 53, 45, 99, 104, 97, 114, 115] [47, 97]) = none) ∧
    MountName [118] ∧
      sfsIsValidPath [47, 100, 105, 114, 101, 99, 116, 111, 114, 121, 47, 102, 105, 108, 101, 49] = true ∧
      (fullName [118] [47, 100, 105, 114, 101, 99, 116, 111, 114, 121, 47, 102, 105, 108, 101, 49]).length ≤
        VFS_PATH_LENGTH ∧
      vfsParsePathname
        (fullName [118] [47, 100, 105, 114, 101, 99, 116, 111, 114, 121, 47, 102, 105, 108, 101, 49]) = none :=
  ⟨⟨⟨by decide, by decide, by decide⟩, by decide, by decide, by decide⟩, ⟨by decide, by decide, by decide⟩,
    by decide, by decide, by decide⟩

end Buenos.Vfs

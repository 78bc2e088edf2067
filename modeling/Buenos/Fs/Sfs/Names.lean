import Buenos.Base.NameTree
import Buenos.Fs.Sfs.Refinement

/-!
# What paths lead to

* `FileSystem.Tree` — the nodes of a filesystem form a tree of names.
* `Renames` — what a call does to what all paths lead to; `FileSystem.Step.renames` shows it for the
  steps of a filesystem.

Principal result: `sfs_names`.  After every run a successful creation adds its path and no other, a
successful removal takes away exactly the paths that begin with the removed one, and every other call
leaves all paths as they are.
-/

namespace Buenos.Fs

open Bytes BlockProgram Ownership NameTree

/-- **What a call does to all paths**, `find` being what they lead to before and `find'` after it. -/
def Renames (find find' : List UInt8 → ℤ) (c : Call) (r : Reply) : Prop :=
  match c with
  | .create path _ =>
    if r.value = VFS_OK then
      find path = VFS_ERROR ∧ ∃ f : ℕ, ∀ q, find' q = if q = path then (f : ℤ) else find q
    else find' = find
  | .remove path =>
    if r.value = VFS_OK then
      find path ≠ VFS_ERROR ∧ ∀ q, find' q =
        if pathElems path.tail <+: pathElems q.tail then VFS_ERROR else find q
    else find' = find
  | _ => find' = find

/-! ## The filesystem -/

/-- What a path leads to, as path resolution answers. -/
def FileSystem.find (fs : FileSystem) (path : List UInt8) : ℤ := foundBlock (fs.lookup path)

/-- The nodes form a tree of names; what has a name exists and has not been removed. -/
structure FileSystem.Tree (fs : FileSystem) : Prop where
  rooted : Rooted fs.child SFS_DIRECTORY_BLOCK
  nodes : ∀ {f}, Reaches fs.child SFS_DIRECTORY_BLOCK f → ∃ nd, fs.node f = some nd ∧ nd.removed = false

namespace FileSystem

variable {fs fs' : FileSystem} {path : List UInt8} {d f : ℕ} {name : List UInt8} {nd nd' : Node}

/-- Folders that name the same lead every path to the same node. -/
theorem find_congr (h : ∀ d name, Reaches fs.child SFS_DIRECTORY_BLOCK d → fs'.child d name = fs.child d name) :
    fs'.find = fs.find := by
  funext path
  unfold find lookup
  split
  · rw [walk_congr h]
  · rfl

/-- A node with the same contents names the same. -/
theorem child_set (hn : fs.node f = some nd) (hc : nd'.content = nd.content) (d : ℕ) (name : List UInt8) :
    (fs.set f nd').child d name = fs.child d name := by
  apply child_congr
  apply entries_congr
  rw [node_set]
  split
  · rename_i hd
    rw [hd, hn, Option.map_some, Option.map_some, hc]
  · rfl

/-- The names of a changed folder. -/
theorem child_modify {es : Entries} (hd : fs.entries d = some es) (change : Entries → Entries) (i : ℕ)
    (m : List UInt8) :
    (fs.modify d change).child i m = if i = d then (change es).lookup m else fs.child i m := by
  obtain ⟨nd, hn, hc⟩ := entries_some.1 hd
  split
  · rename_i hid
    subst hid
    have he : (fs.modify i change).entries i = some (change es) :=
      entries_some.2 ⟨_, (node_modify hn hc change i).trans (if_pos rfl), rfl⟩
    rw [child, he, Option.bind_some]
  · rename_i hid
    apply child_congr
    apply entries_congr
    rw [node_modify_ne hid]

/-- A node that is gone names nothing. -/
theorem child_drop (i : ℕ) (m : List UInt8) :
    (fs.drop f nd).child i m = if i = f then none else fs.child i m := by
  split
  · rename_i hif
    have he : (fs.drop f nd).entries i = none := by
      rw [Option.eq_none_iff_forall_not_mem]
      intro es hes
      obtain ⟨x, hx, -⟩ := entries_some.1 hes
      rw [node_drop, if_pos hif] at hx
      cases hx
    rw [child, he, Option.bind_none]
  · rename_i hif
    apply child_congr
    apply entries_congr
    rw [node_drop, if_neg hif]

theorem child_some (h : fs.child d name = some f) : ∃ es, fs.entries d = some es ∧ es.lookup name = some f := by
  rw [child, Option.bind_eq_some_iff] at h
  exact h

/-- The walk to the last element of a path. -/
theorem Place.lookup (h : fs.Place path d name) : fs.lookup path = fs.child d name := by
  obtain ⟨hv, init, he, hd⟩ := h
  rw [FileSystem.lookup, if_pos hv, he, walk_concat, hd, Option.bind_some]

/-- Valid paths are told apart by their elements. -/
theorem valid_ext {p q : List UInt8} (hp : sfsIsValidPath p = true) (hq : sfsIsValidPath q = true)
    (h : pathElems p.tail = pathElems q.tail) : p = q := by
  obtain ⟨cs, rfl, -⟩ := validPath_cons hp
  obtain ⟨cs', rfl, -⟩ := validPath_cons hq
  have hflat := congrArg List.flatten h
  rw [pathElems_flatten, pathElems_flatten] at hflat
  exact congrArg (SLASH :: ·) hflat

/-- **A new name on all paths.** -/
theorem find_graft (ht : fs.Tree) (hp : fs.Place path d name) (hno : fs.child d name = none)
    (hnew : fs'.child d name = some f) (hleaf : ∀ m, fs'.child f m = none)
    (hsame : ∀ i m, Reaches fs.child SFS_DIRECTORY_BLOCK i → ¬ (i = d ∧ m = name) →
      fs'.child i m = fs.child i m) (q : List UInt8) :
    fs'.find q = if q = path then (f : ℤ) else fs.find q := by
  obtain ⟨hv, init, he, hd⟩ := hp
  unfold find FileSystem.lookup
  by_cases hq : sfsIsValidPath q = true
  · rw [if_pos hq, if_pos hq, ht.rooted.graft hd hno hnew hleaf hsame]
    by_cases hqp : q = path
    · rw [hqp, if_pos he, if_pos rfl]
      rfl
    · rw [if_neg hqp, if_neg fun hqe => hqp (valid_ext hq hv (hqe.trans he.symm))]
  · rw [if_neg hq, if_neg hq, if_neg]
    rintro rfl
    exact hq hv

/-- **A name less on all paths.** -/
theorem find_prune (ht : fs.Tree) (hp : fs.Place path d name) (hnone : fs'.child d name = none)
    (hsame : ∀ i m, Reaches fs.child SFS_DIRECTORY_BLOCK i → fs.child d name ≠ some i →
      ¬ (i = d ∧ m = name) → fs'.child i m = fs.child i m) (q : List UInt8) :
    fs'.find q = if pathElems path.tail <+: pathElems q.tail then VFS_ERROR else fs.find q := by
  obtain ⟨-, init, he, hd⟩ := hp
  unfold find FileSystem.lookup
  by_cases hq : sfsIsValidPath q = true
  · rw [if_pos hq, if_pos hq, ht.rooted.prune hd hnone hsame, he]
    split
    · rfl
    · rfl
  · rw [if_neg hq, if_neg hq]
    split
    · rfl
    · rfl

/-- No node names itself. -/
theorem Tree.ne_child (ht : fs.Tree) (hd : Reaches fs.child SFS_DIRECTORY_BLOCK d)
    (hc : fs.child d name = some f) : f ≠ d := by
  rintro rfl
  obtain ⟨p, hp⟩ := hd
  have hp' : (p ++ [name]).foldlM fs.child SFS_DIRECTORY_BLOCK = some f := by
    rw [walk_concat, hp]
    exact hc
  have := congrArg List.length (ht.rooted.walk_inj hp hp')
  simp at this

theorem Place.reaches (h : fs.Place path d name) : Reaches fs.child SFS_DIRECTORY_BLOCK d := by
  obtain ⟨-, init, -, hd⟩ := h
  exact ⟨init, hd⟩

theorem Place.find_ne (h : fs.Place path d name) (hc : fs.child d name = some f) :
    fs.find path ≠ VFS_ERROR := by
  have := VFS_ERROR_neg
  rw [find, h.lookup, hc, foundBlock]
  omega

/-- The names after one was erased. -/
theorem child_erase (hc : fs.child d name = some f) (i : ℕ) (m : List UInt8) :
    (fs.modify d (Finmap.erase name)).child i m = if i = d ∧ m = name then none else fs.child i m := by
  obtain ⟨es, hes, -⟩ := child_some hc
  rw [child_modify hes]
  by_cases hid : i = d
  · subst hid
    rw [if_pos rfl, child, hes, Option.bind_some]
    by_cases hm : m = name
    · rw [if_pos ⟨rfl, hm⟩, hm, Finmap.lookup_erase]
    · rw [if_neg fun h => hm h.2, Finmap.lookup_erase_ne hm]
  · rw [if_neg hid, if_neg fun h => hid h.1]

/-- A file names nothing. -/
theorem child_file {bytes : List UInt8} (hn : fs.node f = some nd) (hc : nd.content = .file bytes)
    (m : List UInt8) : fs.child f m = none := by
  have he : fs.entries f = none := by
    rw [Option.eq_none_iff_forall_not_mem]
    intro es hes
    obtain ⟨x, hx, hxc⟩ := entries_some.1 hes
    rw [hn] at hx
    cases hx
    rw [hc] at hxc
    cases hxc
  rw [child, he, Option.bind_none]

/-- A new node names nothing. -/
theorem child_newNode {size : Int32} (hn : fs.node f = some (newNode path size)) (m : List UInt8) :
    fs.child f m = none := by
  cases hk : sfsIsFolder path with
  | true =>
    have he : fs.entries f = some ∅ := entries_some.2 ⟨_, hn, by rw [newNode, hk]; rfl⟩
    rw [child, he, Option.bind_some, Finmap.lookup_empty]
  | false =>
    exact child_file hn (by rw [newNode, hk]; rfl) m

/-- **What a step does to all paths.** -/
theorem Step.renames (ht : fs.Tree) {c : Call} {r : Reply} (h : fs.Step c r fs') :
    Renames fs.find fs'.find c r := by
  cases h with
  | opened _ hn => exact find_congr fun d name _ => child_set hn (by rfl) d name
  | notFound => rfl
  | tableFull => rfl
  | notOpen hc =>
    rename_i fileid
    cases c with
    | openFile => cases hc
    | create => cases hc
    | remove => cases hc
    | closeFile => rfl
    | read => rfl
    | write => rfl
  | closed hn => exact find_congr fun d name _ => child_set hn (by rfl) d name
  | @dropped f nd hn _ hr =>
    refine find_congr fun d name hd => ?_
    rw [child_drop, if_neg]
    rintro rfl
    obtain ⟨nd', hn', hr'⟩ := ht.nodes hd
    rw [hn] at hn'
    cases hn'
    rw [hr] at hr'
    cases hr'
  | @created path size d f name ha hf =>
    obtain ⟨es, hes, hno, -⟩ := ha.entries
    have hnone : fs.child d name = none := by
      rw [child, hes, Option.bind_some, Finmap.lookup_eq_none.2 hno]
    have hdf : d ≠ f := by
      rintro rfl
      obtain ⟨nd, hn, -⟩ := entries_some.1 hes
      rw [hf] at hn
      cases hn
    have hchild : ∀ i m, i ≠ f → (fs.create d name f path size).child i m =
        if i = d then (Finmap.insert name f es).lookup m else fs.child i m := by
      intro i m hif
      rw [← child_modify hes]
      apply child_congr
      apply entries_congr
      rw [create, node_set, if_neg hif]
    refine ⟨?_, f, find_graft ht ha.place hnone ?_ ?_ ?_⟩
    · rw [find, ha.place.lookup, hnone]
      rfl
    · rw [hchild d name hdf, if_pos rfl, Finmap.lookup_insert]
    · exact fun m => child_newNode (by rw [create, node_set, if_pos rfl]) m
    · rintro i m hi hne
      have hif : i ≠ f := by
        rintro rfl
        obtain ⟨nd, hn, -⟩ := ht.nodes hi
        rw [hf] at hn
        cases hn
      rw [hchild i m hif]
      split
      · rename_i hid
        rw [Finmap.lookup_insert_of_ne _ fun hmn => hne ⟨hid, hmn⟩, child, hid, hes, Option.bind_some]
      · rfl
  | refused => rfl
  | missing => rfl
  | noRoom => rfl
  | @unlinked path d f name nd hp hc hn hh =>
    have hne := ht.ne_child (Place.reaches hp) hc
    have hn' := (node_modify_ne hne (Finmap.erase name)).trans hn
    have hchild : ∀ i m, ((fs.modify d (Finmap.erase name)).set f { nd with removed := true }).child i m =
        if i = d ∧ m = name then none else fs.child i m := fun i m =>
      (child_set hn' (by rfl) i m).trans (child_erase hc i m)
    refine ⟨Place.find_ne hp hc, find_prune ht hp ?_ fun i m _ _ hd => ?_⟩
    · rw [hchild, if_pos ⟨rfl, rfl⟩]
    · rw [hchild, if_neg hd]
  | @removed path d f name nd hp hc hn hh hr =>
    have hne := ht.ne_child (Place.reaches hp) hc
    refine ⟨Place.find_ne hp hc, find_prune ht hp ?_ fun i m _ hlost hd => ?_⟩
    · rw [child_drop, if_neg hne.symm, child_erase hc, if_pos ⟨rfl, rfl⟩]
    · have hif : i ≠ f := by
        rintro rfl
        exact hlost hc
      rw [child_drop, if_neg hif, child_erase hc, if_neg hd]
  | read => rfl
  | @written f tid offset buf bytes nd hn hh hb =>
    refine find_congr fun d name _ => ?_
    by_cases hd : d = f
    · subst hd
      rw [child_file hn hb, child_file (by rw [node_set, if_pos rfl]) rfl]
    · exact child_congr (entries_congr (by rw [node_set, if_neg hd]))
  | folder => rfl

end FileSystem

/-! ## The volume -/

section Volume

variable {fs : FileSystem} {s : Sfs}

/-- The entry behind a name of a node in the tree. -/
theorem Represents.child_link (h : Represents fs s) {d f : ℕ} {k : Kind}
    (hd : InTree s.disk.blocks d k) {name : List UInt8} (hc : fs.child d name = some f) :
    ∃ i, Link s.disk.blocks d i f (kindOf (sfsIsFolder name)) ∧ direntName (s.disk.blocks d) i = name := by
  cases k with
  | dir =>
    have hr := reachDir_iff.2 hd
    rw [h.child hr] at hc
    exact reachDir_entryIn hr hc
  | file =>
    obtain ⟨nd, hn, hcont, -⟩ := h.live (Or.inl hd)
    rw [FileSystem.child_file hn hcont] at hc
    cases hc

/-- What walks reach is in the tree. -/
theorem Represents.reaches (h : Represents fs s) {f : ℕ}
    (hf : Reaches fs.child SFS_DIRECTORY_BLOCK f) : ∃ k, InTree s.disk.blocks f k := by
  obtain ⟨p, hp⟩ := hf
  induction p using List.reverseRecOn generalizing f with
  | nil =>
    obtain rfl : SFS_DIRECTORY_BLOCK = f := Option.some.inj hp
    exact ⟨.dir, Or.inl ⟨rfl, rfl⟩⟩
  | append_singleton p name ih =>
    obtain ⟨d, hd, hc⟩ := walk_concat_some hp
    obtain ⟨k, hk⟩ := ih hd
    obtain ⟨i, hl, -⟩ := h.child_link hk hc
    exact ⟨_, hl.inTree⟩

/-- **A volume is a tree of names.** -/
theorem Represents.tree (hi : InOrder s) (h : Represents fs s) : fs.Tree where
  rooted :=
    { top := fun hd hc => by
        obtain ⟨k, hk⟩ := h.reaches hd
        obtain ⟨i, hl, -⟩ := h.child_link hk hc
        exact hi.quiet.inv.vol.link_root hl rfl
      inj := fun hd hd' hc hc' => by
        obtain ⟨k, hk⟩ := h.reaches hd
        obtain ⟨k', hk'⟩ := h.reaches hd'
        obtain ⟨i, hl, rfl⟩ := h.child_link hk hc
        obtain ⟨j, hl', rfl⟩ := h.child_link hk' hc'
        obtain ⟨rfl, rfl⟩ := hi.quiet.inv.vol.link_inj hl hl'
        exact ⟨rfl, rfl⟩ }
  nodes := fun hf => by
    obtain ⟨k, hk⟩ := h.reaches hf
    obtain ⟨nd, hn, -⟩ := h.live (Or.inl hk)
    exact ⟨nd, hn, h.linked hi hn hk⟩

theorem Represents.find_eq (hi : InOrder s) (h : Represents fs s) :
    fs.find = fun path => (sfsResolveFileExt s path).block := by
  funext path
  exact (h.resolve hi path).symm

/-- States reached by runs stand for filesystems. -/
theorem Represents.reached :
    ∀ {cs : List Call} {fs : FileSystem} {s s' : Sfs}, InOrder s → Represents fs s →
      Fs.run s cs = some s' → InOrder s' ∧ ∃ fs', Represents fs' s'
  | [], fs, s, s', hi, h, hr => by
    cases hr
    exact ⟨hi, fs, h⟩
  | c :: cs, fs, s, s', hi, h, hr => by
    obtain ⟨r, s1, fs1, h1, -, h3, h4⟩ := h.step hi c
    rw [Fs.run, h1] at hr
    exact reached h4 h3 hr

/-- **What every call does to all paths**, in every state that calls lead to. -/
theorem sfs_names (disk : Gbd) (hv : NamedVolume disk) (hw : disk.Works) (cs : List Call) (s : Sfs)
    (hr : run (sfsInit disk) cs = some s) (c : Call) (r : Reply) (s' : Sfs) (hc : c.exec s = some (r, s')) :
    Renames (fun path => (sfsResolveFileExt s path).block) (fun path => (sfsResolveFileExt s' path).block)
      c r := by
  obtain ⟨hi, fs, h⟩ := Represents.reached (hv.inOrder hw) (hv.represents hw) hr
  obtain ⟨r1, s1, fs1, h1, hstep, h2, hi1⟩ := h.step hi c
  rw [hc] at h1
  cases h1
  rw [← h.find_eq hi, ← h2.find_eq hi1]
  exact hstep.renames (h.tree hi)

/-- A folder, a file in it, and the folder is removed: the file's path is gone with it. -/
theorem sfs_names_emptyVolume :
    ∃ s r s', run (sfsInit emptyVolume) [.create [47, 100, 47] 0, .create [47, 100, 47, 102] 600] = some s ∧
      (Call.remove [47, 100, 47]).exec s = some (r, s') ∧ r.value = VFS_OK ∧
      (sfsResolveFileExt s [47, 100, 47, 102]).block = 4 ∧
      Renames (fun path => (sfsResolveFileExt s path).block)
        (fun path => (sfsResolveFileExt s' path).block) (.remove [47, 100, 47]) r := by
  obtain ⟨s, hs, -⟩ := run_inv [.create [47, 100, 47] 0, .create [47, 100, 47, 102] 600]
    (emptyVolume_wellFormed.quiet emptyVolume_works)
  have hvals : (run (sfsInit emptyVolume) [.create [47, 100, 47] 0, .create [47, 100, 47, 102] 600]).map
      (fun s => ((sfsRemove s [47, 100, 47]).1, (sfsResolveFileExt s [47, 100, 47, 102]).block)) =
      some (VFS_OK, 4) := by decide +kernel
  rw [hs, Option.map_some, Option.some.injEq, Prod.mk.injEq] at hvals
  exact ⟨s, _, _, hs, rfl, hvals.1, hvals.2,
    sfs_names emptyVolume emptyVolume_named emptyVolume_works _ s hs _ _ _ rfl⟩

end Volume

end Buenos.Fs

import Buenos.Fs.Sfs.Leak

/-!
# Files that are removed while they are open

A file that is open when it is removed loses its name at once and its blocks at the last close.

* `handles`, `Counts` — how often a file is open after a run: successful opens minus closes; the
  table counts them (`Counts.effect`).
* `Pending` — a removed file that is still open, with its contents.
* `Pending.effect` — no call but a close of the file ends this, only writes to the file change its
  contents, and the last close gives its blocks back.
-/

namespace Buenos.Fs

open Bytes BlockProgram Ownership

/-! ## Open handles -/

/-- The number of open handles of `f` after a call. -/
def trackHandles (f : ℕ) (c : Call) (r : Reply) (h : ℕ) : ℕ :=
  match c with
  | .openFile _ => if r.value = f then h + 1 else h
  | .closeFile fileid => if fileid = f ∧ r.value = VFS_OK then h - 1 else h
  | _ => h

/-- The number of open handles of `f` after a run that starts with `h` of them. -/
def handles (f : ℕ) (s : Sfs) : List Call → ℕ → ℕ
  | [], h => h
  | c :: cs, h => match c.exec s with
    | none => h
    | some (r, s') => handles f s' cs (trackHandles f c r h)

/-- The table counts the open handles of `f`. -/
structure Counts (s : Sfs) (f h : ℕ) : Prop where
  count : ∀ {e}, (s.openFiles e).fileid = f → (s.openFiles e).timesOpened = h
  entry : 0 < h → ∃ e, (s.openFiles e).fileid = f

section Counts

variable {s s' : Sfs} {f h : ℕ}

/-- Replacing an entry of another file. -/
theorem Counts.setEntry_ne (hc : Counts s f h) {e : Slot} {x : OpenFile}
    (he : (s.openFiles e).fileid ≠ f) (hx : x.fileid ≠ f) : Counts (s.setEntry e x) f h := by
  constructor
  · intro e' h1
    rw [setEntry_openFiles] at h1 ⊢
    by_cases hee : e' = e
    · subst hee
      rw [Function.update_self] at h1
      exact absurd h1 hx
    · rw [Function.update_of_ne hee] at h1 ⊢
      exact hc.count h1
  · intro hpos
    obtain ⟨e', h1⟩ := hc.entry hpos
    refine ⟨e', ?_⟩
    rw [setEntry_openFiles, Function.update_of_ne (by rintro rfl; exact he h1)]
    exact h1

/-- Replacing the entry of the file. -/
theorem Counts.setEntry_self (hq : Quiet s) {e : Slot} {x : OpenFile} {h' : ℕ}
    (he : (s.openFiles e).fileid = f) (hx : x.fileid = f) (ht : x.timesOpened = h') :
    Counts (s.setEntry e x) f h' := by
  constructor
  · intro e' h1
    rw [setEntry_openFiles] at h1 ⊢
    by_cases hee : e' = e
    · rw [hee, Function.update_self]
      exact ht
    · rw [Function.update_of_ne hee] at h1
      exact absurd (hq.inv.vol.distinct (h1.trans he.symm) (by omega)) hee
  · intro _
    exact ⟨e, by rw [setEntry_openFiles, Function.update_self]; exact hx⟩

/-- No entry names the file. -/
theorem Counts.of_none (hno : ∀ e, (s.openFiles e).fileid ≠ f) : Counts s f 0 :=
  ⟨fun he => absurd he (hno _), fun h => absurd h (by omega)⟩

theorem Counts.congr (hc : Counts s f h)
    (hs : ∀ e, (s'.openFiles e).fileid = (s.openFiles e).fileid ∧
      (s'.openFiles e).timesOpened = (s.openFiles e).timesOpened) : Counts s' f h := by
  constructor
  · intro e h1
    rw [(hs e).2]
    exact hc.count ((hs e).1.symm.trans h1)
  · intro hpos
    obtain ⟨e, h1⟩ := hc.entry hpos
    exact ⟨e, (hs e).1.trans h1⟩

theorem orphanEntries_timesOpened (files : Slot → OpenFile) (g : ℕ) (isFolder : Bool) (i : Slot) :
    (orphanEntries files g isFolder i).timesOpened = (files i).timesOpened := by
  rcases orphanEntries_spec files g isFolder i with h | ⟨-, -, h⟩
  · rw [h]
  · rw [h]

/-- Releasing the entry of the file leaves none. -/
theorem reset_none (hq : Quiet s) {e : Slot} {files : Slot → OpenFile}
    (hs : ∀ e, (files e).fileid = (s.openFiles e).fileid) (he : (s.openFiles e).fileid = f) (j : Slot) :
    (Function.update files e sfsResetEntry j).fileid ≠ f := by
  intro h1
  by_cases hj : j = e
  · rw [hj, Function.update_self] at h1
    cases h1
  · rw [Function.update_of_ne hj, hs] at h1
    exact hj (hq.inv.vol.distinct (h1.trans he.symm) (by omega))

/-- **The table counts handles**: one call. -/
theorem Counts.effect (hq : Quiet s) (hc : Counts s f h) {c : Call} {r : Reply}
    (he : Effect s c r s') : Counts s' f (trackHandles f c r h) := by
  cases he with
  | failed c hv hno =>
    cases c with
    | openFile path =>
      simp only [trackHandles]
      rw [if_neg (by omega)]
      exact hc
    | closeFile id =>
      simp only [trackHandles]
      rw [if_neg (by rintro ⟨-, h0⟩; rw [h0] at hv; exact absurd hv (by decide))]
      exact hc
    | _ => exact hc
  | read => exact hc
  | @opened path g e hf hqp he =>
    simp only [trackHandles, Int.ofNat_inj]
    have hid := opened_fileid (s := s) (q := (sfsResolveFileExt s path).parentInode)
      (sfsIsFolder path) he
    by_cases hgf : g = f
    · subst hgf
      rw [if_pos rfl]
      rcases he with he | ⟨he, hno⟩
      · refine Counts.setEntry_self hq he hid ?_
        rw [openedEntry_timesOpened, hc.count he]
        omega
      · have h0 : h = 0 := by
          by_contra hne
          obtain ⟨e', h1⟩ := hc.entry (by omega)
          exact hno e' h1
        subst h0
        constructor
        · intro e' h1
          rw [setEntry_openFiles] at h1 ⊢
          by_cases hee : e' = e
          · rw [hee, Function.update_self, openedEntry_timesOpened,
              hq.inv.vol.free (e := e) (by omega)]
            rfl
          · rw [Function.update_of_ne hee] at h1
            exact absurd h1 (hno e')
        · intro _
          exact ⟨e, by rw [setEntry_openFiles, Function.update_self]; exact hid⟩
    · rw [if_neg hgf]
      refine hc.setEntry_ne ?_ (by rw [hid]; omega)
      rcases he with he | ⟨he, -⟩
      · rw [he]
        omega
      · rw [he]
        omega
  | created hcr => exact hc.congr fun e => by rw [hcr.openFiles]; exact ⟨rfl, rfl⟩
  | written => exact hc.congr fun e => ⟨rfl, rfl⟩
  | @closed e g he ht =>
    simp only [trackHandles, and_true, Int.ofNat_inj]
    by_cases hgf : g = f
    · subst hgf
      rw [if_pos rfl]
      refine Counts.setEntry_self hq he he ?_
      have := hc.count he
      simp only
      omega
    · rw [if_neg hgf]
      exact hc.setEntry_ne (by rw [he]; omega) (by simp only [he]; omega)
  | @released e g he ht hd =>
    simp only [trackHandles, and_true, Int.ofNat_inj]
    by_cases hgf : g = f
    · subst hgf
      rw [if_pos rfl]
      have := hc.count he
      rw [show h - 1 = 0 by omega]
      exact Counts.of_none (reset_none hq (fun _ => rfl) he)
    · rw [if_neg hgf]
      exact hc.setEntry_ne (by rw [he]; omega) (by simp only [sfsResetEntry]; omega)
  | @freed e g bat he ht hd hb =>
    simp only [trackHandles, and_true, Int.ofNat_inj]
    have hsame := orphanEntries_same s.openFiles g (s.openFiles e).isFolder
    by_cases hgf : g = f
    · subst hgf
      rw [if_pos rfl]
      have := hc.count he
      rw [show h - 1 = 0 by omega]
      exact Counts.of_none (reset_none hq (fun e' => (hsame e').1) he)
    · rw [if_neg hgf]
      refine Counts.setEntry_ne (hc.congr fun e' => ⟨(hsame e').1,
        orphanEntries_timesOpened _ _ _ e'⟩) ?_ (by simp only [sfsResetEntry]; omega)
      rw [freed_openFiles, (hsame e).1, he]
      omega
  | @unlinked path p i g e hl hr he =>
    refine hc.congr fun e' => ?_
    rw [setEntry_openFiles]
    by_cases hee : e' = e
    · rw [hee, Function.update_self]
      exact ⟨rfl, rfl⟩
    · rw [Function.update_of_ne hee]
      exact ⟨rfl, rfl⟩
  | @removed path p i g bat hl hr hno hb =>
    exact hc.congr fun e' => ⟨(orphanEntries_same _ _ _ e').1, orphanEntries_timesOpened _ _ _ e'⟩

end Counts

/-! ## Files that are removed and still open -/

/-- A live file with a covering inode is well-formed on its device. -/
theorem Quiet.fileOk {s : Sfs} (hq : Quiet s) (hcov : Inodes Covers s) {f : ℕ}
    (hf : Live s.disk.blocks s.openFiles noPins (.node f .file)) : FileOk s.disk f := by
  have hlt := hq.inv.vol.lt hf
  have h2 := hq.inv.vol.two_le hf
  have ho := hq.inv.onDisk
  refine ⟨hq.inv.works, by omega, by omega, hq.inv.vol.size hf, fun j hj => ?_,
    fun j hj => hq.inv.vol.self hf hj, hcov hf, fun j hj j' hj' h0 => hq.inv.vol.data hf hj hj' h0⟩
  by_cases h0 : inodeBlock (s.disk.blocks f) j = 0
  · omega
  · have := hq.inv.vol.inside hf (Or.inr ⟨rfl, h0, j, hj, rfl⟩)
    omega

/-- The contents depend on the blocks of the file only. -/
theorem fileBytes_congr {blocks blocks' : ℕ → Block} {f : ℕ} (hc : Covers (blocks f))
    (hs : inodeFilesize (blocks f) ≤ SFS_MAX_FILESIZE)
    (hb : ∀ b, owns blocks (.node f .file) b → blocks' b = blocks b) :
    fileBytes blocks' f = fileBytes blocks f := by
  have hi : blocks' f = blocks f := hb f (Or.inl rfl)
  simp only [SFS_MAX_FILESIZE] at hs
  unfold fileBytes
  rw [hi]
  apply List.map_congr_left
  intro x hx
  have hx := List.mem_range.1 hx
  unfold fileByte
  rw [hi, hb _ (Or.inr ⟨rfl, hc (x / 512) (by omega), x / 512, by omega, rfl⟩)]

/-- What a write call does to the contents of `f`. -/
def writesTo (f : ℕ) (contents : List UInt8) : Call → List UInt8
  | .write _ fileid buf offset => if fileid = f then (writeAt contents buf offset).2 else contents
  | _ => contents

/-- The call closes `f`. -/
def isClose (f : ℕ) : Call → Bool
  | .closeFile fileid => fileid = f
  | _ => false

/-- The file `f` is removed and open `k` times through entry `e`. -/
structure Pending (s : Sfs) (e : Slot) (f k : ℕ) (contents : List UInt8) (inode : Block) : Prop where
  fileid : (s.openFiles e).fileid = f
  isFolder : (s.openFiles e).isFolder = false
  isDeleted : (s.openFiles e).isDeleted = true
  count : (s.openFiles e).timesOpened = k
  bytes : fileBytes s.disk.blocks f = contents
  inode : s.disk.blocks f = inode

namespace Pending

variable {s s' : Sfs} {e : Slot} {f k : ℕ} {contents : List UInt8} {inode : Block}

theorem live (hp : Pending s e f k contents inode) :
    Live s.disk.blocks s.openFiles noPins (.node f .file) :=
  Or.inr (Or.inl ⟨e, hp.fileid, by rw [hp.isFolder]; rfl⟩)

/-- A removed file is not in the tree. -/
theorem not_inTree (hq : Quiet s) (hp : Pending s e f k contents inode) (k' : Kind) :
    ¬ InTree s.disk.blocks f k' := hq.inv.vol.deleted hp.isDeleted hp.fileid

/-- A step that leaves the blocks and the entry of the file alone. -/
theorem keep (hq : Quiet s) (hcov : Inodes Covers s) (hp : Pending s e f k contents inode)
    (he : ∃ q, s'.openFiles e = { s.openFiles e with parentid := q })
    (hb : ∀ b, owns s.disk.blocks (.node f .file) b → s'.disk.blocks b = s.disk.blocks b) :
    Pending s' e f k contents inode := by
  obtain ⟨q, he⟩ := he
  refine ⟨by rw [he]; exact hp.fileid, by rw [he]; exact hp.isFolder, by rw [he]; exact hp.isDeleted,
    by rw [he]; exact hp.count, ?_, ?_⟩
  · rw [fileBytes_congr (hcov hp.live) (hq.inv.vol.size hp.live) hb]
    exact hp.bytes
  · rw [hb f (Or.inl rfl)]
    exact hp.inode

/-- The entry of another file is another entry. -/
theorem entry_ne (hp : Pending s e f k contents inode) {e' : Slot} {g : ℕ}
    (he : (s.openFiles e').fileid = g ∨ (s.openFiles e').fileid = -1) (hne : g ≠ f) : e ≠ e' := by
  rintro rfl
  have := hp.fileid
  rcases he with he | he
  · omega
  · omega

theorem keep_setEntry (hq : Quiet s) (hcov : Inodes Covers s) (hp : Pending s e f k contents inode)
    {e' : Slot} {x : OpenFile} (hne : e ≠ e') : Pending (s.setEntry e' x) e f k contents inode :=
  hp.keep hq hcov ⟨_, by rw [setEntry_openFiles, Function.update_of_ne hne]⟩ fun _ _ => rfl

/-- The blocks of a file are not directories in the tree. -/
theorem unlink_block (hq : Quiet s) (hp : Pending s e f k contents inode) {p i g : ℕ} {k' : Kind}
    (hl : Link s.disk.blocks p i g k') {b : ℕ} (hb : owns s.disk.blocks (.node f .file) b) :
    unlinkBlocks s.disk.blocks p g b = s.disk.blocks b := by
  refine unlinkBlocks_of_ne ?_
  rintro rfl
  cases hq.inv.vol.own.unique hp.live (VolInv.dir_live hl.dir) hb (Or.inl rfl)

theorem ne_alloc (hq : Quiet s) (hp : Pending s e f k contents inode) {b : ℕ}
    (hb : owns s.disk.blocks (.node f .file) b) : b ≠ SFS_ALLOCATION_BLOCK := by
  have := hq.inv.vol.block_two_le hp.live hb
  simp only [SFS_ALLOCATION_BLOCK]
  omega

/-- A write through the old handle changes the contents as `writeAt` does. -/
theorem written (hq : Quiet s) (hcov : Inodes Covers s) (hp : Pending s e f k contents inode)
    (buf : List UInt8) (offset : ℤ) :
    Pending { s with disk := ((writeBody f buf buf.length offset).run gbdDevice s.disk).2 } e f k
      (writeAt contents buf offset).2 inode := by
  obtain ⟨blocks', h1, h2⟩ := writeBody_spec (hq.fileOk hcov hp.live).shape buf offset
  obtain ⟨blocks'', h3, h4⟩ := writeBody_frame s.disk f buf buf.length offset
  refine ⟨hp.fileid, hp.isFolder, hp.isDeleted, hp.count, ?_, ?_⟩
  · rw [h1, withBlocks_blocks, h2, hp.bytes]
  · rw [h3, withBlocks_blocks, h4 f (hq.inv.vol.node_untouched hp.live hp.live)]
    exact hp.inode

/-- **One call** keeps a removed open file, unless it is a close of the file; the last close frees
it. -/
theorem effect (hq : Quiet s) (hcov : Inodes Covers s) (hp : Pending s e f k contents inode)
    {c : Call} {r : Reply} (he : Effect s c r s') :
    (isClose f c = false ∧ Pending s' e f k (writesTo f contents c) inode) ∨
    (isClose f c = true ∧ 1 < k ∧ Pending s' e f (k - 1) (writesTo f contents c) inode) ∨
    (isClose f c = true ∧ k = 1 ∧ ∃ bat, Freeing s.disk.blocks f false bat ∧
      s' = (s.freed f false bat).setEntry e sfsResetEntry) := by
  have hvol := hq.inv.vol
  have hnt := hp.not_inTree hq
  cases he with
  | failed c hv hno =>
    have hoff : ¬ c.onFile f := fun hc => by
      have := hno f e hc hp.fileid
      rw [hp.isFolder] at this
      cases this
    left
    cases c with
    | closeFile id =>
      refine ⟨?_, hp⟩
      simp only [Call.onFile] at hoff
      simp [isClose, hoff]
    | write tid id buf offset =>
      refine ⟨rfl, ?_⟩
      simp only [Call.onFile] at hoff
      rw [writesTo, if_neg hoff]
      exact hp
    | _ => exact ⟨rfl, hp⟩
  | read => exact Or.inl ⟨rfl, hp⟩
  | @opened path g e' hf hqp he =>
    refine Or.inl ⟨rfl, hp.keep_setEntry hq hcov (hp.entry_ne (he.imp_right fun h => h.1) ?_)⟩
    rintro rfl
    exact hnt _ hf
  | @created path size s' p idx g data hcr =>
    refine Or.inl ⟨rfl, hp.keep hq hcov ⟨_, by rw [hcr.openFiles]⟩ fun b hb => ?_⟩
    refine hcr.created.other b (hp.ne_alloc hq hb) ?_ (hcr.created.not_fresh hvol hp.live hb)
    rintro rfl
    cases hvol.own.unique hp.live (VolInv.dir_live hcr.reach) hb (Or.inl rfl)
  | @written e' g tid offset buf he hk =>
    by_cases hgf : g = f
    · subst hgf
      refine Or.inl ⟨rfl, ?_⟩
      rw [writesTo, if_pos rfl]
      exact hp.written hq hcov buf offset
    · refine Or.inl ⟨rfl, ?_⟩
      rw [writesTo, if_neg (by omega)]
      obtain ⟨blocks, h3, h4⟩ := writeBody_frame s.disk g buf buf.length offset
      have hlive : Live s.disk.blocks s.openFiles noPins (.node g .file) :=
        Or.inr (Or.inl ⟨e', he, by rw [hk]; rfl⟩)
      refine hp.keep hq hcov ⟨_, rfl⟩ fun b hb => ?_
      rw [h3, withBlocks_blocks]
      have h2 := hvol.block_two_le hp.live hb
      refine h4 b (hvol.untouched hlive hp.live hb (by omega) ?_)
      simp only [ne_eq, Owner.node.injEq, and_true]
      exact fun h => hgf h.symm
  | @closed e' g he ht =>
    by_cases hgf : g = f
    · subst hgf
      have hee : e = e' := hvol.distinct (hp.fileid.trans he.symm) (by rw [hp.fileid]; omega)
      subst hee
      have hk := hp.count
      refine Or.inr (Or.inl ⟨by simp [isClose], by omega, ?_⟩)
      refine ⟨?_, ?_, ?_, ?_, hp.bytes, hp.inode⟩
      · rw [setEntry_openFiles, Function.update_self]
        exact he
      · rw [setEntry_openFiles, Function.update_self]
        exact hp.isFolder
      · rw [setEntry_openFiles, Function.update_self]
        exact hp.isDeleted
      · rw [setEntry_openFiles, Function.update_self]
        simp only
        omega
    · exact Or.inl ⟨by simp [isClose, hgf], hp.keep_setEntry hq hcov (hp.entry_ne (Or.inl he) hgf)⟩
  | @released e' g he ht hd =>
    have hgf : g ≠ f := by
      rintro rfl
      have hee : e = e' := hvol.distinct (hp.fileid.trans he.symm) (by rw [hp.fileid]; omega)
      rw [← hee, hp.isDeleted] at hd
      cases hd
    exact Or.inl ⟨by simp [isClose, hgf], hp.keep_setEntry hq hcov (hp.entry_ne (Or.inl he) hgf)⟩
  | @freed e' g bat he ht hd hb =>
    by_cases hgf : g = f
    · subst hgf
      have hee : e = e' := hvol.distinct (hp.fileid.trans he.symm) (by rw [hp.fileid]; omega)
      subst hee
      have hk := hp.count
      rw [hp.isFolder] at hb ⊢
      exact Or.inr (Or.inr ⟨by simp [isClose], by omega, bat, hb, rfl⟩)
    · have hne := hp.entry_ne (Or.inl he) hgf
      refine Or.inl ⟨by simp [isClose, hgf], hp.keep hq hcov ?_ fun b hb => ?_⟩
      · rw [setEntry_openFiles, Function.update_of_ne hne, freed_openFiles]
        rcases orphanEntries_spec s.openFiles g (s.openFiles e').isFolder e with h | ⟨-, -, h⟩
        · exact ⟨_, h⟩
        · exact ⟨_, h⟩
      · exact Function.update_of_ne (hp.ne_alloc hq hb) ..
  | @unlinked path p i g e' hl hr he =>
    have hgf : g ≠ f := by
      rintro rfl
      exact hnt _ hl.inTree
    refine Or.inl ⟨rfl, hp.keep hq hcov ⟨(s.openFiles e).parentid, ?_⟩ fun b hb =>
      hp.unlink_block hq hl hb⟩
    rw [setEntry_openFiles, Function.update_of_ne (hp.entry_ne (Or.inl he) hgf)]
    rfl
  | @removed path p i g bat hl hr hno hb =>
    refine Or.inl ⟨rfl, hp.keep hq hcov ?_ fun b hb => ?_⟩
    · rw [freed_openFiles, unlinked_openFiles]
      rcases orphanEntries_spec s.openFiles g (sfsIsFolder path) e with h | ⟨-, -, h⟩
      · exact ⟨_, h⟩
      · exact ⟨_, h⟩
    · rw [freed_blocks, Function.update_of_ne (hp.ne_alloc hq hb)]
      exact hp.unlink_block hq hl hb

end Pending

end Buenos.Fs

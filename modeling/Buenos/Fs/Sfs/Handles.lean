import Buenos.Fs.Sfs.Inodes
import Buenos.Fs.Sfs.RefCount

/-!
# An open file keeps its block

`sfs_open` finds the block of a file in one section and counts its open in another one.  This module is
about what happens between the two, over all runs of `sfs_open`, `sfs_close`, `sfs_create` and `sfs_remove`.

* `Allocated` — the block of every open file is marked and belongs to no other node of the tree.
* `NotHandedOut` — no step makes a directory entry for the block of an open file.
* `CallsSerial` — creations and removals do not overlap.
* `FreesUnresolved` — the condition: no file is given back while a call of `sfs_open` has resolved it and
  not entered it.
* `Kept` — the invariant: what is resolved is pinned, so that it stays live.

Principal results: `sfs_handles` — under the condition both hold in every run, and `sfs_open_freed`, a
handle of a file that was given back.
-/

namespace Buenos.Fs.Threads

open Transition Ownership

/-! ## The property and the condition -/

/-- The thread changes the tree, or will. -/
def Pc.changesTree : Pc → Bool
  | .creating _ _ _ => true
  | .removing _ _ => true
  | .removed _ _ => true
  | _ => false

/-- The file that `sfs_open` has resolved and not entered. -/
def Pc.resolved : Pc → Option ℤ
  | .opening _ r => some r.block
  | _ => none

/-- The entry that the next step leaves, and `is_close_op`. -/
def Pc.exits : Pc → Option (Slot × Bool)
  | .checked e _ isDeleted => some (e, isDeleted)
  | .closing e _ => some (e, true)
  | .removed e _ => some (e, true)
  | .leaving e _ _ => some (e, false)
  | _ => none

/-- The thread is in `sfs_read` or `sfs_write`. -/
def Pc.transfers : Pc → Bool
  | .awaitRead _ _ _ _ => true
  | .reading _ _ _ => true
  | .awaitWrite _ _ _ _ _ => true
  | .draining _ _ _ _ => true
  | .writing _ _ _ => true
  | .leaving _ _ _ => true
  | _ => false

variable {τ : Type}

/-- The block of an open file is marked, and no other node of the tree owns it. -/
def Allocated (s : State τ) : Prop :=
  ∀ t f, 0 < (s.thread t).handles f → ∃ b : ℕ, f = b ∧ Marked s.sfs.disk.blocks b ∧
    ∀ g k, InTree s.sfs.disk.blocks g k → owns s.sfs.disk.blocks (.node g k) b → g = b

/-- A directory entry that refers to the block of an open file is an old one. -/
def NotHandedOut [DecidableEq τ] (s : State τ) (a : Action τ) : Prop :=
  ∀ s', step s a = some s' → ∀ t (b : ℕ), 0 < (s.thread t).handles b →
    ∀ p i k, Link s'.sfs.disk.blocks p i b k → Link s.sfs.disk.blocks p i b k

/-- The calls are those of the four operations, and creations and removals do not overlap. -/
def CallsSerial (s : State τ) : Action τ → Prop
  | .call _ (.openFile _) => True
  | .call _ (.closeFile _) => True
  | .call _ (.create _ _) => ∀ t, (s.thread t).pc.changesTree = false
  | .call _ (.remove _) => ∀ t, (s.thread t).pc.changesTree = false
  | .call _ (.read _ _ _) => False
  | .call _ (.write _ _ _ _) => False
  | .proceed _ => True

/-- If leaving the entry gives the blocks of its file back, nobody has resolved the file. -/
def ExitsUnresolved (s : State τ) : Option (Slot × Bool) → Prop
  | some (e, isCloseOp) => (s.sfs.openFiles e).isDeleted = true →
      exitCount (s.sfs.openFiles e) isCloseOp = 0 →
      ∀ t, (s.thread t).pc.resolved ≠ some (s.sfs.openFiles e).fileid
  | none => True

/-- **The condition on a step.** -/
def FreesUnresolved (s : State τ) : Action τ → Prop
  | .call _ _ => True
  | .proceed t => ExitsUnresolved s (s.thread t).pc.exits

section

variable [Fintype τ] (s : State τ)

instance : ∀ a, Decidable (CallsSerial s a)
  | .call _ (.openFile _) => isTrue trivial
  | .call _ (.closeFile _) => isTrue trivial
  | .call _ (.create _ _) => inferInstanceAs (Decidable (∀ _, _))
  | .call _ (.remove _) => inferInstanceAs (Decidable (∀ _, _))
  | .call _ (.read _ _ _) => isFalse id
  | .call _ (.write _ _ _ _) => isFalse id
  | .proceed _ => isTrue trivial

instance : ∀ o, Decidable (ExitsUnresolved s o)
  | some (_, _) => inferInstanceAs (Decidable (_ → _ → ∀ _, _))
  | none => isTrue trivial

instance : ∀ a, Decidable (FreesUnresolved s a)
  | .call _ _ => isTrue trivial
  | .proceed _ => inferInstanceAs (Decidable (ExitsUnresolved _ _))

end

/-! ## Sections -/

/-- What a section leaves alone: paths are resolved as before. -/
def KeepsPaths (s s' : Sfs) : Prop := ∀ path, sfsResolveFileExt s' path = sfsResolveFileExt s path

/-- A new directory entry refers to a node that was not live. -/
def KeepsLinks (s s' : Sfs) (pins : Pins) : Prop :=
  ∀ ⦃b kb⦄, Live s.disk.blocks s.openFiles pins (.node b kb) →
    ∀ ⦃p i k⦄, Link s'.disk.blocks p i b k → Link s.disk.blocks p i b k

/-- The directories are as before. -/
structure TreeKept (s s' : Sfs) : Prop where
  tree : SameTree s.disk.blocks s'.disk.blocks
  disk : s'.disk = s.disk.withBlocks s'.disk.blocks

theorem TreeKept.of_disk {s s' : Sfs} (h : s'.disk = s.disk) : TreeKept s s' where
  tree := fun _ _ => by rw [h]
  disk := by
    rw [h]
    rfl

theorem TreeKept.keepsPaths {s s' : Sfs} (h : TreeKept s s') : KeepsPaths s s' := by
  intro path
  have hread : ∀ b, s'.disk.blocks b = s.disk.blocks b → readVblock s'.disk b = readVblock s.disk b := by
    intro b hb
    have htotal : s'.disk.totalBlocks = s.disk.totalBlocks := by
      rw [h.disk]
      rfl
    have herror : s'.disk.error = s.disk.error := by
      rw [h.disk]
      rfl
    rw [readVblock, readVblock, htotal, herror, hb]
  rw [sfsResolveFileExt, sfsResolveFileExt]
  split_ifs
  · exact resolveLoop_sameTree h.tree hread _ _ _ (pathElems_folders _) fun _ => .root
  · rfl

theorem TreeKept.keepsLinks {s s' : Sfs} (h : TreeKept s s') (pins : Pins) : KeepsLinks s s' pins :=
  fun _ _ _ _ _ _ hl => (h.tree.link_iff _ _ _ _).1 hl

variable {s s' : Sfs} {pins pins' : Pins}

theorem sfsEnterExt_disk (s : Sfs) {f : ℤ} (q : ℤ) (isFolder : Bool) (h0 : 0 ≤ f) :
    (sfsEnterExt s f q true isFolder false).2.disk = s.disk := by
  obtain he | ⟨e, he, -⟩ := sfsEnterExt_open s q isFolder h0
  · rw [he]
  · rw [he]
    rfl

/-- **Leaving** keeps the directories. -/
theorem exit_treeKept (h : Inv s pins) {e : Slot} {f : ℕ} (he : (s.openFiles e).fileid = f)
    (isCloseOp : Bool) : TreeKept s (sfsExit s e isCloseOp) := by
  obtain ⟨-, hexit⟩ | ⟨-, -, hexit⟩ | ⟨-, -, hexit⟩ := sfsExit_cases s e isCloseOp
  · rw [hexit]
    exact TreeKept.of_disk rfl
  · rw [hexit]
    exact TreeKept.of_disk rfl
  · obtain ⟨bat, hdel, -⟩ := h.freeing
      (s := s.setEntry e { s.openFiles e with timesOpened := 0 }) (f := f)
      (s.openFiles e).isFolder (Or.inr (Or.inl ⟨e, he, rfl⟩)) rfl
    rw [hexit, he, hdel]
    exact ⟨h.vol.sameTree_alloc bat, rfl⟩

/-- **Entering to delete** takes an entry away. -/
theorem enterDelete_keepsLinks (h : Inv s pins) {p i f : ℕ} {k : Kind} (isFolder : Bool)
    (hl : Link s.disk.blocks p i f k) : KeepsLinks s (sfsEnterExt s f p true isFolder true).2 pins := by
  intro b kb _ p' i' k' hl'
  obtain he | ⟨e, he, -⟩ := h.enterDelete_spec isFolder hl
  · rw [he] at hl'
    exact hl'
  · rw [he] at hl'
    exact (shrinks_unlinkBlocks p f).link hl'

/-- **A creation** makes an entry for a block that was not in use. -/
theorem create_keepsLinks (h : Inv s pins) {path : List UInt8} {p idx f : ℕ} {data : List ℕ} {size : ℕ}
    (hc : CreateOk s s' path p idx f data size) : KeepsLinks s s' pins := by
  intro b kb hlive p' i' k' hl'
  obtain hl | ⟨-, -, rfl, -⟩ := ((hc.grows h).link_iff p' i' b k').1 hl'
  · exact hl
  · exact absurd List.mem_cons_self (hc.created.not_fresh h.vol hlive (Or.inl rfl))

/-- A thread that has resolved a file of the tree pins it. -/
theorem pin (h : Inv s pins) {f : ℕ} {q : ℤ} {k : Kind} (hf : InTree s.disk.blocks f k)
    (hq : ∀ {p i k}, Link s.disk.blocks p i f k → q = p)
    (hp : ∀ {g r k'}, pins' g r k' → pins g r k' ∨ g = f ∧ r = q ∧ k' = k) : Inv s pins' := by
  refine ⟨h.small, h.onDisk, h.works, h.vol.refile ?_ h.vol.distinct h.vol.free h.vol.parent
    h.vol.deleted ?_⟩
  · rintro g k' (hg | hg | ⟨r, hr⟩)
    · exact Or.inl hg
    · exact Or.inr (Or.inl hg)
    · obtain hr | ⟨rfl, -, rfl⟩ := hp hr
      · exact Or.inr (Or.inr ⟨r, hr⟩)
      · exact Or.inl hf
  · intro r p i g k1 k2 hr hl
    obtain hr | ⟨rfl, rfl, -⟩ := hp hr
    · exact h.vol.pinned hr hl
    · exact hq hl

/-! ## The invariant -/

/-- The checks that `sfs_create` has passed when it takes `sfs->lock`. -/
structure Passed (path : List UInt8) (size : Int32) (r : Resolved) : Prop where
  valid : ¬ sfsIsValidPath path = false
  nonneg : ¬ (if sfsIsFolder path then 0 else size.toInt) < 0
  fits : ¬ numVblocks (if sfsIsFolder path then 0 else size.toInt) > SFS_BLOCKS_MAX
  missing : ¬ (r.block ≠ VFS_ERROR ∨ r.parentInode < 0 ∨ r.parentExists = false)

/-- What a thread found out is still so. -/
structure Ready (sfs : Sfs) (pc : Pc) : Prop where
  opening : ∀ {path r}, pc = .opening path r → 0 ≤ r.block
  removing : ∀ {path r}, pc = .removing path r →
    sfsResolveFileExt sfs path = r ∧ r.block ≠ VFS_ERROR ∧ path ≠ [SLASH]
  creating : ∀ {path size r}, pc = .creating path size r →
    sfsResolveFileExt sfs path = r ∧ Passed path size r
  quiet : pc.transfers = false

/-- The files that are resolved by `sfs_open` and not entered. -/
def pinsOf (s : State τ) : Pins := fun f q k => ∃ t path r, (s.thread t).pc = .opening path r ∧
  r.block = f ∧ r.parentInode = q ∧ kindOf (sfsIsFolder path) = k

/-- **The invariant.** -/
structure Kept [Fintype τ] (s : State τ) : Prop where
  counted : Counted s
  inv : Inv s.sfs (pinsOf s)
  ready : ∀ t, Ready s.sfs (s.thread t).pc
  serial : ∀ {t t'}, (s.thread t).pc.changesTree = true → (s.thread t').pc.changesTree = true → t = t'

theorem Ready.keep {sfs sfs' : Sfs} {pc : Pc} (h : Ready sfs pc) (hp : KeepsPaths sfs sfs') :
    Ready sfs' pc where
  opening := h.opening
  removing := by
    intro path r hpc
    rw [hp path]
    exact h.removing hpc
  creating := by
    intro path size r hpc
    rw [hp path]
    exact h.creating hpc
  quiet := h.quiet

theorem Ready.other {sfs sfs' : Sfs} {pc : Pc} (h : Ready sfs pc) (hpc : pc.changesTree = false) :
    Ready sfs' pc where
  opening := h.opening
  removing := by
    rintro path r rfl
    cases hpc
  creating := by
    rintro path size r rfl
    cases hpc
  quiet := h.quiet

/-- A place with nothing found out. -/
theorem ready_plain {sfs : Sfs} {pc : Pc} (hr : pc.resolved = none)
    (hc : pc.changesTree = false ∨ ∃ e f, pc = .removed e f) (hq : pc.transfers = false) :
    Ready sfs pc where
  opening := by
    rintro path r rfl
    cases hr
  removing := by
    rintro path r rfl
    obtain hc | ⟨e, f, hc⟩ := hc <;> cases hc
  creating := by
    rintro path size r rfl
    obtain hc | ⟨e, f, hc⟩ := hc <;> cases hc
  quiet := hq

section Keep

variable [Fintype τ] {s : State τ}

/-- An open file is live. -/
theorem Kept.live (h : Kept s) {t : τ} {f : ℤ} (hf : 0 < (s.thread t).handles f) :
    ∃ (b : ℕ) (kb : Kind), f = b ∧ Live s.sfs.disk.blocks s.sfs.openFiles (pinsOf s) (.node b kb) := by
  have huses : 0 < (s.thread t).uses f := by
    rw [Thread.uses]
    omega
  obtain ⟨h0, e, he⟩ := h.counted.entered (uses_pos huses)
  refine ⟨f.toNat, _, (Int.toNat_of_nonneg h0).symm, Or.inr (Or.inl ⟨e, ?_, rfl⟩)⟩
  rw [Int.toNat_of_nonneg h0]
  exact he

theorem Kept.allocated (h : Kept s) : Allocated s := by
  intro t f hf
  obtain ⟨b, kb, rfl, hlive⟩ := h.live hf
  refine ⟨b, rfl, h.inv.vol.marked hlive (Or.inl rfl), fun g k hg hown => ?_⟩
  have hnode := h.inv.vol.own.unique (o := .node g k) (Or.inl hg) hlive hown (Or.inl rfl)
  cases hnode
  rfl

variable [DecidableEq τ]

omit [Fintype τ] in
theorem pinsOf_update {sfs : Sfs} {t : τ} {th : Thread} (hth : th.pc.resolved = none) {f : ℕ} {q : ℤ}
    {k : Kind} (h : pinsOf ⟨sfs, Function.update s.thread t th⟩ f q k) : pinsOf s f q k := by
  obtain ⟨t', path, r, hpc, hf, hq, hk⟩ := h
  by_cases ht : t' = t
  · subst ht
    simp only [Function.update_self] at hpc
    rw [hpc] at hth
    cases hth
  · simp only [Function.update_of_ne ht] at hpc
    exact ⟨t', path, r, hpc, hf, hq, hk⟩

/-- **One thread moves on.** -/
theorem Kept.advance (h : Kept s) {sfs : Sfs} {t : τ} {th : Thread}
    (hcounted : Counted ⟨sfs, Function.update s.thread t th⟩)
    (hinv : Inv sfs (pinsOf ⟨sfs, Function.update s.thread t th⟩))
    (hpaths : KeepsPaths s.sfs sfs ∨ (s.thread t).pc.changesTree = true) (hready : Ready sfs th.pc)
    (hserial : th.pc.changesTree = true →
      (s.thread t).pc.changesTree = true ∨ ∀ t', (s.thread t').pc.changesTree = false) :
    Kept ⟨sfs, Function.update s.thread t th⟩ := by
  -- nobody else changes the tree when the thread does
  have halone : th.pc.changesTree = true → ∀ t', t' ≠ t → (s.thread t').pc.changesTree = false := by
    intro hth t' ht'
    obtain ht | hno := hserial hth
    · by_contra hc
      exact ht' (h.serial (by simpa using hc) ht)
    · exact hno t'
  refine ⟨hcounted, hinv, fun t' => ?_, fun {t1 t2} h1 h2 => ?_⟩
  · by_cases ht : t' = t
    · subst ht
      simp only [Function.update_self]
      exact hready
    · simp only [Function.update_of_ne ht]
      obtain hp | hc := hpaths
      · exact (h.ready t').keep hp
      · apply (h.ready t').other
        by_contra hc'
        exact ht (h.serial (by simpa using hc') hc)
  · by_cases ht1 : t1 = t <;> by_cases ht2 : t2 = t
    · rw [ht1, ht2]
    · subst ht1
      simp only [Function.update_self] at h1
      simp only [Function.update_of_ne ht2] at h2
      rw [halone h1 t2 ht2] at h2
      cases h2
    · subst ht2
      simp only [Function.update_self] at h2
      simp only [Function.update_of_ne ht1] at h1
      rw [halone h2 t1 ht1] at h1
      cases h1
    · simp only [Function.update_of_ne ht1] at h1
      simp only [Function.update_of_ne ht2] at h2
      exact h.serial h1 h2

/-- A thread moves on, and the file system stays. -/
theorem Kept.stay (h : Kept s) {t : τ} {th : Thread} (hcounted : Counted ⟨s.sfs, Function.update s.thread t th⟩)
    (hr : th.pc.resolved = none) (hready : Ready s.sfs th.pc)
    (hserial : th.pc.changesTree = true → ∀ t', (s.thread t').pc.changesTree = false) :
    Kept ⟨s.sfs, Function.update s.thread t th⟩ :=
  h.advance hcounted (h.inv.unpin fun hp => pinsOf_update hr hp) (.inl fun _ => rfl) hready
    fun hth => .inr (hserial hth)

end Keep

/-! ## Steps -/

/-- The section of `sfs_create`, after its checks, is what is left of it. -/
theorem sfsCreate_passed {sfs : Sfs} {path : List UInt8} {size : Int32} {r : Resolved}
    (hr : sfsResolveFileExt sfs path = r) (hp : Passed path size r) :
    sfsCreate sfs path size = sfsCreateIn sfs r.parentInode.toNat path (sfsIsFolder path)
      (if sfsIsFolder path then 0 else size.toInt).toNat
      (numVblocks (if sfsIsFolder path then 0 else size.toInt)) := by
  simp only [sfsCreate]
  rw [if_neg hp.valid, if_neg hp.nonneg, if_neg hp.fits, hr, if_neg hp.missing]

section Steps

variable [Fintype τ] [DecidableEq τ] {s s' : State τ} {t : τ}

/-- **The first step of a call.** -/
theorem Kept.begin (h : Kept s) {c : Call} (hidle : (s.thread t).pc = .idle)
    (hc : CallsSerial s (.call t c)) (hs : begin s t c = some s') : Kept s' ∧ s'.sfs = s.sfs := by
  have hcounted := h.counted.begin hidle hs
  have hret : ∀ r, Counted (s.ret t r) → Kept (s.ret t r) := fun r hcounted =>
    h.stay hcounted rfl (ready_plain rfl (.inl rfl) rfl) fun hth => by cases hth
  cases c with
  | openFile path =>
    rw [Threads.begin] at hs
    split_ifs at hs with hr <;> cases hs
    · exact ⟨hret _ hcounted, rfl⟩
    · obtain ⟨f, hf, htree, hparent, -⟩ := h.inv.resolved hr
      refine ⟨h.advance hcounted (pin h.inv htree (q := (sfsResolveFileExt s.sfs path).parentInode)
        hparent ?_) (.inl fun _ => rfl) ⟨?_, ?_, ?_, rfl⟩
        (fun hth => by cases hth), rfl⟩
      · rintro g q k ⟨t', path', r, hpc, hg, hq, hk⟩
        by_cases ht : t' = t
        · subst ht
          simp only [Function.update_self] at hpc
          cases hpc
          exact .inr ⟨Int.ofNat_inj.1 (hg.symm.trans hf), hq.symm, hk.symm⟩
        · simp only [Function.update_of_ne ht] at hpc
          exact .inl ⟨t', path', r, hpc, hg, hq, hk⟩
      · rintro path' r ⟨⟩
        rw [hf]
        exact Int.natCast_nonneg f
      · rintro path' r ⟨⟩
      · rintro path' size r ⟨⟩
  | closeFile f =>
    rw [Threads.begin] at hs
    split_ifs at hs with hf
    cases hs
    rw [State.enter] at hcounted ⊢
    have h0 : 0 ≤ f := by
      obtain ⟨b, -, rfl, -⟩ := h.live (Nat.pos_of_ne_zero hf)
      exact Int.natCast_nonneg b
    obtain ⟨he, -⟩ | ⟨e, he, -⟩ := sfsEnter_spec s.sfs h0
    · rw [he] at hcounted ⊢
      exact ⟨hret _ hcounted, rfl⟩
    · rw [he] at hcounted ⊢
      exact ⟨h.stay hcounted rfl (ready_plain rfl (.inl rfl) rfl) (fun hth => by cases hth), rfl⟩
  | create path size =>
    simp only [Threads.begin] at hs
    generalize hsize : (if sfsIsFolder path = true then (0 : ℤ) else size.toInt) = size' at hs
    split_ifs at hs with h1 h2 h3 h4 <;> cases hs
    · exact ⟨hret _ hcounted, rfl⟩
    · exact ⟨hret _ hcounted, rfl⟩
    · exact ⟨hret _ hcounted, rfl⟩
    · exact ⟨hret _ hcounted, rfl⟩
    · refine ⟨h.stay hcounted rfl ⟨?_, ?_, ?_, rfl⟩ fun _ => hc, rfl⟩
      · rintro path' r ⟨⟩
      · rintro path' r ⟨⟩
      · rintro path' size r ⟨⟩
        exact ⟨rfl, h1, by rw [hsize]; exact h2, by rw [hsize]; exact h3, h4⟩
  | remove path =>
    rw [Threads.begin] at hs
    split_ifs at hs with hr <;> cases hs
    · exact ⟨hret _ hcounted, rfl⟩
    · simp only [not_or] at hr
      refine ⟨h.stay hcounted rfl ⟨?_, ?_, ?_, rfl⟩ fun _ => hc, rfl⟩
      · rintro path' r ⟨⟩
      · rintro path' r ⟨⟩
        exact ⟨rfl, hr⟩
      · rintro path' size r ⟨⟩
  | read f bufsize offset => cases hc
  | write tid f data offset => cases hc

/-- `sfs_open` enters. -/
theorem Kept.opening (h : Kept s) {path : List UInt8} {r : Resolved}
    (hpc : (s.thread t).pc = .opening path r) (hs : proceed s t = some s') :
    Kept s' ∧ KeepsLinks s.sfs s'.sfs (pinsOf s) := by
  have hcounted := h.counted.proceed hs
  have h0 := (h.ready t).opening hpc
  have hf : r.block = r.block.toNat := (Int.toNat_of_nonneg h0).symm
  have hpin : pinsOf s r.block.toNat r.parentInode (kindOf (sfsIsFolder path)) :=
    ⟨t, path, r, hpc, hf, rfl, rfl⟩
  have hinv : ∀ {pins' : Pins}, (∀ {g q k}, pins' g q k → pinsOf s g q k) →
      Inv (sfsEnterExt s.sfs r.block r.parentInode true (sfsIsFolder path) false).2 pins' := by
    intro pins' hp
    rw [hf]
    exact h.inv.enter (Or.inr (Or.inr ⟨_, hpin⟩)) (fun hl => h.inv.vol.pinned hpin hl) hp
  have hkept := TreeKept.of_disk (sfsEnterExt_disk s.sfs r.parentInode (sfsIsFolder path) h0)
  simp only [Threads.proceed, hpc] at hs
  generalize sfsEnterExt s.sfs r.block r.parentInode true (sfsIsFolder path) false = x at hs hinv hkept
  obtain ⟨o, sfs⟩ := x
  cases o with
  | none =>
    cases hs
    exact ⟨h.advance hcounted (hinv fun hp => pinsOf_update rfl hp) (.inl hkept.keepsPaths)
      (ready_plain rfl (.inl rfl) rfl) (fun hth => by cases hth), hkept.keepsLinks _⟩
  | some e =>
    cases hs
    exact ⟨h.advance hcounted (hinv fun hp => pinsOf_update rfl hp) (.inl hkept.keepsPaths)
      (ready_plain rfl (.inl rfl) rfl) (fun hth => by cases hth), hkept.keepsLinks _⟩

/-- `sfs_remove` enters. -/
theorem Kept.removing (h : Kept s) {path : List UInt8} {r : Resolved}
    (hpc : (s.thread t).pc = .removing path r) (hs : proceed s t = some s') :
    Kept s' ∧ KeepsLinks s.sfs s'.sfs (pinsOf s) := by
  have hcounted := h.counted.proceed hs
  obtain ⟨hr, hfound, hroot⟩ := (h.ready t).removing hpc
  rw [← hr] at hfound
  obtain ⟨f, hf, -, -, hlink⟩ := h.inv.resolved hfound
  obtain ⟨p, i, hl, hp⟩ := hlink hroot
  rw [hr] at hf hp
  have hinv : ∀ {pins' : Pins}, (∀ {g q k}, pins' g q k → pinsOf s g q k) →
      Inv (sfsEnterExt s.sfs r.block r.parentInode true (sfsIsFolder path) true).2 pins' := by
    intro pins' hpins
    rw [hf, hp]
    exact h.inv.enterDelete hl hpins
  have hlinks := enterDelete_keepsLinks h.inv (sfsIsFolder path) hl
  rw [← hf, ← hp] at hlinks
  have hself : (s.thread t).pc.changesTree = true := by
    rw [hpc]
    rfl
  simp only [Threads.proceed, hpc] at hs
  generalize sfsEnterExt s.sfs r.block r.parentInode true (sfsIsFolder path) true = x at hs hinv hlinks
  obtain ⟨o, sfs⟩ := x
  cases o with
  | none =>
    cases hs
    exact ⟨h.advance hcounted (hinv fun hp => pinsOf_update rfl hp) (.inr hself)
      (ready_plain rfl (.inl rfl) rfl) fun _ => .inl hself, hlinks⟩
  | some e =>
    cases hs
    exact ⟨h.advance hcounted (hinv fun hp => pinsOf_update rfl hp) (.inr hself)
      (ready_plain rfl (.inr ⟨e, r.block, rfl⟩) rfl) fun _ => .inl hself, hlinks⟩

/-- The section of `sfs_create`. -/
theorem Kept.creating (h : Kept s) {path : List UInt8} {size : Int32} {r : Resolved}
    (hpc : (s.thread t).pc = .creating path size r) (hs : proceed s t = some s') :
    Kept s' ∧ KeepsLinks s.sfs s'.sfs (pinsOf s) := by
  have hcounted := h.counted.proceed hs
  obtain ⟨hr, hpassed⟩ := (h.ready t).creating hpc
  have hself : (s.thread t).pc.changesTree = true := by
    rw [hpc]
    rfl
  simp only [Threads.proceed, hpc] at hs
  rw [← sfsCreate_passed hr hpassed] at hs
  have hspec : Inv (sfsCreate s.sfs path size).2 (pinsOf s) ∧
      KeepsLinks s.sfs (sfsCreate s.sfs path size).2 (pinsOf s) := by
    obtain ⟨sfs, p, idx, f, data, hcreate, hok⟩ | hcreate := sfsCreate_spec h.inv path size
    · rw [hcreate]
      exact ⟨h.inv.create hok, create_keepsLinks h.inv hok⟩
    · rw [hcreate]
      exact ⟨h.inv, fun _ _ _ _ _ _ hl => hl⟩
  cases hs
  exact ⟨h.advance hcounted (hspec.1.unpin fun hp => pinsOf_update rfl hp) (.inr hself)
    (ready_plain rfl (.inl rfl) rfl) (fun hth => by cases hth), hspec.2⟩

/-- A call leaves its entry, and nobody has resolved a file whose blocks it gives back. -/
theorem Kept.exit (h : Kept s) {e : Slot} {f : ℤ} {isCloseOp : Bool} {th : Thread}
    (hexits : (s.thread t).pc.exits = some (e, isCloseOp)) (hentry : (s.thread t).pc.entry = some (e, f))
    (hc : FreesUnresolved s (.proceed t)) (hth : th.pc = .idle)
    (hcounted : Counted ⟨sfsExit s.sfs e isCloseOp, Function.update s.thread t th⟩) :
    Kept ⟨sfsExit s.sfs e isCloseOp, Function.update s.thread t th⟩ ∧
      KeepsLinks s.sfs (sfsExit s.sfs e isCloseOp) (pinsOf s) := by
  obtain ⟨hid, h0⟩ := h.counted.holds hentry
  have hf : (s.sfs.openFiles e).fileid = f.toNat := by rw [hid, Int.toNat_of_nonneg h0]
  have hkept := exit_treeKept h.inv hf isCloseOp
  rw [FreesUnresolved, hexits] at hc
  have hinv : Inv (sfsExit s.sfs e isCloseOp) (pinsOf s) := by
    refine h.inv.exit hf fun hd hzero q k hpin => ?_
    obtain ⟨t', path, r, hpc, hg, -⟩ := hpin
    refine hc hd hzero t' ?_
    rw [hpc, hf, ← hg]
    rfl
  refine ⟨h.advance hcounted (hinv.unpin fun hp => pinsOf_update ?_ hp) (.inl hkept.keepsPaths) ?_ ?_,
    hkept.keepsLinks _⟩
  · rw [hth]
    rfl
  · rw [hth]
    exact ready_plain rfl (.inl rfl) rfl
  · rw [hth]
    intro hth
    cases hth

/-- **A step inside a call.** -/
theorem Kept.proceed (h : Kept s) (hc : FreesUnresolved s (.proceed t)) (hs : proceed s t = some s') :
    Kept s' ∧ KeepsLinks s.sfs s'.sfs (pinsOf s) := by
  have hcounted := h.counted.proceed hs
  have hquiet := (h.ready t).quiet
  cases hpc : (s.thread t).pc with
  | idle =>
    simp only [Threads.proceed, hpc] at hs
    cases hs
  | opening path r => exact h.opening hpc hs
  | opened e f =>
    simp only [Threads.proceed, hpc] at hs
    cases hs
    exact ⟨h.stay hcounted rfl (ready_plain rfl (.inl rfl) rfl) (fun hth => by cases hth),
      fun _ _ _ _ _ _ hl => hl⟩
  | checked e f isDeleted =>
    have hexits : (s.thread t).pc.exits = some (e, isDeleted) := by rw [hpc]; rfl
    have hentry : (s.thread t).pc.entry = some (e, f) := by rw [hpc]; rfl
    simp only [Threads.proceed, hpc] at hs
    split_ifs at hs <;> cases hs
    · exact h.exit hexits hentry hc rfl hcounted
    · exact h.exit hexits hentry hc rfl hcounted
  | closing e f =>
    have hexits : (s.thread t).pc.exits = some (e, true) := by rw [hpc]; rfl
    have hentry : (s.thread t).pc.entry = some (e, f) := by rw [hpc]; rfl
    simp only [Threads.proceed, hpc] at hs
    cases hs
    exact h.exit hexits hentry hc rfl hcounted
  | creating path size r => exact h.creating hpc hs
  | removing path r => exact h.removing hpc hs
  | removed e f =>
    have hexits : (s.thread t).pc.exits = some (e, true) := by rw [hpc]; rfl
    have hentry : (s.thread t).pc.entry = some (e, f) := by rw [hpc]; rfl
    simp only [Threads.proceed, hpc] at hs
    cases hs
    exact h.exit hexits hentry hc rfl hcounted
  | _ =>
    rw [hpc] at hquiet
    cases hquiet

/-- **One step.** -/
theorem Kept.step {a : Action τ} (hc : CallsSerial s a ∧ FreesUnresolved s a) (h : Kept s)
    (hs : step s a = some s') : Kept s' ∧ KeepsLinks s.sfs s'.sfs (pinsOf s) := by
  cases a with
  | call t c =>
    rw [Threads.step] at hs
    split at hs
    · obtain ⟨hkept, hsfs⟩ := h.begin ‹_› hc.1 hs
      refine ⟨hkept, fun _ _ _ _ _ _ hl => ?_⟩
      rw [hsfs] at hl
      exact hl
    · cases hs
  | proceed t => exact h.proceed hc.2 hs

end Steps

/-! ## Runs -/

section Runs

variable [Fintype τ]

theorem kept_init {disk : Gbd} (hwf : WellFormed disk) (hw : disk.Works) : Kept (State.init τ disk) where
  counted := counted_init disk
  inv := by
    refine (hwf.inv hw).unpin fun hp => ?_
    obtain ⟨t, path, r, hpc, -⟩ := hp
    cases hpc
  ready := fun _ => ready_plain rfl (.inl rfl) rfl
  serial := fun h => by cases h

variable [DecidableEq τ]

/-- **An open file keeps its block**: on a well-formed volume and a working device, in every run of
`sfs_open`, `sfs_close`, `sfs_create` and `sfs_remove` in which no file is given back between the two
sections of an `sfs_open` of it. -/
theorem sfs_handles {disk : Gbd} (hwf : WellFormed disk) (hw : disk.Works) {as : List (Action τ)}
    {s : State τ} (hc : Every step (fun s a => CallsSerial s a ∧ FreesUnresolved s a)
      (State.init τ disk) as)
    (hr : Transition.run step (State.init τ disk) as = some s) :
    Allocated s ∧ Every step NotHandedOut (State.init τ disk) as := by
  have hstep : ∀ {s a s'}, CallsSerial s a ∧ FreesUnresolved s a → Kept s → step s a = some s' →
      Kept (τ := τ) s' := fun hc hk hs => (Kept.step hc hk hs).1
  have hkept : Kept s := run_invariant hstep (kept_init hwf hw) hc hr
  refine ⟨hkept.allocated, Every.of_invariant hstep (fun hc hk => ?_) (kept_init hwf hw) hc⟩
  intro s' hs t b hb p i k hl
  obtain ⟨b', kb, hbb, hlive⟩ := hk.live hb
  cases Int.ofNat_inj.1 hbb
  exact (Kept.step hc hk hs).2 hlive hl

end Runs

/-- One thread makes a file, opens it and removes it, and the other one opens and closes the root. -/
def orderlyRun : List (Action Bool) :=
  [.call false (.create [SLASH, 102] 0), .proceed false, .call false (.openFile [SLASH, 102]),
    .call true (.openFile [SLASH]), .proceed false, .proceed true, .proceed false, .proceed false,
    .call false (.remove [SLASH, 102]), .proceed false, .proceed true, .proceed true,
    .call true (.closeFile 2), .proceed false, .proceed true]

theorem sfs_handles_orderly :
    ∃ s, Transition.run step (State.init Bool emptyVolume) orderlyRun = some s ∧
      (s.thread false).handles 3 = 1 ∧ Allocated s ∧
      Every step NotHandedOut (State.init Bool emptyVolume) orderlyRun := by
  have hrun : ∃ s, Transition.run step (State.init Bool emptyVolume) orderlyRun = some s ∧
      (s.thread false).handles 3 = 1 := by decide +kernel
  have hc : Every step (fun s a => CallsSerial s a ∧ FreesUnresolved s a)
      (State.init Bool emptyVolume) orderlyRun := by decide +kernel
  obtain ⟨s, hr, h1⟩ := hrun
  exact ⟨s, hr, h1, sfs_handles emptyVolume_wellFormed emptyVolume_works hc hr⟩

/-! ## A file that was given back -/

/-- A thread makes a file, another one begins to open it, it is removed, and the open goes on; then the
first thread begins to make another file. -/
def freedRun : List (Action Bool) :=
  [.call false (.create [SLASH, 102] 0), .proceed false, .call true (.openFile [SLASH, 102]),
    .call false (.remove [SLASH, 102]), .proceed false, .proceed false, .proceed true, .proceed true,
    .proceed true, .call false (.create [SLASH, 103] 0)]

/-- **A handle of a file that was given back**: its block is not marked, and becomes the block of the next
file. -/
theorem sfs_open_freed :
    Every step CallsSerial (State.init Bool emptyVolume) (freedRun ++ [.proceed false]) ∧
      (∃ s, Transition.run step (State.init Bool emptyVolume) freedRun = some s ∧ ¬ Allocated s) ∧
      ¬ Every step NotHandedOut (State.init Bool emptyVolume) (freedRun ++ [.proceed false]) := by
  have hserial : Every step CallsSerial (State.init Bool emptyVolume) (freedRun ++ [.proceed false]) := by
    decide +kernel
  have hbefore : ∃ s, Transition.run step (State.init Bool emptyVolume) freedRun = some s ∧
      0 < (s.thread true).handles 3 ∧ ¬ Marked s.sfs.disk.blocks 3 ∧
      direntInode (s.sfs.disk.blocks 2) 24 = 0 ∧ ∃ s', step s (.proceed false) = some s' ∧
        direntInode (s'.sfs.disk.blocks 2) 24 = 3 ∧
        direntKind (s'.sfs.disk.blocks 2) 24 = .file := by decide +kernel
  obtain ⟨s, hr, hhandle, hmark, hold, s', hs', hnew, hkind⟩ := hbefore
  refine ⟨hserial, ⟨s, hr, fun h => ?_⟩, fun h => ?_⟩
  · obtain ⟨b, hb, hmarked, -⟩ := h true 3 hhandle
    cases Int.ofNat_inj.1 hb
    exact hmark hmarked
  · have hlink : Link s'.sfs.disk.blocks 2 24 3 .file := ⟨.root, by decide, hnew, by decide, hkind⟩
    have hlast := h.last hr s' hs' true 3 hhandle 2 24 .file hlink
    rw [hlast.inode] at hold
    cases hold

end Buenos.Fs.Threads

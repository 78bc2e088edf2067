import Buenos.Fs.Sfs.Sharing

/-!
# Reads and writes of one file are isolated

The transfers of `sfs_read` and `sfs_write` calls on one file interleave block by block.  With the
protocol in order (`Fs.Sfs.Sharing`) a writer is alone between its entry section and `sfs_end_write`, so
that the transfers of a write are those of the write run alone, and those of a read see the disk between
two writes.

* `applied` — the disk after some writes, each run alone.
* `contents` — the bytes of the file after some writes.

Principal result: `read_write_isolated`.
-/

namespace Buenos.Fs.Sharing

open BlockProgram Transition

/-- The disk after writes to the file, one after another. -/
def applied (f : ℕ) (ws : List WriteCall) (disk : Gbd) : Gbd :=
  ws.foldl (fun disk c => ((writeProg f c).run gbdDevice disk).2) disk

theorem applied_append (f : ℕ) (ws : List WriteCall) (c : WriteCall) (disk : Gbd) :
    applied f (ws ++ [c]) disk = ((writeProg f c).run gbdDevice (applied f ws disk)).2 := by
  simp [applied]

/-- What the disk and the threads have to do with the writes that have ended: the transfers that a
thread still has to do give, on the disk as it is, what its whole call gives on the disk between the
writes. -/
structure Data (f : ℕ) (isFolder : Bool) (disk : Gbd) (s : State) : Prop where
  fileid : s.file.fileid = f
  folder : s.file.isFolder = isFolder
  quiet : (∀ t, (s.pc t).isWriting = false) → s.disk = applied f s.written disk
  writing : ∀ {t c p}, s.pc t = .writing c p →
    p.run gbdDevice s.disk = (writeProg f c).run gbdDevice (applied f s.written disk)
  reading : ∀ {t c p}, s.pc t = .reading c p → p.ReadOnly ∧
    p.run gbdDevice s.disk =
      (readBody f isFolder c.bufsize c.offset).run gbdDevice (applied f s.written disk)
  results : ∀ x ∈ s.results, ∃ ws, ws <+: s.written ∧
    x.2 = ((readBody f isFolder x.1.bufsize x.1.offset).run gbdDevice (applied f ws disk)).1

section Exclusion

variable {s : State} {t u : ℕ}

theorem isReserved_of_isWriting {x : Pc} (h : x.isWriting = true) : x.isReserved = true := by
  cases x with
  | writing c p => rfl
  | outside => cases h
  | waiting loop b => cases h
  | reading c p => cases h

/-- **A writer is alone.** -/
theorem Protocol.exclusive (h : Protocol s) (ht : (s.pc t).isWriting = true) (hu : u ≠ t) :
    (s.pc u).isReading = false ∧ (s.pc u).isWriting = false := by
  have hzero := h.counts.drained t ht
  constructor
  · by_contra hr
    rw [Bool.not_eq_false] at hr
    obtain ⟨R, hR, hn⟩ := h.counts.readers
    have := Finset.card_pos.2 ⟨u, (hR u).2 hr⟩
    omega
  · by_contra hw
    rw [Bool.not_eq_false] at hw
    have h1 := (h.counts.reserved t).1 (isReserved_of_isWriting ht)
    have h2 := (h.counts.reserved u).1 (isReserved_of_isWriting hw)
    omega

/-- Nobody writes a file that nobody has. -/
theorem Protocol.none_writing (h : Protocol s) (hw : s.file.writerTid = -1) (u : ℕ) :
    (s.pc u).isWriting = false := by
  by_contra hu
  rw [Bool.not_eq_false] at hu
  have := (h.counts.reserved u).1 (isReserved_of_isWriting hu)
  omega

end Exclusion

section Steps

variable {f : ℕ} {isFolder : Bool} {disk : Gbd} {s : State} {t : ℕ}

/-- A thread waits; the entry changes in its counters only. -/
theorem Data.wait (h : Data f isFolder disk s) (file : OpenFile) (h1 : file.fileid = s.file.fileid)
    (h2 : file.isFolder = s.file.isFolder) (hw : (s.pc t).isWriting = false) {loop : Loop} {b : Bool} :
    Data f isFolder disk (State.goto { s with file := file } t (.waiting loop b)) := by
  have hpc : ∀ {u : ℕ} {x : Pc}, Function.update s.pc t (.waiting loop b) u = x →
      u ≠ t ∧ s.pc u = x ∨ x = .waiting loop b := by
    intro u x hx
    by_cases hut : u = t
    · subst hut
      rw [Function.update_self] at hx
      exact Or.inr hx.symm
    · rw [Function.update_of_ne hut] at hx
      exact Or.inl ⟨hut, hx⟩
  refine ⟨h1.trans h.fileid, h2.trans h.folder, fun hq => h.quiet fun u => ?_, fun hp => ?_, fun hp => ?_,
    h.results⟩
  · by_cases hut : u = t
    · rw [hut, hw]
    · have := hq u
      simpa [State.goto, hut] using this
  · rcases hpc hp with ⟨-, hp⟩ | hp
    · exact h.writing hp
    · cases hp
  · rcases hpc hp with ⟨-, hp⟩ | hp
    · exact h.reading hp
    · cases hp

/-- A reader begins: nobody writes. -/
theorem Data.startRead (h : Data f isFolder disk s) (file : OpenFile) (h1 : file.fileid = s.file.fileid)
    (h2 : file.isFolder = s.file.isFolder) (hno : ∀ u, (s.pc u).isWriting = false) (c : ReadCall) :
    Data f isFolder disk (State.goto { s with file := file } t (.reading c (s.readProg c))) := by
  have hdisk := h.quiet hno
  refine ⟨h1.trans h.fileid, h2.trans h.folder, fun _ => hdisk, fun {u c' p} hp => ?_,
    fun {u c' p} hp => ?_, h.results⟩
  · by_cases hut : u = t
    · simp [State.goto, hut] at hp
    · simp only [State.goto, Function.update_of_ne hut] at hp
      exact h.writing hp
  · by_cases hut : u = t
    · simp only [State.goto, hut, Function.update_self, Pc.reading.injEq] at hp
      obtain ⟨rfl, rfl⟩ := hp
      simp only [State.goto, State.readProg, h.fileid, h.folder, Int.toNat_natCast, hdisk]
      exact ⟨readBody_readOnly _ _ _ _, trivial⟩
    · simp only [State.goto, Function.update_of_ne hut] at hp
      exact h.reading hp

/-- A writer begins: nobody writes. -/
theorem Data.startWrite (h : Data f isFolder disk s) (file : OpenFile) (h1 : file.fileid = s.file.fileid)
    (h2 : file.isFolder = s.file.isFolder) (hno : ∀ u, (s.pc u).isWriting = false) (c : WriteCall) :
    Data f isFolder disk
      (State.goto { s with file := file } t (.writing c (writeProg file.fileid.toNat c))) := by
  have hdisk := h.quiet hno
  refine ⟨h1.trans h.fileid, h2.trans h.folder, fun _ => hdisk, fun {u c' p} hp => ?_,
    fun {u c' p} hp => ?_, h.results⟩
  · by_cases hut : u = t
    · simp only [State.goto, hut, Function.update_self, Pc.writing.injEq] at hp
      obtain ⟨rfl, rfl⟩ := hp
      simp only [State.goto, h1, h.fileid, Int.toNat_natCast, hdisk]
    · simp only [State.goto, Function.update_of_ne hut] at hp
      exact h.writing hp
  · by_cases hut : u = t
    · simp [State.goto, hut] at hp
    · simp only [State.goto, Function.update_of_ne hut] at hp
      exact h.reading hp

theorem Data.drainSection (h : Data f isFolder disk s) (file : OpenFile) (h1 : file.fileid = s.file.fileid)
    (h2 : file.isFolder = s.file.isFolder) (hno : ∀ u, (s.pc u).isWriting = false) (c : WriteCall) :
    Data f isFolder disk (State.drainSection { s with file := file } t c) := by
  unfold State.drainSection
  split
  · exact h.wait file h1 h2 (hno t)
  · exact h.startWrite file h1 h2 hno c

theorem Data.entrySection (h : Data f isFolder disk s) (hp : Protocol s) {loop : Loop}
    (hpc : (s.pc t = .outside ∧ ∀ c, loop ≠ .drain c) ∨ s.pc t = .waiting loop true) :
    Data f isFolder disk (s.entrySection t loop) := by
  have hw : (s.pc t).isWriting = false := by
    rcases hpc with ⟨hpc, -⟩ | hpc <;> rw [hpc] <;> rfl
  cases loop with
  | reader c =>
    simp only [State.entrySection, readEntry]
    by_cases hfree : s.file.writerTid = -1
    · rw [if_neg (by simpa using hfree)]
      exact h.startRead { s.file with readernum := s.file.readernum + 1 } rfl rfl (hp.none_writing hfree) c
    · rw [if_pos hfree]
      exact h.wait s.file rfl rfl hw
  | writer c =>
    simp only [State.entrySection, writeReserve]
    by_cases hfree : s.file.writerTid = -1
    · rw [if_neg (by simpa using hfree)]
      exact h.drainSection { s.file with writerTid := t } rfl rfl (hp.none_writing hfree) c
    · rw [if_pos hfree]
      exact h.wait s.file rfl rfl hw
  | drain c =>
    have hpt : s.pc t = .waiting (.drain c) true := by
      rcases hpc with ⟨-, hno⟩ | hpc
      · exact absurd rfl (hno c)
      · exact hpc
    have hno : ∀ u, (s.pc u).isWriting = false := by
      intro u
      by_contra hu
      rw [Bool.not_eq_false] at hu
      by_cases hut : u = t
      · rw [hut, hw] at hu
        cases hu
      · have h1 := (hp.counts.reserved t).1 (by rw [hpt]; rfl)
        have h2 := (hp.counts.reserved u).1 (isReserved_of_isWriting hu)
        omega
    exact h.drainSection s.file rfl rfl hno c

/-- A transfer of a reader. -/
theorem Data.readTransfer (h : Data f isFolder disk s) {c : ReadCall} {p : Prog Block (ℤ × List UInt8)}
    (hp : s.pc t = .reading c p) :
    Data f isFolder disk (State.goto { s with disk := (p.step gbdDevice s.disk).2 } t
      (.reading c (p.step gbdDevice s.disk).1)) := by
  obtain ⟨hro, hrun⟩ := h.reading hp
  have hstep := @Prog.ReadOnly.step _ _ _ gbdDevice p hro s.disk
  have hsame := Prog.run_step gbdDevice p s.disk
  rw [hstep.2] at hsame ⊢
  refine ⟨h.fileid, h.folder, fun hq => h.quiet fun u => ?_, fun {u c' p'} hp' => ?_,
    fun {u c' p'} hp' => ?_, h.results⟩
  · by_cases hut : u = t
    · rw [hut, hp]
      rfl
    · have := hq u
      simpa [State.goto, hut] using this
  · by_cases hut : u = t
    · simp [State.goto, hut] at hp'
    · simp only [State.goto, Function.update_of_ne hut] at hp'
      exact h.writing hp'
  · by_cases hut : u = t
    · simp only [State.goto, hut, Function.update_self, Pc.reading.injEq] at hp'
      obtain ⟨rfl, rfl⟩ := hp'
      exact ⟨hstep.1, hsame.trans hrun⟩
    · simp only [State.goto, Function.update_of_ne hut] at hp'
      exact h.reading hp'

/-- A transfer of the writer, who is alone. -/
theorem Data.writeTransfer (h : Data f isFolder disk s) (hpr : Protocol s) {c : WriteCall} {p : Prog Block ℤ}
    (hp : s.pc t = .writing c p) :
    Data f isFolder disk (State.goto { s with disk := (p.step gbdDevice s.disk).2 } t
      (.writing c (p.step gbdDevice s.disk).1)) := by
  have hwt : (s.pc t).isWriting = true := by rw [hp]; rfl
  have hsame := Prog.run_step gbdDevice p s.disk
  refine ⟨h.fileid, h.folder, fun hq => ?_, fun {u c' p'} hp' => ?_, fun {u c' p'} hp' => ?_, h.results⟩
  · have := hq t
    simp [State.goto, Pc.isWriting] at this
  · by_cases hut : u = t
    · simp only [State.goto, hut, Function.update_self, Pc.writing.injEq] at hp'
      obtain ⟨rfl, rfl⟩ := hp'
      exact hsame.trans (h.writing hp)
    · simp only [State.goto, Function.update_of_ne hut] at hp'
      have := (hpr.exclusive hwt hut).2
      rw [hp'] at this
      cases this
  · by_cases hut : u = t
    · simp [State.goto, hut] at hp'
    · simp only [State.goto, Function.update_of_ne hut] at hp'
      have := (hpr.exclusive hwt hut).1
      rw [hp'] at this
      cases this

theorem signal_reading {x : Pc} {c : ReadCall} {p : Prog Block (ℤ × List UInt8)}
    (h : x.signal = .reading c p) : x = .reading c p := by
  cases x with
  | waiting loop b => cases h
  | outside => cases h
  | reading c p => exact h
  | writing c p => cases h

theorem signal_writing {x : Pc} {c : WriteCall} {p : Prog Block ℤ} (h : x.signal = .writing c p) :
    x = .writing c p := by
  cases x with
  | waiting loop b => cases h
  | outside => cases h
  | reading c p => cases h
  | writing c p => exact h

/-- A broadcast changes nothing here. -/
theorem Data.broadcast (h : Data f isFolder disk s) : Data f isFolder disk s.broadcast := by
  refine ⟨h.fileid, h.folder, fun hq => h.quiet fun u => ?_, fun hp => h.writing (signal_writing hp),
    fun hp => h.reading (signal_reading hp), h.results⟩
  have := hq u
  simp only [State.broadcast, (signal_same _).2.2.1] at this
  exact this

/-- A thread leaves, and is not a writer. -/
theorem Data.leave (h : Data f isFolder disk s) (hw : (s.pc t).isWriting = false) :
    Data f isFolder disk (s.goto t .outside) := by
  refine ⟨h.fileid, h.folder, fun hq => h.quiet fun u => ?_, fun {u c p} hp => ?_, fun {u c p} hp => ?_,
    h.results⟩
  · by_cases hut : u = t
    · rw [hut, hw]
    · have := hq u
      simpa [State.goto, hut] using this
  · by_cases hut : u = t
    · simp [State.goto, hut] at hp
    · simp only [State.goto, Function.update_of_ne hut] at hp
      exact h.writing hp
  · by_cases hut : u = t
    · simp [State.goto, hut] at hp
    · simp only [State.goto, Function.update_of_ne hut] at hp
      exact h.reading hp

/-- **A read returns** what it returns on the disk after the writes so far. -/
theorem Data.endRead (h : Data f isFolder disk s) {c : ReadCall} {r : ℤ × List UInt8}
    (hp : s.pc t = .reading c (.ret r)) : Data f isFolder disk (s.endRead t c r) := by
  have hrun := (h.reading hp).2
  have hnew : Data f isFolder disk
      { s with file := readExit s.file, results := s.results ++ [(c, r)] } := by
    refine ⟨h.fileid, h.folder, h.quiet, h.writing, h.reading, fun x hx => ?_⟩
    rcases List.mem_append.1 hx with hx | hx
    · exact h.results x hx
    · rw [List.mem_singleton] at hx
      subst hx
      exact ⟨s.written, List.prefix_rfl, congrArg Prod.fst hrun⟩
  have hw : (s.pc t).isWriting = false := by rw [hp]; rfl
  unfold State.endRead
  simp only
  split
  · refine hnew.broadcast.leave ?_
    simp only [State.broadcast, (signal_same _).2.2.1]
    exact hw
  · exact hnew.leave hw

/-- **A write ends** with the disk as it leaves it when it runs alone. -/
theorem Data.endWrite (h : Data f isFolder disk s) (hpr : Protocol s) {c : WriteCall} {r : ℤ}
    (hp : s.pc t = .writing c (.ret r)) : Data f isFolder disk (s.endWrite t c) := by
  have hwt : (s.pc t).isWriting = true := by rw [hp]; rfl
  have hdisk : s.disk = applied f (s.written ++ [c]) disk := by
    rw [applied_append, ← h.writing hp]
    rfl
  have hother : ∀ {u x}, (s.endWrite t c).pc u = x →
      x.isReading = true ∨ x.isWriting = true → False := by
    intro u x hx hor
    simp only [State.endWrite, State.goto, State.broadcast] at hx
    by_cases hut : u = t
    · subst hut
      rw [Function.update_self] at hx
      subst hx
      rcases hor with h1 | h1 <;> cases h1
    · rw [Function.update_of_ne hut] at hx
      subst hx
      obtain ⟨h1, h2⟩ := hpr.exclusive hwt hut
      rw [(signal_same _).1, (signal_same _).2.2.1, h1, h2] at hor
      simp at hor
  refine ⟨h.fileid, h.folder, fun _ => hdisk, fun hp' => ?_, fun hp' => ?_, fun x hx => ?_⟩
  · exact absurd (hother hp' (Or.inr rfl)) not_false
  · exact absurd (hother hp' (Or.inl rfl)) not_false
  · obtain ⟨ws, hws, heq⟩ := h.results x hx
    exact ⟨ws, hws.trans (List.prefix_append _ _), heq⟩

end Steps

/-- **Every step** keeps the data in order. -/
theorem Data.step {f : ℕ} {isFolder : Bool} {disk : Gbd} {s s' : State} (h : Data f isFolder disk s)
    (hpr : Protocol s) {a : Action} (hs : step s a = some s') : Data f isFolder disk s' := by
  cases a with
  | read t c =>
    simp only [Sharing.step] at hs
    split at hs
    · rename_i hp
      cases hs
      exact h.entrySection hpr (Or.inl ⟨hp, fun _ h => (by cases h)⟩)
    · cases hs
  | write t c =>
    simp only [Sharing.step] at hs
    split at hs
    · rename_i hp
      split at hs
      · cases hs
      · cases hs
        exact h.entrySection hpr (Or.inl ⟨hp, fun _ h => (by cases h)⟩)
    · cases hs
  | wakeup t =>
    simp only [Sharing.step] at hs
    split at hs
    · rename_i loop hp
      cases hs
      exact h.entrySection hpr (Or.inr hp)
    · cases hs
  | transfer t =>
    simp only [Sharing.step] at hs
    split at hs
    · rename_i c p hp
      cases hs
      exact h.readTransfer hp
    · rename_i c p hp
      cases hs
      exact h.writeTransfer hpr hp
    · cases hs
  | endRead t =>
    simp only [Sharing.step] at hs
    split at hs
    · rename_i c r hp
      cases hs
      exact h.endRead hp
    · cases hs
  | endWrite t =>
    simp only [Sharing.step] at hs
    split at hs
    · rename_i c r hp
      cases hs
      exact h.endWrite hpr hp
    · cases hs

theorem run_data {f : ℕ} {isFolder : Bool} {disk : Gbd} {as : List Action} {s : State}
    (hr : Transition.run step (State.init f isFolder disk) as = some s) : Protocol s ∧ Data f isFolder disk s := by
  refine run_always (I := fun s => Protocol s ∧ Data f isFolder disk s) ?_
    ⟨protocol_init f isFolder disk, ?_⟩ hr
  · rintro s a s' ⟨hp, hd⟩ hs
    exact ⟨hp.step hs, hd.step hp hs⟩
  · exact ⟨rfl, rfl, fun _ => rfl, nofun, nofun, nofun⟩

/-! ## The contents of the file -/

/-- The bytes of a file after writes. -/
def contents (bytes : List UInt8) (ws : List WriteCall) : List UInt8 :=
  ws.foldl (fun bytes c => (writeAt bytes c.data c.offset).2) bytes

/-- A write leaves the inode of its file alone. -/
theorem FileOk.write {disk : Gbd} {f : ℕ} (h : FileOk disk f) (c : WriteCall) :
    FileOk ((writeProg f c).run gbdDevice disk).2 f ∧
      fileBytes ((writeProg f c).run gbdDevice disk).2.blocks f =
        (writeAt (fileBytes disk.blocks f) c.data c.offset).2 := by
  obtain ⟨blocks, hrun, hbytes⟩ := writeBody_spec h.shape c.data c.offset
  obtain ⟨blocks', hsame, hun⟩ := writeBody_frame disk f c.data c.data.length c.offset
  have hprog : writeProg f c = writeBody f c.data c.data.length c.offset := rfl
  rw [hprog, hrun]
  rw [hrun] at hsame
  have hblocks : blocks = blocks' := congrArg Gbd.blocks hsame
  subst hblocks
  have hinode : blocks f = disk.blocks f := hun f ⟨h.inode_ne, h.ne⟩
  refine ⟨⟨h.works, h.inode_lt, h.inode_ne, ?_, ?_, ?_, ?_, ?_⟩, hbytes⟩
  all_goals simp only [withBlocks_blocks, withBlocks_totalBlocks, hinode]
  · exact h.size
  · exact h.lt
  · exact h.ne
  · exact h.pos
  · exact h.inj

theorem FileOk.applied {f : ℕ} : ∀ (ws : List WriteCall) {disk : Gbd}, FileOk disk f →
    FileOk (applied f ws disk) f ∧
      fileBytes (Sharing.applied f ws disk).blocks f = contents (fileBytes disk.blocks f) ws
  | [], _, h => ⟨h, rfl⟩
  | c :: ws, disk, h => by
    obtain ⟨h1, h2⟩ := FileOk.write h c
    obtain ⟨h3, h4⟩ := FileOk.applied ws h1
    refine ⟨h3, h4.trans ?_⟩
    rw [h2]
    rfl

/-- **Reads and writes of one file are isolated.**  In every state of every run no thread is in the read
or write section while another one writes; every read has returned what it returns when it runs alone
on the disk after a prefix of the writes, in the order in which they held `writer_tid`; and when nobody
writes, the disk is what these writes leave one after another.  For a file that is in order this says:
every read returns bytes of the contents after a prefix of the writes, and the contents are the writes
applied in order. -/
theorem read_write_isolated (f : ℕ) (isFolder : Bool) (disk : Gbd) (as : List Action) (s : State)
    (hr : Transition.run step (State.init f isFolder disk) as = some s) :
    (∀ t, (s.pc t).isWriting = true → ∀ u, u ≠ t →
      (s.pc u).isReading = false ∧ (s.pc u).isWriting = false) ∧
    (∀ x ∈ s.results, ∃ ws, ws <+: s.written ∧
      x.2 = ((readBody f isFolder x.1.bufsize x.1.offset).run gbdDevice (applied f ws disk)).1) ∧
    ((∀ t, (s.pc t).isWriting = false) → s.disk = applied f s.written disk) ∧
    (FileOk disk f → isFolder = false →
      (∀ x ∈ s.results, ∃ ws, ws <+: s.written ∧
        x.2 = readAt (contents (fileBytes disk.blocks f) ws) x.1.bufsize x.1.offset) ∧
      ((∀ t, (s.pc t).isWriting = false) →
        fileBytes s.disk.blocks f = contents (fileBytes disk.blocks f) s.written)) := by
  obtain ⟨hp, hd⟩ := run_data hr
  refine ⟨fun t ht u hu => hp.exclusive ht hu, hd.results, hd.quiet, fun hok hfile =>
    ⟨fun x hx => ?_, fun hq => ?_⟩⟩
  · obtain ⟨ws, hws, heq⟩ := hd.results x hx
    obtain ⟨h1, h2⟩ := FileOk.applied ws hok
    refine ⟨ws, hws, ?_⟩
    rw [heq, hfile, readBody_spec h1.shape, h2]
  · rw [hd.quiet hq]
    exact (FileOk.applied s.written hok).2

/-- Thread 2 writes while thread 1 waits, which then reads what has been written. -/
def readAfterWrite : List Action :=
  [.write 2 ⟨[1, 2], 1⟩, .read 1 ⟨4, 0⟩, .transfer 2, .transfer 2, .transfer 2, .endWrite 2, .wakeup 1,
    .transfer 1, .transfer 1, .endRead 1]

theorem smallDisk_ok : FileOk smallDisk 3 := by
  have hsize : inodeFilesize (smallDisk.blocks 3) = 4 := by decide +kernel
  have hblocks : ∀ j < 127, inodeBlock (smallDisk.blocks 3) j = if j = 0 then 4 else 0 := by decide +kernel
  refine ⟨fun b _ => rfl, by decide, by decide, by rw [hsize]; decide, fun j hj => ?_, fun j hj => ?_,
    fun j hj => ?_, fun j hj j' hj' hne heq => ?_⟩
  · rw [hblocks j hj]
    split <;> decide
  · rw [hblocks j hj]
    split <;> decide
  · obtain rfl : j = 0 := by omega
    rw [hblocks 0 (by decide)]
    decide
  · rw [hblocks j hj] at hne heq
    rw [hblocks j' hj'] at heq
    by_cases h0 : j = 0
    · by_cases h0' : j' = 0
      · omega
      · rw [if_pos h0, if_neg h0'] at heq
        cases heq
    · rw [if_neg h0] at hne
      exact absurd rfl hne

theorem read_write_isolated_readAfterWrite :
    ∃ s, Transition.run step (State.init 3 false smallDisk) readAfterWrite = some s ∧
      s.results.map Prod.snd = [(4, [7, 1, 2, 7])] ∧
      (∀ x ∈ s.results, ∃ ws, ws <+: s.written ∧
        x.2 = readAt (contents (fileBytes smallDisk.blocks 3) ws) x.1.bufsize x.1.offset) := by
  have hrun : ∃ s, Transition.run step (State.init 3 false smallDisk) readAfterWrite = some s ∧
      s.results.map Prod.snd = [(4, [7, 1, 2, 7])] := by decide +kernel
  obtain ⟨s, hs, h1⟩ := hrun
  obtain ⟨-, -, -, hfile⟩ := read_write_isolated 3 false smallDisk readAfterWrite s hs
  exact ⟨s, hs, h1, (hfile smallDisk_ok rfl).1⟩

end Buenos.Fs.Sharing

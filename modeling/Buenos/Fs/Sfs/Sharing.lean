import Buenos.Base.Transition
import Buenos.Fs.Sfs.ReadWrite

/-!
# Readers and writers of one file

`sfs_read` and `sfs_write` on one entry of the table of open files, by any number of threads.  Each
section under `io_lock` and each block transfer is a step, and a thread that is signalled on `io_cond`
looks at its condition again when it runs.

* `Loop` — the three `while` loops around `condition_wait`.
* `Pc` — where in `sfs_read` or `sfs_write` a thread is; the transfers that are left to do are a block
  program.
* `State` — also the writes in the order in which they held `writer_tid`, and what reads returned.

Principal results: `io_cond_no_lost_wakeup` — who sleeps on `io_cond` sleeps for a reason;
`read_write_isolated` — a writer is alone, every read returns what a read between two writes returns,
and the contents of the file are the result of the writes one after another.
-/

namespace Buenos.Fs.Sharing

open BlockProgram Transition

/-! ## The steps -/

/-- `sfs_read`: the size of the buffer and the offset. -/
structure ReadCall where
  bufsize : ℕ
  offset : ℤ

/-- `sfs_write`: the data and the offset. -/
structure WriteCall where
  data : List UInt8
  offset : ℤ

/-- The loops around `condition_wait`: a reader or a writer waits for the writer that has the file, a
writer that has it waits for the readers inside. -/
inductive Loop where
  | reader (c : ReadCall)
  | writer (c : WriteCall)
  | drain (c : WriteCall)

/-- Where a thread is. -/
inductive Pc where
  | outside
  | waiting (loop : Loop) (signalled : Bool)
  | reading (c : ReadCall) (p : Prog Block (ℤ × List UInt8))
  | writing (c : WriteCall) (p : Prog Block ℤ)

/-- `condition_broadcast`, for one thread. -/
def Pc.signal : Pc → Pc
  | .waiting loop _ => .waiting loop true
  | pc => pc

/-- The entry of the file, the disk, the threads, the writes that have ended in the order in which they
held `writer_tid`, and what the reads that have ended returned. -/
structure State where
  file : OpenFile
  disk : Gbd
  pc : ℕ → Pc
  written : List WriteCall
  results : List (ReadCall × ℤ × List UInt8)

/-- An entry that has just been opened. -/
def State.init (fileid : ℕ) (isFolder : Bool) (disk : Gbd) : State where
  file := { sfsResetEntry with timesOpened := 1, fileid := fileid, isFolder := isFolder }
  disk := disk
  pc := fun _ => .outside
  written := []
  results := []

def State.goto (s : State) (t : ℕ) (pc : Pc) : State := { s with pc := Function.update s.pc t pc }

/-- The transfers of a read. -/
def State.readProg (s : State) (c : ReadCall) : Prog Block (ℤ × List UInt8) :=
  readBody s.file.fileid.toNat s.file.isFolder c.bufsize c.offset

/-- The transfers of a write. -/
def writeProg (fileid : ℕ) (c : WriteCall) : Prog Block ℤ := writeBody fileid c.data c.data.length c.offset

/-- The condition of the last loop of `sfs_write` and what follows. -/
def State.drainSection (s : State) (t : ℕ) (c : WriteCall) : State :=
  if s.file.readernum > 0 then s.goto t (.waiting (.drain c) false)
  else s.goto t (.writing c (writeProg s.file.fileid.toNat c))

/-- The section under `io_lock` from the condition of a loop on, until the thread waits or is done. -/
def State.entrySection (s : State) (t : ℕ) : Loop → State
  | .reader c => match readEntry s.file with
    | none => s.goto t (.waiting (.reader c) false)
    | some f => State.goto { s with file := f } t (.reading c (s.readProg c))
  | .writer c => match writeReserve t s.file with
    | none => s.goto t (.waiting (.writer c) false)
    | some f => State.drainSection { s with file := f } t c
  | .drain c => s.drainSection t c

def State.broadcast (s : State) : State := { s with pc := fun t => (s.pc t).signal }

/-- The section of `sfs_end_read`. -/
def State.endRead (s : State) (t : ℕ) (c : ReadCall) (r : ℤ × List UInt8) : State :=
  let s := { s with file := readExit s.file, results := s.results ++ [(c, r)] }
  State.goto (if s.file.readernum = 0 then s.broadcast else s) t .outside

/-- The section of `sfs_end_write`. -/
def State.endWrite (s : State) (t : ℕ) (c : WriteCall) : State :=
  State.goto (State.broadcast { s with file := writeExit s.file, written := s.written ++ [c] }) t .outside

inductive Action where
  | read (t : ℕ) (c : ReadCall)
  | write (t : ℕ) (c : WriteCall)
  /-- a signalled thread goes on after `condition_wait` -/
  | wakeup (t : ℕ)
  | transfer (t : ℕ)
  | endRead (t : ℕ)
  | endWrite (t : ℕ)

/-- One step; `none` if the thread is not there.  `sfs_write` returns before its entry section if the
file is a folder. -/
def step (s : State) : Action → Option State
  | .read t c => match s.pc t with
    | .outside => some (s.entrySection t (.reader c))
    | _ => none
  | .write t c => match s.pc t with
    | .outside => if s.file.isFolder then none else some (s.entrySection t (.writer c))
    | _ => none
  | .wakeup t => match s.pc t with
    | .waiting loop true => some (s.entrySection t loop)
    | _ => none
  | .transfer t => match s.pc t with
    | .reading c p =>
      some (State.goto { s with disk := (p.step gbdDevice s.disk).2 } t
        (.reading c (p.step gbdDevice s.disk).1))
    | .writing c p =>
      some (State.goto { s with disk := (p.step gbdDevice s.disk).2 } t
        (.writing c (p.step gbdDevice s.disk).1))
    | _ => none
  | .endRead t => match s.pc t with
    | .reading c (.ret r) => some (s.endRead t c r)
    | _ => none
  | .endWrite t => match s.pc t with
    | .writing c (.ret _) => some (s.endWrite t c)
    | _ => none

/-! ## The protocol -/

/-- The thread is between its increment and its decrement of `readernum`. -/
def Pc.isReading : Pc → Bool
  | .reading _ _ => true
  | _ => false

/-- The thread is between its two assignments to `writer_tid`. -/
def Pc.isReserved : Pc → Bool
  | .waiting (.drain _) _ => true
  | .writing _ _ => true
  | _ => false

def Pc.isWriting : Pc → Bool
  | .writing _ _ => true
  | _ => false

/-- The thread sleeps on `io_cond` and has not been signalled. -/
def Pc.isAsleep : Pc → Bool
  | .waiting _ false => true
  | _ => false

/-- The two fields count the threads that they stand for. -/
structure Counts (f : OpenFile) (pc : ℕ → Pc) : Prop where
  readers : ∃ R : Finset ℕ, (∀ t, t ∈ R ↔ (pc t).isReading = true) ∧ f.readernum = R.card
  reserved : ∀ t : ℕ, (pc t).isReserved = true ↔ f.writerTid = t
  somebody : f.writerTid = -1 ∨ ∃ t : ℕ, f.writerTid = t
  drained : ∀ t, (pc t).isWriting = true → f.readernum = 0

/-- Nobody sleeps for nothing. -/
structure NoneLost (f : OpenFile) (pc : ℕ → Pc) : Prop where
  asleep : ∀ t, (pc t).isAsleep = true → f.writerTid ≠ -1
  draining : ∀ t, (pc t).isAsleep = true → (pc t).isReserved = true → 0 < f.readernum

section Protocol

variable {f f' : OpenFile} {pc : ℕ → Pc} {t : ℕ} {x : Pc}

theorem signal_same (x : Pc) : x.signal.isReading = x.isReading ∧ x.signal.isReserved = x.isReserved ∧
    x.signal.isWriting = x.isWriting ∧ x.signal.isAsleep = false := by
  cases x with
  | waiting loop b => cases loop <;> exact ⟨rfl, rfl, rfl, rfl⟩
  | outside => exact ⟨rfl, rfl, rfl, rfl⟩
  | reading c p => exact ⟨rfl, rfl, rfl, rfl⟩
  | writing c p => exact ⟨rfl, rfl, rfl, rfl⟩

/-- A broadcast moves nobody. -/
theorem Counts.signal (h : Counts f pc) : Counts f fun t => (pc t).signal := by
  obtain ⟨R, hR, hn⟩ := h.readers
  refine ⟨⟨R, fun t => ?_, hn⟩, fun t => ?_, h.somebody, fun t ht => h.drained t ?_⟩
  · rw [(signal_same _).1]
    exact hR t
  · rw [(signal_same _).2.1]
    exact h.reserved t
  · rwa [(signal_same _).2.2.1] at ht

/-- After a broadcast nobody sleeps. -/
theorem noneLost_signal : NoneLost f fun t => (pc t).signal := by
  refine ⟨fun t ht => ?_, fun t ht => ?_⟩
  · rw [(signal_same _).2.2.2] at ht
    cases ht
  · rw [(signal_same _).2.2.2] at ht
    cases ht

/-- One thread moves and the fields change with it. -/
theorem Counts.set (h : Counts f pc)
    (hn : f'.readernum + (pc t).isReading.toNat = f.readernum + x.isReading.toNat)
    (hx : x.isReserved = true ↔ f'.writerTid = t) (hu : ∀ u : ℕ, u ≠ t → (f'.writerTid = u ↔ f.writerTid = u))
    (hs : f'.writerTid = -1 ∨ ∃ u : ℕ, f'.writerTid = u)
    (hw : x.isWriting = true → f'.readernum = 0)
    (hd : f'.readernum = f.readernum ∨ ∀ u, u ≠ t → (pc u).isWriting = false) :
    Counts f' (Function.update pc t x) := by
  obtain ⟨R, hR, hcard⟩ := h.readers
  refine ⟨?_, fun u => ?_, hs, fun u => ?_⟩
  · cases hold : (pc t).isReading with
    | true =>
      have htR : t ∈ R := (hR t).2 hold
      cases hnew : x.isReading with
      | true =>
        refine ⟨R, fun u => ?_, by rw [hold, hnew] at hn; omega⟩
        by_cases hut : u = t
        · simp [hut, htR, hnew]
        · rw [Function.update_of_ne hut]
          exact hR u
      | false =>
        have hc := Finset.card_erase_add_one htR
        refine ⟨R.erase t, fun u => ?_, by rw [hold, hnew] at hn; simp at hn; omega⟩
        by_cases hut : u = t
        · simp [hut, hnew]
        · rw [Function.update_of_ne hut, Finset.mem_erase]
          exact ⟨fun hm => (hR u).1 hm.2, fun hm => ⟨hut, (hR u).2 hm⟩⟩
    | false =>
      have htR : t ∉ R := fun hm => by
        rw [(hR t).1 hm] at hold
        cases hold
      cases hnew : x.isReading with
      | true =>
        have hc := Finset.card_insert_of_notMem htR
        refine ⟨insert t R, fun u => ?_, by rw [hold, hnew] at hn; simp at hn; omega⟩
        by_cases hut : u = t
        · simp [hut, hnew]
        · rw [Function.update_of_ne hut, Finset.mem_insert]
          exact ⟨fun hm => (hR u).1 (hm.resolve_left hut), fun hm => Or.inr ((hR u).2 hm)⟩
      | false =>
        refine ⟨R, fun u => ?_, by rw [hold, hnew] at hn; omega⟩
        by_cases hut : u = t
        · simp [hut, htR, hnew]
        · rw [Function.update_of_ne hut]
          exact hR u
  · by_cases hut : u = t
    · subst hut
      rw [Function.update_self]
      exact hx
    · rw [Function.update_of_ne hut, hu u hut]
      exact h.reserved u
  · by_cases hut : u = t
    · subst hut
      rw [Function.update_self]
      exact hw
    · rw [Function.update_of_ne hut]
      intro hwu
      rcases hd with hd | hd
      · rw [hd]
        exact h.drained u hwu
      · rw [hd u hut] at hwu
        cases hwu

theorem NoneLost.set (h : NoneLost f pc) (h1 : f.writerTid ≠ -1 → f'.writerTid ≠ -1)
    (h2 : 0 < f.readernum → 0 < f'.readernum) (hx : x.isAsleep = true → f'.writerTid ≠ -1)
    (hd : x.isAsleep = true → x.isReserved = true → 0 < f'.readernum) :
    NoneLost f' (Function.update pc t x) := by
  refine ⟨fun u => ?_, fun u => ?_⟩
  · by_cases hut : u = t
    · subst hut
      rw [Function.update_self]
      exact hx
    · rw [Function.update_of_ne hut]
      exact fun hu => h1 (h.asleep u hu)
  · by_cases hut : u = t
    · subst hut
      rw [Function.update_self]
      exact hd
    · rw [Function.update_of_ne hut]
      exact fun hu hr => h2 (h.draining u hu hr)

end Protocol

/-- The protocol is in order. -/
structure Protocol (s : State) : Prop where
  counts : Counts s.file s.pc
  noneLost : NoneLost s.file s.pc

section Steps

variable {s : State} {t : ℕ}

theorem Counts.readernum_nonneg {f : OpenFile} {pc : ℕ → Pc} (h : Counts f pc) : 0 ≤ f.readernum := by
  obtain ⟨R, -, hn⟩ := h.readers
  omega

/-- **The last loop of `sfs_write`**, entered by the thread that has the file. -/
theorem Protocol.drainSection (h : Protocol s) {f : OpenFile} (hf : f.readernum = s.file.readernum)
    (hw : f.writerTid = t) (hold : s.file.writerTid = t ∨ s.file.writerTid = -1)
    (hr : (s.pc t).isReading = false) (c : WriteCall) :
    Protocol (State.drainSection { s with file := f } t c) := by
  have hu : ∀ u : ℕ, u ≠ t → (f.writerTid = u ↔ s.file.writerTid = u) := by
    intro u hut
    rw [hw]
    constructor
    · intro he
      exact absurd (by exact_mod_cast he.symm) hut
    · intro he
      rcases hold with h1 | h1
      · exact absurd (by exact_mod_cast he.symm.trans h1) hut
      · omega
  have hne : f.writerTid ≠ -1 := by omega
  unfold State.drainSection
  simp only [State.goto]
  split
  · rename_i hpos
    refine ⟨h.counts.set ?_ (by simp [Pc.isReserved, hw]) hu (Or.inr ⟨t, hw⟩) (by simp [Pc.isWriting])
      (Or.inl hf), h.noneLost.set (fun _ => hne) (fun h0 => by omega) (fun _ => hne) fun _ _ => hpos⟩
    rw [hf, hr]
    rfl
  · rename_i hpos
    have hzero : f.readernum = 0 := by
      have := h.counts.readernum_nonneg
      omega
    refine ⟨h.counts.set ?_ (by simp [Pc.isReserved, hw]) hu (Or.inr ⟨t, hw⟩) (fun _ => hzero)
      (Or.inl hf), h.noneLost.set (fun _ => hne) (fun h0 => by omega) nofun nofun⟩
    rw [hf, hr]
    rfl

/-- **The entry sections**, from the start of a call or after a signal. -/
theorem Protocol.entrySection (h : Protocol s) {loop : Loop}
    (hpc : (s.pc t = .outside ∧ ∀ c, loop ≠ .drain c) ∨ s.pc t = .waiting loop true) :
    Protocol (s.entrySection t loop) := by
  have hr : (s.pc t).isReading = false := by
    rcases hpc with ⟨hp, -⟩ | hp <;> rw [hp] <;> rfl
  cases loop with
  | reader c =>
    have hres : (s.pc t).isReserved = false := by
      rcases hpc with ⟨hp, -⟩ | hp <;> rw [hp] <;> rfl
    have hnot : s.file.writerTid ≠ t := fun he => by
      rw [(h.counts.reserved t).2 he] at hres
      cases hres
    simp only [State.entrySection, readEntry, State.goto]
    by_cases hw : s.file.writerTid = -1
    · rw [if_neg (by simpa using hw)]
      refine ⟨h.counts.set ?_ ?_ (fun u _ => Iff.rfl) (Or.inl hw) nofun (Or.inr fun u _ => ?_),
        h.noneLost.set id (fun h0 => ?_) nofun nofun⟩
      · rw [hr]
        simp [Pc.isReading]
      · simp [Pc.isReserved, hnot]
      · by_contra hu
        have hres' : (s.pc u).isReserved = true := by
          cases hpu : s.pc u <;> simp_all [Pc.isWriting, Pc.isReserved]
        have := (h.counts.reserved u).1 hres'
        omega
      · simp only
        omega
    · rw [if_pos hw]
      refine ⟨h.counts.set ?_ ?_ (fun u _ => Iff.rfl) h.counts.somebody nofun (Or.inl rfl),
        h.noneLost.set id id (fun _ => hw) nofun⟩
      · rw [hr]
        rfl
      · simp [Pc.isReserved, hnot]
  | writer c =>
    have hres : (s.pc t).isReserved = false := by
      rcases hpc with ⟨hp, -⟩ | hp <;> rw [hp] <;> rfl
    have hnot : s.file.writerTid ≠ t := fun he => by
      rw [(h.counts.reserved t).2 he] at hres
      cases hres
    simp only [State.entrySection, writeReserve, State.goto]
    by_cases hw : s.file.writerTid = -1
    · rw [if_neg (by simpa using hw)]
      exact h.drainSection (f := { s.file with writerTid := t }) rfl rfl (Or.inr hw) hr c
    · rw [if_pos hw]
      refine ⟨h.counts.set ?_ ?_ (fun u _ => Iff.rfl) h.counts.somebody nofun (Or.inl rfl),
        h.noneLost.set id id (fun _ => hw) nofun⟩
      · rw [hr]
        rfl
      · simp [Pc.isReserved, hnot]
  | drain c =>
    have hp : s.pc t = .waiting (.drain c) true := by
      rcases hpc with ⟨-, hno⟩ | hp
      · exact absurd rfl (hno c)
      · exact hp
    have hown : s.file.writerTid = t := (h.counts.reserved t).1 (by rw [hp]; rfl)
    exact h.drainSection (f := s.file) rfl hown (Or.inl hown) hr c

/-- **The section of `sfs_end_read`**: the last reader wakes everybody. -/
theorem Protocol.endRead (h : Protocol s) {c : ReadCall} {p : Prog Block (ℤ × List UInt8)}
    (hp : s.pc t = .reading c p) (r : ℤ × List UInt8) : Protocol (s.endRead t c r) := by
  have hr : (s.pc t).isReading = true := by rw [hp]; rfl
  have hnot : s.file.writerTid ≠ t := fun he => by
    have := (h.counts.reserved t).2 he
    rw [hp] at this
    cases this
  have hpos : 0 < s.file.readernum := by
    obtain ⟨R, hR, hn⟩ := h.counts.readers
    have := Finset.card_pos.2 ⟨t, (hR t).2 hr⟩
    omega
  have hnone : ∀ u, u ≠ t → (s.pc u).isWriting = false := by
    intro u _
    by_contra hu
    have := h.counts.drained u (by simpa using hu)
    omega
  have hcounts : Counts (readExit s.file) (Function.update s.pc t .outside) := by
    refine h.counts.set ?_ ?_ (fun u _ => Iff.rfl) h.counts.somebody nofun (Or.inr hnone)
    · rw [hr]
      simp [readExit, Pc.isReading]
    · simp [Pc.isReserved, readExit, hnot]
  unfold State.endRead
  simp only [State.goto]
  split
  · have hpc : Function.update (fun u => (s.pc u).signal) t .outside =
        fun u => (Function.update s.pc t .outside u).signal := by
      funext u
      by_cases hut : u = t
      · subst hut
        simp [Pc.signal]
      · simp [hut]
    refine ⟨?_, ?_⟩
    · simp only [State.broadcast, hpc]
      exact hcounts.signal
    · simp only [State.broadcast, hpc]
      exact noneLost_signal
  · rename_i hne
    refine ⟨hcounts, h.noneLost.set id (fun _ => ?_) nofun nofun⟩
    simp only [readExit] at hne ⊢
    omega

/-- **The section of `sfs_end_write`** wakes everybody. -/
theorem Protocol.endWrite (h : Protocol s) {c : WriteCall} {p : Prog Block ℤ}
    (hp : s.pc t = .writing c p) : Protocol (s.endWrite t c) := by
  have hown : s.file.writerTid = t := (h.counts.reserved t).1 (by rw [hp]; rfl)
  have hr : (s.pc t).isReading = false := by rw [hp]; rfl
  have hcounts : Counts (writeExit s.file) (Function.update s.pc t .outside) := by
    refine h.counts.set ?_ ?_ (fun u hut => ?_) (Or.inl rfl) nofun (Or.inl rfl)
    · rw [hr]
      rfl
    · simp [Pc.isReserved, writeExit]
    · have hu : s.file.writerTid ≠ u := by
        rw [hown]
        exact_mod_cast hut.symm
      simp [writeExit, hu]
  have hpc : Function.update (fun u => (s.pc u).signal) t .outside =
      fun u => (Function.update s.pc t .outside u).signal := by
    funext u
    by_cases hut : u = t
    · subst hut
      simp [Pc.signal]
    · simp [hut]
  refine ⟨?_, ?_⟩
  · simp only [State.endWrite, State.goto, State.broadcast, hpc]
    exact hcounts.signal
  · simp only [State.endWrite, State.goto, State.broadcast, hpc]
    exact noneLost_signal

/-- A transfer moves nobody. -/
theorem Protocol.transfer (h : Protocol s) {x : Pc} {disk : Gbd}
    (hr : x.isReading = (s.pc t).isReading) (hres : x.isReserved = (s.pc t).isReserved)
    (hw : x.isWriting = (s.pc t).isWriting) (ha : x.isAsleep = false) :
    Protocol (State.goto { s with disk := disk } t x) := by
  refine ⟨h.counts.set (by rw [hr]; rfl) ?_ (fun u _ => Iff.rfl) h.counts.somebody (fun hx => ?_) (Or.inl rfl),
    h.noneLost.set id id (fun hx => ?_) fun hx => ?_⟩
  · rw [hres]
    exact h.counts.reserved t
  · rw [hw] at hx
    exact h.counts.drained t hx
  · rw [ha] at hx
    cases hx
  · rw [ha] at hx
    cases hx

end Steps

/-- **Every step** keeps the protocol in order. -/
theorem Protocol.step {s s' : State} (h : Protocol s) {a : Action} (hs : step s a = some s') : Protocol s' := by
  cases a with
  | read t c =>
    simp only [Sharing.step] at hs
    split at hs
    · rename_i hp
      cases hs
      exact h.entrySection (Or.inl ⟨hp, nofun⟩)
    · cases hs
  | write t c =>
    simp only [Sharing.step] at hs
    split at hs
    · rename_i hp
      split at hs
      · cases hs
      · cases hs
        exact h.entrySection (Or.inl ⟨hp, nofun⟩)
    · cases hs
  | wakeup t =>
    simp only [Sharing.step] at hs
    split at hs
    · rename_i loop hp
      cases hs
      exact h.entrySection (Or.inr hp)
    · cases hs
  | transfer t =>
    simp only [Sharing.step] at hs
    split at hs
    · rename_i c p hp
      cases hs
      exact h.transfer (by rw [hp]; rfl) (by rw [hp]; rfl) (by rw [hp]; rfl) rfl
    · rename_i c p hp
      cases hs
      exact h.transfer (by rw [hp]; rfl) (by rw [hp]; rfl) (by rw [hp]; rfl) rfl
    · cases hs
  | endRead t =>
    simp only [Sharing.step] at hs
    split at hs
    · rename_i c r hp
      cases hs
      exact h.endRead hp r
    · cases hs
  | endWrite t =>
    simp only [Sharing.step] at hs
    split at hs
    · rename_i c r hp
      cases hs
      exact h.endWrite hp
    · cases hs

theorem protocol_init (fileid : ℕ) (isFolder : Bool) (disk : Gbd) :
    Protocol (State.init fileid isFolder disk) := by
  refine ⟨⟨⟨∅, fun t => ?_, rfl⟩, fun t => ?_, Or.inl rfl, nofun⟩, ⟨nofun, nofun⟩⟩
  · simp [State.init, Pc.isReading]
  · simp [State.init, Pc.isReserved, sfsResetEntry]

theorem run_protocol {fileid : ℕ} {isFolder : Bool} {disk : Gbd} {as : List Action} {s : State}
    (hr : Transition.run step (State.init fileid isFolder disk) as = some s) : Protocol s :=
  run_always (fun h hs => Protocol.step h hs) (protocol_init fileid isFolder disk) hr

/-- **No lost wake-up.**  In every state of every run `readernum` is the number of threads that read; who
sleeps on `io_cond` without having been signalled finds `writer_tid` set, and if it is its own, also
readers inside; so that once nobody reads, writes or is about to, nobody sleeps. -/
theorem io_cond_no_lost_wakeup (fileid : ℕ) (isFolder : Bool) (disk : Gbd) (as : List Action) (s : State)
    (hr : Transition.run step (State.init fileid isFolder disk) as = some s) :
    (∃ R : Finset ℕ, (∀ t, t ∈ R ↔ (s.pc t).isReading = true) ∧ s.file.readernum = R.card) ∧
    (∀ t : ℕ, (s.pc t).isAsleep = true → s.file.writerTid ≠ -1 ∧
      (s.file.writerTid = t → 0 < s.file.readernum)) ∧
    ((∀ u, (s.pc u).isReading = false ∧ (s.pc u).isWriting = false ∧ ∀ c, s.pc u ≠ .waiting (.drain c) true) →
      ∀ t, (s.pc t).isAsleep = false) := by
  have h := run_protocol hr
  have hown : ∀ t : ℕ, (s.pc t).isAsleep = true → s.file.writerTid = t → 0 < s.file.readernum :=
    fun t ht he => h.noneLost.draining t ht ((h.counts.reserved t).2 he)
  refine ⟨h.counts.readers, fun t ht => ⟨h.noneLost.asleep t ht, hown t ht⟩, fun hout t => ?_⟩
  by_contra ht
  rw [Bool.not_eq_false] at ht
  -- the thread that has the file is one of those that are inside, or it waits for a reader
  obtain ⟨w, hw⟩ := h.counts.somebody.resolve_left (h.noneLost.asleep t ht)
  have hres := (h.counts.reserved w).2 hw
  obtain ⟨h1, h2, h3⟩ := hout w
  cases hpc : s.pc w with
  | outside =>
    rw [hpc] at hres
    cases hres
  | reading c p =>
    rw [hpc] at hres
    cases hres
  | writing c p =>
    rw [hpc] at h2
    cases h2
  | waiting loop b =>
    cases b with
    | true =>
      cases loop with
      | reader c =>
        rw [hpc] at hres
        cases hres
      | writer c =>
        rw [hpc] at hres
        cases hres
      | drain c => exact h3 c hpc
    | false =>
      have hpos := hown w (by rw [hpc]; rfl) hw
      obtain ⟨R, hR, hn⟩ := h.counts.readers
      obtain ⟨u, hu⟩ := Finset.card_pos.1 (show 0 < R.card by omega)
      have := (hR u).1 hu
      rw [(hout u).1] at this
      cases this

/-- A disk with a file of four bytes: its inode is block 3, its data are in block 4. -/
def smallDisk : Gbd where
  totalBlocks := 5
  blocks := fun b =>
    if b = 3 then (Bytes.Buf.const 512 0).store 0 (Bytes.be32 4 ++ Bytes.be32 4) else Bytes.Buf.const 512 7
  error := fun _ => false

/-- A writer waits for a reader, a second reader for the writer. -/
theorem io_cond_no_lost_wakeup_three :
    ∃ s, Transition.run step (State.init 3 false smallDisk)
        [.read 1 ⟨4, 0⟩, .write 2 ⟨[1, 2], 1⟩, .read 3 ⟨4, 0⟩] = some s ∧
      (s.pc 2).isAsleep = true ∧ (s.pc 3).isAsleep = true ∧ s.file.writerTid ≠ -1 ∧ 0 < s.file.readernum := by
  have hrun : ∃ s, Transition.run step (State.init 3 false smallDisk)
      [.read 1 ⟨4, 0⟩, .write 2 ⟨[1, 2], 1⟩, .read 3 ⟨4, 0⟩] = some s ∧
      (s.pc 2).isAsleep = true ∧ (s.pc 3).isAsleep = true ∧ s.file.writerTid = (2 : ℕ) := by decide +kernel
  obtain ⟨s, hs, h2, h3, hw⟩ := hrun
  obtain ⟨-, hsleep, -⟩ := io_cond_no_lost_wakeup 3 false smallDisk _ s hs
  exact ⟨s, hs, h2, h3, (hsleep 3 h3).1, (hsleep 2 h2).2 hw⟩

end Buenos.Fs.Sharing

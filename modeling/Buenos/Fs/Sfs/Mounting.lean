import Buenos.Fs.Sfs.Leak
import Buenos.Vm.Pagepool

/-!
# What mounting takes and gives back

The four fixed tables that `sfs_init`, the SFS calls and `sfs_unmount` take from: locks and condition
variables (`lock_cond.c`), semaphores (`semaphore.c`) and the page pool.

* `Tables` — the tables, with the functions that create and destroy an entry; `none` is a
  `KERNEL_PANIC`, a failed assertion or a use of `NULL`.
* `Transfer` — a call of `read_vblock` or `write_vblock`, which creates a semaphore and destroys it.
* `sfsInitRun`, `sfsUnmountRun` — the two functions on the tables; between them run the calls of the
  model of SFS, each with any block transfers.
* `Cycle` — an attempt to mount a disk, and when it succeeds the calls and the unmount.

Principal results: `cycleStep_spec`, that a cycle on a disk that can be mounted keeps 32 locks and 32
condition variables, and `mounting_neutral_iff`.
-/

namespace Buenos.Mounting

open Buenos.Fs Buenos.Vm
open Buenos.Transition (count count_update count_le_card count_eq_card exists_of_count_lt)

def CONFIG_MAX_LOCKS : ℕ := 128
def CONFIG_MAX_CONDITION_VARIABLES : ℕ := 128
def CONFIG_MAX_SEMAPHORES : ℕ := 128
def LOCK_NO_THREAD : ℤ := -1
def SFS_MAGIC : ℕ := 3745

/-! ## The tables -/

/-- `lock_t`: what `lock_create` and `lock_destroy` use of it. -/
structure LockEntry where
  lockedId : ℤ
  isUsed : Bool
  deriving DecidableEq

/-- `lock_table`, the `is_used` of `cond_table`, the `creator` of `semaphore_table`, the `next` of
`semaphore_create`, and the page pool. -/
structure Tables (n : ℕ) where
  lockTable : Fin CONFIG_MAX_LOCKS → LockEntry
  condTable : Fin CONFIG_MAX_CONDITION_VARIABLES → Bool
  semaphoreTable : Fin CONFIG_MAX_SEMAPHORES → ℤ
  next : Fin CONFIG_MAX_SEMAPHORES
  pool : PagePool n

variable {n : ℕ}

/-- `lock_create`. -/
def lockCreate (t : Tables n) : Option (Fin CONFIG_MAX_LOCKS × Tables n) :=
  match (List.finRange CONFIG_MAX_LOCKS).find? fun i => !(t.lockTable i).isUsed with
  | none => none
  | some i =>
    some (i, { t with lockTable := Function.update t.lockTable i { t.lockTable i with isUsed := true } })

/-- `lock_destroy`. -/
def lockDestroy (t : Tables n) (lock : Fin CONFIG_MAX_LOCKS) : Option (Tables n) :=
  if (t.lockTable lock).lockedId = LOCK_NO_THREAD then
    some { t with lockTable := Function.update t.lockTable lock { t.lockTable lock with isUsed := false } }
  else none

/-- `condition_create`.  Its loop runs to `CONFIG_MAX_LOCKS`, which is also the length of the table. -/
def conditionCreate (t : Tables n) : Option (Fin CONFIG_MAX_CONDITION_VARIABLES × Tables n) :=
  match (List.finRange CONFIG_MAX_CONDITION_VARIABLES).find? fun i => !t.condTable i with
  | none => none
  | some i => some (i, { t with condTable := Function.update t.condTable i true })

/-- `(next + 1) % CONFIG_MAX_SEMAPHORES`. -/
def following (next : Fin CONFIG_MAX_SEMAPHORES) : Fin CONFIG_MAX_SEMAPHORES :=
  ⟨(next.val + 1) % CONFIG_MAX_SEMAPHORES, Nat.mod_lt _ (by decide)⟩

/-- The loop of `semaphore_create`: the semaphore found, and `next` after it. -/
def semaphoreLoop (creator : Fin CONFIG_MAX_SEMAPHORES → ℤ) :
    ℕ → Fin CONFIG_MAX_SEMAPHORES → Option (Fin CONFIG_MAX_SEMAPHORES) × Fin CONFIG_MAX_SEMAPHORES
  | 0, next => (none, next)
  | k + 1, next =>
    if creator next = -1 then (some next, following next) else semaphoreLoop creator k (following next)

/-- `semaphore_create` by the thread `tid`; `none` for `NULL`. -/
def semaphoreCreate (tid : ℕ) (t : Tables n) : Option (Fin CONFIG_MAX_SEMAPHORES) × Tables n :=
  match semaphoreLoop t.semaphoreTable CONFIG_MAX_SEMAPHORES t.next with
  | (none, next) => (none, { t with next := next })
  | (some sem, next) =>
    (some sem, { t with semaphoreTable := Function.update t.semaphoreTable sem tid, next := next })

/-- `semaphore_destroy`. -/
def semaphoreDestroy (t : Tables n) (sem : Fin CONFIG_MAX_SEMAPHORES) : Tables n :=
  { t with semaphoreTable := Function.update t.semaphoreTable sem (-1) }

/-- After `lock_table_init`, `cond_table_init`, `semaphore_init` and `pagepool_init`. -/
def Tables.init (pool : PagePool n) : Tables n where
  lockTable := fun _ => ⟨LOCK_NO_THREAD, false⟩
  condTable := fun _ => false
  semaphoreTable := fun _ => -1
  next := ⟨0, by decide⟩
  pool := pool

/-- How many entries of each table are in use. -/
structure Used where
  locks : ℕ
  conds : ℕ
  semaphores : ℕ
  pages : ℕ
  deriving DecidableEq

def Tables.used (t : Tables n) : Used where
  locks := count LockEntry.isUsed t.lockTable
  conds := count id t.condTable
  semaphores := count (· != -1) t.semaphoreTable
  pages := t.pool.numPages - t.pool.clearBits

/-! ## The functions of SFS on the tables -/

/-- A call of `read_vblock` or of `write_vblock`, and whether the disk reports success. -/
inductive Transfer where
  | read (ok : Bool)
  | write (ok : Bool)

def Transfer.ok : Transfer → Bool
  | .read ok => ok
  | .write ok => ok

/-- What a transfer does to the tables.  A failing write does not destroy its semaphore. -/
def transfer (tid : ℕ) (t : Tables n) (x : Transfer) : Option (Tables n) :=
  match semaphoreCreate tid t with
  | (none, _) => none
  | (some sem, t) =>
    match x with
    | .read _ => some (semaphoreDestroy t sem)
    | .write ok => if ok then some (semaphoreDestroy t sem) else some t

/-- The loop of `sfs_init` over the entries of the table of open files. -/
def createEntries : ℕ → Tables n →
    Option (List (Fin CONFIG_MAX_CONDITION_VARIABLES × Fin CONFIG_MAX_LOCKS) × Tables n)
  | 0, t => some ([], t)
  | k + 1, t => do
    let (ioCond, t) ← conditionCreate t
    let (ioLock, t) ← lockCreate t
    let (entries, t) ← createEntries k t
    return ((ioCond, ioLock) :: entries, t)

/-- A mounted volume: `sfs_t` with its semaphore `lock`, the `openfile_lock`, `io_cond` and `io_lock` of
the open files, and the address of the page that holds it. -/
structure Mount where
  sfs : Sfs
  lock : Fin CONFIG_MAX_SEMAPHORES
  openfileLock : Fin CONFIG_MAX_LOCKS
  entries : List (Fin CONFIG_MAX_CONDITION_VARIABLES × Fin CONFIG_MAX_LOCKS)
  addr : ℕ

/-- The clean-up of `sfs_init` when the header block cannot be read or is not one of SFS. -/
def releaseAll (t : Tables n) (sem : Fin CONFIG_MAX_SEMAPHORES) (lock : Fin CONFIG_MAX_LOCKS) (addr : ℕ) :
    Option (Tables n) := do
  let t ← lockDestroy (semaphoreDestroy t sem) lock
  let pool ← freePhysPage t.pool addr
  return { t with pool := pool }

/-- `sfs_init` by the thread `tid` on a disk with blocks of `blockSize` bytes. -/
def sfsInitRun (tid blockSize : ℕ) (disk : Gbd) (t : Tables n) : Option (Option Mount × Tables n) :=
  if blockSize ≠ SFS_BLOCK_SIZE then some (none, t) else
  match semaphoreCreate tid t with
  | (none, t) => some (none, t)
  | (some sem, t) => do
    let (lock, t) ← lockCreate t
    let (addr, pool) ← getPhysPage t.pool
    let t := { t with pool := pool }
    if addr = 0 then
      let t ← lockDestroy (semaphoreDestroy t sem) lock
      return (none, t)
    else
      let r := readVblock disk SFS_HEADER_BLOCK
      let t ← transfer tid t (.read r.isSome)
      match r with
      | none => do
        let t ← releaseAll t sem lock addr
        return (none, t)
      | some header =>
        if header.word 0 ≠ SFS_MAGIC then do
          let t ← releaseAll t sem lock addr
          return (none, t)
        else do
          let (entries, t) ← createEntries SFS_MAX_OPEN_FILES t
          return (some ⟨sfsInit disk, sem, lock, entries, addr⟩, t)

/-- A call of SFS and the transfers it makes. -/
def callStep (tid : ℕ) (s : Sfs × Tables n) (c : Call × List Transfer) : Option (Sfs × Tables n) := do
  let (_, sfs) ← c.1.exec s.1
  let t ← Transition.run (transfer tid) s.2 c.2
  return (sfs, t)

/-- `sfs_unmount`; `transfers` are those of its calls of `_delete`. -/
def sfsUnmountRun (tid : ℕ) (m : Mount) (transfers : List Transfer) (t : Tables n) : Option (Tables n) := do
  let t ← Transition.run (transfer tid) t transfers
  let t ← lockDestroy t m.openfileLock
  let t := semaphoreDestroy t m.lock
  let pool ← freePhysPage t.pool m.addr
  return { t with pool := pool }

/-- An attempt to mount a disk, and the calls and the transfers of the unmount after it. -/
structure Cycle where
  blockSize : ℕ
  disk : Gbd
  calls : List (Call × List Transfer)
  closing : List Transfer

/-- Mount, and if that succeeds run the calls and unmount. -/
def cycleStep (tid : ℕ) (t : Tables n) (c : Cycle) : Option (Tables n) := do
  let (r, t) ← sfsInitRun tid c.blockSize c.disk t
  match r with
  | none => return t
  | some m => do
    let (_, t) ← Transition.run (callStep tid) (m.sfs, t) c.calls
    sfsUnmountRun tid m c.closing t

/-! ## The conditions -/

/-- The disk holds an SFS volume: its blocks have the right size, its header block can be read, and it
begins with the magic number. -/
def mountable (blockSize : ℕ) (disk : Gbd) : Bool :=
  blockSize = SFS_BLOCK_SIZE && match readVblock disk SFS_HEADER_BLOCK with
    | none => false
    | some header => header.word 0 = SFS_MAGIC

/-- Nobody holds a lock that is not in use, and the bits and the counter of the page pool agree. -/
structure Tables.Wf (t : Tables n) : Prop where
  unlocked : ∀ i, (t.lockTable i).isUsed = false → (t.lockTable i).lockedId = LOCK_NO_THREAD
  pool : ∃ out, (Session.mk t.pool out).Agrees

/-- Two semaphores and a page are free. -/
structure Room (t : Tables n) : Prop where
  semaphores : t.used.semaphores + 2 ≤ CONFIG_MAX_SEMAPHORES
  pages : t.used.pages < t.pool.numPages

/-- And a lock and a condition variable for each open file, and one more lock. -/
structure Enough (t : Tables n) : Prop extends Room t where
  locks : t.used.locks + 1 + SFS_MAX_OPEN_FILES ≤ CONFIG_MAX_LOCKS
  conds : t.used.conds + SFS_MAX_OPEN_FILES ≤ CONFIG_MAX_CONDITION_VARIABLES

theorem Tables.Wf.init {pool : PagePool n} {out : ℕ → Bool} (h : (Session.mk pool out).Agrees) :
    (Tables.init pool).Wf := ⟨fun _ _ => rfl, out, h⟩

/-! ## Creating and destroying -/

section Entries

variable {t t' : Tables n} (tid : ℕ)

theorem semaphoreLoop_found {creator : Fin CONFIG_MAX_SEMAPHORES → ℤ} {sem : Fin CONFIG_MAX_SEMAPHORES} :
    ∀ {k : ℕ} {next : Fin CONFIG_MAX_SEMAPHORES},
      (semaphoreLoop creator k next).1 = some sem → creator sem = -1
  | 0, _, h => by cases h
  | k + 1, next, h => by
    rw [semaphoreLoop] at h
    split at h
    · rename_i hfree
      cases h
      exact hfree
    · exact semaphoreLoop_found h

/-- The loop that finds nothing has looked at the `k` semaphores from `next` on. -/
theorem semaphoreLoop_none {creator : Fin CONFIG_MAX_SEMAPHORES → ℤ} :
    ∀ {k : ℕ} {next : Fin CONFIG_MAX_SEMAPHORES}, (semaphoreLoop creator k next).1 = none →
      ∀ j < k, ∀ i : Fin CONFIG_MAX_SEMAPHORES, i.val = (next.val + j) % CONFIG_MAX_SEMAPHORES →
        creator i ≠ -1
  | 0, _, _, j, hj, _, _ => absurd hj (Nat.not_lt_zero j)
  | k + 1, next, h, j, hj, i, hi => by
    rw [semaphoreLoop] at h
    split at h
    · cases h
    · rename_i hused
      cases j with
      | zero =>
        have hnext : i = next := by
          apply Fin.ext
          rw [hi, Nat.add_zero, Nat.mod_eq_of_lt next.isLt]
        rw [hnext]
        exact hused
      | succ j =>
        apply semaphoreLoop_none h j (by omega) i
        rw [hi, following, Nat.mod_add_mod]
        congr 1
        omega

/-- **`semaphore_create`** finds a free semaphore when there is one. -/
theorem semaphoreCreate_spec (h : t.used.semaphores < CONFIG_MAX_SEMAPHORES) :
    ∃ sem next, t.semaphoreTable sem = -1 ∧ semaphoreCreate tid t =
      (some sem, { t with semaphoreTable := Function.update t.semaphoreTable sem tid, next := next }) := by
  unfold semaphoreCreate
  cases hl : semaphoreLoop t.semaphoreTable CONFIG_MAX_SEMAPHORES t.next with
  | mk found next =>
    cases found with
    | some sem => exact ⟨sem, next, semaphoreLoop_found (by rw [hl]), rfl⟩
    | none =>
      obtain ⟨i, hi⟩ := exists_of_count_lt (show count (· != -1) t.semaphoreTable < _ by
        rw [Fintype.card_fin]; exact h)
      have hnone : (semaphoreLoop t.semaphoreTable CONFIG_MAX_SEMAPHORES t.next).1 = none := by rw [hl]
      have hi1 := i.isLt
      have hn1 := t.next.isLt
      simp only [CONFIG_MAX_SEMAPHORES] at hi1 hn1
      -- the loop comes to `i` after as many steps as `i` is behind `next`
      refine absurd (by simpa using hi) (semaphoreLoop_none hnone
        ((i.val + CONFIG_MAX_SEMAPHORES - t.next.val) % CONFIG_MAX_SEMAPHORES)
        (Nat.mod_lt _ (by decide)) i ?_)
      simp only [CONFIG_MAX_SEMAPHORES]
      omega

/-- Creating a semaphore and destroying it again. -/
theorem update_destroyed {creator : Fin CONFIG_MAX_SEMAPHORES → ℤ} {sem : Fin CONFIG_MAX_SEMAPHORES}
    (h : creator sem = -1) (x : ℤ) : Function.update (Function.update creator sem x) sem (-1) = creator := by
  rw [Function.update_idem, ← h, Function.update_eq_self]

/-- **A transfer** leaves at most the cursor of `semaphore_create` changed. -/
theorem transfer_spec (h : t.used.semaphores < CONFIG_MAX_SEMAPHORES) {x : Transfer} (hx : x.ok = true) :
    ∃ next, transfer tid t x = some { t with next := next } := by
  obtain ⟨sem, next, hfree, hc⟩ := semaphoreCreate_spec tid h
  refine ⟨next, ?_⟩
  unfold transfer
  rw [hc]
  cases x with
  | read ok => simp only [semaphoreDestroy, update_destroyed hfree]
  | write ok =>
    rw [Transfer.ok] at hx
    simp only [hx, if_true, semaphoreDestroy, update_destroyed hfree]

/-- A read that fails destroys its semaphore, too. -/
theorem transfer_read (h : t.used.semaphores < CONFIG_MAX_SEMAPHORES) (ok : Bool) :
    ∃ next, transfer tid t (.read ok) = some { t with next := next } := by
  obtain ⟨next, hr⟩ := transfer_spec tid h (show (Transfer.read true).ok = true from rfl)
  exact ⟨next, hr⟩

theorem transfers_spec (tid : ℕ) : ∀ {xs : List Transfer} {t : Tables n}, t.used.semaphores < CONFIG_MAX_SEMAPHORES →
    (∀ x ∈ xs, x.ok = true) → ∃ next, Transition.run (transfer tid) t xs = some { t with next := next }
  | [], t, _, _ => ⟨t.next, rfl⟩
  | x :: xs, t, h, hx => by
    obtain ⟨next, h1⟩ := transfer_spec tid h (hx x List.mem_cons_self)
    obtain ⟨next', h2⟩ := transfers_spec tid (t := { t with next := next }) h
      fun y hy => hx y (List.mem_cons_of_mem x hy)
    refine ⟨next', ?_⟩
    rw [Transition.run, h1]
    exact h2

/-- **A run of calls**, too. -/
theorem calls_spec {calls : List (Call × List Transfer)} {s s' : Sfs} (h : t.used.semaphores < CONFIG_MAX_SEMAPHORES)
    (hok : ∀ c ∈ calls, ∀ x ∈ c.2, x.ok = true) (hr : Transition.run (callStep tid) (s, t) calls = some (s', t')) :
    ∃ next, t' = { t with next := next } := by
  induction calls generalizing s t with
  | nil =>
    cases hr
    exact ⟨t'.next, rfl⟩
  | cons c cs ih =>
    obtain ⟨next, h1⟩ := transfers_spec tid h (hok c List.mem_cons_self)
    rw [Transition.run, callStep] at hr
    cases hc : c.1.exec s with
    | none =>
      rw [hc] at hr
      cases hr
    | some r =>
      simp only [hc, h1, Option.bind_eq_bind, Option.bind_some] at hr
      obtain ⟨next', rfl⟩ := ih (t := { t with next := next }) h
        (fun d hd => hok d (List.mem_cons_of_mem _ hd)) hr
      exact ⟨next', rfl⟩

/-- **`lock_create`** takes an unused lock, if there is one. -/
theorem lockCreate_cases (t : Tables n) :
    ((∀ i, (t.lockTable i).isUsed = true) ∧ lockCreate t = none) ∨
      ∃ i, (t.lockTable i).isUsed = false ∧ lockCreate t = some (i, { t with
        lockTable := Function.update t.lockTable i { t.lockTable i with isUsed := true } }) := by
  unfold lockCreate
  cases hf : (List.finRange CONFIG_MAX_LOCKS).find? fun i => !(t.lockTable i).isUsed with
  | none =>
    refine Or.inl ⟨fun i => ?_, rfl⟩
    simpa using List.find?_eq_none.1 hf i (List.mem_finRange i)
  | some i => exact Or.inr ⟨i, by simpa using List.find?_some hf, rfl⟩

/-- **`condition_create`** takes an unused condition variable, if there is one. -/
theorem conditionCreate_cases (t : Tables n) :
    ((∀ i, t.condTable i = true) ∧ conditionCreate t = none) ∨
      ∃ i, t.condTable i = false ∧
        conditionCreate t = some (i, { t with condTable := Function.update t.condTable i true }) := by
  unfold conditionCreate
  cases hf : (List.finRange CONFIG_MAX_CONDITION_VARIABLES).find? fun i => !t.condTable i with
  | none =>
    refine Or.inl ⟨fun i => ?_, rfl⟩
    simpa using List.find?_eq_none.1 hf i (List.mem_finRange i)
  | some i => exact Or.inr ⟨i, by simpa using List.find?_some hf, rfl⟩

/-- What the loop over the open files changes. -/
structure Entered (k : ℕ) (t t' : Tables n) : Prop where
  locks : t'.used.locks = t.used.locks + k
  conds : t'.used.conds = t.used.conds + k
  kept : ∀ i, (t.lockTable i).isUsed = true → t'.lockTable i = t.lockTable i
  lockedId : ∀ i, (t'.lockTable i).lockedId = (t.lockTable i).lockedId
  semaphoreTable : t'.semaphoreTable = t.semaphoreTable
  pool : t'.pool = t.pool

/-- One round of the loop. -/
theorem Entered.round {c : Fin CONFIG_MAX_CONDITION_VARIABLES} {l : Fin CONFIG_MAX_LOCKS}
    (hc : t.condTable c = false) (hl : (t.lockTable l).isUsed = false) :
    Entered 1 t { t with
      condTable := Function.update t.condTable c true
      lockTable := Function.update t.lockTable l { t.lockTable l with isUsed := true } } where
  locks := by
    have := count_update LockEntry.isUsed t.lockTable l { t.lockTable l with isUsed := true }
    rw [hl] at this
    simpa [Tables.used] using this
  conds := by
    have := count_update id t.condTable c true
    rw [hc] at this
    simpa [Tables.used] using this
  kept := by
    intro i hi
    have hne : i ≠ l := by
      rintro rfl
      rw [hl] at hi
      cases hi
    exact Function.update_of_ne hne _ _
  lockedId := by
    intro i
    by_cases hi : i = l
    · simp [hi]
    · simp [hi]
  semaphoreTable := rfl
  pool := rfl

theorem Entered.trans {k k' : ℕ} {t1 t2 t3 : Tables n} (h : Entered k t1 t2) (h' : Entered k' t2 t3) :
    Entered (k' + k) t1 t3 where
  locks := by rw [h'.locks, h.locks]; omega
  conds := by rw [h'.conds, h.conds]; omega
  kept := fun i hi => (h'.kept i (by rw [h.kept i hi]; exact hi)).trans (h.kept i hi)
  lockedId := fun i => (h'.lockedId i).trans (h.lockedId i)
  semaphoreTable := h'.semaphoreTable.trans h.semaphoreTable
  pool := h'.pool.trans h.pool

/-- **The loop over the open files** takes a lock and a condition variable in each round, or panics. -/
theorem createEntries_cases : ∀ (k : ℕ) (t : Tables n),
    (createEntries k t = none ∧
      (CONFIG_MAX_LOCKS < t.used.locks + k ∨ CONFIG_MAX_CONDITION_VARIABLES < t.used.conds + k)) ∨
    ∃ entries t', createEntries k t = some (entries, t') ∧ Entered k t t'
  | 0, t => Or.inr ⟨[], t, rfl, ⟨rfl, rfl, fun _ _ => rfl, fun _ => rfl, rfl, rfl⟩⟩
  | k + 1, t => by
    rw [createEntries]
    rcases conditionCreate_cases t with ⟨hall, hc⟩ | ⟨c, hfree, hc⟩
    · refine Or.inl ⟨by rw [hc]; rfl, Or.inr ?_⟩
      have hfull : t.used.conds = CONFIG_MAX_CONDITION_VARIABLES :=
        (count_eq_card (p := id) hall).trans (Fintype.card_fin _)
      omega
    · simp only [hc, Option.bind_eq_bind, Option.bind_some]
      rcases lockCreate_cases { t with condTable := Function.update t.condTable c true } with
        ⟨hall, hl⟩ | ⟨l, hunused, hl⟩
      · refine Or.inl ⟨by rw [hl]; rfl, Or.inl ?_⟩
        have hfull : t.used.locks = CONFIG_MAX_LOCKS := (count_eq_card hall).trans (Fintype.card_fin _)
        omega
      · have hround := Entered.round hfree hunused
        rw [hl, Option.bind_some]
        rcases createEntries_cases k { t with
          condTable := Function.update t.condTable c true
          lockTable := Function.update t.lockTable l { t.lockTable l with isUsed := true } } with
          ⟨hnone, hmany⟩ | ⟨entries, t', hsome, he⟩
        · refine Or.inl ⟨by rw [hnone]; rfl, ?_⟩
          rw [hround.locks, hround.conds] at hmany
          omega
        · exact Or.inr ⟨(c, l) :: entries, t', by rw [hsome]; rfl, hround.trans he⟩

end Entries

/-! ## The page -/

section Pages

variable {p p' : PagePool n} {addr : ℕ}

/-- A page that the pool `p` has handed out, which is `p'` now. -/
structure HandedOut (p : PagePool n) (addr : ℕ) (p' : PagePool n) : Prop where
  out : ∃ out i, (Session.mk p' out).Agrees ∧ addr = i * PAGE_SIZE ∧ out i = true
  clearBits : p'.clearBits + 1 = p.clearBits
  numPages : p'.numPages = p.numPages

theorem used_pages_lt (p : PagePool n) : p.numPages - p.clearBits < p.numPages ↔ 0 < p.clearBits := by
  have hle : p.clearBits ≤ p.numPages := by
    rw [PagePool.clearBits]
    exact (Finset.card_filter_le _ _).trans_eq (Finset.card_range _)
  omega

/-- **`pagepool_get_phys_page`**, when a page is free. -/
theorem getPhysPage_spec (h : ∃ out, (Session.mk p out).Agrees) (hfree : 0 < p.clearBits) :
    ∃ addr p', getPhysPage p = some (addr, p') ∧ addr ≠ 0 ∧ HandedOut p addr p' := by
  obtain ⟨out, h⟩ := h
  rcases h.get with ⟨hzero, -⟩ | ⟨i, hlt, hclear, -, hget⟩
  · simp only at hzero
    omega
  · obtain ⟨s', hs', hagrees⟩ := h.step (show freesOut ⟨p, out⟩ .get from trivial)
    have hne : i * PAGE_SIZE ≠ 0 := by
      have hstatic := ((h.clear_iff hlt).1 hclear).1
      have hpos := h.pos
      simp only at hstatic hpos
      unfold PAGE_SIZE
      omega
    rw [Session.step, hget] at hs'
    simp only [Option.map_some, if_neg hne, Option.some.injEq] at hs'
    subst hs'
    refine ⟨_, _, hget, hne, ⟨_, i, hagrees, rfl, ?_⟩, ?_, rfl⟩
    · rw [Nat.mul_div_cancel i (by decide), Function.update_self]
    · have hn : (PagePool.mk (bitmapSet p.freePages i true) p.numPages (p.numFreePages - 1)
          p.staticEnd).numPages = p.numPages := rfl
      exact (clearBits_set h.fits hlt hn).1 hclear rfl

theorem freePhysPage_fields (h : freePhysPage p addr = some p') :
    p'.numFreePages = p.numFreePages + 1 ∧ p'.numPages = p.numPages := by
  unfold freePhysPage at h
  simp only at h
  split at h
  · cases h
  · split at h
    · cases h
      exact ⟨rfl, rfl⟩
    · cases h

/-- **`pagepool_free_phys_page`** gives the page back. -/
theorem HandedOut.free (h : HandedOut p addr p') : ∃ p'', freePhysPage p' addr = some p'' ∧
    (∃ out, (Session.mk p'' out).Agrees) ∧ p''.clearBits = p.clearBits ∧ p''.numPages = p.numPages := by
  obtain ⟨⟨out, i, hagrees, ha, hi⟩, hbits, hnum⟩ := h
  obtain ⟨s', hs', hagrees'⟩ := hagrees.step (show freesOut ⟨p', out⟩ (.free addr) from ⟨i, ha, hi⟩)
  rw [Session.step] at hs'
  cases hf : freePhysPage p' addr with
  | none =>
    rw [hf] at hs'
    cases hs'
  | some p'' =>
    rw [hf] at hs'
    cases hs'
    obtain ⟨hcount, hnum'⟩ := freePhysPage_fields hf
    have h1 := hagrees.count
    have h2 := hagrees'.count
    simp only at h1 h2
    exact ⟨p'', rfl, ⟨_, hagrees'⟩, by omega, hnum'.trans hnum⟩

end Pages

/-! ## One cycle -/

/-- The tables after a cycle that keeps `k` locks and `k` condition variables. -/
structure Leaked (k : ℕ) (t t' : Tables n) : Prop where
  wf : t'.Wf
  used : t'.used = { t.used with locks := t.used.locks + k, conds := t.used.conds + k }
  numPages : t'.pool.numPages = t.pool.numPages
  spare : 0 < k → t'.used.locks < CONFIG_MAX_LOCKS

/-- What `sfs_init` holds when it has a semaphore, a lock and a page. -/
structure Taken (t : Tables n) (sem : Fin CONFIG_MAX_SEMAPHORES) (lock : Fin CONFIG_MAX_LOCKS) (addr : ℕ)
    (t' : Tables n) : Prop where
  unused : (t.lockTable lock).isUsed = false
  lockTable : t'.lockTable = Function.update t.lockTable lock { t.lockTable lock with isUsed := true }
  condTable : t'.condTable = t.condTable
  semaphoreTable : Function.update t'.semaphoreTable sem (-1) = t.semaphoreTable
  pool : HandedOut t.pool addr t'.pool

/-- What a mounted volume holds. -/
structure Mounted (t : Tables n) (m : Mount) (t' : Tables n) : Prop where
  unlocked : ∀ i, (t'.lockTable i).isUsed = false → (t'.lockTable i).lockedId = LOCK_NO_THREAD
  openfileLock : t'.lockTable m.openfileLock = ⟨LOCK_NO_THREAD, true⟩
  locks : t'.used.locks = t.used.locks + 1 + SFS_MAX_OPEN_FILES
  conds : t'.used.conds = t.used.conds + SFS_MAX_OPEN_FILES
  semaphoreTable : Function.update t'.semaphoreTable m.lock (-1) = t.semaphoreTable
  pool : HandedOut t.pool m.addr t'.pool

section Cycles

variable {t t' : Tables n} {tid blockSize : ℕ} {disk : Gbd}

theorem Leaked.refl (h : t.Wf) : Leaked 0 t t := ⟨h, rfl, rfl, fun h => absurd h (lt_irrefl 0)⟩

theorem Leaked.trans {k k' : ℕ} {t1 t2 t3 : Tables n} (h : Leaked k t1 t2) (h' : Leaked k' t2 t3) :
    Leaked (k + k') t1 t3 where
  wf := h'.wf
  used := by
    rw [h'.used, h.used]
    simp only [Nat.add_assoc]
  numPages := h'.numPages.trans h.numPages
  spare := by
    intro hk
    by_cases hk' : 0 < k'
    · exact h'.spare hk'
    · have hspare := h.spare (by omega)
      rw [h'.used]
      simp only
      omega

/-- The semaphores and the pages that a mount needs are still free. -/
theorem Leaked.room {k : ℕ} (h : Leaked k t t') (hr : Room t) : Room t' := by
  refine ⟨?_, ?_⟩
  · rw [h.used]
    exact hr.semaphores
  · rw [h.used, h.numPages]
    exact hr.pages

theorem Taken.lockedId {sem : Fin CONFIG_MAX_SEMAPHORES} {lock : Fin CONFIG_MAX_LOCKS} {addr : ℕ}
    (hwf : t.Wf) (h : Taken t sem lock addr t') : t'.lockTable lock = ⟨LOCK_NO_THREAD, true⟩ := by
  rw [h.lockTable, Function.update_self, ← hwf.unlocked lock h.unused]

/-- The lock is one more. -/
theorem Taken.locks {sem : Fin CONFIG_MAX_SEMAPHORES} {lock : Fin CONFIG_MAX_LOCKS} {addr : ℕ}
    (h : Taken t sem lock addr t') : t'.used.locks = t.used.locks + 1 := by
  have hupd := count_update LockEntry.isUsed t.lockTable lock { t.lockTable lock with isUsed := true }
  rw [h.unused, ← h.lockTable] at hupd
  simpa [Tables.used] using hupd

theorem Taken.conds {sem : Fin CONFIG_MAX_SEMAPHORES} {lock : Fin CONFIG_MAX_LOCKS} {addr : ℕ}
    (h : Taken t sem lock addr t') : t'.used.conds = t.used.conds := by
  rw [Tables.used, h.condTable]
  rfl

/-- **The clean-up** of a failing `sfs_init` gives everything back. -/
theorem Taken.release {sem : Fin CONFIG_MAX_SEMAPHORES} {lock : Fin CONFIG_MAX_LOCKS} {addr : ℕ}
    (hwf : t.Wf) (h : Taken t sem lock addr t') :
    ∃ t2, releaseAll t' sem lock addr = some t2 ∧ Leaked 0 t t2 := by
  obtain ⟨p, hfree, hagrees, hbits, hnum⟩ := h.pool.free
  have hheld := h.lockedId hwf
  have hlocks : Function.update t'.lockTable lock { t'.lockTable lock with isUsed := false } = t.lockTable := by
    rw [h.lockTable, Function.update_self, Function.update_idem, ← h.unused, Function.update_eq_self]
  have hrelease : releaseAll t' sem lock addr = some
      { lockTable := t.lockTable, condTable := t'.condTable, semaphoreTable := t.semaphoreTable
        next := t'.next, pool := p } := by
    simp only [releaseAll, lockDestroy, semaphoreDestroy, hheld, if_true, Option.bind_eq_bind,
      Option.bind_some, hfree, h.semaphoreTable]
    rw [hheld] at hlocks
    simp only [hlocks]
    rfl
  refine ⟨_, hrelease, ⟨hwf.unlocked, hagrees⟩, ?_, hnum, fun h => absurd h (lt_irrefl 0)⟩
  simp only [Tables.used, h.condTable, hbits, hnum, Nat.add_zero]

/-- **What `sfs_init` does** when two semaphores and a page are free. -/
theorem sfsInitRun_cases (hwf : t.Wf) (hr : Room t) (tid blockSize : ℕ) (disk : Gbd) :
    (blockSize ≠ SFS_BLOCK_SIZE ∧ sfsInitRun tid blockSize disk t = some (none, t)) ∨
    (blockSize = SFS_BLOCK_SIZE ∧ t.used.locks = CONFIG_MAX_LOCKS ∧ sfsInitRun tid blockSize disk t = none) ∨
    ∃ sem lock addr t', Taken t sem lock addr t' ∧ sfsInitRun tid blockSize disk t =
      if mountable blockSize disk then
        (createEntries SFS_MAX_OPEN_FILES t').map fun r => (some ⟨sfsInit disk, sem, lock, r.1, addr⟩, r.2)
      else (releaseAll t' sem lock addr).map fun t2 => (none, t2) := by
  by_cases hsize : blockSize = SFS_BLOCK_SIZE
  · refine Or.inr ?_
    have hsem := hr.semaphores
    obtain ⟨sem, next, hfree, hc⟩ := semaphoreCreate_spec (t := t) tid (by omega)
    unfold sfsInitRun
    rw [if_neg (not_not.2 hsize), hc]
    simp only
    rcases lockCreate_cases { t with
        semaphoreTable := Function.update t.semaphoreTable sem tid, next := next } with
      ⟨hall, hl⟩ | ⟨lock, hunused, hl⟩
    · exact Or.inl ⟨hsize, (count_eq_card hall).trans (Fintype.card_fin _), by rw [hl]; rfl⟩
    · refine Or.inr ?_
      obtain ⟨addr, p, hget, hne, hout⟩ := getPhysPage_spec hwf.pool ((used_pages_lt t.pool).1 hr.pages)
      -- the read of the header block finds a second semaphore
      have hcount : ({ t with
          semaphoreTable := Function.update t.semaphoreTable sem tid } : Tables n).used.semaphores <
          CONFIG_MAX_SEMAPHORES := by
        have hupd := count_update (· != -1) t.semaphoreTable sem (tid : ℤ)
        have htid : ((tid : ℤ) != -1) = true := by simp
        rw [hfree, htid] at hupd
        simp only [Tables.used] at hsem ⊢
        simp only [bne_self_eq_false, Bool.toNat_false, Bool.toNat_true] at hupd
        omega
      obtain ⟨next', htr⟩ := transfer_read (t := { t with
          lockTable := Function.update t.lockTable lock { t.lockTable lock with isUsed := true }
          semaphoreTable := Function.update t.semaphoreTable sem tid, next := next, pool := p }) tid
        hcount (readVblock disk SFS_HEADER_BLOCK).isSome
      refine ⟨sem, lock, addr, { t with
        lockTable := Function.update t.lockTable lock { t.lockTable lock with isUsed := true }
        semaphoreTable := Function.update t.semaphoreTable sem tid, next := next', pool := p },
        ⟨hunused, rfl, rfl, update_destroyed hfree tid, hout⟩, ?_⟩
      simp only [hl, hget, Option.bind_eq_bind, Option.bind_some, if_neg hne, htr, mountable, hsize,
        decide_true, Bool.true_and, Option.map_eq_bind]
      cases readVblock disk SFS_HEADER_BLOCK with
      | none => rfl
      | some header =>
        by_cases hmagic : header.word 0 = SFS_MAGIC
        · simp only [hmagic, ne_eq, not_true_eq_false, if_false, decide_true, if_true]
          rfl
        · simp only [hmagic, ne_eq, not_false_eq_true, if_true, decide_false]
          rfl
  · refine Or.inl ⟨hsize, ?_⟩
    unfold sfsInitRun
    rw [if_pos hsize]

/-- A volume is mounted when the loop over the open files is done. -/
theorem Taken.enter {sem : Fin CONFIG_MAX_SEMAPHORES} {lock : Fin CONFIG_MAX_LOCKS} {addr : ℕ} {t2 : Tables n}
    (hwf : t.Wf) (h : Taken t sem lock addr t') (he : Entered SFS_MAX_OPEN_FILES t' t2) {s : Sfs}
    {entries : List (Fin CONFIG_MAX_CONDITION_VARIABLES × Fin CONFIG_MAX_LOCKS)} :
    Mounted t ⟨s, sem, lock, entries, addr⟩ t2 where
  unlocked := by
    intro i hi
    have hunused : (t'.lockTable i).isUsed = false := by
      by_contra hused
      rw [Bool.not_eq_false] at hused
      rw [he.kept i hused, hused] at hi
      cases hi
    rw [he.lockedId]
    by_cases hil : i = lock
    · rw [hil, h.lockedId hwf]
    · rw [h.lockTable, Function.update_of_ne hil] at hunused ⊢
      exact hwf.unlocked i hunused
  openfileLock := by
    have hheld := h.lockedId hwf
    exact (he.kept lock (by rw [hheld])).trans hheld
  locks := by rw [he.locks, h.locks]
  conds := by rw [he.conds, h.conds]
  semaphoreTable := by
    rw [he.semaphoreTable]
    exact h.semaphoreTable
  pool := by
    rw [he.pool]
    exact h.pool

/-- **`sfs_init`** mounts the disk if it holds a volume, and else it gives everything back. -/
theorem sfsInitRun_spec (hwf : t.Wf) (hr : Room t) {r : Option Mount}
    (h : sfsInitRun tid blockSize disk t = some (r, t')) :
    (mountable blockSize disk = true ∧ ∃ m, r = some m ∧ m.sfs = sfsInit disk ∧ Mounted t m t') ∨
      (mountable blockSize disk = false ∧ r = none ∧ Leaked 0 t t') := by
  rcases sfsInitRun_cases hwf hr tid blockSize disk with ⟨hsize, he⟩ | ⟨-, -, he⟩ | ⟨sem, lock, addr, t1, htaken, he⟩
  · rw [he] at h
    cases h
    refine Or.inr ⟨?_, rfl, Leaked.refl hwf⟩
    simp [mountable, hsize]
  · rw [he] at h
    cases h
  · rw [he] at h
    cases hm : mountable blockSize disk with
    | true =>
      rw [if_pos hm] at h
      rcases createEntries_cases SFS_MAX_OPEN_FILES t1 with ⟨hnone, -⟩ | ⟨entries, t2, hsome, hentered⟩
      · rw [hnone] at h
        cases h
      · rw [hsome] at h
        cases h
        exact Or.inl ⟨rfl, _, rfl, rfl, htaken.enter hwf hentered⟩
    | false =>
      obtain ⟨t2, hrel, hleaked⟩ := htaken.release hwf
      rw [hm, hrel] at h
      cases h
      exact Or.inr ⟨rfl, rfl, hleaked⟩

/-- With enough free entries `sfs_init` does not panic. -/
theorem sfsInitRun_total (hwf : t.Wf) (he : Enough t) (tid blockSize : ℕ) (disk : Gbd) :
    ∃ r t', sfsInitRun tid blockSize disk t = some (r, t') := by
  have hlocks := he.locks
  have hconds := he.conds
  rcases sfsInitRun_cases hwf he.toRoom tid blockSize disk with
    ⟨-, h⟩ | ⟨-, hfull, -⟩ | ⟨sem, lock, addr, t1, htaken, h⟩
  · exact ⟨_, _, h⟩
  · omega
  · rw [h]
    by_cases hm : mountable blockSize disk = true
    · rw [if_pos hm]
      rcases createEntries_cases SFS_MAX_OPEN_FILES t1 with ⟨-, hmany⟩ | ⟨entries, t2, hsome, -⟩
      · rw [htaken.locks, htaken.conds] at hmany
        omega
      · rw [hsome]
        exact ⟨_, _, rfl⟩
    · obtain ⟨t2, hrel, -⟩ := htaken.release hwf
      rw [if_neg hm, hrel]
      exact ⟨_, _, rfl⟩

/-- A mounted volume holds one semaphore. -/
theorem Mounted.semaphores {m : Mount} (h : Mounted t m t') (hr : Room t) :
    t'.used.semaphores < CONFIG_MAX_SEMAPHORES := by
  have hupd := count_update (· != -1) t'.semaphoreTable m.lock (-1)
  have hroom := hr.semaphores
  rw [h.semaphoreTable] at hupd
  simp only [Tables.used, bne_self_eq_false, Bool.toNat_false, Nat.add_zero] at *
  have hle := Bool.toNat_le (t'.semaphoreTable m.lock != -1)
  omega

/-- **`sfs_unmount`** gives back the lock of the table of open files, the semaphore and the page, but
not the locks and the condition variables of the open files. -/
theorem Mounted.unmount {m : Mount} (h : Mounted t m t') (hr : Room t) (tid : ℕ)
    (next : Fin CONFIG_MAX_SEMAPHORES) {closing : List Transfer} (hok : ∀ x ∈ closing, x.ok = true) :
    ∃ t3, sfsUnmountRun tid m closing { t' with next := next } = some t3 ∧ Leaked SFS_MAX_OPEN_FILES t t3 := by
  obtain ⟨next', htr⟩ := transfers_spec tid (t := { t' with next := next }) (h.semaphores hr) hok
  obtain ⟨p, hfree, hagrees, hbits, hnum⟩ := h.pool.free
  have hrun : sfsUnmountRun tid m closing { t' with next := next } = some { t' with
      lockTable := Function.update t'.lockTable m.openfileLock ⟨LOCK_NO_THREAD, false⟩
      semaphoreTable := t.semaphoreTable, next := next', pool := p } := by
    simp only [sfsUnmountRun, htr, lockDestroy, semaphoreDestroy, h.openfileLock, if_true,
      Option.bind_eq_bind, Option.bind_some, hfree, h.semaphoreTable]
    rfl
  have hupd := count_update LockEntry.isUsed t'.lockTable m.openfileLock ⟨LOCK_NO_THREAD, false⟩
  have hlocks := h.locks
  rw [h.openfileLock] at hupd
  simp only [Bool.toNat_true, Bool.toNat_false, Nat.add_zero] at hupd
  simp only [Tables.used] at hlocks
  refine ⟨_, hrun, ⟨fun i hi => ?_, hagrees⟩, ?_, hnum, fun _ => ?_⟩
  · simp only at hi ⊢
    by_cases hil : i = m.openfileLock
    · rw [hil, Function.update_self]
    · rw [Function.update_of_ne hil] at hi ⊢
      exact h.unlocked i hi
  · have hconds := h.conds
    simp only [Tables.used] at hconds ⊢
    rw [Used.mk.injEq]
    refine ⟨by omega, hconds, rfl, by rw [hbits, hnum]⟩
  · -- the lock that is destroyed is free
    by_contra hfull
    have hall := count_le_card LockEntry.isUsed t'.lockTable
    rw [Fintype.card_fin] at hall
    simp only [Tables.used] at hfull
    omega

/-- Every transfer of the cycle succeeds. -/
def Cycle.Succeeds (c : Cycle) : Prop :=
  (∀ d ∈ c.calls, ∀ x ∈ d.2, x.ok = true) ∧ ∀ x ∈ c.closing, x.ok = true

/-- The locks, and the condition variables, that a cycle keeps. -/
def Cycle.kept (c : Cycle) : ℕ := if mountable c.blockSize c.disk then SFS_MAX_OPEN_FILES else 0

/-- **One cycle**, if it goes through. -/
theorem cycleStep_spec (hwf : t.Wf) (hr : Room t) {c : Cycle} (hok : c.Succeeds)
    (h : cycleStep tid t c = some t') : Leaked c.kept t t' := by
  unfold cycleStep at h
  cases hi : sfsInitRun tid c.blockSize c.disk t with
  | none =>
    rw [hi] at h
    cases h
  | some r =>
    obtain ⟨r, t1⟩ := r
    simp only [hi, Option.bind_eq_bind, Option.bind_some] at h
    rcases sfsInitRun_spec hwf hr hi with ⟨hm, m, rfl, -, hmounted⟩ | ⟨hm, rfl, hleaked⟩
    · simp only at h
      cases hc : Transition.run (callStep tid) (m.sfs, t1) c.calls with
      | none =>
        rw [hc] at h
        cases h
      | some s =>
        obtain ⟨sfs, t2⟩ := s
        obtain ⟨next, rfl⟩ := calls_spec tid (hmounted.semaphores hr) hok.1 hc
        obtain ⟨t3, hu, hleaked⟩ := hmounted.unmount hr tid next hok.2
        simp only [hc, Option.bind_some, hu] at h
        cases h
        rw [Cycle.kept, if_pos hm]
        exact hleaked
    · cases h
      rw [Cycle.kept, hm]
      exact hleaked

/-- **Cycles**, as long as they go through. -/
theorem cycles_spec {cs : List Cycle} (hwf : t.Wf) (hr : Room t) (hok : ∀ c ∈ cs, c.Succeeds)
    (h : Transition.run (cycleStep tid) t cs = some t') : Leaked (cs.map Cycle.kept).sum t t' := by
  induction cs generalizing t with
  | nil =>
    cases h
    exact Leaked.refl hwf
  | cons c cs ih =>
    rw [Transition.run] at h
    cases hc : cycleStep tid t c with
    | none =>
      rw [hc] at h
      cases h
    | some t1 =>
      rw [hc] at h
      have h1 := cycleStep_spec hwf hr (hok c List.mem_cons_self) hc
      rw [List.map_cons, List.sum_cons]
      exact h1.trans (ih h1.wf (h1.room hr) (fun d hd => hok d (List.mem_cons_of_mem _ hd)) h)

/-- **Mounting and unmounting runs out of locks**: no more than three cycles on disks that hold a volume
go through. -/
theorem cycles_bounded {cs : List Cycle} (hwf : t.Wf) (hr : Room t) (hok : ∀ c ∈ cs, c.Succeeds)
    (hmount : ∀ c ∈ cs, mountable c.blockSize c.disk = true)
    (h : Transition.run (cycleStep tid) t cs = some t') : cs.length ≤ 3 := by
  have hleaked := cycles_spec hwf hr hok h
  have hkept : ∀ x ∈ cs.map Cycle.kept, x = 32 := by
    intro x hx
    obtain ⟨c, hc, rfl⟩ := List.mem_map.1 hx
    exact if_pos (hmount c hc)
  have hsum : (cs.map Cycle.kept).sum = cs.length * 32 := by
    rw [List.eq_replicate_of_mem hkept, List.sum_replicate_nat, List.length_map]
  have hused : t'.used.locks = t.used.locks + cs.length * 32 := by
    rw [hleaked.used, hsum]
  by_contra hlong
  have hspare := hleaked.spare (by omega)
  simp only [CONFIG_MAX_LOCKS] at hspare
  omega

end Cycles

/-! ## Resource neutrality -/

/-- Mounting a disk in the state `t` is neutral: a failing `sfs_init` leaves the numbers of used entries
as they are, and after a successful one every sequence of calls that closes all files, followed by
`sfs_unmount`, brings them back. -/
def Neutral (tid blockSize : ℕ) (disk : Gbd) (t : Tables n) : Prop :=
  ∃ r t1, sfsInitRun tid blockSize disk t = some (r, t1) ∧ (r = none → t1.used = t.used) ∧
    ∀ m, r = some m → ∀ calls s t2, (∀ c ∈ calls, ∀ x ∈ c.2, x.ok = true) →
      Transition.run (callStep tid) (m.sfs, t1) calls = some (s, t2) → NoneOpen s →
      ∀ closing, (∀ x ∈ closing, x.ok = true) →
        ∃ t3, sfsUnmountRun tid m closing t2 = some t3 ∧ t3.used = t.used

section Main

variable {t : Tables n} {tid blockSize : ℕ} {disk : Gbd}

/-- **A volume that is mounted and unmounted at once** keeps its locks and condition variables. -/
theorem not_neutral (hwf : t.Wf) (he : Enough t) (hm : mountable blockSize disk = true) :
    ¬ Neutral tid blockSize disk t := by
  rintro ⟨r, t1, hi, -, hsucc⟩
  rcases sfsInitRun_spec hwf he.toRoom hi with ⟨-, m, rfl, hsfs, hmounted⟩ | ⟨hno, -, -⟩
  · have hclosed : NoneOpen m.sfs := by
      rw [hsfs]
      intro e
      rfl
    have hnil : ∀ x ∈ ([] : List Transfer), x.ok = true := by simp
    obtain ⟨t3, hu, hsame⟩ := hsucc m rfl [] m.sfs t1 (by simp) rfl hclosed [] hnil
    obtain ⟨t3', hu', hleaked⟩ := hmounted.unmount he.toRoom tid t1.next hnil
    rw [hu] at hu'
    cases hu'
    have hlocks := congrArg Used.locks (hleaked.used.symm.trans hsame)
    simp only [SFS_MAX_OPEN_FILES] at hlocks
    omega
  · rw [hm] at hno
    cases hno

/-- **Mounting is resource neutral exactly when it fails**: with enough free entries, one attempt is
neutral iff the disk holds no volume, and any number of cycles goes through without keeping anything iff
none of their disks holds one. -/
theorem mounting_neutral_iff (hwf : t.Wf) (he : Enough t) (tid : ℕ) :
    (∀ blockSize disk, Neutral tid blockSize disk t ↔ mountable blockSize disk = false) ∧
      ∀ cycles : List Cycle, (∀ c ∈ cycles, c.Succeeds) →
        ((∃ t', Transition.run (cycleStep tid) t cycles = some t' ∧ t'.used = t.used) ↔
          ∀ c ∈ cycles, mountable c.blockSize c.disk = false) := by
  refine ⟨fun blockSize disk => ⟨fun hn => ?_, fun hm => ?_⟩, fun cycles hok => ⟨?_, fun hm => ?_⟩⟩
  · by_contra hm
    rw [Bool.not_eq_false] at hm
    exact not_neutral hwf he hm hn
  · obtain ⟨r, t1, hi⟩ := sfsInitRun_total hwf he tid blockSize disk
    rcases sfsInitRun_spec hwf he.toRoom hi with ⟨hyes, -⟩ | ⟨-, rfl, hleaked⟩
    · rw [hm] at hyes
      cases hyes
    · refine ⟨none, t1, hi, fun _ => ?_, fun m h => by cases h⟩
      exact hleaked.used
  · rintro ⟨t', hrun, hsame⟩ c hc
    have hleaked := cycles_spec hwf he.toRoom hok hrun
    have hlocks := congrArg Used.locks (hleaked.used.symm.trans hsame)
    have hzero : (cycles.map Cycle.kept).sum = 0 := by
      simp only at hlocks
      omega
    by_contra hm
    rw [Bool.not_eq_false] at hm
    have hkept := List.sum_eq_zero_iff_forall_eq_nat.1 hzero c.kept (List.mem_map_of_mem hc)
    rw [Cycle.kept, if_pos hm] at hkept
    exact absurd hkept (by decide)
  · -- every attempt fails and leaves enough for the next one
    induction cycles generalizing t with
    | nil => exact ⟨t, rfl, rfl⟩
    | cons c cs ih =>
      have hno := hm c List.mem_cons_self
      obtain ⟨r, t1, hi⟩ := sfsInitRun_total hwf he tid c.blockSize c.disk
      rcases sfsInitRun_spec hwf he.toRoom hi with ⟨hyes, -⟩ | ⟨-, rfl, hleaked⟩
      · rw [hno] at hyes
        cases hyes
      · have hused : t1.used = t.used := hleaked.used
        have he1 : Enough t1 := ⟨hleaked.room he.toRoom, by rw [hused]; exact he.locks,
          by rw [hused]; exact he.conds⟩
        obtain ⟨t', hrun, hsame⟩ := ih hleaked.wf he1 (fun d hd => hok d (List.mem_cons_of_mem _ hd))
          fun d hd => hm d (List.mem_cons_of_mem _ hd)
        refine ⟨t', ?_, hsame.trans hused⟩
        rw [Transition.run, cycleStep, hi]
        exact hrun

end Main

/-! ## After the kernel has started -/

/-- The tables of a machine with 40 pages, 3 of which the kernel has taken. -/
def bootTables : Tables 8 := Tables.init (pagepoolInit (Bytes.Buf.const 8 0xff) 40 0x80002001)

theorem bootTables_wf : bootTables.Wf :=
  Tables.Wf.init (Session.Agrees.init (by decide) (by decide) (by decide))

theorem bootTables_enough : Enough bootTables := by
  have hused : bootTables.used = ⟨0, 0, 0, 3⟩ := by decide +kernel
  refine ⟨⟨?_, ?_⟩, ?_, ?_⟩
  · rw [hused]
    decide
  · rw [hused]
    decide
  · rw [hused]
    decide
  · rw [hused]
    decide

/-- The empty disk holds no volume: attempts to mount it change nothing. -/
theorem mounting_neutral_emptyDisk : Neutral 1 512 emptyVolume bootTables ∧
    ∃ t', Transition.run (cycleStep 1) bootTables (List.replicate 200 ⟨512, emptyVolume, [], []⟩) = some t' ∧
      t'.used = bootTables.used := by
  have h := mounting_neutral_iff bootTables_wf bootTables_enough 1
  have hno : mountable 512 emptyVolume = false := by decide +kernel
  refine ⟨(h.1 512 emptyVolume).2 hno, (h.2 _ fun c hc => ?_).2 fun c hc => ?_⟩
  · rw [List.eq_of_mem_replicate hc]
    exact ⟨by simp, by simp⟩
  · rw [List.eq_of_mem_replicate hc]
    exact hno

/-- A disk whose header block begins with the magic number. -/
def volumeDisk : Gbd :=
  { emptyVolume with blocks := Function.update emptyVolume.blocks 0 ((Bytes.Buf.const 512 0).setWord 0 SFS_MAGIC) }

/-- **Mounting a volume and unmounting it** is not neutral: after the kernel has started, 32 locks and 32
condition variables stay in use. -/
theorem mounting_leaks : bootTables.Wf ∧ Enough bootTables ∧ ¬ Neutral 1 512 volumeDisk bootTables ∧
    bootTables.used = ⟨0, 0, 0, 3⟩ ∧
    (cycleStep 1 bootTables ⟨512, volumeDisk, [], []⟩).map Tables.used = some ⟨32, 32, 0, 3⟩ := by
  have hm : mountable 512 volumeDisk = true := by decide +kernel
  exact ⟨bootTables_wf, bootTables_enough, not_neutral bootTables_wf bootTables_enough hm,
    by decide +kernel, by decide +kernel⟩

end Buenos.Mounting

import Buenos.Base.Chain
import Buenos.Base.Transition
import Buenos.Kernel.Threads

/-!
# The process table

The process table of `proc/process.c` and the system calls of `proc/syscall_handler_proc.c` that work
on it: `execp`, `exit` and `join`.

* `ProcessEntry` — a slot of `process_table`, in the fields that tie processes to each other.
* `processStartSlot`, `freeProcessTableEntry`, `syscallHandleExit`, `syscallHandleJoin` — the sections
  that change the table, each as it runs under `process_table_lock` or with interrupts disabled.
* `Procs` — the table with what every thread is doing in it, and `step`, the interleavings.

Principal result: `slot_thread_bijection`, that slots and threads are paired in every reachable state.
-/

namespace Buenos.Proc

open Buenos.Transition
open Buenos.Kernel (CONFIG_MAX_THREADS)

def CONFIG_MAX_PROCESSES : ℕ := 32
def PROCESS_NO_RETVAL : ℤ := -1

instance : NeZero CONFIG_MAX_PROCESSES := ⟨by decide⟩

instance : NeZero CONFIG_MAX_THREADS := ⟨by decide⟩

/-- A `PID_t` that is the number of a slot. -/
abbrev PID := Fin CONFIG_MAX_PROCESSES

/-- A `TID_t` that is the number of a thread. -/
abbrev TID := Fin CONFIG_MAX_THREADS

/-- `process_table_t`; `none` is -1. -/
structure ProcessEntry where
  tid : Option TID
  next : Option PID
  retval : ℤ
  parentPid : Option PID
  lastChildPid : Option PID
  deriving DecidableEq

abbrev Table := PID → ProcessEntry

/-! ## The sections that change the table -/

/-- What `free_process_table_entry` leaves in a slot. -/
def freeEntry : ProcessEntry := ⟨none, none, PROCESS_NO_RETVAL, none, none⟩

/-- `free_process_table_entry`. -/
def freeProcessTableEntry (table : Table) (p : PID) : Table := Function.update table p freeEntry

/-- The test of the loop in `process_start`. -/
def ProcessEntry.isFree (e : ProcessEntry) : Bool := e.tid.isNone && e.parentPid.isNone

/-- The slot that the loop in `process_start` finds. -/
def findFree (table : Table) : Option PID := (List.finRange CONFIG_MAX_PROCESSES).find? fun i => (table i).isFree

/-- The body of that loop: slot `i` for thread `t`, in front of the children of `parentPid`. -/
def fillSlot (table : Table) (i : PID) (t : TID) (parentPid : Option PID) : Table :=
  let table := Function.update table i ⟨some t, none, PROCESS_NO_RETVAL, parentPid, none⟩
  match parentPid with
  | none => table
  | some p =>
    let table := Function.update table i { table i with next := (table p).lastChildPid }
    Function.update table p { table p with lastChildPid := some i }

/-- A loop along `next` that takes more rounds than there are slots never ends. -/
def ROUNDS : ℕ := CONFIG_MAX_PROCESSES + 1

/-- The loop of `syscall_handle_exit` over the children; `none` when it does not end. -/
def orphanChildren : ℕ → Option PID → Table → Option Table
  | 0, _, _ => none
  | _ + 1, none, table => some table
  | n + 1, some c, table =>
    orphanChildren n (table c).next (Function.update table c { table c with parentPid := none })

/-- `-retval` of an `int`. -/
def intNeg (retval : ℤ) : ℤ := if retval = -2 ^ 31 then retval else -retval

/-- The value that `syscall_handle_exit` stores. -/
def exitRetval (retval : ℤ) : ℤ := if retval < 0 then intNeg retval else retval

/-- `syscall_handle_exit` for the process in slot `p`. -/
def syscallHandleExit (table : Table) (p : PID) (retval : ℤ) : Option Table :=
  match orphanChildren ROUNDS (table p).lastChildPid table with
  | none => none
  | some table => some (Function.update table p { table p with tid := none, retval := exitRetval retval })

/-- The slot that `syscall_handle_join` of process `p` waits for; `none` when it returns at once with
`RETVAL_SYSCALL_USERLAND_NOK`. -/
def joinedSlot (table : Table) (p : PID) (pid : ℤ) : Option PID :=
  if h : 0 < pid ∧ pid ≤ CONFIG_MAX_PROCESSES then
    let c : PID := ⟨(pid - 1).toNat, by omega⟩
    if (table c).parentPid = some p then some c else none
  else none

/-- The rest of `syscall_handle_join`, once the child has no thread. -/
def syscallHandleJoin (table : Table) (c : PID) : Option (ℤ × Table) :=
  if (table c).tid = none then
    some ((table c).retval, Function.update table c { table c with parentPid := none })
  else none

/-! ## Processes -/

/-- `child_process_create_data_t`: the thread whose stack it is on, and `parent_pid`. -/
structure CreateData where
  parent : TID
  parentPid : PID
  deriving DecidableEq

/-- What a thread is doing. -/
inductive Code where
  /-- no process code: a free row of the thread table, or a kernel thread -/
  | idle
  /-- in `process_start`, before it has a slot -/
  | start (data : Option CreateData)
  /-- in `process_start`, with a slot -/
  | load (data : Option CreateData) (pid : PID)
  | user
  /-- in `syscall_handle_execp`, waiting for the child to start -/
  | execp (child : TID)
  /-- in `syscall_handle_join`, waiting for the child to exit -/
  | join (pid : PID)
  deriving DecidableEq

/-- The processes.  `held` and `exitArg` are for reasoning only: `held c = some p` when process `p` has
got the pid of slot `c` from `execp` and has neither joined it nor exited, and `exitArg c` is the
argument of the `exit` of the process in slot `c`. -/
structure Procs where
  table : Table
  userlandPid : TID → Option PID
  code : TID → Code
  held : PID → Option PID
  exitArg : PID → Option ℤ

/-- After `process_table_init`. -/
def Procs.init : Procs where
  table := fun _ => freeEntry
  userlandPid := fun _ => none
  code := fun _ => .idle
  held := fun _ => none
  exitArg := fun _ => none

/-- `data->ready = 1` and the broadcast: the parent leaves `syscall_handle_execp`. -/
def wakeParent (data : Option CreateData) (code : TID → Code) : TID → Code :=
  match data with
  | none => code
  | some d => Function.update code d.parent .user

/-- The steps of the processes. -/
inductive Action where
  /-- `process_start(initprog, NULL)` -/
  | boot (t : TID)
  /-- `syscall_handle_execp` up to its wait, with the thread that `thread_create` gives -/
  | execp (t child : TID)
  /-- the section of `process_start` under `process_table_lock` -/
  | slot (t : TID)
  /-- `process_start` fails after it has got its slot -/
  | fail (t : TID)
  /-- `process_start` goes to userland -/
  | started (t : TID)
  /-- `syscall_handle_exit`, from the system call or from an exception -/
  | exit (t : TID) (retval : ℤ)
  | join (t : TID) (pid : ℤ)
  /-- `syscall_handle_join` returns -/
  | joined (t : TID)

/-- The slot section of `process_start`.  Without a free slot the start fails at once. -/
def processStartSlot (s : Procs) (t : TID) (data : Option CreateData) : Procs :=
  match findFree s.table with
  | none => { s with code := wakeParent data (Function.update s.code t .idle) }
  | some i =>
    { s with table := fillSlot s.table i t (data.map (·.parentPid))
             userlandPid := Function.update s.userlandPid t (some i)
             code := Function.update s.code t (.load data i)
             exitArg := Function.update s.exitArg i none }

/-- `restore_process_state`, with the slot `p`. -/
def restoreProcessState (s : Procs) (t : TID) (data : Option CreateData) (p : PID) : Procs :=
  { s with table := freeProcessTableEntry s.table p
           userlandPid := Function.update s.userlandPid t none
           code := wakeParent data (Function.update s.code t .idle) }

/-- The end of `process_start`: the parent gets the pid. -/
def processStarted (s : Procs) (t : TID) (data : Option CreateData) (p : PID) : Procs :=
  { s with code := wakeParent data (Function.update s.code t .user)
           held := match data with
             | none => s.held
             | some d => Function.update s.held p (some d.parentPid) }

/-- The exit of the process in slot `p`, run by thread `t`. -/
def processExit (s : Procs) (t : TID) (p : PID) (retval : ℤ) : Option Procs :=
  match syscallHandleExit s.table p retval with
  | none => none
  | some table =>
    some { table := table
           userlandPid := Function.update s.userlandPid t none
           code := Function.update s.code t .idle
           held := fun c => if s.held c = some p then none else s.held c
           exitArg := Function.update s.exitArg p (some retval) }

/-- Does the thread run code that can exit: user code, or the loader of `process_start`, which an
exception kills? -/
def Code.canExit : Code → Bool
  | .user => true
  | .load _ _ => true
  | _ => false

def step (s : Procs) : Action → Option Procs
  | .boot t => if s.code t = .idle then some { s with code := Function.update s.code t (.start none) } else none
  | .execp t child =>
    match s.userlandPid t with
    | none => none
    | some p =>
      if s.code t = .user ∧ s.code child = .idle then
        let code := Function.update s.code t (.execp child)
        some { s with code := Function.update code child (.start (some ⟨t, p⟩)) }
      else none
  | .slot t =>
    match s.code t with
    | .start data => some (processStartSlot s t data)
    | _ => none
  | .fail t =>
    match s.code t with
    | .load data p => some (restoreProcessState s t data p)
    | _ => none
  | .started t =>
    match s.code t with
    | .load data p => some (processStarted s t data p)
    | _ => none
  | .exit t retval =>
    match s.userlandPid t with
    | none => none
    | some p => if (s.code t).canExit then processExit s t p retval else none
  | .join t pid =>
    match s.userlandPid t with
    | none => none
    | some p =>
      if s.code t = .user then
        match joinedSlot s.table p pid with
        | none => some s
        | some c => some { s with code := Function.update s.code t (.join c) }
      else none
  | .joined t =>
    match s.code t with
    | .join c =>
      match syscallHandleJoin s.table c with
      | none => none
      | some (_, table) =>
        some { s with table := table
                      code := Function.update s.code t .user
                      held := Function.update s.held c none }
    | _ => none

/-- What a step does, one case for each way it can go. -/
inductive Stepped (s : Procs) : Action → Procs → Prop
  | boot {t : TID} (ht : s.code t = .idle) :
      Stepped s (.boot t) { s with code := Function.update s.code t (.start none) }
  | execp {t child : TID} {p : PID} (hp : s.userlandPid t = some p) (ht : s.code t = .user)
      (hc : s.code child = .idle) :
      Stepped s (.execp t child) { s with
        code := Function.update (Function.update s.code t (.execp child)) child (.start (some ⟨t, p⟩)) }
  | slot {t : TID} {data : Option CreateData} (ht : s.code t = .start data) :
      Stepped s (.slot t) (processStartSlot s t data)
  | fail {t : TID} {data : Option CreateData} {p : PID} (ht : s.code t = .load data p) :
      Stepped s (.fail t) (restoreProcessState s t data p)
  | started {t : TID} {data : Option CreateData} {p : PID} (ht : s.code t = .load data p) :
      Stepped s (.started t) (processStarted s t data p)
  | exit {t : TID} {p : PID} {retval : ℤ} {s' : Procs} (hp : s.userlandPid t = some p)
      (hc : (s.code t).canExit = true) (he : processExit s t p retval = some s') :
      Stepped s (.exit t retval) s'
  | refused {t : TID} {p : PID} {pid : ℤ} (hp : s.userlandPid t = some p) (ht : s.code t = .user)
      (hj : joinedSlot s.table p pid = none) : Stepped s (.join t pid) s
  | join {t : TID} {p c : PID} {pid : ℤ} (hp : s.userlandPid t = some p) (ht : s.code t = .user)
      (hj : joinedSlot s.table p pid = some c) :
      Stepped s (.join t pid) { s with code := Function.update s.code t (.join c) }
  | joined {t : TID} {c : PID} {r : ℤ} {table : Table} (ht : s.code t = .join c)
      (hj : syscallHandleJoin s.table c = some (r, table)) :
      Stepped s (.joined t) { s with table := table, code := Function.update s.code t .user,
                                     held := Function.update s.held c none }

theorem step_cases {s s' : Procs} {a : Action} (hs : step s a = some s') : Stepped s a s' := by
  cases a with
  | boot t =>
    simp only [step] at hs
    split at hs
    · rename_i ht
      cases hs
      exact .boot ht
    · cases hs
  | execp t child =>
    simp only [step] at hs
    split at hs
    · cases hs
    · rename_i p hp
      split at hs
      · rename_i hc
        cases hs
        exact .execp hp hc.1 hc.2
      · cases hs
  | slot t =>
    simp only [step] at hs
    split at hs
    · rename_i data ht
      cases hs
      exact .slot ht
    · cases hs
  | fail t =>
    simp only [step] at hs
    split at hs
    · rename_i data p ht
      cases hs
      exact .fail ht
    · cases hs
  | started t =>
    simp only [step] at hs
    split at hs
    · rename_i data p ht
      cases hs
      exact .started ht
    · cases hs
  | exit t retval =>
    simp only [step] at hs
    split at hs
    · cases hs
    · rename_i p hp
      split at hs
      · rename_i hc
        exact .exit hp hc hs
      · cases hs
  | join t pid =>
    simp only [step] at hs
    split at hs
    · cases hs
    · rename_i p hp
      split at hs
      · rename_i ht
        split at hs
        · rename_i hj
          cases hs
          exact .refused hp ht hj
        · rename_i c hj
          cases hs
          exact .join hp ht hj
      · cases hs
  | joined t =>
    simp only [step] at hs
    split at hs
    · rename_i c ht
      split at hs
      · cases hs
      · rename_i r table hj
        cases hs
        exact .joined ht hj
    · cases hs

/-! ## Slots and threads -/

/-- The slot of a thread as what it is doing has it. -/
def Code.Fits : Code → Option PID → Prop
  | .idle, pid => pid = none
  | .start _, pid => pid = none
  | .load _ p, pid => pid = some p
  | .user, pid => pid ≠ none
  | .execp _, pid => pid ≠ none
  | .join _, pid => pid ≠ none

/-- The parent that waits for a thread in `process_start`. -/
def Code.data : Code → Option CreateData
  | .start data => data
  | .load data _ => data
  | _ => none

/-- Slots and threads are paired, what a thread is doing fits to its slot, and the parent of a
process that is being started waits for it. -/
structure Paired (s : Procs) : Prop where
  pair : ∀ p t, (s.table p).tid = some t ↔ s.userlandPid t = some p
  fits : ∀ t, (s.code t).Fits (s.userlandPid t)
  waits : ∀ t d, (s.code t).data = some d →
    s.code d.parent = .execp t ∧ s.userlandPid d.parent = some d.parentPid

section Sections

variable {s s' : Procs} {t : TID} {p i c : PID} {table table' : Table} {data : Option CreateData} {retval : ℤ}

theorem findFree_some (h : findFree table = some i) : (table i).tid = none ∧ (table i).parentPid = none := by
  have hfree := List.find?_some h
  simpa [ProcessEntry.isFree] using hfree

/-- A slot is filled for one thread, and no other slot changes hands. -/
theorem fillSlot_tid (parentPid : Option PID) (q : PID) :
    (fillSlot table i t parentPid q).tid = if q = i then some t else (table q).tid := by
  unfold fillSlot
  cases parentPid with
  | none =>
    by_cases hq : q = i
    · simp [hq]
    · simp [hq]
  | some p =>
    by_cases hq : q = i
    · by_cases hp : i = p
      · simp [hq, hp]
      · simp [hq, hp]
    · by_cases hp : q = p
      · subst hp
        simp [hq]
      · simp [hq, hp]

/-- The loop over the children changes nothing but parents. -/
theorem orphanChildren_same : ∀ {n : ℕ} {child : Option PID} {table table' : Table},
    orphanChildren n child table = some table' →
      ∀ q, table' q = { table q with parentPid := (table' q).parentPid }
  | 0, _, _, _, h, _ => by cases h
  | _ + 1, none, _, _, h, _ => by cases h; rfl
  | n + 1, some c, table, table', h, q => by
    rw [orphanChildren] at h
    have ih := orphanChildren_same h q
    by_cases hq : q = c
    · rw [hq, Function.update_self] at ih
      rw [hq]
      exact ih
    · rw [Function.update_of_ne hq] at ih
      exact ih

/-- `exit` takes the thread from its own slot only. -/
theorem syscallHandleExit_tid (h : syscallHandleExit table p retval = some table') (q : PID) :
    (table' q).tid = if q = p then none else (table q).tid := by
  unfold syscallHandleExit at h
  split at h
  · cases h
  · rename_i table1 h1
    cases h
    by_cases hq : q = p
    · simp [hq]
    · rw [Function.update_of_ne hq, if_neg hq, orphanChildren_same h1 q]

/-- `join` changes no thread. -/
theorem syscallHandleJoin_tid {r : ℤ} (h : syscallHandleJoin table c = some (r, table')) (q : PID) :
    (table' q).tid = (table q).tid := by
  unfold syscallHandleJoin at h
  split at h
  · cases h
    by_cases hq : q = c
    · simp [hq]
    · rw [Function.update_of_ne hq]
  · cases h

end Sections

namespace Paired

variable {s s' : Procs} {t : TID} {p : PID} {data : Option CreateData}

/-- A thread whose parent waits has another parent than every other thread. -/
theorem parent_ne (h : Paired s) {t t' : TID} {d d' : CreateData} (hd : (s.code t).data = some d)
    (hd' : (s.code t').data = some d') (hne : t' ≠ t) : d'.parent ≠ d.parent := by
  intro he
  have h1 := (h.waits t d hd).1
  rw [← he, (h.waits t' d' hd').1] at h1
  cases h1
  exact hne rfl

/-- A thread that waits for no child is no parent in `waits`. -/
theorem not_parent (h : Paired s) {t t' : TID} {d : CreateData} (hd : (s.code t').data = some d)
    (ht : ∀ x, s.code t ≠ .execp x) : d.parent ≠ t := by
  rintro rfl
  exact ht t' (h.waits t' d hd).1

/-- Thread `t` goes on to code that waits for no child, and its parent, if it has one, goes on to
user code. -/
theorem wake (h : Paired s) (hdata : (s.code t).data = data) {c : Code} (hc : c.data = none)
    (hnot : ∀ x, s.code t ≠ .execp x) {s' : Procs}
    (hcode : s'.code = wakeParent data (Function.update s.code t c))
    (hpid : ∀ t', t' ≠ t → s'.userlandPid t' = s.userlandPid t') (hfits : c.Fits (s'.userlandPid t))
    (hpair : ∀ p t, (s'.table p).tid = some t ↔ s'.userlandPid t = some p) : Paired s' := by
  have hself : s'.code t = c := by
    cases data with
    | none => rw [hcode, wakeParent, Function.update_self]
    | some d =>
      have hne := h.not_parent hdata hnot
      rw [hcode, wakeParent, Function.update_of_ne hne.symm, Function.update_self]
  have hother : ∀ t', t' ≠ t → s'.code t' = s.code t' ∨
      ∃ d, data = some d ∧ t' = d.parent ∧ s'.code t' = .user := by
    intro t' ht'
    cases data with
    | none => exact Or.inl (by rw [hcode, wakeParent, Function.update_of_ne ht'])
    | some d =>
      by_cases hd : t' = d.parent
      · exact Or.inr ⟨d, rfl, hd, by rw [hcode, wakeParent, hd, Function.update_self]⟩
      · exact Or.inl (by rw [hcode, wakeParent, Function.update_of_ne hd, Function.update_of_ne ht'])
  refine ⟨hpair, fun t' => ?_, fun t' d' hd' => ?_⟩
  · by_cases ht' : t' = t
    · rw [ht', hself]
      exact hfits
    · rcases hother t' ht' with he | ⟨d, hd, rfl, he⟩
      · rw [he, hpid t' ht']
        exact h.fits t'
      · rw [he, hpid _ ht', (h.waits t d (hdata.trans hd)).2]
        exact Option.some_ne_none _
  · by_cases ht' : t' = t
    · rw [ht', hself, hc] at hd'
      cases hd'
    · rcases hother t' ht' with he | ⟨d, hd, rfl, he⟩
      · rw [he] at hd'
        have hne := h.not_parent hd' hnot
        obtain ⟨h1, h2⟩ := h.waits t' d' hd'
        rw [hpid _ hne]
        refine ⟨?_, h2⟩
        rcases hother _ hne with he' | ⟨d, hd, hp, -⟩
        · rw [he', h1]
        · exact absurd hp (h.parent_ne (hdata.trans hd) hd' ht')
      · rw [he] at hd'
        cases hd'

/-- Thread `t`, which waits for no child, goes on to other code. -/
theorem setCode (h : Paired s) {c : Code} (hc : c.Fits (s.userlandPid t)) (hdata : c.data = (s.code t).data)
    (hnot : ∀ x, s.code t ≠ .execp x) :
    Paired { s with code := Function.update s.code t c } := by
  refine ⟨h.pair, fun t' => ?_, fun t' d hd => ?_⟩
  · by_cases ht' : t' = t
    · rw [ht']
      simpa using hc
    · simpa [Function.update_of_ne ht'] using h.fits t'
  · have hd : (s.code t').data = some d := by
      by_cases ht' : t' = t
      · rw [ht', ← hdata]
        simpa [ht'] using hd
      · simpa [Function.update_of_ne ht'] using hd
    have hne := h.not_parent hd hnot
    obtain ⟨h1, h2⟩ := h.waits t' d hd
    exact ⟨by simpa [Function.update_of_ne hne] using h1, h2⟩

theorem execp (h : Paired s) {child : TID} (ht : s.code t = .user) (hc : s.code child = .idle)
    (hp : s.userlandPid t = some p) :
    Paired { s with
      code := Function.update (Function.update s.code t (.execp child)) child (.start (some ⟨t, p⟩)) } := by
  have hne : t ≠ child := by
    rintro rfl
    rw [ht] at hc
    cases hc
  have hidle : s.userlandPid child = none := by
    have hf := h.fits child
    rwa [hc] at hf
  refine ⟨h.pair, fun t' => ?_, fun t' d hd => ?_⟩
  · by_cases h1 : t' = child
    · rw [h1]
      simpa [Code.Fits] using hidle
    · by_cases h2 : t' = t
      · rw [h2]
        simp [Function.update_of_ne hne, Code.Fits, hp]
      · simpa [Function.update_of_ne h1, Function.update_of_ne h2] using h.fits t'
  · by_cases h1 : t' = child
    · rw [h1] at hd ⊢
      simp only [Function.update_self, Code.data, Option.some.injEq] at hd
      subst hd
      exact ⟨by simp [Function.update_of_ne hne], hp⟩
    · have hd : (s.code t').data = some d := by
        by_cases h2 : t' = t
        · rw [h2] at hd
          simp [Function.update_of_ne hne, Code.data] at hd
        · simpa [Function.update_of_ne h1, Function.update_of_ne h2] using hd
      have hn1 := h.not_parent (t := child) hd (by rw [hc]; simp)
      have hn2 := h.not_parent (t := t) hd (by rw [ht]; simp)
      obtain ⟨h3, h4⟩ := h.waits t' d hd
      exact ⟨by simpa [Function.update_of_ne hn1, Function.update_of_ne hn2] using h3, h4⟩

theorem slot (h : Paired s) (ht : s.code t = .start data) : Paired (processStartSlot s t data) := by
  have hnot : ∀ x, s.code t ≠ .execp x := by
    intro x hx
    rw [ht] at hx
    cases hx
  have hnone : s.userlandPid t = none := by
    have hf := h.fits t
    rwa [ht] at hf
  unfold processStartSlot
  cases hf : findFree s.table with
  | none =>
    exact h.wake (c := .idle) (by rw [ht]; rfl) rfl hnot rfl (fun _ _ => rfl) hnone h.pair
  | some i =>
    obtain ⟨hi, -⟩ := findFree_some hf
    refine ⟨fun q t' => ?_, fun t' => ?_, fun t' d hd => ?_⟩
    · simp only [fillSlot_tid]
      by_cases hq : q = i
      · by_cases ht' : t' = t
        · simp [hq, ht']
        · rw [if_pos hq, Function.update_of_ne ht', ← h.pair, hq, hi]
          simp [Ne.symm ht']
      · rw [if_neg hq, h.pair]
        by_cases ht' : t' = t
        · simp [ht', hnone, Ne.symm hq]
        · rw [Function.update_of_ne ht']
    · by_cases ht' : t' = t
      · simp [ht', Code.Fits]
      · simpa [Function.update_of_ne ht'] using h.fits t'
    · have hd : (s.code t').data = some d := by
        by_cases ht' : t' = t
        · rw [ht', ht]
          simpa [ht', Code.data] using hd
        · simpa [Function.update_of_ne ht'] using hd
      have hne := h.not_parent hd hnot
      obtain ⟨h1, h2⟩ := h.waits t' d hd
      exact ⟨by simpa [Function.update_of_ne hne] using h1, by simpa [Function.update_of_ne hne] using h2⟩

/-- A thread gives its slot back. -/
theorem release (h : Paired s) {table : Table} (hp : s.userlandPid t = some p)
    (htid : ∀ q, (table q).tid = if q = p then none else (s.table q).tid) (q : PID) (t' : TID) :
    (table q).tid = some t' ↔ Function.update s.userlandPid t none t' = some q := by
  have hpt := (h.pair p t).2 hp
  rw [htid]
  by_cases hq : q = p
  · rw [if_pos hq]
    by_cases ht' : t' = t
    · simp [ht']
    · rw [Function.update_of_ne ht', ← h.pair, hq, hpt]
      simp [Ne.symm ht']
  · rw [if_neg hq, h.pair]
    by_cases ht' : t' = t
    · simp [ht', hp, Ne.symm hq]
    · rw [Function.update_of_ne ht']

theorem fail (h : Paired s) (ht : s.code t = .load data p) : Paired (restoreProcessState s t data p) := by
  have hp : s.userlandPid t = some p := by
    have hf := h.fits t
    rwa [ht] at hf
  refine h.wake (c := .idle) (by rw [ht]; rfl) rfl (by rw [ht]; simp) rfl
    (fun t' ht' => Function.update_of_ne ht' _ _) (Function.update_self _ _ _) (h.release hp fun q => ?_)
  show (freeProcessTableEntry s.table p q).tid = _
  unfold freeProcessTableEntry
  by_cases hq : q = p
  · simp [hq, freeEntry]
  · simp [hq]

theorem started (h : Paired s) (ht : s.code t = .load data p) : Paired (processStarted s t data p) := by
  have hp : s.userlandPid t = some p := by
    have hf := h.fits t
    rwa [ht] at hf
  refine h.wake (c := .user) (by rw [ht]; rfl) rfl (by rw [ht]; simp) rfl (fun _ _ => rfl) ?_ h.pair
  show s.userlandPid t ≠ none
  rw [hp]
  exact Option.some_ne_none _

theorem exit (h : Paired s) (hc : (s.code t).canExit = true) (hp : s.userlandPid t = some p) {retval : ℤ}
    (he : processExit s t p retval = some s') : Paired s' := by
  have hnot : ∀ x, s.code t ≠ .execp x := by
    intro x hx
    rw [hx] at hc
    cases hc
  unfold processExit at he
  split at he
  · cases he
  · rename_i table htable
    cases he
    have hpair := h.release hp (syscallHandleExit_tid htable)
    refine ⟨hpair, fun t' => ?_, fun t' d hd => ?_⟩
    · by_cases ht' : t' = t
      · simp [ht', Code.Fits]
      · simpa [Function.update_of_ne ht'] using h.fits t'
    · have hd : (s.code t').data = some d := by
        by_cases ht' : t' = t
        · simp [ht', Code.data] at hd
        · simpa [Function.update_of_ne ht'] using hd
      have hne := h.not_parent hd hnot
      obtain ⟨h1, h2⟩ := h.waits t' d hd
      exact ⟨by simpa [Function.update_of_ne hne] using h1, by simpa [Function.update_of_ne hne] using h2⟩

theorem joined (h : Paired s) {c : PID} (ht : s.code t = .join c) {r : ℤ} {table : Table}
    (hj : syscallHandleJoin s.table c = some (r, table)) :
    Paired { s with table := table, code := Function.update s.code t .user,
                    held := Function.update s.held c none } := by
  have hf := h.fits t
  rw [ht] at hf
  have h1 := h.setCode (t := t) (c := .user) hf (by rw [ht]; rfl) (by rw [ht]; simp)
  refine ⟨fun q t' => ?_, h1.fits, h1.waits⟩
  simp only [syscallHandleJoin_tid hj]
  exact h.pair q t'

end Paired

theorem paired_init : Paired Procs.init := by
  refine ⟨fun p t => ?_, fun t => rfl, fun t d hd => ?_⟩
  · simp [Procs.init, freeEntry]
  · cases hd

theorem Paired.step {s s' : Procs} {a : Action} (h : Paired s) (hs : step s a = some s') : Paired s' := by
  cases step_cases hs with
  | @boot t ht =>
    have hf := h.fits t
    rw [ht] at hf
    exact h.setCode hf (by rw [ht]; rfl) (by rw [ht]; simp)
  | execp hp ht hc => exact h.execp ht hc hp
  | slot ht => exact h.slot ht
  | fail ht => exact h.fail ht
  | started ht => exact h.started ht
  | exit hp hc he => exact h.exit hc hp he
  | refused hp ht hj => exact h
  | join hp ht hj =>
    refine h.setCode ?_ (by rw [ht]; rfl) (by rw [ht]; simp)
    rw [hp]
    exact Option.some_ne_none _
  | joined ht hj => exact h.joined ht hj

/-- A slot gets a thread only where neither a thread nor a parent had it. -/
theorem step_free {s s' : Procs} {a : Action} (hs : step s a = some s') {p : PID} {t : TID}
    (hold : (s.table p).tid ≠ some t) (hnew : (s'.table p).tid = some t) :
    (s.table p).tid = none ∧ (s.table p).parentPid = none := by
  cases step_cases hs with
  | boot _ => exact absurd hnew hold
  | execp _ _ _ => exact absurd hnew hold
  | @slot t' data ht =>
    unfold processStartSlot at hnew
    cases hf : findFree s.table with
    | none =>
      rw [hf] at hnew
      exact absurd hnew hold
    | some i =>
      rw [hf] at hnew
      simp only [fillSlot_tid] at hnew
      by_cases hp : p = i
      · rw [hp]
        exact findFree_some hf
      · rw [if_neg hp] at hnew
        exact absurd hnew hold
  | @fail t' data q ht =>
    by_cases hp : p = q
    · simp [restoreProcessState, freeProcessTableEntry, hp, freeEntry] at hnew
    · simp only [restoreProcessState, freeProcessTableEntry, Function.update_of_ne hp] at hnew
      exact absurd hnew hold
  | started _ => exact absurd hnew hold
  | @exit t' q retval s' hp hc he =>
    unfold processExit at he
    split at he
    · cases he
    · rename_i table htable
      cases he
      simp only [syscallHandleExit_tid htable] at hnew
      split at hnew
      · cases hnew
      · exact absurd hnew hold
  | refused _ _ _ => exact absurd hnew hold
  | join _ _ _ => exact absurd hnew hold
  | joined ht hj =>
    simp only [syscallHandleJoin_tid hj] at hnew
    exact absurd hnew hold

/-- **Slots and threads are paired** in every reachable state, and a process gets a slot that was
free. -/
theorem slot_thread_bijection {as : List Action} {s : Procs} (hr : run step Procs.init as = some s) :
    Set.BijOn (fun p => (s.table p).tid) {p | (s.table p).tid ≠ none}
      (some '' {t | s.userlandPid t ≠ none}) ∧
    (∀ p t, (s.table p).tid = some t → s.userlandPid t = some p) ∧
    ∀ a s' p t, step s a = some s' → (s.table p).tid ≠ some t → (s'.table p).tid = some t →
      (s.table p).tid = none ∧ (s.table p).parentPid = none := by
  have h : Paired s := run_always (fun hi hs => hi.step hs) paired_init hr
  refine ⟨⟨fun p hp => ?_, fun p hp q _ he => ?_, ?_⟩, fun p t => (h.pair p t).1,
    fun a s' p t hs hold hnew => step_free hs hold hnew⟩
  · obtain ⟨t, ht⟩ := Option.ne_none_iff_exists'.1 hp
    refine ⟨t, ?_, ht.symm⟩
    show s.userlandPid t ≠ none
    rw [(h.pair p t).1 ht]
    exact Option.some_ne_none _
  · obtain ⟨t, ht⟩ := Option.ne_none_iff_exists'.1 hp
    have hq : (s.table q).tid = some t := he.symm.trans ht
    exact Option.some.inj (((h.pair p t).1 ht).symm.trans ((h.pair q t).1 hq))
  · rintro _ ⟨t, ht, rfl⟩
    obtain ⟨p, hp⟩ := Option.ne_none_iff_exists'.1 ht
    have hpt := (h.pair p t).2 hp
    refine ⟨p, ?_, hpt⟩
    show (s.table p).tid ≠ none
    rw [hpt]
    exact Option.some_ne_none _

/-- A child that exits and is joined, and one whose start fails. -/
theorem slot_thread_bijection_family : ∃ s, run step Procs.init [.boot 0, .slot 0, .started 0, .execp 0 1,
      .slot 1, .started 1, .exit 1 5, .join 0 2, .joined 0, .execp 0 2, .slot 2, .fail 2] = some s ∧
    Set.BijOn (fun p => (s.table p).tid) {p | (s.table p).tid ≠ none}
      (some '' {t | s.userlandPid t ≠ none}) ∧
    (∀ p t, (s.table p).tid = some t → s.userlandPid t = some p) ∧
    ∀ a s' p t, step s a = some s' → (s.table p).tid ≠ some t → (s'.table p).tid = some t →
      (s.table p).tid = none ∧ (s.table p).parentPid = none := by
  have hsome : (run step Procs.init [.boot 0, .slot 0, .started 0, .execp 0 1, .slot 1, .started 1,
      .exit 1 5, .join 0 2, .joined 0, .execp 0 2, .slot 2, .fail 2]).isSome = true := by decide +kernel
  obtain ⟨s, hs⟩ := Option.isSome_iff_exists.1 hsome
  exact ⟨s, hs, slot_thread_bijection hs⟩

end Buenos.Proc

import Buenos.Proc.Table

/-!
# File handles of processes

The file system calls of `proc/syscall_handler_fs.c` on the tables `filehandle` of the processes, with
the rows of the open file table of `fs/vfs.c` that they take and give back, and the executable that
`process_start` has open.

* `FileCode` — where a thread is in such a call.  Sections under `openfile_table.sem` are single steps.
* `Files`, `FileEvent`, `nextFiles` — the interleavings, on top of the steps of the process table.
* `passes` — the handles that a thread is about to pass to `vfs_seek`, `vfs_read`, `vfs_write` or
  `vfs_close`.

Principal result: `handles_isolated`.
-/

namespace Buenos.Proc

open Buenos.Transition

def MAX_OPEN_FILES_PER_PROCESS : ℕ := 10
def CONFIG_MAX_OPEN_FILES : ℕ := 512

/-- The number of rows taken for `FILEHANDLE_STDIN`, `FILEHANDLE_STDOUT` and `FILEHANDLE_STDERR`. -/
def STD_HANDLES : ℕ := 3

instance : NeZero MAX_OPEN_FILES_PER_PROCESS := ⟨by decide⟩

/-- An index of `filehandle`. -/
abbrev Slot := Fin MAX_OPEN_FILES_PER_PROCESS

/-- Where a thread is with its files. -/
inductive FileCode where
  /-- in no call of the file system -/
  | outside
  /-- in `vfs_open`, for an entry of the table, or for the executable -/
  | opening (dest : Option Slot)
  /-- in `fs->open`, with row `h` taken -/
  | fsOpen (dest : Option Slot) (h : ℕ)
  /-- `vfs_open` has returned `h` to `syscall_handle_open` -/
  | storing (i : Slot) (h : ℕ)
  /-- in `process_start`, with the executable open as `h` -/
  | executable (h : ℕ)
  /-- in `restore_process_state`, before the `vfs_close` of the executable -/
  | closingExecutable (h : ℕ)
  /-- in `syscall_handle_seek`, `syscall_handle_read` or `syscall_handle_write`, past the check -/
  | working (h : ℕ)
  /-- in `syscall_handle_close`, before `vfs_close` -/
  | closing (i : Slot) (h : ℕ)
  /-- in `syscall_handle_close`, after `vfs_close` -/
  | clearing (i : Slot)
  /-- in `syscall_close_all_filehandles`, before entry `i` -/
  | closeAll (i : ℕ)
  /-- there, after the `vfs_close` of entry `i` -/
  | clearingAll (i : Slot)
  deriving DecidableEq

/-- The processes and their files.  `owner h` is for reasoning only: the thread that got `h` from
`vfs_open`, as long as it runs the same process and `h` has not been closed. -/
structure Files where
  procs : Procs
  isOpen : ℕ → Bool
  filehandle : PID → Slot → Option ℕ
  file : TID → FileCode
  owner : ℕ → Option TID

/-- After `process_table_init` and `vfs_init`. -/
def Files.init : Files where
  procs := Procs.init
  isOpen := fun h => decide (h < STD_HANDLES)
  filehandle := fun _ _ => none
  file := fun _ => .outside
  owner := fun _ => none

/-- The events of the processes and their files. -/
inductive FileEvent where
  | boot (t : TID)
  | execp (t child : TID)
  | slot (t : TID)
  /-- `process_start` opens the executable -/
  | openExecutable (t : TID)
  /-- `process_start` has read the executable and closes it -/
  | closeExecutable (t : TID)
  | started (t : TID)
  /-- `restore_process_state`, up to the `vfs_close` -/
  | fail (t : TID)
  /-- `syscall_handle_open` -/
  | openFile (t : TID)
  /-- `vfs_open` takes a row, or has none -/
  | reserve (t : TID)
  /-- `vfs_open` fails before that -/
  | openFails (t : TID)
  /-- `fs->open` returns -/
  | fsOpened (t : TID) (ok : Bool)
  | store (t : TID)
  /-- `syscall_handle_seek`, `syscall_handle_read` and `syscall_handle_write` up to the first call of VFS -/
  | useFile (t : TID) (h : ℕ)
  | used (t : TID)
  /-- `syscall_handle_close` -/
  | closeFile (t : TID) (h : ℕ)
  | vfsClose (t : TID)
  | clear (t : TID)
  /-- `syscall_handle_exit` begins -/
  | exitBegins (t : TID)
  | closeNext (t : TID)
  | clearNext (t : TID)
  | exit (t : TID) (retval : ℤ)
  | join (t : TID) (pid : ℤ)
  | joined (t : TID)

namespace Files

variable (s : Files)

/-- Thread `t` goes on. -/
def goto (t : TID) (c : FileCode) : Files := { s with file := Function.update s.file t c }

/-- Another value in entry `i` of process `p`. -/
def setEntry (p : PID) (i : Slot) (h : Option ℕ) : Files :=
  { s with filehandle := Function.update s.filehandle p (Function.update (s.filehandle p) i h) }

/-- `vfs_close`; a handle that is not open is refused. -/
def vfsClose (h : ℕ) : Files :=
  if s.isOpen h then
    { s with isOpen := Function.update s.isOpen h false, owner := Function.update s.owner h none }
  else s

/-- The row that `vfs_open` takes. -/
def freeRow : Option ℕ := (List.range CONFIG_MAX_OPEN_FILES).find? fun h => !s.isOpen h

/-- The first entry of process `p` with the value `h`. -/
def findEntry (p : PID) (h : Option ℕ) : Option Slot :=
  (List.finRange MAX_OPEN_FILES_PER_PROCESS).find? fun i => s.filehandle p i == h

/-- A step of the process table by a thread that is in no file system call. -/
def procsStep (t : TID) (a : Action) : Option Files :=
  if s.file t = .outside then (step s.procs a).map fun procs => { s with procs := procs } else none

/-- The thread `t` stops running its process. -/
def disown (t : TID) : Files := { s with owner := fun h => if s.owner h = some t then none else s.owner h }

end Files

/-- What happens next; the thread of a process in user code makes system calls, one in `process_start`
works on its executable. -/
def nextFiles (s : Files) : FileEvent → Option Files
  | .boot t => s.procsStep t (.boot t)
  | .execp t child => if s.file child = .outside then s.procsStep t (.execp t child) else none
  | .slot t => s.procsStep t (.slot t)
  | .started t => s.procsStep t (.started t)
  | .join t pid => s.procsStep t (.join t pid)
  | .joined t => s.procsStep t (.joined t)
  | .openExecutable t =>
    match s.procs.code t, s.file t with
    | .load _ _, .outside => some (s.goto t (.opening none))
    | _, _ => none
  | .closeExecutable t =>
    match s.procs.code t, s.file t with
    | .load _ _, .executable h => some ((s.vfsClose h).goto t .outside)
    | _, _ => none
  | .fail t =>
    match s.procs.code t, s.file t, step s.procs (.fail t) with
    | .load _ p, .outside, some procs =>
      some ({ s with procs := procs, filehandle := Function.update s.filehandle p fun _ => none }.disown t)
    | .load _ p, .executable h, some procs =>
      some ({ s with procs := procs, filehandle := Function.update s.filehandle p fun _ => none }.goto t
        (.closingExecutable h))
    | _, _, _ => none
  | .openFile t =>
    match s.procs.code t, s.procs.userlandPid t, s.file t with
    | .user, some p, .outside =>
      match s.findEntry p none with
      | none => some s
      | some i => some (s.goto t (.opening (some i)))
    | _, _, _ => none
  | .reserve t =>
    match s.file t with
    | .opening dest =>
      match s.freeRow with
      | none => some (s.goto t .outside)
      | some h => some ({ s with isOpen := Function.update s.isOpen h true }.goto t (.fsOpen dest h))
    | _ => none
  | .openFails t =>
    match s.file t with
    | .opening _ => some (s.goto t .outside)
    | _ => none
  | .fsOpened t ok =>
    match s.file t with
    | .fsOpen dest h =>
      if ok then
        let s := { s with owner := Function.update s.owner h (some t) }
        match dest with
        | none => some (s.goto t (.executable h))
        | some i => some (s.goto t (.storing i h))
      else some ({ s with isOpen := Function.update s.isOpen h false }.goto t .outside)
    | _ => none
  | .store t =>
    match s.file t, s.procs.userlandPid t with
    | .storing i h, some p => some ((s.setEntry p i (some h)).goto t .outside)
    | _, _ => none
  | .useFile t h =>
    match s.procs.code t, s.procs.userlandPid t, s.file t with
    | .user, some p, .outside =>
      match s.findEntry p (some h) with
      | none => some s
      | some _ => some (s.goto t (.working h))
    | _, _, _ => none
  | .used t =>
    match s.file t with
    | .working _ => some (s.goto t .outside)
    | _ => none
  | .closeFile t h =>
    match s.procs.code t, s.procs.userlandPid t, s.file t with
    | .user, some p, .outside =>
      match s.findEntry p (some h) with
      | none => some s
      | some i => some (s.goto t (.closing i h))
    | _, _, _ => none
  | .vfsClose t =>
    match s.file t with
    | .closing i h => some ((s.vfsClose h).goto t (.clearing i))
    | .closingExecutable h => some (((s.vfsClose h).goto t .outside).disown t)
    | _ => none
  | .clear t =>
    match s.file t, s.procs.userlandPid t with
    | .clearing i, some p => some ((s.setEntry p i none).goto t .outside)
    | _, _ => none
  | .exitBegins t =>
    match (s.procs.code t).canExit, s.file t with
    | true, .outside => some (s.goto t (.closeAll 0))
    | true, .working _ => some (s.goto t (.closeAll 0))
    -- the executable stays open
    | true, .executable _ => some (s.goto t (.closeAll 0))
    | _, _ => none
  | .closeNext t =>
    match s.file t, s.procs.userlandPid t with
    | .closeAll i, some p =>
      if hi : i < MAX_OPEN_FILES_PER_PROCESS then
        match s.filehandle p ⟨i, hi⟩ with
        | none => some (s.goto t (.closeAll (i + 1)))
        | some h => some ((s.vfsClose h).goto t (.clearingAll ⟨i, hi⟩))
      else none
    | _, _ => none
  | .clearNext t =>
    match s.file t, s.procs.userlandPid t with
    | .clearingAll i, some p => some ((s.setEntry p i none).goto t (.closeAll (i + 1)))
    | _, _ => none
  | .exit t retval =>
    match s.file t with
    | .closeAll i =>
      if MAX_OPEN_FILES_PER_PROCESS ≤ i then
        (step s.procs (.exit t retval)).map fun procs => ({ s with procs := procs }.goto t .outside).disown t
      else none
    | _ => none

/-! ## Places of handles -/

/-- The handle that a thread has in no table. -/
def FileCode.hand : FileCode → Option ℕ
  | .fsOpen _ h => some h
  | .storing _ h => some h
  | .executable h => some h
  | .closingExecutable h => some h
  | _ => none

/-- The entry whose handle a thread has closed and which it is about to clear. -/
def FileCode.clears : FileCode → Option Slot
  | .clearing i => some i
  | .clearingAll i => some i
  | _ => none

/-- Entry `i` of process `p` is about to be cleared, its handle has been closed. -/
def Files.Stale (s : Files) (p : PID) (i : Slot) : Prop :=
  ∃ t, s.procs.userlandPid t = some p ∧ (s.file t).clears = some i

/-- Where a handle can be. -/
inductive Place where
  | entry (p : PID) (i : Slot)
  | hand (t : TID)

/-- The handles at a place. -/
inductive Holds (s : Files) : Place → ℕ → Prop
  | entry {p : PID} {i : Slot} {h : ℕ} (hh : s.filehandle p i = some h) (hs : ¬ s.Stale p i) :
      Holds s (.entry p i) h
  | hand {t : TID} {h : ℕ} (hh : (s.file t).hand = some h) : Holds s (.hand t) h

/-- What a thread relies on in the middle of a system call. -/
def Local (s : Files) (t : TID) : FileCode → Prop
  | .outside => True
  | .opening none => True
  | .fsOpen none _ => True
  | .opening (some i) => ∃ p, s.procs.userlandPid t = some p ∧ s.filehandle p i = none
  | .fsOpen (some i) _ => ∃ p, s.procs.userlandPid t = some p ∧ s.filehandle p i = none
  | .storing i h => (∃ p, s.procs.userlandPid t = some p ∧ s.filehandle p i = none) ∧ s.owner h = some t
  | .executable h => s.owner h = some t
  | .closingExecutable h => s.owner h = some t ∧ s.procs.userlandPid t = none
  | .working h => ∃ p, s.procs.userlandPid t = some p ∧ ∃ i, s.filehandle p i = some h
  | .closing i h => ∃ p, s.procs.userlandPid t = some p ∧ s.filehandle p i = some h
  | .clearing _ => ∃ p, s.procs.userlandPid t = some p
  | .closeAll i => ∃ p, s.procs.userlandPid t = some p ∧ ∀ j : Slot, j.val < i → s.filehandle p j = none
  | .clearingAll i => ∃ p, s.procs.userlandPid t = some p ∧ ∀ j : Slot, j < i → s.filehandle p j = none

/-- A live handle is at one place, in the hands of the thread that has opened it. -/
structure Isolated (s : Files) : Prop where
  paired : Paired s.procs
  std : ∀ h, h < STD_HANDLES → s.isOpen h = true
  inCall : ∀ t, Local s t (s.file t)
  tables : ∀ p i h, s.filehandle p i = some h → ∃ t, s.procs.userlandPid t = some p
  live : ∀ {x h}, Holds s x h → s.isOpen h = true ∧ STD_HANDLES ≤ h
  single : ∀ {x y h}, Holds s x h → Holds s y h → x = y
  owned : ∀ {p i h t}, Holds s (.entry p i) h → s.procs.userlandPid t = some p → s.owner h = some t

section Frames

variable {s s' : Files} {t u : TID} {p : PID} {i : Slot} {h : ℕ} {c : FileCode}

theorem Local.frame (hl : Local s u c) (hpid : s'.procs.userlandPid u = s.procs.userlandPid u)
    (htable : ∀ p, s.procs.userlandPid u = some p → s'.filehandle p = s.filehandle p)
    (howner : ∀ h, c.hand = some h → s.owner h = some u → s'.owner h = some u) : Local s' u c := by
  have hentry : ∀ {P : (Slot → Option ℕ) → Prop},
      (∃ p, s.procs.userlandPid u = some p ∧ P (s.filehandle p)) →
        ∃ p, s'.procs.userlandPid u = some p ∧ P (s'.filehandle p) := by
    rintro P ⟨p, hp, hP⟩
    exact ⟨p, hpid.trans hp, by rw [htable p hp]; exact hP⟩
  cases c with
  | outside => trivial
  | opening dest =>
    cases dest with
    | none => trivial
    | some i => exact hentry (P := fun f => f i = none) hl
  | fsOpen dest h =>
    cases dest with
    | none => trivial
    | some i => exact hentry (P := fun f => f i = none) hl
  | storing i h => exact ⟨hentry (P := fun f => f i = none) hl.1, howner h rfl hl.2⟩
  | executable h => exact howner h rfl hl
  | closingExecutable h => exact ⟨howner h rfl hl.1, hpid.trans hl.2⟩
  | working h => exact hentry (P := fun f => ∃ i, f i = some h) hl
  | closing i h => exact hentry (P := fun f => f i = some h) hl
  | clearing i =>
    obtain ⟨p, hp⟩ := hl
    exact ⟨p, hpid.trans hp⟩
  | closeAll i => exact hentry (P := fun f => ∀ j : Slot, j.val < i → f j = none) hl
  | clearingAll i => exact hentry (P := fun f => ∀ j : Slot, j < i → f j = none) hl

/-- A change after which no place has another handle than before. -/
theorem Isolated.shrink (hi : Isolated s) (hpaired : Paired s'.procs)
    (hstd : ∀ h, h < STD_HANDLES → s'.isOpen h = true) (hcall : ∀ t, Local s' t (s'.file t))
    (htables : ∀ p i h, s'.filehandle p i = some h → ∃ t, s'.procs.userlandPid t = some p)
    (hholds : ∀ {x h}, Holds s' x h → Holds s x h) (hopen : ∀ {x h}, Holds s' x h → s'.isOpen h = s.isOpen h)
    (howned : ∀ {p i h t}, Holds s' (.entry p i) h → s'.procs.userlandPid t = some p → s'.owner h = some t) :
    Isolated s' := by
  refine ⟨hpaired, hstd, hcall, htables, fun hx => ?_, fun hx hy => hi.single (hholds hx) (hholds hy), howned⟩
  rw [hopen hx]
  exact hi.live (hholds hx)

theorem slot_unique (hp : Paired s.procs) (ht : s.procs.userlandPid t = some p)
    (hu : s.procs.userlandPid u = some p) : u = t :=
  Option.some.inj (((hp.pair p u).2 hu).symm.trans ((hp.pair p t).2 ht))

@[simp] theorem goto_procs : (s.goto t c).procs = s.procs := rfl

@[simp] theorem goto_filehandle : (s.goto t c).filehandle = s.filehandle := rfl

@[simp] theorem goto_owner : (s.goto t c).owner = s.owner := rfl

@[simp] theorem goto_isOpen : (s.goto t c).isOpen = s.isOpen := rfl

theorem goto_self : (s.goto t c).file t = c := Function.update_self ..

theorem goto_ne (hu : u ≠ t) : (s.goto t c).file u = s.file u := Function.update_of_ne hu ..

/-- The entries of the process of `t` are not stale while `t` clears none. -/
theorem not_stale (hp : Paired s.procs) (ht : s.procs.userlandPid t = some p) (hc : (s.file t).clears = none) :
    ¬ s.Stale p i := by
  rintro ⟨u, hu, hclears⟩
  rw [slot_unique hp ht hu, hc] at hclears
  cases hclears

/-- Thread `t` goes on, and rows that nothing holds any more may change. -/
theorem Isolated.change (hi : Isolated s) (hprocs : s'.procs = s.procs) (htable : s'.filehandle = s.filehandle)
    (hfile : s'.file = Function.update s.file t c) (hclears : (s.file t).clears = none)
    (hhand : ∀ h, c.hand = some h → (s.file t).hand = some h) (hl : Local s' t c)
    (hstd : ∀ h, h < STD_HANDLES → s'.isOpen h = true)
    (hopen : ∀ {x h}, Holds s x h → Holds s' x h → s'.isOpen h = s.isOpen h)
    (howner : ∀ {x h}, Holds s x h → Holds s' x h → x ≠ .hand t → s'.owner h = s.owner h) : Isolated s' := by
  have hself : s'.file t = c := by rw [hfile, Function.update_self]
  have hother : ∀ u, u ≠ t → s'.file u = s.file u := fun u hu => by rw [hfile, Function.update_of_ne hu]
  have hholds : ∀ {x h}, Holds s' x h → Holds s x h := by
    intro x h hx
    cases hx with
    | @entry p i h hh hs =>
      refine .entry (by rw [← htable]; exact hh) fun ⟨u, hu, hcl⟩ => ?_
      by_cases hut : u = t
      · rw [hut, hclears] at hcl
        cases hcl
      · exact hs ⟨u, by rw [hprocs]; exact hu, by rw [hother u hut]; exact hcl⟩
    | @hand u h hh =>
      by_cases hu : u = t
      · rw [hu, hself] at hh
        exact hu ▸ .hand (hhand h hh)
      · rw [hother u hu] at hh
        exact .hand hh
  refine hi.shrink (hprocs ▸ hi.paired) hstd (fun u => ?_) (fun p i h hh => ?_) hholds
    (fun hx => hopen (hholds hx) hx) (fun {p i h u} hx hu => ?_)
  · by_cases hu : u = t
    · rw [hu, hself]
      exact hl
    · rw [hother u hu]
      refine (hi.inCall u).frame (by rw [hprocs]) (fun p _ => by rw [htable]) fun h hh howns => ?_
      refine Eq.trans ?_ howns
      refine howner (.hand hh) (.hand (by rw [hother u hu]; exact hh)) ?_
      rintro ⟨⟩
      exact hu rfl
  · rw [hprocs]
    exact hi.tables p i h (by rw [← htable]; exact hh)
  · rw [howner (hholds hx) hx (by simp)]
    exact hi.owned (hholds hx) (by rw [← hprocs]; exact hu)

theorem Isolated.goto (hi : Isolated s) (hl : Local s t c) (hclears : (s.file t).clears = none)
    (hhand : ∀ h, c.hand = some h → (s.file t).hand = some h) : Isolated (s.goto t c) :=
  hi.change rfl rfl rfl hclears hhand (hl.frame rfl (fun _ _ => rfl) (fun _ _ h => h)) hi.std
    (fun _ _ => rfl) (fun _ _ _ => rfl)

/-- The steps of the process table that take no slot away. -/
theorem Isolated.procs (hi : Isolated s) {procs : Procs} (hpaired : Paired procs)
    (hsame : ∀ u, s.file u ≠ .outside → procs.userlandPid u = s.procs.userlandPid u)
    (hmono : ∀ u p, s.procs.userlandPid u = some p → procs.userlandPid u = some p) :
    Isolated { s with procs := procs } := by
  have hholds : ∀ {x h}, Holds { s with procs := procs } x h → Holds s x h := by
    intro x h hx
    cases hx with
    | entry hh hs => exact .entry hh fun ⟨u, hu, hcl⟩ => hs ⟨u, hmono u _ hu, hcl⟩
    | hand hh => exact .hand hh
  refine hi.shrink hpaired hi.std (fun u => ?_) (fun p i h hh => ?_) hholds (fun _ => rfl) (fun {p i h t} hx ht => ?_)
  · by_cases hu : s.file u = .outside
    · show Local _ u (s.file u)
      rw [hu]
      trivial
    · exact (hi.inCall u).frame (hsame u hu) (fun _ _ => rfl) (fun _ _ h => h)
  · obtain ⟨t, ht⟩ := hi.tables p i h hh
    exact ⟨t, hmono t p ht⟩
  · have hx := hholds hx
    cases hx with
    | entry hh hs =>
      obtain ⟨u, hu⟩ := hi.tables p i h hh
      have hut : u = t := Option.some.inj (((hpaired.pair p u).2 (hmono u p hu)).symm.trans ((hpaired.pair p t).2 ht))
      exact hi.owned (.entry hh hs) (hut ▸ hu)

end Frames

/-! ## Slots of threads -/

/-- The thread that makes a step. -/
def Action.thread : Action → TID
  | .boot t => t
  | .execp t _ => t
  | .slot t => t
  | .fail t => t
  | .started t => t
  | .exit t _ => t
  | .join t _ => t
  | .joined t => t

/-- A step that takes a slot from its thread. -/
def Action.gives : Action → Bool
  | .fail _ => true
  | .exit _ _ => true
  | _ => false

theorem step_userlandPid {s s' : Procs} {a : Action} (hp : Paired s) (hs : step s a = some s') (u : TID) :
    (u ≠ a.thread → s'.userlandPid u = s.userlandPid u) ∧
    (a.gives = false → ∀ p, s.userlandPid u = some p → s'.userlandPid u = some p) ∧
    (a.gives = true → s'.userlandPid a.thread = none) := by
  cases step_cases hs with
  | boot _ => exact ⟨fun _ => rfl, fun _ _ h => h, fun h => by cases h⟩
  | execp _ _ _ => exact ⟨fun _ => rfl, fun _ _ h => h, fun h => by cases h⟩
  | @slot t data ht =>
    have hnone : s.userlandPid t = none := by
      have hf := hp.fits t
      rwa [ht] at hf
    unfold processStartSlot
    cases hfree : findFree s.table with
    | none => exact ⟨fun _ => rfl, fun _ _ h => h, fun h => by cases h⟩
    | some i =>
      refine ⟨fun hu => Function.update_of_ne hu .., fun _ p h => ?_, fun h => by cases h⟩
      have hu : u ≠ t := by
        rintro rfl
        rw [hnone] at h
        cases h
      exact (Function.update_of_ne hu ..).trans h
  | fail _ =>
    exact ⟨fun hu => Function.update_of_ne hu .., fun h => (by cases h), fun _ => Function.update_self ..⟩
  | started _ => exact ⟨fun _ => rfl, fun _ _ h => h, fun h => by cases h⟩
  | exit _ _ he =>
    unfold processExit at he
    split at he
    · cases he
    · cases he
      exact ⟨fun hu => Function.update_of_ne hu .., fun h => (by cases h), fun _ => Function.update_self ..⟩
  | refused _ _ _ => exact ⟨fun _ => rfl, fun _ _ h => h, fun h => by cases h⟩
  | join _ _ _ => exact ⟨fun _ => rfl, fun _ _ h => h, fun h => by cases h⟩
  | joined _ _ => exact ⟨fun _ => rfl, fun _ _ h => h, fun h => by cases h⟩

section Steps

variable {s s' : Files} {t u : TID} {p : PID} {i : Slot} {h : ℕ} {c : FileCode}

theorem Isolated.procsStep (hi : Isolated s) {a : Action} (hgives : a.gives = false)
    (hs : s.procsStep a.thread a = some s') : Isolated s' := by
  unfold Files.procsStep at hs
  split at hs
  · rename_i hfile
    obtain ⟨procs, hstep, rfl⟩ := Option.map_eq_some_iff.1 hs
    refine hi.procs (hi.paired.step hstep) (fun u hu => ?_)
      fun u p hp => (step_userlandPid hi.paired hstep u).2.1 hgives p hp
    refine (step_userlandPid hi.paired hstep u).1 ?_
    rintro rfl
    exact hu hfile
  · cases hs

/-- `vfs_open` takes a free row. -/
theorem Isolated.reserve (hi : Isolated s) {dest : Option Slot} (hfile : s.file t = .opening dest)
    (hfree : s.isOpen h = false) :
    Isolated ({ s with isOpen := Function.update s.isOpen h true }.goto t (.fsOpen dest h)) := by
  have hholds : ∀ {x k}, Holds ({ s with isOpen := Function.update s.isOpen h true }.goto t (.fsOpen dest h)) x k →
      (x = .hand t ∧ k = h) ∨ (Holds s x k ∧ k ≠ h) := by
    intro x k hx
    have hold : Holds s x k → Holds s x k ∧ k ≠ h := by
      intro hx'
      refine ⟨hx', ?_⟩
      rintro rfl
      have hopen := (hi.live hx').1
      rw [hfree] at hopen
      cases hopen
    cases hx with
    | entry hh hs =>
      refine Or.inr (hold (.entry hh fun ⟨u, hu, hcl⟩ => ?_))
      by_cases hut : u = t
      · rw [hut, hfile] at hcl
        cases hcl
      · exact hs ⟨u, hu, by rw [goto_ne hut]; exact hcl⟩
    | @hand u k hh =>
      by_cases hu : u = t
      · rw [hu, goto_self] at hh
        cases hh
        exact Or.inl ⟨by rw [hu], rfl⟩
      · rw [goto_ne hu] at hh
        exact Or.inr (hold (.hand hh))
  have hopen : ∀ k, k ≠ h → Function.update s.isOpen h true k = s.isOpen k := fun k hk => Function.update_of_ne hk ..
  refine ⟨hi.paired, fun k hk => ?_, fun u => ?_, hi.tables, fun {x k} hx => ?_, fun {x y k} hx hy => ?_,
    fun {p i k u} hx hu => ?_⟩
  · by_cases hkh : k = h
    · rw [hkh]
      exact Function.update_self ..
    · exact (hopen k hkh).trans (hi.std k hk)
  · by_cases hu : u = t
    · rw [hu, goto_self]
      have hl := hi.inCall t
      rw [hfile] at hl
      cases dest with
      | none => trivial
      | some i => exact hl
    · rw [goto_ne hu]
      exact (hi.inCall u).frame rfl (fun _ _ => rfl) (fun _ _ h => h)
  · rcases hholds hx with ⟨-, rfl⟩ | ⟨hx, hk⟩
    · refine ⟨Function.update_self .., ?_⟩
      by_contra hlt
      rw [hi.std k (by omega)] at hfree
      cases hfree
    · exact ⟨(hopen k hk).trans (hi.live hx).1, (hi.live hx).2⟩
  · rcases hholds hx with ⟨rfl, rfl⟩ | ⟨hx, hk⟩
    · rcases hholds hy with ⟨rfl, -⟩ | ⟨-, hk⟩
      · rfl
      · exact absurd rfl hk
    · rcases hholds hy with ⟨-, rfl⟩ | ⟨hy, -⟩
      · exact absurd rfl hk
      · exact hi.single hx hy
  · rcases hholds hx with ⟨hx, -⟩ | ⟨hx, -⟩
    · cases hx
    · exact hi.owned hx hu

/-- The row `h` that thread `t` has in hand is no longer held by anything else. -/
theorem Isolated.hand_ne (hi : Isolated s) (hhand : (s.file t).hand = some h) {x : Place} {k : ℕ}
    (hx : Holds s x k) (hne : x ≠ .hand t) : k ≠ h := by
  rintro rfl
  exact hne (hi.single hx (.hand hhand))

/-- `fs->open` has opened the file. -/
theorem Isolated.opened (hi : Isolated s) (hhand : (s.file t).hand = some h) (hclears : (s.file t).clears = none)
    (hc : c.hand = some h) (hl : Local { s with owner := Function.update s.owner h (some t) } t c) :
    Isolated ({ s with owner := Function.update s.owner h (some t) }.goto t c) := by
  refine hi.change rfl rfl rfl hclears (fun k hk => ?_) (hl.frame rfl (fun _ _ => rfl) (fun _ _ h => h)) hi.std
    (fun _ _ => rfl) (fun {x k} hx _ hne => Function.update_of_ne (hi.hand_ne hhand hx hne) ..)
  rw [← hk, hc, hhand]

/-- The row that thread `t` has in hand is given back. -/
theorem Isolated.drop (hi : Isolated s) (hhand : (s.file t).hand = some h) (hclears : (s.file t).clears = none)
    {owner : ℕ → Option TID} (howner : ∀ k, k ≠ h → owner k = s.owner k) :
    Isolated ({ s with isOpen := Function.update s.isOpen h false, owner := owner }.goto t .outside) := by
  have hne : ∀ {x k}, Holds s x k →
      Holds ({ s with isOpen := Function.update s.isOpen h false, owner := owner }.goto t .outside) x k → k ≠ h := by
    intro x k hx hx'
    refine hi.hand_ne hhand hx ?_
    rintro rfl
    cases hx' with
    | hand hh =>
      rw [goto_self] at hh
      cases hh
  refine hi.change rfl rfl rfl hclears (fun k hk => by cases hk) trivial (fun k hk => ?_)
    (fun hx hx' => Function.update_of_ne (hne hx hx') ..) (fun hx hx' _ => howner _ (hne hx hx'))
  have hlow := (hi.live (.hand hhand)).2
  exact (Function.update_of_ne (by omega) ..).trans (hi.std k hk)

/-- `vfs_close` of a handle in hand. -/
theorem Isolated.close (hi : Isolated s) (hhand : (s.file t).hand = some h) (hclears : (s.file t).clears = none) :
    Isolated ((s.vfsClose h).goto t .outside) := by
  unfold Files.vfsClose
  rw [if_pos (hi.live (.hand hhand)).1]
  exact hi.drop hhand hclears fun k hk => Function.update_of_ne hk ..

/-- `vfs_close` of the handle in an entry. -/
theorem Isolated.closeEntry (hi : Isolated s) (hp : s.procs.userlandPid t = some p)
    (hh : s.filehandle p i = some h) (hclears : (s.file t).clears = none) (hc : c.clears = some i)
    (hhand : c.hand = none) (hl : Local s t c) : Isolated ((s.vfsClose h).goto t c) := by
  have hentry : Holds s (.entry p i) h := .entry hh (not_stale hi.paired hp hclears)
  unfold Files.vfsClose
  rw [if_pos (hi.live hentry).1]
  have hne : ∀ {s' : Files} {x k}, Holds s x k → Holds s' x k → s'.procs = s.procs → s'.file t = c → k ≠ h := by
    rintro s' x k hx hx' hprocs hfile rfl
    obtain rfl := hi.single hx hentry
    cases hx' with
    | entry _ hs => exact hs ⟨t, by rw [hprocs]; exact hp, by rw [hfile]; exact hc⟩
  refine hi.change rfl rfl rfl hclears (fun k hk => ?_) (hl.frame rfl (fun _ _ => rfl) fun k hk _ => ?_) (fun k hk => ?_)
    (fun hx hx' => Function.update_of_ne (hne hx hx' rfl goto_self) ..)
    (fun hx hx' _ => Function.update_of_ne (hne hx hx' rfl goto_self) ..)
  · rw [hhand] at hk
    cases hk
  · rw [hhand] at hk
    cases hk
  · have hlow := (hi.live hentry).2
    exact (Function.update_of_ne (by omega) ..).trans (hi.std k hk)

/-- The handle in hand is stored in an entry that was free. -/
theorem Isolated.store (hi : Isolated s) (hfile : s.file t = .storing i h) (hp : s.procs.userlandPid t = some p) :
    Isolated ((s.setEntry p i (some h)).goto t .outside) := by
  have hl := hi.inCall t
  rw [hfile] at hl
  have hown : s.owner h = some t := hl.2
  have hhand : Holds s (.hand t) h := .hand (by rw [hfile]; rfl)
  have hself : (s.setEntry p i (some h)).filehandle p i = some h := by
    simp [Files.setEntry]
  have hother : ∀ q j, ¬ (q = p ∧ j = i) → (s.setEntry p i (some h)).filehandle q j = s.filehandle q j := by
    intro q j hne
    by_cases hq : q = p
    · subst hq
      have hj : j ≠ i := fun hj => hne ⟨rfl, hj⟩
      simp [Files.setEntry, Function.update_of_ne hj]
    · simp [Files.setEntry, Function.update_of_ne hq]
  have hholds : ∀ {x k}, Holds ((s.setEntry p i (some h)).goto t .outside) x k →
      (x = .entry p i ∧ k = h) ∨ (Holds s x k ∧ x ≠ .entry p i ∧ k ≠ h) := by
    intro x k hx
    cases hx with
    | @entry q j k hh hs =>
      by_cases hqj : q = p ∧ j = i
      · obtain ⟨rfl, rfl⟩ := hqj
        exact Or.inl ⟨rfl, Option.some.inj (hh.symm.trans hself)⟩
      · have hx : Holds s (.entry q j) k := by
          refine .entry ((hother q j hqj).symm.trans hh) fun ⟨u, hu, hcl⟩ => ?_
          by_cases hut : u = t
          · rw [hut, hfile] at hcl
            cases hcl
          · exact hs ⟨u, hu, by rw [goto_ne hut]; exact hcl⟩
        refine Or.inr ⟨hx, ?_, ?_⟩
        · rintro ⟨⟩
          exact hqj ⟨rfl, rfl⟩
        · rintro rfl
          cases hi.single hx hhand
    | @hand u k hh =>
      by_cases hu : u = t
      · rw [hu, goto_self] at hh
        cases hh
      · rw [goto_ne hu] at hh
        refine Or.inr ⟨.hand hh, by simp, ?_⟩
        rintro rfl
        cases hi.single (.hand hh) hhand
        exact hu rfl
  refine ⟨hi.paired, hi.std, fun u => ?_, fun q j k hh => ?_, fun {x k} hx => ?_, fun {x y k} hx hy => ?_,
    fun {q j k u} hx hu => ?_⟩
  · by_cases hu : u = t
    · rw [hu, goto_self]
      trivial
    · rw [goto_ne hu]
      refine (hi.inCall u).frame rfl (fun q hq => ?_) (fun _ _ h => h)
      have hqp : q ≠ p := by
        rintro rfl
        exact hu (slot_unique hi.paired hp hq)
      exact Function.update_of_ne hqp ..
  · by_cases hqj : q = p ∧ j = i
    · exact ⟨t, hqj.1 ▸ hp⟩
    · exact hi.tables q j k ((hother q j hqj).symm.trans hh)
  · rcases hholds hx with ⟨-, rfl⟩ | ⟨hx, -, -⟩
    · exact hi.live hhand
    · exact hi.live hx
  · rcases hholds hx with ⟨rfl, rfl⟩ | ⟨hx, -, hk⟩
    · rcases hholds hy with ⟨rfl, -⟩ | ⟨-, -, hk⟩
      · rfl
      · exact absurd rfl hk
    · rcases hholds hy with ⟨-, rfl⟩ | ⟨hy, -, -⟩
      · exact absurd rfl hk
      · exact hi.single hx hy
  · rcases hholds hx with ⟨he, rfl⟩ | ⟨hx, -, -⟩
    · obtain ⟨rfl, rfl⟩ : q = p ∧ j = i := by simpa using he
      rw [slot_unique hi.paired hp hu]
      exact hown
    · exact hi.owned hx hu

/-- An entry whose handle has been closed is cleared. -/
theorem Isolated.clear (hi : Isolated s) (hfile : (s.file t).clears = some i)
    (hp : s.procs.userlandPid t = some p) (hhand : c.hand = none)
    (hl : Local (s.setEntry p i none) t c) : Isolated ((s.setEntry p i none).goto t c) := by
  have hentry : ∀ {q j k}, (s.setEntry p i none).filehandle q j = some k →
      ¬ (q = p ∧ j = i) ∧ s.filehandle q j = some k := by
    intro q j k hh
    by_cases hq : q = p
    · subst hq
      by_cases hj : j = i
      · subst hj
        simp [Files.setEntry] at hh
      · simp only [Files.setEntry, Function.update_self, Function.update_of_ne hj] at hh
        exact ⟨fun h => hj h.2, hh⟩
    · simp only [Files.setEntry, Function.update_of_ne hq] at hh
      exact ⟨fun h => hq h.1, hh⟩
  have hholds : ∀ {x k}, Holds ((s.setEntry p i none).goto t c) x k → Holds s x k := by
    intro x k hx
    cases hx with
    | @entry q j k hh hs =>
      obtain ⟨hqj, hh⟩ := hentry hh
      refine .entry hh fun ⟨u, hu, hcl⟩ => ?_
      by_cases hut : u = t
      · subst hut
        rw [hfile] at hcl
        cases hcl
        exact hqj ⟨Option.some.inj (hu.symm.trans hp), rfl⟩
      · exact hs ⟨u, hu, by rw [goto_ne hut]; exact hcl⟩
    | @hand u k hh =>
      by_cases hu : u = t
      · rw [hu, goto_self, hhand] at hh
        cases hh
      · rw [goto_ne hu] at hh
        exact .hand hh
  refine hi.shrink hi.paired hi.std (fun u => ?_) (fun q j k hh => hi.tables q j k (hentry hh).2) hholds
    (fun _ => rfl) (fun hx hu => hi.owned (hholds hx) hu)
  by_cases hu : u = t
  · rw [hu, goto_self]
    exact hl.frame rfl (fun _ _ => rfl) (fun _ _ h => h)
  · rw [goto_ne hu]
    refine (hi.inCall u).frame rfl (fun q hq => ?_) (fun _ _ h => h)
    have hqp : q ≠ p := by
      rintro rfl
      exact hu (slot_unique hi.paired hp hq)
    exact Function.update_of_ne hqp ..

/-- `free_process_table_entry` clears a whole table. -/
theorem Isolated.clearTable (hi : Isolated s) (hp : s.procs.userlandPid t = some p)
    (hl : ∀ {s' : Files}, s'.owner = s.owner → Local s' t (s.file t)) :
    Isolated { s with filehandle := Function.update s.filehandle p fun _ => none } := by
  have hentry : ∀ {q j k}, Function.update s.filehandle p (fun _ => none) q j = some k →
      s.filehandle q j = some k := by
    intro q j k hh
    by_cases hq : q = p
    · subst hq
      simp at hh
    · rwa [Function.update_of_ne hq] at hh
  have hholds : ∀ {x k}, Holds { s with filehandle := Function.update s.filehandle p fun _ => none } x k →
      Holds s x k := by
    intro x k hx
    cases hx with
    | entry hh hs => exact .entry (hentry hh) hs
    | hand hh => exact .hand hh
  refine hi.shrink hi.paired hi.std (fun u => ?_) (fun q j k hh => hi.tables q j k (hentry hh)) hholds
    (fun _ => rfl) (fun hx hu => hi.owned (hholds hx) hu)
  by_cases hu : u = t
  · rw [hu]
    exact hl rfl
  · refine (hi.inCall u).frame rfl (fun q hq => ?_) (fun _ _ h => h)
    have hqp : q ≠ p := by
      rintro rfl
      exact hu (slot_unique hi.paired hp hq)
    exact Function.update_of_ne hqp ..

/-- A thread gives back its slot, with an empty table. -/
theorem Isolated.giveSlot (hi : Isolated s) {procs : Procs} (hp : s.procs.userlandPid t = some p)
    (hempty : ∀ j, s.filehandle p j = none) (hpaired : Paired procs)
    (hother : ∀ u, u ≠ t → procs.userlandPid u = s.procs.userlandPid u) (hnone : procs.userlandPid t = none)
    (hl : ∀ {s' : Files}, s'.owner = s.owner → Local s' t (s.file t)) : Isolated { s with procs := procs } := by
  have hne : ∀ {q j k u}, s.filehandle q j = some k → s.procs.userlandPid u = some q → u ≠ t := by
    rintro q j k u hh hu rfl
    obtain rfl := Option.some.inj (hp.symm.trans hu)
    rw [hempty j] at hh
    cases hh
  have hholds : ∀ {x k}, Holds { s with procs := procs } x k → Holds s x k := by
    intro x k hx
    cases hx with
    | entry hh hs => exact .entry hh fun ⟨u, hu, hcl⟩ => hs ⟨u, (hother u (hne hh hu)).trans hu, hcl⟩
    | hand hh => exact .hand hh
  refine hi.shrink hpaired hi.std (fun u => ?_) (fun q j k hh => ?_) hholds (fun _ => rfl) (fun {q j k u} hx hu => ?_)
  · by_cases hu : u = t
    · rw [hu]
      exact hl rfl
    · exact (hi.inCall u).frame (hother u hu) (fun _ _ => rfl) (fun _ _ h => h)
  · obtain ⟨u, hu⟩ := hi.tables q j k hh
    exact ⟨u, (hother u (hne hh hu)).trans hu⟩
  · refine hi.owned (hholds hx) ?_
    have hut : u ≠ t := by
      rintro rfl
      rw [hnone] at hu
      cases hu
    exact (hother u hut).symm.trans hu

/-- A thread without a slot and without a file owns nothing. -/
theorem Isolated.disown (hi : Isolated s) (hp : s.procs.userlandPid t = none) (hfile : s.file t = .outside) :
    Isolated (s.disown t) := by
  have howner : ∀ {k u}, s.owner k = some u → u ≠ t → (s.disown t).owner k = some u := by
    intro k u hk hu
    simp [Files.disown, hk, hu]
  have hholds : ∀ {x k}, Holds (s.disown t) x k → Holds s x k := by
    intro x k hx
    cases hx with
    | entry hh hs => exact .entry hh hs
    | hand hh => exact .hand hh
  refine hi.shrink hi.paired hi.std (fun u => ?_) hi.tables hholds (fun _ => rfl) (fun {q j k u} hx hu => ?_)
  · by_cases hu : u = t
    · show Local _ u (s.file u)
      rw [hu, hfile]
      trivial
    · exact (hi.inCall u).frame rfl (fun _ _ => rfl) fun k _ hk => howner hk hu
  · refine howner (hi.owned (hholds hx) hu) ?_
    rintro rfl
    exact absurd (hp.symm.trans hu) (by simp)

/-- The slot of a process whose start fails. -/
theorem Isolated.freeSlot (hi : Isolated s) {data : Option CreateData} {procs : Procs}
    (hcode : s.procs.code t = .load data p) (hstep : step s.procs (.fail t) = some procs)
    (hl : ∀ {s' : Files}, s'.owner = s.owner → Local s' t (s.file t)) :
    Isolated { s with procs := procs, filehandle := Function.update s.filehandle p fun _ => none } := by
  have hp : s.procs.userlandPid t = some p := by
    have hf := hi.paired.fits t
    rwa [hcode] at hf
  have hclear := hi.clearTable hp hl
  exact hclear.giveSlot hp (fun j => by simp) (hi.paired.step hstep)
    (fun u hu => (step_userlandPid hi.paired hstep u).1 hu) ((step_userlandPid hi.paired hstep t).2.2 rfl) hl

theorem canExit_slot {s : Procs} (hp : Paired s) (hexit : (s.code t).canExit = true) :
    ∃ p, s.userlandPid t = some p := by
  have hf := hp.fits t
  cases hcode : s.code t with
  | user =>
    rw [hcode] at hf
    exact Option.ne_none_iff_exists'.1 hf
  | load data p =>
    rw [hcode] at hf
    exact ⟨p, hf⟩
  | idle =>
    rw [hcode] at hexit
    cases hexit
  | start data =>
    rw [hcode] at hexit
    cases hexit
  | execp child =>
    rw [hcode] at hexit
    cases hexit
  | join c =>
    rw [hcode] at hexit
    cases hexit

theorem findEntry_eq {v : Option ℕ} (hf : s.findEntry p v = some i) : s.filehandle p i = v := by
  simpa using List.find?_some hf

theorem freeRow_closed (hf : s.freeRow = some h) : s.isOpen h = false := by
  simpa using List.find?_some hf

end Steps

theorem isolated_init : Isolated Files.init := by
  have hno : ∀ {x h}, ¬ Holds Files.init x h := by
    intro x h hx
    cases hx with
    | entry hh _ => cases hh
    | hand hh => cases hh
  refine ⟨paired_init, fun h hh => ?_, fun _ => trivial, fun p i h hh => (by cases hh), fun hx => absurd hx hno,
    fun hx _ => absurd hx hno, fun hx _ => absurd hx hno⟩
  simpa [Files.init] using hh

/-- Every event keeps live handles at their place. -/
theorem Isolated.next {s s' : Files} {e : FileEvent} (hi : Isolated s) (hs : nextFiles s e = some s') :
    Isolated s' := by
  cases e with
  | boot t => exact hi.procsStep (a := .boot t) rfl hs
  | execp t child =>
    simp only [nextFiles] at hs
    split at hs
    · exact hi.procsStep (a := .execp t child) rfl hs
    · cases hs
  | slot t => exact hi.procsStep (a := .slot t) rfl hs
  | started t => exact hi.procsStep (a := .started t) rfl hs
  | join t pid => exact hi.procsStep (a := .join t pid) rfl hs
  | joined t => exact hi.procsStep (a := .joined t) rfl hs
  | openExecutable t =>
    simp only [nextFiles] at hs
    split at hs
    · rename_i hcode hfile
      cases hs
      exact hi.goto trivial (by rw [hfile]; rfl) (fun h hh => by cases hh)
    · cases hs
  | closeExecutable t =>
    simp only [nextFiles] at hs
    split at hs
    · rename_i h hcode hfile
      cases hs
      exact hi.close (by rw [hfile]; rfl) (by rw [hfile]; rfl)
    · cases hs
  | fail t =>
    simp only [nextFiles] at hs
    split at hs
    · rename_i data p procs hcode hfile hstep
      cases hs
      have hfree := hi.freeSlot hcode hstep fun howner => by rw [hfile]; trivial
      exact hfree.disown ((step_userlandPid hi.paired hstep t).2.2 rfl) hfile
    · rename_i data p h procs hcode hfile hstep
      cases hs
      have hl := hi.inCall t
      rw [hfile] at hl
      have hfree := hi.freeSlot hcode hstep fun howner => by
        rw [hfile]
        exact (congrFun howner h).trans hl
      refine hfree.goto ⟨hl, (step_userlandPid hi.paired hstep t).2.2 rfl⟩ ?_ (fun k hk => ?_)
      · show (s.file t).clears = none
        rw [hfile]
        rfl
      · show (s.file t).hand = some k
        rw [hfile]
        exact hk
    · cases hs
  | openFile t =>
    simp only [nextFiles] at hs
    split at hs
    · rename_i p hcode hp hfile
      split at hs
      · cases hs
        exact hi
      · rename_i i hf
        cases hs
        exact hi.goto ⟨p, hp, findEntry_eq hf⟩ (by rw [hfile]; rfl) (fun h hh => by cases hh)
    · cases hs
  | reserve t =>
    simp only [nextFiles] at hs
    split at hs
    · rename_i dest hfile
      split at hs
      · cases hs
        exact hi.goto trivial (by rw [hfile]; rfl) (fun h hh => by cases hh)
      · rename_i h hf
        cases hs
        exact hi.reserve hfile (freeRow_closed hf)
    · cases hs
  | openFails t =>
    simp only [nextFiles] at hs
    split at hs
    · rename_i dest hfile
      cases hs
      exact hi.goto trivial (by rw [hfile]; rfl) (fun h hh => by cases hh)
    · cases hs
  | fsOpened t ok =>
    simp only [nextFiles] at hs
    split at hs
    · rename_i dest h hfile
      have hl := hi.inCall t
      rw [hfile] at hl
      split at hs
      · cases dest with
        | none =>
          cases hs
          exact hi.opened (by rw [hfile]; rfl) (by rw [hfile]; rfl) rfl (Function.update_self ..)
        | some i =>
          cases hs
          exact hi.opened (by rw [hfile]; rfl) (by rw [hfile]; rfl) rfl ⟨hl, Function.update_self ..⟩
      · cases hs
        exact hi.drop (by rw [hfile]; rfl) (by rw [hfile]; rfl) (fun _ _ => rfl)
    · cases hs
  | store t =>
    simp only [nextFiles] at hs
    split at hs
    · rename_i i h p hfile hp
      cases hs
      exact hi.store hfile hp
    · cases hs
  | useFile t h =>
    simp only [nextFiles] at hs
    split at hs
    · rename_i p hcode hp hfile
      split at hs
      · cases hs
        exact hi
      · rename_i i hf
        cases hs
        exact hi.goto ⟨p, hp, i, findEntry_eq hf⟩ (by rw [hfile]; rfl) (fun h hh => by cases hh)
    · cases hs
  | used t =>
    simp only [nextFiles] at hs
    split at hs
    · rename_i h hfile
      cases hs
      exact hi.goto trivial (by rw [hfile]; rfl) (fun h hh => by cases hh)
    · cases hs
  | closeFile t h =>
    simp only [nextFiles] at hs
    split at hs
    · rename_i p hcode hp hfile
      split at hs
      · cases hs
        exact hi
      · rename_i i hf
        cases hs
        exact hi.goto ⟨p, hp, findEntry_eq hf⟩ (by rw [hfile]; rfl) (fun h hh => by cases hh)
    · cases hs
  | vfsClose t =>
    simp only [nextFiles] at hs
    split at hs
    · rename_i i h hfile
      cases hs
      have hl := hi.inCall t
      rw [hfile] at hl
      obtain ⟨p, hp, hh⟩ := hl
      exact hi.closeEntry hp hh (by rw [hfile]; rfl) rfl rfl ⟨p, hp⟩
    · rename_i h hfile
      cases hs
      have hl := hi.inCall t
      rw [hfile] at hl
      have h1 := hi.close (t := t) (h := h) (by rw [hfile]; rfl) (by rw [hfile]; rfl)
      refine h1.disown ?_ goto_self
      show (s.vfsClose h).procs.userlandPid t = none
      unfold Files.vfsClose
      split
      · exact hl.2
      · exact hl.2
    · cases hs
  | clear t =>
    simp only [nextFiles] at hs
    split at hs
    · rename_i i p hfile hp
      cases hs
      exact hi.clear (by rw [hfile]; rfl) hp rfl trivial
    · cases hs
  | exitBegins t =>
    have hbegin : (s.procs.code t).canExit = true → (s.file t).clears = none →
        Isolated (s.goto t (.closeAll 0)) := by
      intro hexit hclears
      obtain ⟨p, hp⟩ := canExit_slot hi.paired hexit
      exact hi.goto ⟨p, hp, fun j hj => absurd hj (Nat.not_lt_zero _)⟩ hclears (fun h hh => by cases hh)
    simp only [nextFiles] at hs
    split at hs
    · rename_i hexit hfile
      cases hs
      exact hbegin hexit (by rw [hfile]; rfl)
    · rename_i hexit hfile
      cases hs
      exact hbegin hexit (by rw [hfile]; rfl)
    · rename_i hexit hfile
      cases hs
      exact hbegin hexit (by rw [hfile]; rfl)
    · cases hs
  | closeNext t =>
    simp only [nextFiles] at hs
    split at hs
    · rename_i i p hfile hp
      have hl := hi.inCall t
      rw [hfile] at hl
      obtain ⟨q, hq, hbelow⟩ := hl
      obtain rfl := Option.some.inj (hp.symm.trans hq)
      split at hs
      · rename_i hlt
        split at hs
        · rename_i hh
          cases hs
          refine hi.goto ⟨p, hp, fun j hj => ?_⟩ (by rw [hfile]; rfl) (fun h hh => by cases hh)
          by_cases hji : j.val = i
          · rw [← hh]
            congr 1
            exact Fin.ext hji
          · exact hbelow j (by omega)
        · rename_i h hh
          cases hs
          exact hi.closeEntry hp hh (by rw [hfile]; rfl) rfl rfl ⟨p, hp, fun j hj => hbelow j hj⟩
      · cases hs
    · cases hs
  | clearNext t =>
    simp only [nextFiles] at hs
    split at hs
    · rename_i i p hfile hp
      cases hs
      have hl := hi.inCall t
      rw [hfile] at hl
      obtain ⟨q, hq, hbelow⟩ := hl
      obtain rfl := Option.some.inj (hp.symm.trans hq)
      refine hi.clear (by rw [hfile]; rfl) hp rfl ⟨p, hp, fun j hj => ?_⟩
      by_cases hji : j = i
      · simp [Files.setEntry, hji]
      · simp only [Files.setEntry, Function.update_self, Function.update_of_ne hji]
        have hne : j.val ≠ i.val := fun h => hji (Fin.ext h)
        exact hbelow j (Fin.lt_def.2 (by omega))
    · cases hs
  | exit t retval =>
    simp only [nextFiles] at hs
    split at hs
    · rename_i i hfile
      split at hs
      · rename_i hend
        obtain ⟨procs, hstep, rfl⟩ := Option.map_eq_some_iff.1 hs
        have hl := hi.inCall t
        rw [hfile] at hl
        obtain ⟨p, hp, hbelow⟩ := hl
        have h1 : Isolated (s.goto t .outside) := hi.goto trivial (by rw [hfile]; rfl) (fun h hh => by cases hh)
        have h2 : Isolated { s.goto t .outside with procs := procs } :=
          h1.giveSlot hp (fun j => hbelow j (lt_of_lt_of_le j.isLt hend))
          (hi.paired.step hstep) (fun u hu => (step_userlandPid hi.paired hstep u).1 hu)
          ((step_userlandPid hi.paired hstep t).2.2 rfl) (fun _ => by rw [goto_self]; trivial)
        exact h2.disown ((step_userlandPid hi.paired hstep t).2.2 rfl) goto_self
      · cases hs
    · cases hs

/-- The handles that thread `t` passes to `vfs_seek`, `vfs_read`, `vfs_write` or `vfs_close` before
anything else happens in its system call. -/
def passes (s : Files) (t : TID) (h : ℕ) : Prop :=
  match s.file t with
  | .executable k => k = h
  | .closingExecutable k => k = h
  | .working k => k = h
  | .closing _ k => k = h
  | .closeAll i => ∃ p, s.procs.userlandPid t = some p ∧ ∃ j : Slot, j.val = i ∧ s.filehandle p j = some h
  | _ => False

theorem Isolated.passes_own {s : Files} (hi : Isolated s) {t : TID} {h : ℕ} (hh : passes s t h) :
    STD_HANDLES ≤ h ∧ s.isOpen h = true ∧ s.owner h = some t := by
  have hentry : ∀ {p i k}, s.procs.userlandPid t = some p → s.filehandle p i = some k →
      (s.file t).clears = none → STD_HANDLES ≤ k ∧ s.isOpen k = true ∧ s.owner k = some t := by
    intro p i k hp hk hclears
    have hx : Holds s (.entry p i) k := .entry hk (not_stale hi.paired hp hclears)
    exact ⟨(hi.live hx).2, (hi.live hx).1, hi.owned hx hp⟩
  have hhand : ∀ {k}, (s.file t).hand = some k → s.owner k = some t →
      STD_HANDLES ≤ k ∧ s.isOpen k = true ∧ s.owner k = some t := by
    intro k hk howner
    have hx : Holds s (.hand t) k := .hand hk
    exact ⟨(hi.live hx).2, (hi.live hx).1, howner⟩
  have hl := hi.inCall t
  unfold passes at hh
  cases hfile : s.file t with
  | executable k =>
    rw [hfile] at hh hl
    subst hh
    exact hhand (by rw [hfile]; rfl) hl
  | closingExecutable k =>
    rw [hfile] at hh hl
    subst hh
    exact hhand (by rw [hfile]; rfl) hl.1
  | working k =>
    rw [hfile] at hh hl
    subst hh
    obtain ⟨p, hp, i, hi'⟩ := hl
    exact hentry hp hi' (by rw [hfile]; rfl)
  | closing i k =>
    rw [hfile] at hh hl
    subst hh
    obtain ⟨p, hp, hi'⟩ := hl
    exact hentry hp hi' (by rw [hfile]; rfl)
  | closeAll i =>
    rw [hfile] at hh
    obtain ⟨p, hp, j, -, hj⟩ := hh
    exact hentry hp hj (by rw [hfile]; rfl)
  | outside =>
    rw [hfile] at hh
    exact hh.elim
  | opening dest =>
    rw [hfile] at hh
    exact hh.elim
  | fsOpen dest k =>
    rw [hfile] at hh
    exact hh.elim
  | storing i k =>
    rw [hfile] at hh
    exact hh.elim
  | clearing i =>
    rw [hfile] at hh
    exact hh.elim
  | clearingAll i =>
    rw [hfile] at hh
    exact hh.elim

/-- **File handles are isolated**: a handle that a thread passes to the file system is open and has been
opened by its process, and no handle is in two entries, apart from entries that are being cleared. -/
theorem handles_isolated {es : List FileEvent} {s : Files} (hr : run nextFiles Files.init es = some s) :
    (∀ t h, passes s t h → STD_HANDLES ≤ h ∧ s.isOpen h = true ∧ s.owner h = some t) ∧
    ∀ p q i j h, s.filehandle p i = some h → s.filehandle q j = some h → ¬ s.Stale p i → ¬ s.Stale q j →
      p = q ∧ i = j := by
  have hi : Isolated s := run_always (fun hi hs => hi.next hs) isolated_init hr
  refine ⟨fun t h => hi.passes_own, fun p q i j h hp hq hsp hsq => ?_⟩
  have he := hi.single (.entry hp hsp) (.entry hq hsq)
  simpa using he

/-- A process opens two files, closes one of them and is about to close the other as it exits. -/
theorem handles_isolated_exit : ∃ s, run nextFiles Files.init
      [.boot 0, .slot 0, .started 0, .openFile 0, .reserve 0, .fsOpened 0 true, .store 0, .openFile 0,
       .reserve 0, .fsOpened 0 true, .store 0, .closeFile 0 3, .vfsClose 0, .clear 0, .exitBegins 0,
       .closeNext 0] = some s ∧
    passes s 0 4 ∧ s.isOpen 4 = true ∧ s.owner 4 = some 0 ∧
    ∀ p q i j h, s.filehandle p i = some h → s.filehandle q j = some h → ¬ s.Stale p i → ¬ s.Stale q j →
      p = q ∧ i = j := by
  have hrun : ∃ s ∈ run nextFiles Files.init
      [.boot 0, .slot 0, .started 0, .openFile 0, .reserve 0, .fsOpened 0 true, .store 0, .openFile 0,
       .reserve 0, .fsOpened 0 true, .store 0, .closeFile 0 3, .vfsClose 0, .clear 0, .exitBegins 0,
       .closeNext 0], s.file 0 = .closeAll 1 ∧ s.procs.userlandPid 0 = some 0 ∧ s.filehandle 0 1 = some 4 := by
    decide +kernel
  obtain ⟨s, hs, hfile, hp, hh⟩ := hrun
  have hpasses : passes s 0 4 := by
    unfold passes
    rw [hfile]
    exact ⟨0, hp, 1, rfl, hh⟩
  obtain ⟨hown, hsingle⟩ := handles_isolated hs
  obtain ⟨-, hopen, howner⟩ := hown 0 4 hpasses
  exact ⟨s, hs, hpasses, hopen, howner, hsingle⟩

/-- Between the `vfs_close` of a handle and the clearing of its entry, another process gets the same row
from `vfs_open` and stores it. -/
theorem handle_in_two_tables : ∃ s, run nextFiles Files.init
      [.boot 0, .slot 0, .started 0, .execp 0 1, .slot 1, .started 1, .openFile 0, .reserve 0,
       .fsOpened 0 true, .store 0, .closeFile 0 3, .vfsClose 0, .openFile 1, .reserve 1, .fsOpened 1 true,
       .store 1] = some s ∧
    s.isOpen 3 = true ∧ s.filehandle 0 0 = some 3 ∧ s.filehandle 1 0 = some 3 := by
  have hrun : ∃ s ∈ run nextFiles Files.init
      [.boot 0, .slot 0, .started 0, .execp 0 1, .slot 1, .started 1, .openFile 0, .reserve 0,
       .fsOpened 0 true, .store 0, .closeFile 0 3, .vfsClose 0, .openFile 1, .reserve 1, .fsOpened 1 true,
       .store 1], s.isOpen 3 = true ∧ s.filehandle 0 0 = some 3 ∧ s.filehandle 1 0 = some 3 := by
    decide +kernel
  obtain ⟨s, hs, h⟩ := hrun
  exact ⟨s, hs, h⟩

end Buenos.Proc

import Buenos.Base.Transition
import Buenos.Fs.Vfs.System
import Mathlib.Data.Set.Card

/-!
# The mount table as a finite map

* `Code.exec` — a VFS function run to its end by one thread; `driver` says what the functions of the
  filesystems return.
* `MountMap` — the abstract mount table: a map from names to filesystems with room for
  `CONFIG_MAX_FILESYSTEMS` entries.
* `Represents s m` — the rows of `s` hold the map `m`.
* `mountable` — the condition on a mount: the table is full, or the name fits into a row and no empty
  row still carries it.

Principal results: `vfs_mounts_refine` (the table refines the map in every sequence of calls whose
mounts meet the condition; a mount answers like the map if and only if it does),
`vfs_remount_fails` (a name that was unmounted cannot be mounted again).
-/

namespace Buenos.Vfs

open Buenos.Fs (VFS_OK VFS_ERROR VFS_NOT_FOUND)
open Transition

/-! ## Running a function to its end -/

/-- Run a function alone; `none` when it would wait for ever or the kernel stops. -/
def Code.exec (driver : ℕ → FsOp → ℤ) : Code → Tables → Option (ℤ × Tables)
  | .ret r, s => some (r, s)
  | .endOp r, s => if s.sem .op = 0 ∨ s.ops - 1 < 0 then none else some (r, vfsEndOp s)
  | .startOp k, s => if s.sem .op = 0 then none else (k s.usable).exec driver (vfsStartOp s)
  | .semP x k, s => if s.sem x = 0 then none else k.exec driver (s.setSem x (s.sem x - 1))
  | .semV x k, s => k.exec driver (s.setSem x (s.sem x + 1))
  | .verify file k, s => (k (vfsVerifyOpen s file)).exec driver s
  | .access f k, s => (k s).exec driver (f s)
  | .enter fs op k, s => (k (driver fs op)).exec driver s
  | .crash, _ => none

/-- The VFS is usable, no call is in progress and no file is open. -/
structure NoFiles (s : Tables) : Prop where
  usable : s.usable = true
  table : s.sem .table = 1
  openfile : s.sem .openfile = 1
  op : s.sem .op = 1
  ops : 0 ≤ s.ops
  files : ∀ i id, (s.files i).filesystem ≠ some (.driver id)

section Exec

variable {driver : ℕ → FsOp → ℤ} {s : Tables}

theorem exec_access {f : Tables → Tables} {k : Tables → Code} :
    (Code.access f k).exec driver s = (k s).exec driver (f s) := rfl

theorem exec_enter {fs : ℕ} {op : FsOp} {k : ℤ → Code} :
    (Code.enter fs op k).exec driver s = (k (driver fs op)).exec driver s := rfl

/-- A function that starts an operation on a usable VFS. -/
theorem exec_startOp (h : NoFiles s) {r : ℤ} {c : Code} :
    (Code.startOp fun ok => if !ok then .ret r else c).exec driver s =
      c.exec driver { s with ops := s.ops + 1 } := by
  have hop : s.sem .op ≠ 0 := by
    rw [h.op]
    decide
  show (if s.sem .op = 0 then none else (if !s.usable then Code.ret r else c).exec driver (vfsStartOp s)) = _
  rw [if_neg hop, h.usable, vfsStartOp, h.usable]
  rfl

theorem exec_lock {x : Sem} {k : Code} (h : s.sem x = 1) :
    (Code.semP x k).exec driver s = k.exec driver (s.setSem x 0) := by
  have hne : s.sem x ≠ 0 := by
    rw [h]
    decide
  show (if s.sem x = 0 then none else k.exec driver (s.setSem x (s.sem x - 1))) = _
  rw [if_neg hne, h]

theorem exec_unlock {x : Sem} {k : Code} (h : s.sem x = 0) :
    (Code.semV x k).exec driver s = k.exec driver (s.setSem x 1) := by
  show k.exec driver (s.setSem x (s.sem x + 1)) = _
  rw [h]

theorem exec_look {k : Tables → Code} : (Code.look k).exec driver s = (k s).exec driver s := rfl

theorem exec_store {f : Tables → Tables} {k : Code} :
    (Code.store f k).exec driver s = k.exec driver (f s) := rfl

theorem exec_endOp {r : ℤ} (h1 : s.sem .op = 1) (h2 : 0 < s.ops) (h3 : s.usable = true) :
    (Code.endOp r).exec driver s = some (r, { s with ops := s.ops - 1 }) := by
  have hend : ¬ (s.sem .op = 0 ∨ s.ops - 1 < 0) := by omega
  show (if s.sem .op = 0 ∨ s.ops - 1 < 0 then none else some (r, vfsEndOp s)) = _
  rw [if_neg hend]
  simp [vfsEndOp, h3]

theorem setSem_twice (s : Tables) {x : Sem} {v : ℕ} (h : s.sem x = 1) :
    (s.setSem x v).setSem x 1 = s := by
  simp [Tables.setSem, ← h]

end Exec

/-- What `vfs_mount` returns for the result of its search. -/
def mountReply : Except ℤ Mount → ℤ
  | .error r => r
  | .ok _ => VFS_OK

/-- **`vfs_mount`** searches the table and changes one row or nothing. -/
theorem vfsMount_exec {driver : ℕ → FsOp → ℤ} {s : Tables} (h : NoFiles s) (fs : ℕ) {name : Str}
    (hne : name ≠ []) :
    (vfsMount fs name).exec driver s =
      some (mountReply (mountRow s name), s.mounted fs name (mountRow s name)) := by
  have hops : 0 < s.ops + 1 := by have := h.ops; omega
  rw [vfsMount, if_neg hne, exec_startOp h, exec_lock (s := { s with ops := s.ops + 1 }) h.table,
    exec_access]
  have hrow : mountRow (Tables.setSem { s with ops := s.ops + 1 } .table 0) name = mountRow s name :=
    rfl
  rw [hrow]
  generalize mountRow s name = row
  cases row with
  | error r =>
    rw [exec_unlock rfl, Tables.mounted, setSem_twice { s with ops := s.ops + 1 } h.table, exec_endOp]
    · simp [mountReply, Tables.mounted]
    · exact h.op
    · exact hops
    · exact h.usable
  | ok row =>
    rw [exec_unlock rfl, exec_endOp]
    · simp [mountReply, Tables.mounted, Tables.setSem, Tables.setMount, ← h.table]
    · exact h.op
    · exact hops
    · exact h.usable

theorem inUse_eq_false {s : Tables} (h : NoFiles s) (id : ℕ) : inUse s (.driver id) = false := by
  rw [inUse, List.any_eq_false]
  intro i _
  simpa using h.files i id

/-- **`vfs_unmount`** with no file open empties the row of the name, if it is mounted. -/
theorem vfsUnmount_exec {driver : ℕ → FsOp → ℤ} {s : Tables} (h : NoFiles s)
    (hd : ∀ row fs, (s.filesystems row).filesystem = some fs → ∃ id, fs = .driver id) (name : Str) :
    (vfsUnmount name).exec driver s = some (match mountedAs s name with
      | none => (VFS_NOT_FOUND, s)
      | some (row, _) => (VFS_OK, s.setMount row { s.filesystems row with filesystem := none })) := by
  have hops : 0 < s.ops + 1 := by have := h.ops; omega
  rw [vfsUnmount, exec_startOp h, exec_lock (s := { s with ops := s.ops + 1 }) h.table, exec_look]
  have hrow : mountedAs (Tables.setSem { s with ops := s.ops + 1 } .table 0) name = mountedAs s name :=
    rfl
  rw [hrow]
  cases hm : mountedAs s name with
  | none =>
    simp only
    rw [exec_unlock rfl, setSem_twice { s with ops := s.ops + 1 } h.table, exec_endOp]
    · simp
    · exact h.op
    · exact hops
    · exact h.usable
  | some p =>
    obtain ⟨row, fs⟩ := p
    obtain ⟨d, rfl⟩ : ∃ d, fs = .driver d := by
      unfold mountedAs at hm
      split at hm
      · cases hm
      · obtain ⟨fs', h1, h2⟩ := Option.map_eq_some_iff.1 hm
        obtain ⟨h2, h3⟩ := Prod.mk.inj h2
        exact hd _ fs (h3 ▸ h1)
    have hfree : inUse ((Tables.setSem { s with ops := s.ops + 1 } .table 0).setSem .openfile 0)
        (.driver d) = false := inUse_eq_false h d
    have hopen : (Tables.setSem { s with ops := s.ops + 1 } .table 0).sem .openfile = 1 := h.openfile
    simp only
    rw [exec_lock hopen, exec_look,
      hfree, if_neg (by decide), Code.callFs, exec_enter, exec_store, exec_unlock rfl, exec_unlock rfl,
      exec_endOp]
    · simp only [Tables.setSem, Tables.setMount, Int.add_sub_cancel, Option.some.injEq, Prod.mk.injEq,
        true_and, Tables.mk.injEq, and_true]
      funext x
      cases x with
      | table => simp [h.table]
      | openfile => simp [h.openfile]
      | op => simp
      | unmount => simp
    · exact h.op
    · exact hops
    · exact h.usable

/-! ## The abstract mount table -/

/-- A map from names to filesystems. -/
abbrev MountMap := Str → Option ℕ

/-- The number of names that are mounted. -/
noncomputable def MountMap.size (m : MountMap) : ℕ := {name | m name ≠ none}.ncard

/-- A name can be mounted: it is not mounted, and there is room. -/
def MountMap.Free (m : MountMap) (name : Str) : Prop :=
  m name = none ∧ m.size < CONFIG_MAX_FILESYSTEMS

/-- A call of `vfs_mount` or `vfs_unmount`. -/
inductive MountCall where
  | mount (fs : ℕ) (name : Str)
  | unmount (name : Str)

def MountCall.name : MountCall → Str
  | .mount _ name => name
  | .unmount name => name

def MountCall.code : MountCall → Code
  | .mount fs name => vfsMount fs name
  | .unmount name => vfsUnmount name

open Classical in
/-- What a call does to the map. -/
noncomputable def MountMap.after (m : MountMap) : MountCall → MountMap
  | .mount fs name => if m.Free name then Function.update m name (some fs) else m
  | .unmount name => Function.update m name none

/-- The rows of `s` hold the map `m`. -/
structure Represents (s : Tables) (m : MountMap) : Prop where
  noFiles : NoFiles s
  driver : ∀ row fs, (s.filesystems row).filesystem = some fs → ∃ id, fs = .driver id
  short : ∀ row, (s.filesystems row).mountpoint.length < VFS_NAME_LENGTH
  unique : ∀ {row row'}, (s.filesystems row).filesystem ≠ none →
    (s.filesystems row').mountpoint = (s.filesystems row).mountpoint → row' = row
  map : ∀ name id, m name = some id ↔ ∃ row, (s.filesystems row).filesystem = some (.driver id) ∧
    (s.filesystems row).mountpoint = name

/-- The table is full, or the name fits into a row and no empty row still carries it. -/
def mountable (s : Tables) (name : Str) : Prop :=
  freeMount s = none ∨ (name.length < VFS_NAME_LENGTH ∧
    ∀ row, (s.filesystems row).mountpoint = name → (s.filesystems row).filesystem ≠ none)

instance (s : Tables) (name : Str) : Decidable (mountable s name) :=
  inferInstanceAs (Decidable (_ ∨ _))

section Represents

variable {s : Tables} {m : MountMap}

theorem findMount_some {name : Str} {row : Mount} (h : findMount s name = some row) :
    (s.filesystems row).mountpoint = name := by
  simpa using List.find?_some h

theorem findMount_none {name : Str} (h : findMount s name = none) (row : Mount) :
    (s.filesystems row).mountpoint ≠ name := by
  have := List.find?_eq_none.1 h row (List.mem_finRange row)
  simpa using this

theorem freeMount_some {row : Mount} (h : freeMount s = some row) :
    (s.filesystems row).filesystem = none := by
  simpa using List.find?_some h

theorem freeMount_none (h : freeMount s = none) (row : Mount) :
    (s.filesystems row).filesystem ≠ none := by
  have := List.find?_eq_none.1 h row (List.mem_finRange row)
  simpa using this

/-- The search for the name of a mounted row finds that row. -/
theorem Represents.findMount_eq (h : Represents s m) {row : Mount}
    (hr : (s.filesystems row).filesystem ≠ none) :
    findMount s (s.filesystems row).mountpoint = some row := by
  cases hf : findMount s (s.filesystems row).mountpoint with
  | none => exact absurd rfl (findMount_none hf row)
  | some row' => rw [h.unique hr (findMount_some hf)]

/-- **`vfs_get_filesystem`** looks the name up in the map. -/
theorem Represents.lookup (h : Represents s m) (name : Str) :
    vfsGetFilesystem s name = (m name).map .driver := by
  cases hm : m name with
  | none =>
    unfold vfsGetFilesystem
    split
    · rfl
    · rename_i row hf
      cases hfs : (s.filesystems row).filesystem with
      | none => rfl
      | some fs =>
        obtain ⟨id, rfl⟩ := h.driver row fs hfs
        have := (h.map name id).2 ⟨row, hfs, findMount_some hf⟩
        rw [hm] at this
        cases this
  | some id =>
    obtain ⟨row, h1, rfl⟩ := (h.map name id).1 hm
    rw [vfsGetFilesystem, h.findMount_eq (by rw [h1]; simp)]
    exact h1

theorem Represents.mountedAs_eq (h : Represents s m) {name : Str} {id : ℕ} (hm : m name = some id) :
    ∃ row, mountedAs s name = some (row, .driver id) ∧ (s.filesystems row).mountpoint = name ∧
      (s.filesystems row).filesystem = some (.driver id) := by
  obtain ⟨row, h1, rfl⟩ := (h.map name id).1 hm
  refine ⟨row, ?_, rfl, h1⟩
  rw [mountedAs, h.findMount_eq (by rw [h1]; simp)]
  simp [h1]

theorem Represents.mountedAs_none (h : Represents s m) {name : Str} (hm : m name = none) :
    mountedAs s name = none := by
  have hl := h.lookup name
  rw [hm, vfsGetFilesystem] at hl
  unfold mountedAs
  split at hl
  · rfl
  · simpa using hl

/-- The mounted names are the names of the occupied rows. -/
theorem Represents.size_eq (h : Represents s m) :
    m.size = {row | (s.filesystems row).filesystem ≠ none}.ncard := by
  have himage : {name | m name ≠ none} =
      (fun row => (s.filesystems row).mountpoint) '' {row | (s.filesystems row).filesystem ≠ none} := by
    ext name
    simp only [Set.mem_ofPred_eq, Set.mem_image]
    constructor
    · intro hm
      obtain ⟨id, hid⟩ := Option.ne_none_iff_exists'.1 hm
      obtain ⟨row, h1, h2⟩ := (h.map name id).1 hid
      exact ⟨row, by rw [h1]; simp, h2⟩
    · rintro ⟨row, h1, h2⟩
      obtain ⟨fs, hfs⟩ := Option.ne_none_iff_exists'.1 h1
      obtain ⟨id, rfl⟩ := h.driver row fs hfs
      rw [(h.map name id).2 ⟨row, hfs, h2⟩]
      simp
  rw [MountMap.size, himage, Set.InjOn.ncard_image]
  exact fun row hrow row' _ he => (h.unique hrow he.symm).symm

/-- There is a free row exactly when the map has room. -/
theorem Represents.room (h : Represents s m) :
    m.size < CONFIG_MAX_FILESYSTEMS ↔ freeMount s ≠ none := by
  rw [h.size_eq]
  constructor
  · intro hlt hnone
    have huniv : {row | (s.filesystems row).filesystem ≠ none} = Set.univ :=
      Set.eq_univ_of_forall (freeMount_none hnone)
    rw [huniv, Set.ncard_univ, Nat.card_fin] at hlt
    exact absurd hlt (lt_irrefl _)
  · intro hsome
    obtain ⟨row, hrow⟩ := Option.ne_none_iff_exists'.1 hsome
    have hss : {row | (s.filesystems row).filesystem ≠ none} ⊂ Set.univ :=
      Set.ssubset_univ_iff.2 fun huniv => by
        have hmem : row ∈ {row | (s.filesystems row).filesystem ≠ none} := huniv ▸ Set.mem_univ row
        exact hmem (freeMount_some hrow)
    have hlt := Set.ncard_lt_ncard hss
    rwa [Set.ncard_univ, Nat.card_fin] at hlt

end Represents

/-! ## The calls refine the map -/

section Calls

variable {driver : ℕ → FsOp → ℤ} {s : Tables} {m : MountMap} {fs : ℕ} {name : Str}

theorem setMount_self (s : Tables) (row : Mount) (e : VfsEntry) :
    (s.setMount row e).filesystems row = e := Function.update_self ..

theorem setMount_of_ne (s : Tables) {row row' : Mount} (e : VfsEntry) (h : row' ≠ row) :
    (s.setMount row e).filesystems row' = s.filesystems row' := Function.update_of_ne h ..

theorem NoFiles.setMount (h : NoFiles s) (row : Mount) (e : VfsEntry) : NoFiles (s.setMount row e) :=
  ⟨h.usable, h.table, h.openfile, h.op, h.ops, h.files⟩

/-- A filesystem enters an empty row under a new name. -/
theorem Represents.mounted (h : Represents s m) {row : Mount} (hfree : freeMount s = some row)
    (hnew : findMount s name = none) (hlen : name.length < VFS_NAME_LENGTH) :
    Represents (s.setMount row ⟨some (.driver fs), stringcopy name VFS_NAME_LENGTH⟩)
      (Function.update m name (some fs)) := by
  have hcopy : stringcopy name VFS_NAME_LENGTH = name :=
    List.take_of_length_le (by simp only [VFS_NAME_LENGTH] at hlen ⊢; omega)
  have hempty := freeMount_some hfree
  rw [hcopy]
  refine ⟨h.noFiles.setMount _ _, fun r fs' hr => ?_, fun r => ?_, fun {r r'} hr he => ?_,
    fun x id => ?_⟩
  · by_cases hrr : r = row
    · rw [hrr, setMount_self] at hr
      exact ⟨fs, (Option.some.inj hr).symm⟩
    · rw [setMount_of_ne _ _ hrr] at hr
      exact h.driver r fs' hr
  · by_cases hrr : r = row
    · rw [hrr, setMount_self]
      exact hlen
    · rw [setMount_of_ne _ _ hrr]
      exact h.short r
  · by_cases hrr : r = row
    · by_cases hrr' : r' = row
      · rw [hrr, hrr']
      · rw [hrr, setMount_self, setMount_of_ne _ _ hrr'] at he
        exact absurd he (findMount_none hnew r')
    · rw [setMount_of_ne _ _ hrr] at hr he
      by_cases hrr' : r' = row
      · rw [hrr', setMount_self] at he
        exact absurd he.symm (findMount_none hnew r)
      · rw [setMount_of_ne _ _ hrr'] at he
        exact h.unique hr he
  · by_cases hx : x = name
    · subst hx
      rw [Function.update_self]
      constructor
      · intro hid
        exact ⟨row, by rw [setMount_self, Option.some.inj hid], by rw [setMount_self]⟩
      · rintro ⟨r, h1, h2⟩
        by_cases hrr : r = row
        · rw [hrr, setMount_self] at h1
          simpa using h1
        · rw [setMount_of_ne _ _ hrr] at h2
          exact absurd h2 (findMount_none hnew r)
    · rw [Function.update_of_ne hx, h.map x id]
      constructor
      · rintro ⟨r, h1, h2⟩
        have hrr : r ≠ row := by
          rintro rfl
          rw [hempty] at h1
          cases h1
        exact ⟨r, by rw [setMount_of_ne _ _ hrr]; exact h1, by rw [setMount_of_ne _ _ hrr]; exact h2⟩
      · rintro ⟨r, h1, h2⟩
        by_cases hrr : r = row
        · rw [hrr, setMount_self] at h2
          exact absurd h2.symm hx
        · rw [setMount_of_ne _ _ hrr] at h1 h2
          exact ⟨r, h1, h2⟩

/-- A row is emptied; it keeps its name. -/
theorem Represents.unmounted (h : Represents s m) {row : Mount} {id : ℕ}
    (hrow : (s.filesystems row).filesystem = some (.driver id)) :
    Represents (s.setMount row { s.filesystems row with filesystem := none })
      (Function.update m (s.filesystems row).mountpoint none) := by
  have hocc : (s.filesystems row).filesystem ≠ none := by rw [hrow]; simp
  have hname : ∀ r, ((s.setMount row { s.filesystems row with filesystem := none }).filesystems
      r).mountpoint = (s.filesystems r).mountpoint := by
    intro r
    by_cases hrr : r = row
    · rw [hrr, setMount_self]
    · rw [setMount_of_ne _ _ hrr]
  refine ⟨h.noFiles.setMount _ _, fun r fs' hr => ?_, fun r => ?_, fun {r r'} hr he => ?_,
    fun x id' => ?_⟩
  · by_cases hrr : r = row
    · rw [hrr, setMount_self] at hr
      cases hr
    · rw [setMount_of_ne _ _ hrr] at hr
      exact h.driver r fs' hr
  · rw [hname]
    exact h.short r
  · rw [hname, hname] at he
    by_cases hrr : r = row
    · rw [hrr, setMount_self] at hr
      exact absurd rfl hr
    · rw [setMount_of_ne _ _ hrr] at hr
      exact h.unique hr he
  · by_cases hx : x = (s.filesystems row).mountpoint
    · subst hx
      rw [Function.update_self]
      constructor
      · intro hid
        cases hid
      · rintro ⟨r, h1, h2⟩
        rw [hname] at h2
        rw [h.unique hocc h2, setMount_self] at h1
        cases h1
    · rw [Function.update_of_ne hx, h.map x id']
      constructor
      · rintro ⟨r, h1, rfl⟩
        have hrr : r ≠ row := by
          rintro rfl
          exact hx rfl
        exact ⟨r, by rw [setMount_of_ne _ _ hrr]; exact h1, hname r⟩
      · rintro ⟨r, h1, h2⟩
        rw [hname] at h2
        by_cases hrr : r = row
        · rw [hrr, setMount_self] at h1
          cases h1
        · rw [setMount_of_ne _ _ hrr] at h1
          exact ⟨r, h1, h2⟩

/-- A name that no row carries is not mounted. -/
theorem Represents.not_mounted (h : Represents s m) (hnone : findMount s name = none) :
    m name = none := by
  cases hm : m name with
  | none => rfl
  | some id =>
    obtain ⟨row, -, h2⟩ := (h.map name id).1 hm
    exact absurd h2 (findMount_none hnone row)

/-- **`vfs_mount`** that meets the condition answers like the map and keeps the relation. -/
theorem Represents.mount (h : Represents s m) (fs : ℕ) (driver : ℕ → FsOp → ℤ) (hne : name ≠ [])
    (hm : mountable s name) :
    ∃ r s', (vfsMount fs name).exec driver s = some (r, s') ∧ (r = VFS_OK ↔ m.Free name) ∧
      Represents s' (m.after (.mount fs name)) := by
  refine ⟨_, _, vfsMount_exec h.noFiles fs hne, ?_⟩
  rw [MountMap.after]
  cases hfree : freeMount s with
  | none =>
    have hno : ¬ m.Free name := fun hf => (h.room.1 hf.2) hfree
    simp only [mountRow, hfree, mountReply, Tables.mounted]
    rw [if_neg hno]
    exact ⟨⟨fun he => absurd he (by decide), fun hf => absurd hf hno⟩, h⟩
  | some row =>
    obtain ⟨hlen, hstale⟩ := hm.resolve_left (by rw [hfree]; simp)
    cases hf : findMount s name with
    | none =>
      have hyes : m.Free name := ⟨h.not_mounted hf, h.room.2 (by rw [hfree]; simp)⟩
      simp only [mountRow, hfree, hf, mountReply, Tables.mounted, Option.isSome_none,
        Bool.false_eq_true, if_false]
      rw [if_pos hyes]
      exact ⟨⟨fun _ => hyes, fun _ => trivial⟩, h.mounted hfree hf hlen⟩
    | some row' =>
      have hno : ¬ m.Free name := by
        rintro ⟨h1, -⟩
        have hl := h.lookup name
        rw [h1, vfsGetFilesystem, hf] at hl
        exact hstale row' (findMount_some hf) hl
      simp only [mountRow, hfree, hf, mountReply, Tables.mounted, Option.isSome_some, if_true]
      rw [if_neg hno]
      exact ⟨⟨fun he => absurd he (by decide), fun hf => absurd hf hno⟩, h⟩

/-- **`vfs_unmount`** answers like the map and keeps the relation. -/
theorem Represents.unmount (h : Represents s m) (driver : ℕ → FsOp → ℤ) (name : Str) :
    ∃ r s', (vfsUnmount name).exec driver s = some (r, s') ∧ (r = VFS_OK ↔ m name ≠ none) ∧
      Represents s' (m.after (.unmount name)) := by
  rw [vfsUnmount_exec h.noFiles h.driver name, MountMap.after]
  cases hm : m name with
  | none =>
    rw [h.mountedAs_none hm]
    refine ⟨_, _, rfl, ⟨fun he => absurd he (by decide), fun he => absurd rfl he⟩, ?_⟩
    rw [← hm, Function.update_eq_self]
    exact h
  | some id =>
    obtain ⟨row, h1, h2, h3⟩ := h.mountedAs_eq hm
    rw [h1]
    refine ⟨_, _, rfl, ⟨fun _ => by simp, fun _ => rfl⟩, ?_⟩
    rw [← h2]
    exact h.unmounted h3

/-- A mount answers like the map: the reply, and what every lookup finds afterwards. -/
def MountsLike (driver : ℕ → FsOp → ℤ) (s : Tables) (m : MountMap) (fs : ℕ) (name : Str) : Prop :=
  ∃ r s', (vfsMount fs name).exec driver s = some (r, s') ∧ (r = VFS_OK ↔ m.Free name) ∧
    ∀ x, vfsGetFilesystem s' x = (m.after (.mount fs name) x).map .driver

/-- **A mount answers like the map if and only if it meets the condition.** -/
theorem Represents.mountsLike_iff (h : Represents s m) (hne : name ≠ []) :
    MountsLike driver s m fs name ↔ mountable s name := by
  constructor
  · rintro ⟨r, s', hexec, hreply, hlookup⟩
    rw [vfsMount_exec h.noFiles fs hne] at hexec
    by_contra hm
    obtain ⟨hfull, hbad⟩ := not_or.1 hm
    obtain ⟨row, hrow⟩ := Option.ne_none_iff_exists'.1 hfull
    cases hf : findMount s name with
    | some row' =>
      -- an empty row still carries the name
      have hname := findMount_some hf
      have hlen : name.length < VFS_NAME_LENGTH := hname ▸ h.short row'
      have hstale : (s.filesystems row').filesystem = none := by
        by_contra hocc
        refine hbad ⟨hlen, fun r hr => ?_⟩
        rw [h.unique hocc (hr.trans hname.symm)]
        exact hocc
      have hl := h.lookup name
      rw [vfsGetFilesystem, hf] at hl
      have hfree : m.Free name := ⟨by simpa [hstale] using hl.symm, h.room.2 hfull⟩
      simp only [mountRow, hrow, hf, mountReply, Option.isSome_some, if_true, Option.some.injEq,
        Prod.mk.injEq] at hexec
      have := hreply.2 hfree
      rw [← hexec.1] at this
      cases this
    | none =>
      -- the name is longer than a row can hold
      have hfree : m.Free name := ⟨h.not_mounted hf, h.room.2 hfull⟩
      have hlong : VFS_NAME_LENGTH ≤ name.length := by
        by_contra hlen
        exact hbad ⟨by omega, fun r hr => absurd hr (findMount_none hf r)⟩
      simp only [mountRow, hrow, hf, Tables.mounted, Option.isSome_none, Bool.false_eq_true, if_false,
        Option.some.injEq, Prod.mk.injEq] at hexec
      have hl := hlookup name
      rw [MountMap.after, if_pos hfree, Function.update_self, ← hexec.2] at hl
      have hnone : findMount (s.setMount row ⟨some (.driver fs), stringcopy name VFS_NAME_LENGTH⟩)
          name = none := by
        refine List.find?_eq_none.2 fun r _ => ?_
        by_cases hrr : r = row
        · rw [hrr, setMount_self]
          have : (stringcopy name VFS_NAME_LENGTH).length < name.length := by
            simp only [stringcopy, List.length_take, VFS_NAME_LENGTH] at hlong ⊢
            omega
          simp only [decide_eq_true_eq]
          intro he
          rw [he] at this
          exact absurd this (lt_irrefl _)
        · rw [setMount_of_ne _ _ hrr]
          simpa using findMount_none hf r
      rw [vfsGetFilesystem, hnone] at hl
      cases hl
  · intro hm
    obtain ⟨r, s', h1, h2, h3⟩ := h.mount fs driver hne hm
    exact ⟨r, s', h1, h2, h3.lookup⟩

end Calls

/-- One call of a sequence. -/
def mountStep (driver : ℕ → FsOp → ℤ) (s : Tables) (c : MountCall) : Option Tables :=
  (c.code.exec driver s).map Prod.snd

/-- A mount in the sequence meets the condition. -/
def mountsFresh (s : Tables) : MountCall → Prop
  | .mount _ name => mountable s name
  | .unmount _ => True

instance (s : Tables) : ∀ c, Decidable (mountsFresh s c)
  | .mount _ name => inferInstanceAs (Decidable (mountable s name))
  | .unmount _ => isTrue trivial

/-- The table answers like the map. -/
structure Refines (driver : ℕ → FsOp → ℤ) (s : Tables) (m : MountMap) : Prop where
  lookup : ∀ name, vfsGetFilesystem s name = (m name).map .driver
  mount : ∀ fs name, name ≠ [] → (MountsLike driver s m fs name ↔ mountable s name)
  unmount : ∀ name, ∃ r s', (vfsUnmount name).exec driver s = some (r, s') ∧
    (r = VFS_OK ↔ m name ≠ none) ∧
    ∀ x, vfsGetFilesystem s' x = (m.after (.unmount name) x).map .driver

theorem Represents.refines {driver : ℕ → FsOp → ℤ} {s : Tables} {m : MountMap}
    (h : Represents s m) : Refines driver s m where
  lookup := h.lookup
  mount := fun _ _ hne => h.mountsLike_iff hne
  unmount := fun name => by
    obtain ⟨r, s', h1, h2, h3⟩ := h.unmount driver name
    exact ⟨r, s', h1, h2, h3.lookup⟩

theorem represents_init : Represents vfsInit fun _ => none where
  noFiles := by
    refine ⟨rfl, rfl, rfl, rfl, le_refl _, fun i id h => ?_⟩
    simp only [vfsInit] at h
    split at h <;> cases h
  driver := fun _ _ h => by cases h
  short := fun _ => by
    simp only [vfsInit]
    decide
  unique := fun h => absurd rfl h
  map := fun name id => by
    constructor
    · intro h
      cases h
    · rintro ⟨row, h, -⟩
      cases h

/-- A sequence of calls from a table that holds a map. -/
theorem Represents.run {driver : ℕ → FsOp → ℤ} :
    ∀ (cs : List MountCall) {s : Tables} {m : MountMap}, Represents s m → (∀ c ∈ cs, c.name ≠ []) →
      Every (mountStep driver) mountsFresh s cs →
      ∃ s', Transition.run (mountStep driver) s cs = some s' ∧ Represents s' (cs.foldl MountMap.after m)
  | [], s, m, h, _, _ => ⟨s, rfl, h⟩
  | c :: cs, s, m, h, hne, hc => by
    obtain ⟨s1, hs1, h1⟩ : ∃ s1, mountStep driver s c = some s1 ∧ Represents s1 (m.after c) := by
      cases c with
      | mount fs name =>
        have hname : name ≠ [] := hne _ (List.mem_cons_self ..)
        obtain ⟨r, s1, h1, -, h2⟩ := h.mount fs driver hname hc.1
        exact ⟨s1, by rw [mountStep, MountCall.code, h1]; rfl, h2⟩
      | unmount name =>
        obtain ⟨r, s1, h1, -, h2⟩ := h.unmount driver name
        exact ⟨s1, by rw [mountStep, MountCall.code, h1]; rfl, h2⟩
    have hc2 := hc.2
    rw [hs1] at hc2
    rw [Transition.run, hs1, List.foldl_cons]
    exact run cs h1 (fun c hm => hne c (List.mem_cons_of_mem _ hm)) hc2

/-- **The mount table refines a finite map**: after every sequence of mounts and unmounts, with
non-empty names, whose mounts meet the condition, lookups and unmounts answer like the map, and a
mount does if and only if it meets the condition too. -/
theorem vfs_mounts_refine (driver : ℕ → FsOp → ℤ) (cs : List MountCall)
    (hne : ∀ c ∈ cs, c.name ≠ []) (hc : Every (mountStep driver) mountsFresh vfsInit cs) :
    ∃ s, run (mountStep driver) vfsInit cs = some s ∧
      Refines driver s (cs.foldl MountMap.after fun _ => none) := by
  obtain ⟨s, h1, h2⟩ := represents_init.run cs hne hc
  exact ⟨s, h1, h2.refines⟩

/-- Mount two filesystems, unmount the first, mount a third one. -/
theorem vfs_mounts_refine_three :
    ∃ s, run (mountStep fun _ _ => 0) vfsInit
        [.mount 7 [97], .mount 8 [98], .unmount [97], .mount 9 [99]] = some s ∧
      Refines (fun _ _ => 0) s
        ([MountCall.mount 7 [97], .mount 8 [98], .unmount [97], .mount 9 [99]].foldl MountMap.after
          fun _ => none) :=
  vfs_mounts_refine (fun _ _ => 0) _ (by decide) (by decide +kernel)

/-- **A name cannot be mounted again after it was unmounted**: the emptied row keeps the name, and
`vfs_mount` compares with empty rows too. -/
theorem vfs_remount_fails :
    ((vfsMount 7 [97]).exec (fun _ _ => 0) vfsInit).map Prod.fst = some VFS_OK ∧
    (((vfsMount 7 [97]).exec (fun _ _ => 0) vfsInit).bind fun s =>
      ((vfsUnmount [97]).exec (fun _ _ => 0) s.2).bind fun s =>
      ((vfsMount 7 [97]).exec (fun _ _ => 0) s.2).map fun s' =>
        (s.1, s'.1, vfsGetFilesystem s.2 [97])) = some (VFS_OK, VFS_ERROR, none) := by
  decide +kernel

end Buenos.Vfs

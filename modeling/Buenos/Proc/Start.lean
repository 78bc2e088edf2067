import Buenos.Proc.Elf
import Buenos.Proc.Files
import Buenos.Proc.Frames

/-!
# Starting a process

`process_start` of `proc/process.c` as one call, with `restore_process_state`.  No other thread runs in
between; what the interleavings add is in `Buenos.Proc.Memory`.

* `World` — the process table, the thread, the page pool and the open files.
* `Start` — the outcome of a part of the call: it goes on, or it goes to `restore_process_state`.
* `prepare` — the slot, the page table, the header and the mappings.
* `loadSegments` — the pages are zeroed and the segments are read.  The model records which addresses are
  written; a write outside of the mapped pages is a fault or changes the kernel, and there the call has no
  outcome.
* `processStart` — the call.
-/

namespace Buenos.Proc

open Buenos.Vm
open Buenos.Fs (VFS_OK)

/-! ## The state -/

/-- `process_table_t`; for `filehandle`, `none` is `FILEHANDLE_UNUSED`. -/
structure ProcessSlot where
  entry : ProcessEntry
  name : String
  heapVaddr : ℕ
  filehandle : Slot → Option ℕ

/-- `child_process_create_data_t`, in the fields that `process_start` writes.  `broadcast` says that
`die_cond` of the parent has been broadcast. -/
structure ChildProcessCreateData where
  childPid : ℤ
  ready : Bool
  broadcast : Bool
  deriving DecidableEq

def PROCESS_NO_PARENT_PID : ℤ := -1

/-- The data as `syscall_handle_execp` fills it in. -/
def execpData : ChildProcessCreateData := ⟨PROCESS_NO_PARENT_PID, false, false⟩

/-- A row of `openfile_table`. -/
abbrev OpenFileRow := Fin CONFIG_MAX_OPEN_FILES

/-- The process table, the fields of the thread, the page pool, the open files, and the data of the
parent, if there is one. -/
structure World where
  slots : PID → ProcessSlot
  userlandPid : Option PID
  pagetable : Option Pagetable
  pool : Pool
  openfiles : OpenFileRow → Option OpenFile
  data : Option ChildProcessCreateData

/-- The arguments of a call, and what it finds: `parentPid` is `data->parent_pid`, `executable` is the
content of the file that the name leads to, `memory` is what lies in the page of the page table, and the
TLB has so many rows. -/
structure StartCall where
  thread : TID
  parentPid : Option PID
  executable : Option (List UInt8)
  memory : ℕ → TlbEntry
  rows : ℕ

/-- The local variables of `process_start`: `my_proc_entry`, `file` and `elf`. -/
structure StartState where
  world : World
  myPid : Option PID
  file : Option OpenFileRow
  elf : ElfInfo

/-- How a part of the call ends: it goes on, `restore_process_state` is called, or an assertion fails. -/
inductive Start (α : Type) where
  | ok (a : α)
  | fails (s : StartState)
  | panics

def Start.bind {α β : Type} : Start α → (α → Start β) → Start β
  | .ok a, f => f a
  | .fails s, _ => .fails s
  | .panics, _ => .panics

instance : Monad Start where
  pure := .ok
  bind := .bind

@[simp] theorem Start.ok_bind {α β : Type} (a : α) (f : α → Start β) : (Start.ok a >>= f) = f a := rfl

@[simp] theorem Start.fails_bind {α β : Type} (s : StartState) (f : α → Start β) :
    (Start.fails s >>= f) = .fails s := rfl

namespace World

variable (w : World)

def table : Table := fun i => (w.slots i).entry

def setSlot (i : PID) (slot : ProcessSlot) : World := { w with slots := Function.update w.slots i slot }

end World

namespace StartState

variable (s : StartState)

def setWorld (w : World) : StartState := { s with world := w }

end StartState

/-! ## Up to the mappings -/

/-- The process table with slot `i` filled: `filehandle` and `heap_vaddr` stay. -/
def filledSlots (c : StartCall) (w : World) (i : PID) : PID → ProcessSlot := fun j =>
  { w.slots j with entry := fillSlot w.table i c.thread c.parentPid j
                   name := if j = i then "foobar" else (w.slots j).name }

/-- The loop that looks for a slot. -/
def takeSlot (c : StartCall) (w : World) : Start StartState :=
  match findFree w.table with
  | none => .fails ⟨w, none, none, .zeroed 0⟩
  | some i =>
    .ok ⟨{ w with slots := filledSlots c w i, userlandPid := some i }, some i, none, .zeroed 0⟩

/-- The test of the thread's page table, and `vm_create_pagetable`. -/
def createPagetable (c : StartCall) (s : StartState) : Start StartState :=
  match s.world.pagetable with
  | some _ => .fails s
  | none =>
    match vmCreatePagetable s.world.pool c.thread c.memory with
    | none => .panics
    | some (none, pool) => .fails (s.setWorld { s.world with pool := pool })
    | some (some pt, pool) => .ok (s.setWorld { s.world with pagetable := some pt, pool := pool })

/-- `vfs_open`: the first free row, for the file that the name leads to. -/
def openExecutable (c : StartCall) (s : StartState) : Start StartState :=
  match (List.finRange CONFIG_MAX_OPEN_FILES).find? fun r => (s.world.openfiles r).isNone, c.executable with
  | some r, some content =>
    .ok { s.setWorld { s.world with openfiles := Function.update s.world.openfiles r (some ⟨content, 0⟩) } with
      file := some r }
  | _, _ => .fails s

/-- The open executable. -/
def StartState.openFile (s : StartState) : OpenFile := (s.file.bind s.world.openfiles).getD ⟨[], 0⟩

/-- The executable is left as `file`. -/
def StartState.setFile (s : StartState) (file : OpenFile) : StartState :=
  match s.file with
  | none => s
  | some r => s.setWorld { s.world with openfiles := Function.update s.world.openfiles r (some file) }

/-- `elf_parse_header` and the checks of what it returns. -/
def checkHeader (c : StartCall) (s : StartState) : Start StartState :=
  match elfParseHeader s.openFile with
  | (none, file) => .fails (s.setFile file)
  | (some elf, file) =>
    let s := { s.setFile file with elf := elf }
    if elf.entryPoint < PAGE_SIZE then .fails s
    else if c.rows < elf.roPages + elf.rwPages + CONFIG_USERLAND_STACK_SIZE then .fails s
    else .ok s

/-- The call up to its mapping loops. -/
def acceptExecutable (c : StartCall) (w : World) : Start StartState := do
  let s ← takeSlot c w
  let s ← createPagetable c s
  let s ← openExecutable c s
  checkHeader c s

/-- `pagepool_get_phys_page` and `vm_map`. -/
def mapPage (s : StartState) (vaddr : ℕ) : Start StartState :=
  match s.world.pagetable with
  | none => .panics
  | some pt =>
    match pagepoolGetPhysPage s.world.pool with
    | none => .panics
    | some (physPage, pool) =>
      if physPage = 0 then .fails (s.setWorld { s.world with pool := pool })
      else match vmMap pt physPage vaddr true with
        | none => .fails (s.setWorld { s.world with pool := pool })
        | some pt => .ok (s.setWorld { s.world with pool := pool, pagetable := some pt })

/-- A loop over `mapPage`. -/
def mapPages : List ℕ → StartState → Start StartState
  | [], s => .ok s
  | vaddr :: vaddrs, s => do
    let s ← mapPage s vaddr
    mapPages vaddrs s

/-- The addresses of the pages of the stack. -/
def stackAddrs : List ℕ :=
  (List.range CONFIG_USERLAND_STACK_SIZE).map fun i => sub32 (pageStart USERLAND_STACK_TOP) (i * PAGE_SIZE)

/-- The addresses that the three loops map. -/
def ElfInfo.segmentAddrs (elf : ElfInfo) : List ℕ :=
  stackAddrs ++ pageAddrs elf.roVaddr elf.roPages ++ pageAddrs elf.rwVaddr elf.rwPages

/-- `heap_vaddr`. -/
def ElfInfo.heapVaddr (elf : ElfInfo) : ℕ := u32 (elf.rwVaddr + elf.rwPages * PAGE_SIZE)

/-- `heap_vaddr` of the slot is set. -/
def setHeap (s : StartState) : StartState :=
  match s.myPid with
  | none => s
  | some i => s.setWorld (s.world.setSlot i { s.world.slots i with heapVaddr := s.elf.heapVaddr })

/-- The call up to the first write to the mapped pages. -/
def prepare (c : StartCall) (w : World) : Start StartState := do
  let s ← acceptExecutable c w
  let s ← mapPages s.elf.segmentAddrs s
  mapPage (setHeap s) s.elf.heapVaddr

/-! ## Loading -/

/-- The bytes that `memoryset` writes to so many pages; its size is an `int`. -/
def zeroedBytes (pages : ℕ) : ℕ := (toInt (u32 (pages * PAGE_SIZE))).toNat

/-- A range of addresses. -/
structure Span where
  vaddr : ℕ
  length : ℕ
  deriving DecidableEq

/-- The reading of a segment: what is written, the file, and whether the call goes on. -/
def copySegment (size vaddr location : ℕ) (file : OpenFile) : List Span × OpenFile × Bool :=
  if size = 0 then ([], file, true)
  else if vaddr < PAGE_SIZE then ([], file, false)
  else match vfsSeek file (toInt location) with
    | (ret, file) =>
      if ret ≠ VFS_OK then ([], file, false)
      else match vfsRead file (toInt size) with
        | (ret, bytes, file) => ([⟨vaddr, bytes.length⟩], file, decide (ret = toInt size))

/-- `stack_bottom`. -/
def stackBottom : ℕ := sub32 (pageStart USERLAND_STACK_TOP) ((CONFIG_USERLAND_STACK_SIZE - 1) * PAGE_SIZE)

/-- What is zeroed. -/
def ElfInfo.zeroedSpans (elf : ElfInfo) : List Span :=
  [⟨elf.roVaddr, zeroedBytes elf.roPages⟩, ⟨elf.rwVaddr, zeroedBytes elf.rwPages⟩,
    ⟨stackBottom, zeroedBytes CONFIG_USERLAND_STACK_SIZE⟩]

/-- The pages are zeroed and the segments are read: everything that is written, the file, and whether
the call goes on. -/
def loadSegments (elf : ElfInfo) (file : OpenFile) : List Span × OpenFile × Bool :=
  match copySegment elf.roSize elf.roVaddr elf.roLocation file with
  | (ro, file, false) => (elf.zeroedSpans ++ ro, file, false)
  | (ro, file, true) =>
    match copySegment elf.rwSize elf.rwVaddr elf.rwLocation file with
    | (rw, file, ok) => (elf.zeroedSpans ++ ro ++ rw, file, ok)

/-- A write to the address goes to a mapped page of the process: it is below the kernel's segments, the
page is mapped, and the exception handler of the TLB accepts it. -/
def writable (pt : Pagetable) (vaddr : ℕ) : Bool :=
  decide (vaddr < 0x80000000) && (pt.mapping (vaddr / PAGE_SIZE)).isSome && fillable pt vaddr true

/-- The addresses of a range. -/
def Span.addrs (r : Span) : List ℕ := (List.range r.length).map fun i => u32 (r.vaddr + i)

/-- The segments are loaded; the call has no outcome when a write does not go to a mapped page. -/
def load (s : StartState) : Start StartState :=
  match s.world.pagetable with
  | none => .panics
  | some pt =>
    match loadSegments s.elf s.openFile with
    | (spans, file, ok) =>
      if spans.all fun r => r.addrs.all (writable pt) then
        if ok then .ok (s.setFile file) else .fails (s.setFile file)
      else .panics

/-! ## The end of the call -/

/-- `free_process_heap`; `none` is a failed assertion. -/
def freeProcessHeap (w : World) (i : PID) : Option World :=
  match w.pagetable with
  | none => some w
  | some pt =>
    if (w.slots i).heapVaddr = 0 then some w
    else (vmUnmap pt (w.slots i).heapVaddr w.pool).map fun r => { w with pagetable := some r.1, pool := r.2 }

/-- `free_process_table_entry`. -/
def freedSlot (slot : ProcessSlot) : ProcessSlot := ⟨freeEntry, slot.name, 0, fun _ => none⟩

/-- The first part of `restore_process_state`, for the slot. -/
def restoreSlot (w : World) : Option PID → Option World
  | none => some w
  | some i =>
    (freeProcessHeap w i).map fun w => { w.setSlot i (freedSlot (w.slots i)) with userlandPid := none }

/-- The second part, for the page table. -/
def restorePagetable (w : World) : Option World :=
  match w.pagetable with
  | none => some w
  | some pt =>
    match releasePagetable pt (List.range pt.validCount) w.pool with
    | none => none
    | some pool => (vmDestroyPagetable pt pool).map fun pool => { w with pagetable := none, pool := pool }

/-- `vfs_close`. -/
def closeFile (w : World) : Option OpenFileRow → World
  | none => w
  | some r => { w with openfiles := Function.update w.openfiles r none }

/-- `restore_process_state`; `release_page_table` is always 1.  `none` is a failed assertion. -/
def restoreProcess (s : StartState) : Option World :=
  match restoreSlot s.world s.myPid with
  | none => none
  | some w =>
    (restorePagetable w).map fun w =>
      closeFile { w with data := w.data.map fun d => { d with ready := true, broadcast := true } } s.file

/-- The dirty bits of the read-only pages are cleared; `none` is a kernel panic. -/
def protectPages : List ℕ → Pagetable → Option Pagetable
  | [], pt => some pt
  | vaddr :: vaddrs, pt =>
    match vmSetDirty pt vaddr false with
    | none => none
    | some pt => protectPages vaddrs pt

/-- The end of a call that goes to userland. -/
def startUserland (s : StartState) : Option World :=
  match s.world.pagetable with
  | none => none
  | some pt =>
    (protectPages (pageAddrs s.elf.roVaddr s.elf.roPages) pt).map fun pt =>
      let w := closeFile { s.world with pagetable := some pt } s.file
      -- + 1, so that the pid is never 0
      { w with data := w.data.map fun _ =>
          ⟨match s.myPid with | none => PROCESS_NO_PARENT_PID | some i => i.val + 1, true, true⟩ }

/-- How a call ends. -/
inductive StartOutcome where
  /-- `process_start` returns -/
  | failed (w : World)
  /-- it goes to userland -/
  | started (w : World)

/-- `process_start`; `none` is a failed assertion, or a write outside of the mapped pages. -/
def processStart (c : StartCall) (w : World) : Option StartOutcome :=
  match prepare c { w with data := c.parentPid.map fun _ => execpData } >>= load with
  | .ok s => (startUserland s).map .started
  | .fails s => (restoreProcess s).map .failed
  | .panics => none

end Buenos.Proc

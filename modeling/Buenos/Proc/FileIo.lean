import Buenos.Fs.Vfs.Volumes
import Buenos.Proc.Files
import Buenos.Proc.UserCopy

/-!
# Reading and writing files in blocks

`syscall_handle_read` and `syscall_handle_write` of `proc/syscall_handler_fs.c` with the data: they transfer up to
512 bytes at a time through a buffer on the kernel stack.

* `syscallHandleRead`, `syscallHandleWrite` — the handlers, on the open files and the memory of the caller.
* `UserBuffer` — a buffer in the mapped user memory of the caller.

* `transferred` — how far the handlers come when a block of the file fails.
* `ReadsOnce`, `WritesOnce` — a handler call is one call of `vfs_read` or `vfs_write`.

Principal results: `fileIo_exact`, when this is so, and `fileIo_blocks`, it is so as long as the disk has no errors;
`write_adds_error` is what happens otherwise.
-/

namespace Buenos.Proc.FileIo

open Buenos.Vm Buenos.Vm.PagetableMap Buenos.Proc.UserCopy Buenos.Transition
open Buenos.Fs (VFS_ERROR VFS_NOT_FOUND inodeFilesize fileSlice goodBytes)
open Buenos.Vfs (FileSystems OnHandle OnFile WritesAt Row)

def FILEHANDLE_ILLEGAL : ℤ := -505

/-- How a handler ends. -/
inductive IoOutcome where
  | returned (r : ℤ)
  /-- the caller is killed by `syscall_handle_exit` -/
  | killed
  /-- a copy to or from user memory does not end -/
  | hangs
  /-- the kernel stops or waits for ever -/
  | stops
  deriving DecidableEq

/-- The open files, and the memory of the caller. -/
structure IoState where
  fs : FileSystems
  mem : UserMemory

/-- The caller: its page table and its handles. -/
structure Caller where
  tid : ℤ
  pagetable : Pagetable
  filehandle : Slot → Option ℕ

/-- `check_filehandle`, which finds the handle. -/
def checkFilehandle (filehandle : ℤ) (c : Caller) : Bool :=
  (List.finRange MAX_OPEN_FILES_PER_PROCESS).any fun i => (c.filehandle i).any fun h : ℕ => decide ((h : ℤ) = filehandle)

section Handlers

variable (c : Caller) (filehandle : ℤ) (buffer length : ℕ)

/-- What a round of `syscall_handle_read` reads into `temp`; `stdin` is what the console delivers for a request of so
many bytes at `count`. -/
def readBlock (stdin : ℕ → ℕ → List UInt8) (count toBeRead : ℕ) (fs : FileSystems) :
    Option ((ℤ × List UInt8) × FileSystems) :=
  if filehandle = FILEHANDLE_STDIN then some (((stdin count toBeRead).length, stdin count toBeRead), fs)
  else fs.read filehandle toBeRead

/-- The loop of `syscall_handle_read`. -/
def readLoop (stdin : ℕ → ℕ → List UInt8) : ℕ → ℕ → IoState → IoOutcome × IoState
  | 0, _, s => (.hangs, s)
  | rounds + 1, count, s =>
    if count < length then
      let toBeRead := min (length - count) CONFIG_SYSCALL_MAX_BUFFER_SIZE
      match readBlock filehandle stdin count toBeRead s.fs with
      | none => (.stops, s)
      | some ((readed, temp), fs) =>
        if readed < 0 then (.returned VFS_ERROR, { s with fs := fs })
        else
          match UserCopy.writeDataToVm c.pagetable (fun i => temp.getD i 0) (buffer + count) readed.toNat (readed.toNat + 1)
              s.mem with
          | (_, mem, .nok) => (.killed, ⟨fs, mem⟩)
          | (_, mem, .hangs _) => (.hangs, ⟨fs, mem⟩)
          | (_, mem, .ok _) =>
            if readed < toBeRead then (.returned (count + readed), ⟨fs, mem⟩)
            else readLoop stdin rounds (count + readed.toNat) ⟨fs, mem⟩
    else (.returned count, s)

/-- `syscall_handle_read`. -/
def syscallHandleRead (stdin : ℕ → ℕ → List UInt8) (s : IoState) : IoOutcome × IoState :=
  if filehandle < 0 then (.returned FILEHANDLE_ILLEGAL, s)
  else if checkFilehandle filehandle c = false ∧ filehandle ≠ FILEHANDLE_STDIN then (.returned VFS_NOT_FOUND, s)
  else readLoop c filehandle buffer length stdin (length + 1) 0 s

/-- The loop of `syscall_handle_write`; the console takes everything. -/
def writeLoop : ℕ → ℕ → IoState → IoOutcome × IoState
  | 0, _, s => (.hangs, s)
  | rounds + 1, count, s =>
    if count < length then
      let readed := min (length - count) CONFIG_SYSCALL_MAX_BUFFER_SIZE
      match UserCopy.readDataFromVm c.pagetable s.mem (buffer + count) readed (readed + 1) (fun _ => 0) with
      | (_, _, .nok) => (.killed, s)
      | (_, _, .hangs _) => (.hangs, s)
      | (_, temp, .ok _) =>
        if filehandle = FILEHANDLE_STDOUT then writeLoop rounds (count + readed) s
        else
          match s.fs.write c.tid filehandle ((List.range readed).map temp) readed with
          | none => (.stops, s)
          | some (written, fs) =>
            if written < readed then (.returned (count + written), { s with fs := fs })
            else writeLoop rounds (count + readed) { s with fs := fs }
    else (.returned count, s)

/-- `syscall_handle_write`. -/
def syscallHandleWrite (s : IoState) : IoOutcome × IoState :=
  if filehandle < 0 then (.returned FILEHANDLE_ILLEGAL, s)
  else if checkFilehandle filehandle c = false ∧ filehandle ≠ FILEHANDLE_STDOUT then (.returned VFS_NOT_FOUND, s)
  else writeLoop c filehandle buffer length (length + 1) 0 s

end Handlers

/-- The bytes of a buffer are in mapped user memory. -/
def UserBuffer (pt : Pagetable) (buffer length : ℕ) : Prop := ∀ j < length, UserByte pt (buffer + j)

/-! ## One block -/

section Blocks

variable {pt : Pagetable} {t buffer length n : ℕ} {mem : UserMemory} {bytes xs ys : List UInt8}

theorem u32_eq {a : ℕ} (h : a < 0x80000000) : u32 a = a := Nat.mod_eq_of_lt (h.trans (by decide))

theorem UserBuffer.sound (h : UserBuffer pt buffer length) {j : ℕ} (hj : j < length) : Sound pt (u32 (buffer + j)) := by
  rw [u32_eq (h j hj).2]
  exact (h j hj).sound

/-- **A block is written to user memory.** -/
theorem writeDataToVm_buffer (hw : pt.Wf t) (h : UserBuffer pt buffer bytes.length) (hfew : bytes.length ≤ 4096) :
    ∃ touched, UserCopy.writeDataToVm pt (fun i => bytes.getD i 0) buffer bytes.length (bytes.length + 1) mem =
      (touched, storeBytes mem buffer bytes, .ok bytes.length) := by
  have hrun : UserCopy.writeDataToVm pt (fun i => bytes.getD i 0) buffer bytes.length (bytes.length + 1) mem = _ :=
    copyRounds_good hw (le_refl _) hfew (fun k hk => h.sound hk) (Or.inl rfl) (Nat.zero_le _) (Or.inl rfl) (by omega)
  obtain ⟨hin, hout⟩ := @putAll_virtual mem buffer bytes.length 0 (fun i => bytes.getD i 0) (by omega)
  have hmem : putAll (putVirtual (fun i => bytes.getD i 0) buffer) 0 bytes.length mem = storeBytes mem buffer bytes := by
    funext a
    by_cases ha : buffer ≤ a ∧ a < buffer + bytes.length
    · have hbyte := hin (a - buffer) (Nat.zero_le _) (by omega)
      have haddr : u32 (buffer + (a - buffer)) = a := by
        rw [u32_eq (h (a - buffer) (by omega)).2]
        omega
      rw [haddr] at hbyte
      rw [hbyte, storeBytes, if_pos ha]
    · rw [storeBytes, if_neg ha]
      refine hout a fun j _ hj heq => ha ?_
      rw [u32_eq (h j (by omega)).2] at heq
      omega
  rw [hrun, if_pos rfl, Nat.sub_zero, hmem]
  exact ⟨_, rfl⟩

/-- **A block is read from user memory.** -/
theorem readDataFromVm_buffer (hw : pt.Wf t) (h : UserBuffer pt buffer n) (hfew : n ≤ 4096) :
    ∃ touched temp, UserCopy.readDataFromVm pt mem buffer n (n + 1) (fun _ => 0) = (touched, temp, .ok n) ∧
      (List.range n).map temp = bytesAt mem buffer n := by
  have hrun : UserCopy.readDataFromVm pt mem buffer n (n + 1) (fun _ => 0) = _ :=
    copyRounds_good hw (le_refl _) hfew (fun k hk => h.sound hk) (Or.inl rfl) (Nat.zero_le _) (Or.inl rfl) (by omega)
  rw [hrun, if_pos rfl]
  refine ⟨_, _, rfl, List.map_congr_left fun i hi => ?_⟩
  have hlt := List.mem_range.1 hi
  rw [putAll_target, if_pos (by omega), u32_eq (h i hlt).2]

theorem storeBytes_append (mem : Memory) (a : ℕ) (xs ys : List UInt8) :
    storeBytes (storeBytes mem a xs) (a + xs.length) ys = storeBytes mem a (xs ++ ys) := by
  funext x
  unfold storeBytes
  rw [List.length_append]
  by_cases hys : a + xs.length ≤ x ∧ x < a + xs.length + ys.length
  · rw [if_pos hys, if_pos (by omega), List.getD_append_right _ _ _ _ (by omega), Nat.sub_add_eq]
  · rw [if_neg hys]
    by_cases hxs : a ≤ x ∧ x < a + xs.length
    · rw [if_pos hxs, if_pos (by omega), List.getD_append _ _ _ _ (by omega)]
    · rw [if_neg hxs, if_neg (by omega)]

theorem storeBytes_nil (mem : Memory) (a : ℕ) : storeBytes mem a [] = mem := by
  funext x
  exact if_neg (by rw [List.length_nil]; omega)

theorem bytesAt_length (mem : Memory) (a n : ℕ) : (bytesAt mem a n).length = n := by
  rw [bytesAt, List.length_map, List.length_range]

/-- Storing the bytes that are there already changes nothing. -/
theorem storeBytes_eq_self_iff (mem : Memory) (a : ℕ) (xs : List UInt8) :
    storeBytes mem a xs = mem ↔ bytesAt mem a xs.length = xs := by
  constructor
  · intro h
    refine List.ext_getElem (bytesAt_length mem a _) fun i h1 h2 => ?_
    have hbyte := congrFun h (a + i)
    rw [storeBytes, if_pos ⟨Nat.le_add_right a i, by omega⟩, Nat.add_sub_cancel_left, List.getD_eq_getElem _ _ h2] at hbyte
    rw [hbyte]
    simp only [bytesAt, List.getElem_map, List.getElem_range]
  · intro h
    funext x
    unfold storeBytes
    split
    · rename_i hin
      have hlt : x - a < xs.length := by omega
      rw [List.getD_eq_getElem _ _ hlt]
      have hbyte : (bytesAt mem a xs.length)[x - a]? = xs[x - a]? := by rw [h]
      rw [List.getElem?_eq_getElem hlt, bytesAt, List.getElem?_map, List.getElem?_range hlt] at hbyte
      rw [← Option.some.inj hbyte]
      show mem (a + (x - a)) = mem x
      rw [Nat.add_sub_cancel' hin.1]
    · rfl

theorem bytesAt_append (mem : Memory) (a m n : ℕ) : bytesAt mem a (m + n) = bytesAt mem a m ++ bytesAt mem (a + m) n := by
  unfold bytesAt
  rw [List.range_add, List.map_append, List.map_map]
  refine congrArg _ (List.map_congr_left fun i _ => ?_)
  show mem (a + (m + i)) = mem (a + m + i)
  rw [Nat.add_assoc]

end Blocks

/-! ## All blocks -/

section Loops

variable {c : Caller} {t buffer length count rounds : ℕ} {filehandle : ℤ} {s : IoState} {row : Row} {d : ℕ}
  {e : Fs.Slot} {f p n g : ℕ} {stdin : ℕ → ℕ → List UInt8}

theorem seekTo_seekTo (tables : Vfs.Tables) (row : Row) (a b : ℤ) :
    (tables.seekTo row a).seekTo row b = tables.seekTo row b := by
  simp only [Vfs.Tables.seekTo, Vfs.Tables.setFile, Function.update_idem, Function.update_self]

theorem setBlocks_setBlocks (fs : FileSystems) (d : ℕ) (a b : ℕ → Fs.Block) (tables : Vfs.Tables) :
    ({ fs.setBlocks d a with tables := tables } : FileSystems).setBlocks d b = { fs.setBlocks d b with tables := tables } := by
  unfold FileSystems.setBlocks FileSystems.setVolume
  simp only [Function.update_idem, Function.update_self, Fs.withBlocks_withBlocks]

theorem UserBuffer.part {n m : ℕ} {pt : Pagetable} (h : UserBuffer pt buffer length) (hin : n + m ≤ length) :
    UserBuffer pt (buffer + n) m := fun j hj => by
  rw [Nat.add_assoc]
  exact h (n + j) (by omega)

/-- How many of `n` bytes the handlers transfer when the `g` bytes before a failing block can be had: all of them, or
the blocks of the handlers that come before the failure. -/
def transferred (n g : ℕ) : ℕ := if g = n then n else 512 * (g / 512)

/-- A whole block, and the rest. -/
theorem transferred_add (n g : ℕ) : transferred (512 + n) (512 + g) = 512 + transferred n g := by
  unfold transferred
  by_cases h : g = n
  · rw [if_pos (by omega), if_pos h]
  · rw [if_neg (by omega), if_neg h]
    omega

@[simp] theorem transferred_self (n : ℕ) : transferred n n = n := if_pos rfl

/-- A transfer in the first block of the handlers. -/
theorem transferred_small {n g : ℕ} (hg : g < n) (hsmall : g < 512) : transferred n g = 0 := by
  unfold transferred
  rw [if_neg (by omega)]
  omega

theorem moveTo_self (h : OnHandle s.fs filehandle row d e f p) :
    ({ s.fs with tables := s.fs.tables.seekTo row ((p + 0 : ℕ) : ℤ) } : FileSystems) = s.fs := by
  rw [Nat.add_zero, Vfs.seekTo_self h.seek]

section Split

variable {disk : Fs.Gbd} {inode : Fs.Block} {size n n1 n2 toBeRead : ℕ}

/-- A block of the file fails in the first block of the handlers. -/
theorem first_fails (hblock : toBeRead ≤ 512) (hle : n1 ≤ n) (hn1 : n1 ≤ toBeRead) (hfails : goodBytes disk inode p n1 ≠ n1) :
    goodBytes disk inode p n = goodBytes disk inode p n1 ∧ goodBytes disk inode p n ≠ n ∧
      transferred n (goodBytes disk inode p n) = 0 := by
  have hadd := @Fs.goodBytes_add disk inode p n1 (n - n1)
  rw [Nat.add_sub_cancel' hle, if_neg hfails] at hadd
  have hlt : goodBytes disk inode p n1 < n1 := Nat.lt_of_le_of_ne Fs.goodBytes_le hfails
  rw [hadd]
  exact ⟨rfl, by omega, transferred_small (by omega) (by omega)⟩

/-- The first block of the handlers is transferred whole. -/
theorem first_full (htoBeRead : min length CONFIG_SYSCALL_MAX_BUFFER_SIZE = toBeRead) (hin : toBeRead ≤ size - p)
    (hn : min length (size - p) = n) (hn2 : min (length - toBeRead) (size - (p + toBeRead)) = n2)
    (hgood : goodBytes disk inode p toBeRead = toBeRead) :
    n = toBeRead + n2 ∧ goodBytes disk inode p n = toBeRead + goodBytes disk inode (p + toBeRead) n2 ∧
      transferred n (goodBytes disk inode p n) = toBeRead + transferred n2 (goodBytes disk inode (p + toBeRead) n2) := by
  unfold CONFIG_SYSCALL_MAX_BUFFER_SIZE at htoBeRead
  have hsum : n = toBeRead + n2 := by omega
  have hadd := @Fs.goodBytes_add disk inode p toBeRead n2
  rw [if_pos hgood, ← hsum] at hadd
  refine ⟨hsum, hadd, ?_⟩
  rw [hadd, hsum]
  by_cases hblock : toBeRead = 512
  · rw [hblock]
    exact transferred_add _ _
  · -- the last block
    have h0 : n2 = 0 := by omega
    rw [h0, Fs.goodBytes_zero, Nat.add_zero, transferred_self, transferred_self, Nat.add_zero]

end Split

/-- **The loop of `syscall_handle_read`** reads what is left, up to the length or to a block that fails. -/
theorem readLoop_run (hw : c.pagetable.Wf t) (hstdin : filehandle ≠ FILEHANDLE_STDIN)
    (hbuffer : UserBuffer c.pagetable buffer length) (h : OnHandle s.fs filehandle row d e f p)
    (he : (s.fs.volumes d).disk.error f = false) (hcount : count ≤ length) (hrounds : length - count < rounds)
    (hn : min (length - count) (inodeFilesize ((s.fs.volumes d).disk.blocks f) - p) = n)
    (hg : goodBytes (s.fs.volumes d).disk ((s.fs.volumes d).disk.blocks f) p n = g) :
    readLoop c filehandle buffer length stdin rounds count s =
      (.returned (if g = n then ((count + n : ℕ) : ℤ) else VFS_ERROR),
        ⟨{ s.fs with tables := s.fs.tables.seekTo row ((p + transferred n g : ℕ) : ℤ) },
          storeBytes s.mem (buffer + count) (fileSlice (s.fs.volumes d).disk.blocks f p (transferred n g))⟩) := by
  induction rounds generalizing count s p n g with
  | zero => exact absurd hrounds (Nat.not_lt_zero _)
  | succ rounds ih =>
    rcases Nat.eq_or_lt_of_le hcount with rfl | hlt
    · have h0 : n = 0 := by omega
      rw [h0, Fs.goodBytes_zero] at hg
      rw [readLoop, if_neg (lt_irrefl _), h0, ← hg, if_pos rfl, transferred_self, moveTo_self h]
      show _ = (_, IoState.mk s.fs (storeBytes s.mem _ []))
      rw [storeBytes_nil]
      rfl
    · obtain ⟨toBeRead, htoBeRead⟩ : ∃ x, min (length - count) CONFIG_SYSCALL_MAX_BUFFER_SIZE = x := ⟨_, rfl⟩
      obtain ⟨readed, hreaded⟩ : ∃ x, min toBeRead (inodeFilesize ((s.fs.volumes d).disk.blocks f) - p) = x := ⟨_, rfl⟩
      have hsmall : toBeRead ≤ 512 ∧ 0 < toBeRead := by
        unfold CONFIG_SYSCALL_MAX_BUFFER_SIZE at htoBeRead
        omega
      have hfirst : toBeRead ≤ length - count := by omega
      have hread := h.read_run he hreaded rfl
      rw [readLoop, if_pos hlt]
      by_cases hgood : goodBytes (s.fs.volumes d).disk ((s.fs.volumes d).disk.blocks f) p readed = readed
      · rw [if_pos hgood] at hread
        have hlen : (fileSlice (s.fs.volumes d).disk.blocks f p readed).length = readed := by
          rw [fileSlice, List.length_map, List.length_range]
        obtain ⟨touched, hwrite⟩ := @writeDataToVm_buffer c.pagetable t (buffer + count) s.mem
          (fileSlice (s.fs.volumes d).disk.blocks f p readed) hw (hbuffer.part (by omega)) (by omega)
        rw [hlen] at hwrite
        have hblock : readBlock filehandle stdin count toBeRead s.fs = _ := (if_neg hstdin).trans hread
        have hnonneg : ¬ (readed : ℤ) < 0 := not_lt.2 (Int.natCast_nonneg _)
        simp only [htoBeRead, hblock, if_neg hnonneg, Int.toNat_natCast, hwrite]
        by_cases hshort : (readed : ℤ) < toBeRead
        · rw [if_pos hshort]
          have hlast : n = readed := by omega
          rw [hlast, hgood] at hg
          rw [← hg, hlast, if_pos rfl, transferred_self, Nat.cast_add count]
        · rw [if_neg hshort]
          have hall : readed = toBeRead := by omega
          rw [hall] at hgood ⊢
          obtain ⟨n2, hn2⟩ : ∃ x, min (length - count - toBeRead)
              (inodeFilesize ((s.fs.volumes d).disk.blocks f) - (p + toBeRead)) = x := ⟨_, rfl⟩
          obtain ⟨g2, hg2⟩ : ∃ x, goodBytes (s.fs.volumes d).disk ((s.fs.volumes d).disk.blocks f) (p + toBeRead) n2 = x :=
            ⟨_, rfl⟩
          obtain ⟨hn', hg', htransferred⟩ := first_full htoBeRead (by omega) hn hn2 hgood
          rw [hg, hg2] at hg' htransferred
          have hrest := @ih (count + toBeRead) ⟨{ s.fs with tables := s.fs.tables.seekTo row ((p + toBeRead : ℕ) : ℤ) },
            storeBytes s.mem (buffer + count) (fileSlice (s.fs.volumes d).disk.blocks f p toBeRead)⟩ (p + toBeRead) n2 g2
            (h.seekTo (by have := h.inside; omega)) he (by omega) (by omega) (by rw [Nat.sub_add_eq]; exact hn2) hg2
          have haddr : buffer + (count + toBeRead) =
              buffer + count + (fileSlice (s.fs.volumes d).disk.blocks f p toBeRead).length := by
            rw [fileSlice, List.length_map, List.length_range, Nat.add_assoc]
          rw [hrest, htransferred, hg', hn', haddr, storeBytes_append, ← Fs.fileSlice_add, seekTo_seekTo, Nat.add_assoc p,
            Nat.add_assoc count, if_congr (Nat.add_left_cancel_iff (n := toBeRead)) rfl rfl]
      · rw [if_neg hgood] at hread
        have hblock : readBlock filehandle stdin count toBeRead s.fs = _ := (if_neg hstdin).trans hread
        obtain ⟨hsame, hpart, hnone⟩ := @first_fails p (s.fs.volumes d).disk ((s.fs.volumes d).disk.blocks f) n readed
          toBeRead hsmall.1 (by omega) (by omega) hgood
        rw [hg] at hpart hnone
        simp only [htoBeRead, hblock]
        rw [if_pos (by decide), if_neg hpart, hnone, moveTo_self h]
        show _ = (_, IoState.mk s.fs (storeBytes s.mem _ []))
        rw [storeBytes_nil]

theorem setBlocks_disk (fs : FileSystems) (d : ℕ) (blocks : ℕ → Fs.Block) :
    ((fs.setBlocks d blocks).volumes d).disk = (fs.volumes d).disk.withBlocks blocks := by
  unfold FileSystems.setBlocks FileSystems.setVolume
  simp only [Function.update_self]

theorem take_bytesAt (mem : Memory) (a : ℕ) {m n : ℕ} (h : m ≤ n) : (bytesAt mem a n).take m = bytesAt mem a m := by
  obtain ⟨k, rfl⟩ := Nat.exists_eq_add_of_le h
  rw [bytesAt_append]
  exact List.take_left' (bytesAt_length mem a m)

/-- **The loop of `syscall_handle_write`** writes what is left, up to the end of the file or to a block that fails, when
the error is added to the bytes of the blocks before. -/
theorem writeLoop_run (hw : c.pagetable.Wf t) (hstdout : filehandle ≠ FILEHANDLE_STDOUT)
    (hbuffer : UserBuffer c.pagetable buffer length) (h : OnHandle s.fs filehandle row d e f p)
    (he : (s.fs.volumes d).disk.error f = false) (hcount : count ≤ length) (hrounds : length - count < rounds)
    (hn : min (length - count) (inodeFilesize ((s.fs.volumes d).disk.blocks f) - p) = n)
    (hg : goodBytes (s.fs.volumes d).disk ((s.fs.volumes d).disk.blocks f) p n = g) :
    ∃ blocks', WritesAt (s.fs.volumes d).disk.blocks blocks' f p (bytesAt s.mem (buffer + count) g) ∧
      writeLoop c filehandle buffer length rounds count s =
        (.returned ((count + transferred n g : ℕ) + if g = n then 0 else VFS_ERROR),
          ⟨{ s.fs.setBlocks d blocks' with tables := s.fs.tables.seekTo row ((p + transferred n g : ℕ) : ℤ) }, s.mem⟩) := by
  induction rounds generalizing count s p n g with
  | zero => exact absurd hrounds (Nat.not_lt_zero _)
  | succ rounds ih =>
    rcases Nat.eq_or_lt_of_le hcount with rfl | hlt
    · have h0 : n = 0 := by omega
      rw [h0, Fs.goodBytes_zero] at hg
      refine ⟨(s.fs.volumes d).disk.blocks, ?_, ?_⟩
      · rw [← hg]
        exact WritesAt.nothing
      · rw [writeLoop, if_neg (lt_irrefl _), h0, ← hg, if_pos rfl, transferred_self, Vfs.setBlocks_self, moveTo_self h,
          Nat.add_zero, Int.add_zero]
    · obtain ⟨readed, hreaded⟩ : ∃ x, min (length - count) CONFIG_SYSCALL_MAX_BUFFER_SIZE = x := ⟨_, rfl⟩
      obtain ⟨written, hwritten⟩ : ∃ x, min readed (inodeFilesize ((s.fs.volumes d).disk.blocks f) - p) = x := ⟨_, rfl⟩
      have hsmall : readed ≤ 512 ∧ 0 < readed := by
        unfold CONFIG_SYSCALL_MAX_BUFFER_SIZE at hreaded
        omega
      have hfirst : readed ≤ length - count := by omega
      obtain ⟨touched, temp, hcopy, htemp⟩ := @readDataFromVm_buffer c.pagetable t (buffer + count) readed s.mem hw
        (hbuffer.part (by omega)) (by omega)
      obtain ⟨blocks1, hwrite, hwrites⟩ := h.write_run he c.tid (bytesAt_length s.mem (buffer + count) readed).ge
        hwritten rfl
      have hle := @Fs.goodBytes_le (s.fs.volumes d).disk ((s.fs.volumes d).disk.blocks f) p written
      rw [take_bytesAt _ _ (by omega)] at hwrites
      rw [writeLoop, if_pos hlt]
      by_cases hgood : goodBytes (s.fs.volumes d).disk ((s.fs.volumes d).disk.blocks f) p written = written
      · rw [if_pos hgood] at hwrite
        rw [hgood] at hwrites
        simp only [hreaded, hcopy, if_neg hstdout, htemp, hwrite]
        by_cases hshort : (written : ℤ) < readed
        · have hlast : n = written := by omega
          rw [hlast, hgood] at hg
          refine ⟨blocks1, ?_, ?_⟩
          · rw [← hg]
            exact hwrites
          · rw [if_pos hshort, ← hg, hlast, if_pos rfl, transferred_self, Nat.cast_add count, Int.add_zero]
        · have hall : written = readed := by omega
          rw [hall] at hgood hwrites ⊢
          obtain ⟨n2, hn2⟩ : ∃ x, min (length - count - readed)
              (inodeFilesize ((s.fs.volumes d).disk.blocks f) - (p + readed)) = x := ⟨_, rfl⟩
          obtain ⟨g2, hg2⟩ : ∃ x, goodBytes (s.fs.volumes d).disk ((s.fs.volumes d).disk.blocks f) (p + readed) n2 = x :=
            ⟨_, rfl⟩
          obtain ⟨hn', hg', htransferred⟩ := first_full hreaded (by omega) hn hn2 hgood
          rw [hg, hg2] at hg' htransferred
          have hinside := h.inside
          have hinode := hwrites.inode h.layout (by rw [bytesAt_length]; omega)
          have hnext : OnHandle { s.fs.setBlocks d blocks1 with
              tables := s.fs.tables.seekTo row ((p + readed : ℕ) : ℤ) } filehandle row d e f (p + readed) :=
            (h.setBlocks hinode).seekTo (by rw [setBlocks_disk, Fs.withBlocks_blocks, hinode]; omega)
          obtain ⟨blocks2, hwrites2, hloop⟩ := @ih (count + readed)
            ⟨{ s.fs.setBlocks d blocks1 with tables := s.fs.tables.seekTo row ((p + readed : ℕ) : ℤ) }, s.mem⟩ (p + readed)
            n2 g2 hnext (by rw [setBlocks_disk]; exact he) (by omega) (by omega)
            (by rw [Nat.sub_add_eq, setBlocks_disk, Fs.withBlocks_blocks, hinode]; exact hn2)
            (by rw [setBlocks_disk, Fs.withBlocks_blocks, hinode]; exact hg2)
          rw [setBlocks_disk, Fs.withBlocks_blocks] at hwrites2
          have hle2 := @Fs.goodBytes_le (s.fs.volumes d).disk ((s.fs.volumes d).disk.blocks f) (p + readed) n2
          refine ⟨blocks2, ?_, ?_⟩
          · rw [hg', bytesAt_append]
            refine WritesAt.append h.layout hwrites ?_ (by rw [bytesAt_length, bytesAt_length]; omega)
            rw [bytesAt_length, Nat.add_assoc buffer]
            exact hwrites2
          · rw [if_neg (lt_irrefl _), hloop, setBlocks_setBlocks, seekTo_seekTo, htransferred, hg', hn', Nat.add_assoc count,
              Nat.add_assoc p, if_congr (Nat.add_left_cancel_iff (n := readed)) rfl rfl]
      · rw [if_neg hgood] at hwrite
        obtain ⟨hsame, hpart, hnone⟩ := @first_fails p (s.fs.volumes d).disk ((s.fs.volumes d).disk.blocks f) n written
          readed hsmall.1 (by omega) (by omega) hgood
        rw [hg] at hsame hpart hnone
        have hneg : VFS_ERROR < readed := lt_of_lt_of_le (show VFS_ERROR < 0 by decide) (Int.natCast_nonneg _)
        simp only [hreaded, hcopy, if_neg hstdout, htemp, hwrite, if_pos hneg]
        refine ⟨blocks1, ?_, ?_⟩
        · rw [hsame]
          exact hwrites
        · rw [if_neg hpart, hnone, Nat.add_zero, Nat.add_zero, Vfs.seekTo_self h.seek]
          rfl

end Loops

/-! ## The handlers -/

section Handlers

variable {c : Caller} {pt0 : Pagetable} {ops : List PagetableMap.Op} {t buffer length : ℕ} {filehandle : ℤ}
  {s : IoState} {row : Row} {d : ℕ} {e : Fs.Slot} {f p : ℕ}

/-- One call of `syscall_handle_read` is one call of `vfs_read`. -/
def ReadsOnce (c : Caller) (filehandle : ℤ) (buffer length : ℕ) (stdin : ℕ → ℕ → List UInt8) (s : IoState) : Prop :=
  ∃ n bytes fs', s.fs.read filehandle length = some ((n, bytes), fs') ∧
    syscallHandleRead c filehandle buffer length stdin s = (.returned n, ⟨fs', storeBytes s.mem buffer bytes⟩)

/-- One call of `syscall_handle_write` is one call of `vfs_write`. -/
def WritesOnce (c : Caller) (filehandle : ℤ) (buffer length : ℕ) (s : IoState) : Prop :=
  ∃ n fs', s.fs.write c.tid filehandle (bytesAt s.mem buffer length) length = some (n, fs') ∧
    syscallHandleWrite c filehandle buffer length s = (.returned n, ⟨fs', s.mem⟩)

/-- **When reading in blocks makes no difference**: everything can be read; or a block of the file fails among the first
512 bytes, and the buffer holds what stands before it anyway; or the inode fails, and something is asked for. -/
def ReadsAlike (s : IoState) (d f p buffer length : ℕ) : Prop :=
  let disk := (s.fs.volumes d).disk
  let n := min length (inodeFilesize (disk.blocks f) - p)
  let g := goodBytes disk (disk.blocks f) p n
  disk.error f = false ∧ (g = n ∨ g < 512 ∧ bytesAt s.mem buffer g = fileSlice disk.blocks f p g) ∨
    disk.error f = true ∧ length ≠ 0

/-- **When writing in blocks makes no difference.** -/
def WritesAlike (s : IoState) (d f p length : ℕ) : Prop :=
  let disk := (s.fs.volumes d).disk
  let n := min length (inodeFilesize (disk.blocks f) - p)
  let g := goodBytes disk (disk.blocks f) p n
  disk.error f = false ∧ (g = n ∨ g < 512) ∨ disk.error f = true ∧ length ≠ 0

instance (s : IoState) (d f p buffer length : ℕ) : Decidable (ReadsAlike s d f p buffer length) :=
  inferInstanceAs (Decidable (_ ∧ (_ ∨ _ ∧ _) ∨ _ ∧ _))

instance (s : IoState) (d f p length : ℕ) : Decidable (WritesAlike s d f p length) :=
  inferInstanceAs (Decidable (_ ∧ (_ ∨ _) ∨ _ ∧ _))

theorem syscallHandleRead_eq (hfile : 3 ≤ filehandle) (howned : checkFilehandle filehandle c = true)
    (stdin : ℕ → ℕ → List UInt8) : syscallHandleRead c filehandle buffer length stdin s =
      readLoop c filehandle buffer length stdin (length + 1) 0 s := by
  have hchecked : ¬ (checkFilehandle filehandle c = false ∧ filehandle ≠ FILEHANDLE_STDIN) := fun hc => by
    rw [howned] at hc
    exact Bool.noConfusion hc.1
  rw [syscallHandleRead, if_neg (by omega), if_neg hchecked]

theorem syscallHandleWrite_eq (hfile : 3 ≤ filehandle) (howned : checkFilehandle filehandle c = true) :
    syscallHandleWrite c filehandle buffer length s = writeLoop c filehandle buffer length (length + 1) 0 s := by
  have hchecked : ¬ (checkFilehandle filehandle c = false ∧ filehandle ≠ FILEHANDLE_STDOUT) := fun hc => by
    rw [howned] at hc
    exact Bool.noConfusion hc.1
  rw [syscallHandleWrite, if_neg (by omega), if_neg hchecked]

/-- There is one call of `vfs_read`. -/
theorem readsOnce_iff {r : ℤ} {bytes : List UInt8} {fs' : FileSystems} {stdin : ℕ → ℕ → List UInt8}
    (hread : s.fs.read filehandle length = some ((r, bytes), fs')) :
    ReadsOnce c filehandle buffer length stdin s ↔
      syscallHandleRead c filehandle buffer length stdin s = (.returned r, ⟨fs', storeBytes s.mem buffer bytes⟩) := by
  constructor
  · rintro ⟨r', bytes', fs'', hread', h⟩
    cases hread.symm.trans hread'
    exact h
  · exact fun h => ⟨r, bytes, fs', hread, h⟩

/-- There is one call of `vfs_write`. -/
theorem writesOnce_iff {r : ℤ} {fs' : FileSystems}
    (hwrite : s.fs.write c.tid filehandle (bytesAt s.mem buffer length) length = some (r, fs')) :
    WritesOnce c filehandle buffer length s ↔
      syscallHandleWrite c filehandle buffer length s = (.returned r, ⟨fs', s.mem⟩) := by
  constructor
  · rintro ⟨r', fs'', hwrite', h⟩
    cases hwrite.symm.trans hwrite'
    exact h
  · exact fun h => ⟨r, fs', hwrite, h⟩

/-- Where the position moves by nothing. -/
theorem moveTo_eq_iff {m : ℕ} (h : OnHandle s.fs filehandle row d e f p) :
    ({ s.fs with tables := s.fs.tables.seekTo row ((p + m : ℕ) : ℤ) } : FileSystems) = s.fs ↔ m = 0 := by
  constructor
  · intro hsame
    have hrow : (s.fs.tables.seekTo row ((p + m : ℕ) : ℤ)).files row = s.fs.tables.files row :=
      congrArg (fun fs : FileSystems => fs.tables.files row) hsame
    have hmoved : ((s.fs.tables.seekTo row ((p + m : ℕ) : ℤ)).files row).seekPosition = ((p + m : ℕ) : ℤ) := by
      simp only [Vfs.Tables.seekTo, Vfs.Tables.setFile, Function.update_self]
    rw [hrow, h.seek] at hmoved
    omega
  · rintro rfl
    exact moveTo_self h

theorem transferred_eq_zero_iff {n g : ℕ} (hg : g ≠ n) : transferred n g = 0 ↔ g < 512 := by
  unfold transferred
  rw [if_neg hg]
  omega

section Exact

variable (hw : c.pagetable.Wf t) (hfile : 3 ≤ filehandle) (howned : checkFilehandle filehandle c = true)
  (h : OnHandle s.fs filehandle row d e f p) (hbuffer : UserBuffer c.pagetable buffer length)

include hw hfile howned h hbuffer

/-- **Reading once**, exactly. -/
theorem reads_iff (stdin : ℕ → ℕ → List UInt8) :
    ReadsOnce c filehandle buffer length stdin s ↔ ReadsAlike s d f p buffer length := by
  have hstdin : filehandle ≠ FILEHANDLE_STDIN := by
    unfold FILEHANDLE_STDIN
    omega
  unfold ReadsAlike
  cases he : (s.fs.volumes d).disk.error f with
  | true =>
    rw [readsOnce_iff (h.read_failed he length), syscallHandleRead_eq hfile howned, storeBytes_nil, readLoop]
    simp only [he, Bool.true_eq_false, false_and, true_and, false_or, ne_eq]
    by_cases h0 : length = 0
    · rw [if_neg (by omega)]
      refine iff_of_false (fun hc => ?_) (not_not.2 h0)
      exact absurd (IoOutcome.returned.inj (congrArg Prod.fst hc)) (by decide)
    · have hblock : readBlock filehandle stdin 0 (min (length - 0) CONFIG_SYSCALL_MAX_BUFFER_SIZE) s.fs = _ :=
        (if_neg hstdin).trans (h.read_failed he _)
      rw [if_pos (Nat.pos_of_ne_zero h0)]
      simp only [hblock]
      rw [if_pos (by decide)]
      exact iff_of_true rfl h0
  | false =>
    simp only [he, Bool.false_eq_true, false_and, true_and, or_false]
    generalize hn : min length (inodeFilesize ((s.fs.volumes d).disk.blocks f) - p) = n
    generalize hg : goodBytes (s.fs.volumes d).disk ((s.fs.volumes d).disk.blocks f) p n = g
    have hread := h.read_run he hn hg
    have hloop := @readLoop_run c t buffer length 0 (length + 1) filehandle s row d e f p n g stdin hw hstdin hbuffer h he
      (Nat.zero_le _) (Nat.lt_succ_self _) hn hg
    by_cases hall : g = n
    · rw [if_pos hall] at hread
      rw [readsOnce_iff hread, syscallHandleRead_eq hfile howned, hloop, if_pos hall, hall, transferred_self, Nat.zero_add,
        Nat.add_zero]
      exact iff_of_true rfl (Or.inl rfl)
    · rw [if_neg hall] at hread
      rw [readsOnce_iff hread, syscallHandleRead_eq hfile howned, hloop, if_neg hall, Nat.add_zero]
      simp only [Prod.mk.injEq, IoState.mk.injEq, true_and, hall, false_or]
      rw [moveTo_eq_iff h, transferred_eq_zero_iff hall]
      refine and_congr_right fun hfirst => ?_
      have hnone : transferred n g = 0 := (transferred_eq_zero_iff hall).2 hfirst
      rw [hnone]
      show storeBytes s.mem buffer [] = _ ↔ _
      have hlen : (fileSlice (s.fs.volumes d).disk.blocks f p g).length = g := by
        rw [fileSlice, List.length_map, List.length_range]
      rw [storeBytes_nil, eq_comm, storeBytes_eq_self_iff, hlen]

/-- **Writing once**, exactly. -/
theorem writes_iff : WritesOnce c filehandle buffer length s ↔ WritesAlike s d f p length := by
  have hstdout : filehandle ≠ FILEHANDLE_STDOUT := by
    unfold FILEHANDLE_STDOUT
    omega
  unfold WritesAlike
  cases he : (s.fs.volumes d).disk.error f with
  | true =>
    rw [writesOnce_iff (h.write_failed he c.tid _ length), syscallHandleWrite_eq hfile howned, writeLoop]
    simp only [he, Bool.true_eq_false, false_and, true_and, false_or, ne_eq]
    by_cases h0 : length = 0
    · rw [if_neg (by omega)]
      refine iff_of_false (fun hc => ?_) (not_not.2 h0)
      exact absurd (IoOutcome.returned.inj (congrArg Prod.fst hc)) (by decide)
    · obtain ⟨readed, hreaded⟩ : ∃ x, min (length - 0) CONFIG_SYSCALL_MAX_BUFFER_SIZE = x := ⟨_, rfl⟩
      have hsmall : readed ≤ 512 ∧ readed ≤ length := by
        unfold CONFIG_SYSCALL_MAX_BUFFER_SIZE at hreaded
        omega
      obtain ⟨touched, temp, hcopy, htemp⟩ := @readDataFromVm_buffer c.pagetable t buffer readed s.mem hw
        (fun j hj => hbuffer j (by omega)) (by omega)
      have hneg : VFS_ERROR < readed := lt_of_lt_of_le (show VFS_ERROR < 0 by decide) (Int.natCast_nonneg _)
      rw [if_pos (Nat.pos_of_ne_zero h0)]
      simp only [hreaded, Nat.add_zero, hcopy, if_neg hstdout, h.write_failed he, if_pos hneg]
      exact iff_of_true (by rw [Nat.cast_zero, Int.zero_add]) h0
  | false =>
    simp only [he, Bool.false_eq_true, false_and, true_and, or_false]
    generalize hn : min length (inodeFilesize ((s.fs.volumes d).disk.blocks f) - p) = n
    generalize hg : goodBytes (s.fs.volumes d).disk ((s.fs.volumes d).disk.blocks f) p n = g
    have hle : g ≤ n := by
      rw [← hg]
      exact Fs.goodBytes_le
    obtain ⟨blocks', hwrite, hwrites⟩ := h.write_run he c.tid (bytesAt_length s.mem buffer length).ge hn hg
    obtain ⟨blocks'', hwrites', hloop⟩ := @writeLoop_run c t buffer length 0 (length + 1) filehandle s row d e f p n g hw
      hstdout hbuffer h he (Nat.zero_le _) (Nat.lt_succ_self _) hn hg
    rw [take_bytesAt _ _ (by omega)] at hwrites
    rw [hwrites'.unique hwrites, Nat.zero_add] at hloop
    by_cases hall : g = n
    · rw [if_pos hall] at hwrite hloop
      rw [writesOnce_iff hwrite, syscallHandleWrite_eq hfile howned, hloop, hall, transferred_self, Int.add_zero]
      exact iff_of_true rfl (Or.inl rfl)
    · rw [if_neg hall] at hwrite hloop
      rw [writesOnce_iff hwrite, syscallHandleWrite_eq hfile howned, hloop, or_iff_right hall,
        ← transferred_eq_zero_iff hall]
      constructor
      · intro hsame
        have hresult := IoOutcome.returned.inj (congrArg Prod.fst hsame)
        omega
      · intro hnone
        rw [hnone, Nat.cast_zero, Int.zero_add, Nat.add_zero, Vfs.seekTo_self h.seek]
        rfl

end Exact

/-- **When a handler call is one call of the file system**: the result, the bytes, and everything in the file system. -/
theorem fileIo_exact (h0 : pt0.validCount = 0) (hr : run PagetableMap.step pt0 ops = some c.pagetable)
    (hfile : 3 ≤ filehandle) (howned : checkFilehandle filehandle c = true) (h : OnHandle s.fs filehandle row d e f p)
    (hbuffer : UserBuffer c.pagetable buffer length) (stdin : ℕ → ℕ → List UInt8) :
    (ReadsOnce c filehandle buffer length stdin s ↔ ReadsAlike s d f p buffer length) ∧
      (WritesOnce c filehandle buffer length s ↔ WritesAlike s d f p length) :=
  ⟨reads_iff (wf_of_run h0 hr) hfile howned h hbuffer stdin, writes_iff (wf_of_run h0 hr) hfile howned h hbuffer⟩

/-- **On a disk without errors a handler call is one call of the file system.** -/
theorem fileIo_blocks (h0 : pt0.validCount = 0) (hr : run PagetableMap.step pt0 ops = some c.pagetable)
    (hfile : 3 ≤ filehandle)
    (howned : checkFilehandle filehandle c = true) (h : OnFile s.fs filehandle row d e f p)
    (hbuffer : UserBuffer c.pagetable buffer length) (stdin : ℕ → ℕ → List UInt8) :
    ReadsOnce c filehandle buffer length stdin s ∧ WritesOnce c filehandle buffer length s := by
  have hw := wf_of_run h0 hr
  have hgood := h.works f h.layout.inode_lt
  have hall := h.goodBytes (Nat.min_le_right length _)
  exact ⟨(reads_iff hw hfile howned h.toOnHandle hbuffer stdin).2 (Or.inl ⟨hgood, Or.inl hall⟩),
    (writes_iff hw hfile howned h.toOnHandle hbuffer).2 (Or.inl ⟨hgood, Or.inl hall⟩)⟩

end Handlers

/-- Handle 3 is open on the file of `twoBlockFile`, with a disk that fails at the blocks `bad`. -/
def openTwoBlocks (bad : ℕ → Bool) : FileSystems where
  tables := Vfs.vfsInit.setFile ⟨3, by decide⟩ ⟨some (.driver 0), 3, 0⟩
  volumes := fun _ => { Fs.twoBlockFile with disk := { Fs.twoBlockFile.disk with error := bad } }

/-- A process that owns it. -/
def ownsThree (pt : Pagetable) : Caller := ⟨7, pt, fun i => if i = 0 then some 3 else none⟩

theorem openTwoBlocks_onHandle (bad : ℕ → Bool) : OnHandle (openTwoBlocks bad) 3 ⟨3, by decide⟩ 0 0 3 0 := by
  obtain ⟨hopen, hshape, hsize⟩ := Fs.twoBlockFile_shape
  -- the tables are the same for all disks
  have hverify : Vfs.vfsVerifyOpen (openTwoBlocks fun _ => false).tables 3 = some ⟨3, by decide⟩ := by decide +kernel
  have hrow : (openTwoBlocks fun _ => false).tables.files ⟨3, by decide⟩ = ⟨some (.driver 0), 3, 0⟩ := by decide +kernel
  exact ⟨⟨⟨rfl, rfl, rfl, le_refl _⟩, rfl⟩, hverify, congrArg Vfs.OpenFileEntry.filesystem hrow,
    congrArg Vfs.OpenFileEntry.fileid hrow, congrArg Vfs.OpenFileEntry.seekPosition hrow,
    ⟨hopen.fileid, hopen.only, hopen.regular, hopen.opened, hopen.readernum, hopen.writerTid, hopen.inode⟩,
    ⟨hshape.inode_lt, hshape.size, hshape.lt, hshape.ne, hshape.inj⟩, Nat.zero_le _⟩

theorem ownsThree_checked (pt : Pagetable) : checkFilehandle 3 (ownsThree pt) = true :=
  List.any_eq_true.2 ⟨0, List.mem_finRange 0, rfl⟩

/-- 1000 bytes at an odd address, of which 600 are there. -/
example : ∃ pt, run PagetableMap.step oldPage twoPages = some pt ∧
    ReadsOnce (ownsThree pt) 3 0x4abd 1000 (fun _ _ => []) ⟨openTwoBlocks fun _ => false, fun _ => 7⟩ ∧
    WritesOnce (ownsThree pt) 3 0x4abd 1000 ⟨openTwoBlocks fun _ => false, fun _ => 7⟩ := by
  obtain ⟨pt, hr, hmapped⟩ := twoPages_run
  have hbuffer : UserBuffer (ownsThree pt).pagetable 0x4abd 1000 := fun j hj => ⟨hmapped _ (by omega) (by omega), by omega⟩
  exact ⟨pt, hr, fileIo_blocks (c := ownsThree pt) rfl hr (le_refl _) (ownsThree_checked pt)
    ⟨openTwoBlocks_onHandle _, fun _ _ => rfl⟩ hbuffer fun _ _ => []⟩

/-- The second block of the file fails: 500 bytes are transferred as by one call, 600 are not. -/
theorem fileIo_exact_secondFails : ∃ pt, run PagetableMap.step oldPage twoPages = some pt ∧
    (ReadsOnce (ownsThree pt) 3 0x4abd 500 (fun _ _ => []) ⟨openTwoBlocks (· == 4), fun _ => 7⟩ ∧
      WritesOnce (ownsThree pt) 3 0x4abd 500 ⟨openTwoBlocks (· == 4), fun _ => 7⟩) ∧
    ¬ ReadsOnce (ownsThree pt) 3 0x4abd 600 (fun _ _ => []) ⟨openTwoBlocks (· == 4), fun _ => 7⟩ ∧
      ¬ WritesOnce (ownsThree pt) 3 0x4abd 600 ⟨openTwoBlocks (· == 4), fun _ => 7⟩ := by
  obtain ⟨pt, hr, hmapped⟩ := twoPages_run
  have hexact : ∀ length ≤ 600, _ := fun length (hle : length ≤ 600) =>
    @fileIo_exact (ownsThree pt) oldPage twoPages 0x4abd length 3 ⟨openTwoBlocks (· == 4), fun _ => 7⟩ _ 0 0 3 0 rfl hr
      (le_refl _) (ownsThree_checked pt) (openTwoBlocks_onHandle _)
      (fun j hj => ⟨hmapped _ (by omega) (by omega), by omega⟩) fun _ _ => []
  obtain ⟨hread, hwrite⟩ := hexact 500 (by decide)
  obtain ⟨hread', hwrite'⟩ := hexact 600 (le_refl _)
  refine ⟨pt, hr, ⟨hread.2 ?_, hwrite.2 ?_⟩, fun hc => absurd (hread'.1 hc) ?_, fun hc => absurd (hwrite'.1 hc) ?_⟩
  · decide +kernel
  · decide +kernel
  · decide +kernel
  · decide +kernel

/-- The second block of the file fails: the handler adds the error to what it has written, where `vfs_write` reports
it. -/
theorem write_adds_error : OnHandle (openTwoBlocks (· == 4)) 3 ⟨3, by decide⟩ 0 0 3 0 ∧
    ∃ pt, run PagetableMap.step oldPage twoPages = some pt ∧ checkFilehandle 3 (ownsThree pt) = true ∧
      UserBuffer pt 0x4000 600 ∧
      (syscallHandleWrite (ownsThree pt) 3 0x4000 600 ⟨openTwoBlocks (· == 4), fun _ => 7⟩).1 = .returned 510 ∧
      ((openTwoBlocks (· == 4)).write 7 3 (bytesAt (fun _ => 7) 0x4000 600) 600).map (·.1) = some VFS_ERROR ∧
      ¬ WritesOnce (ownsThree pt) 3 0x4000 600 ⟨openTwoBlocks (· == 4), fun _ => 7⟩ := by
  refine ⟨openTwoBlocks_onHandle _, ?_⟩
  obtain ⟨pt, hr, hmapped⟩ := twoPages_run
  have hall : ∃ pt ∈ run PagetableMap.step oldPage twoPages,
      (syscallHandleWrite (ownsThree pt) 3 0x4000 600 ⟨openTwoBlocks (· == 4), fun _ => 7⟩).1 = .returned 510 := by
    decide +kernel
  obtain ⟨pt', hr', hwrite⟩ := hall
  obtain rfl := Option.some.inj (hr.symm.trans hr')
  have herror : ((openTwoBlocks (· == 4)).write 7 3 (bytesAt (fun _ => 7) 0x4000 600) 600).map (·.1) = some VFS_ERROR := by
    decide +kernel
  refine ⟨pt, hr, ownsThree_checked pt, fun j hj => ⟨hmapped _ (by omega) (by omega), by omega⟩, hwrite, herror, ?_⟩
  rintro ⟨r, fs', hone, hhandler⟩
  have hone : (openTwoBlocks (· == 4)).write 7 3 (bytesAt (fun _ => 7) 0x4000 600) 600 = some (r, fs') := hone
  rw [hone] at herror
  rw [hhandler] at hwrite
  have hr1 : r = VFS_ERROR := Option.some.inj herror
  rw [hr1] at hwrite
  exact absurd (IoOutcome.returned.inj hwrite) (by decide)

end Buenos.Proc.FileIo

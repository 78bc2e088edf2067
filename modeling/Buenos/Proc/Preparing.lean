import Buenos.Proc.Mapping

/-!
# How far a starting process gets

The places where `process_start` can stop before it loads the segments, each with what the call has
taken there.

* `Accepts` — the call gets to its mapping loops, if there is a page for its page table.
* `Started` — what the call has done to the process table and the open files.
* `HeaderResult`, `PrepareResult` — the outcomes of `acceptExecutable` and `prepare`.
* `Loads` — the call gets to the loading.

Principal results: `acceptExecutable_result`, `prepare_result`.
-/

namespace Buenos.Proc

open Buenos.Vm

/-! ## How far the call gets -/

/-- The call gets to its mapping loops with this header, if there is a page for its page table. -/
structure Accepts (c : StartCall) (w : World) (content : List UInt8) (elf : ElfInfo) : Prop where
  slot : findFree w.table ≠ none
  fresh : w.pagetable = none
  row : ∃ r, w.openfiles r = none
  executable : c.executable = some content
  header : (elfParseHeader ⟨content, 0⟩).1 = some elf
  entry : PAGE_SIZE ≤ elf.entryPoint
  rows : elf.roPages + elf.rwPages + CONFIG_USERLAND_STACK_SIZE ≤ c.rows

/-- A call that has slot `i`, with `heap_vaddr` as given, and perhaps the executable open. -/
structure Started (c : StartCall) (w : World) (i : PID) (heapVaddr : ℕ) (s : StartState) : Prop where
  slots : s.world.slots = Function.update (filledSlots c w i) i { filledSlots c w i i with heapVaddr := heapVaddr }
  userlandPid : s.world.userlandPid = some i
  myPid : s.myPid = some i
  data : s.world.data = w.data
  files : (s.file = none ∧ s.world.openfiles = w.openfiles) ∨ ∃ r f, s.file = some r ∧ w.openfiles r = none ∧
    s.world.openfiles = Function.update w.openfiles r (some f)

section Header

variable {c : StartCall} {w : World} {s : StartState} {i : PID} {heapVaddr : ℕ} {pt : Pagetable} {pool : Pool}

theorem Started.withMemory (h : Started c w i heapVaddr s) (pt : Option Pagetable) (pool : Pool) :
    Started c w i heapVaddr (s.withMemory pt pool) := ⟨h.slots, h.userlandPid, h.myPid, h.data, h.files⟩

/-- The state of a call that has just got its slot. -/
def slotState (c : StartCall) (w : World) (i : PID) : StartState :=
  ⟨{ w with slots := filledSlots c w i, userlandPid := some i }, some i, none, .zeroed 0⟩

theorem slotState_started (c : StartCall) (w : World) (i : PID) :
    Started c w i (w.slots i).heapVaddr (slotState c w i) := by
  refine ⟨?_, rfl, rfl, rfl, Or.inl ⟨rfl, rfl⟩⟩
  rw [Function.update_eq_self_iff.2]
  · rfl
  · rfl

/-- **How the call gets to its mapping loops.** -/
inductive HeaderResult (c : StartCall) (w : World) : Start StartState → Prop where
  | noSlot (h : findFree w.table = none) : HeaderResult c w (.fails ⟨w, none, none, .zeroed 0⟩)
  | hasTable {i : PID} {pt : Pagetable} (hi : findFree w.table = some i) (hpt : w.pagetable = some pt) :
      HeaderResult c w (.fails (slotState c w i))
  | noPage {i : PID} (hi : findFree w.table = some i) (hnone : w.pagetable = none)
      (hfree : w.pool.numFreePages = 0) : HeaderResult c w (.fails (slotState c w i))
  | refused {i : PID} {s : StartState} {pt : Pagetable} (hi : findFree w.table = some i)
      (hnone : w.pagetable = none) (hno : ∀ content elf, ¬ Accepts c w content elf)
      (hs : Started c w i (w.slots i).heapVaddr s) (h : Taken w.pool c.thread s.world pt [] none) :
      HeaderResult c w (.fails s)
  | accepted {i : PID} {s : StartState} {pt : Pagetable} (hi : findFree w.table = some i)
      (hnone : w.pagetable = none) (hfree : 0 < w.pool.numFreePages)
      (hacc : Accepts c w s.openFile.content s.elf)
      (hs : Started c w i (w.slots i).heapVaddr s) (h : Taken w.pool c.thread s.world pt [] none) :
      HeaderResult c w (.ok s)

theorem openExecutable_cases (c : StartCall) (s : StartState) :
    (openExecutable c s = .fails s ∧ (c.executable = none ∨ ∀ r, s.world.openfiles r ≠ none)) ∨
      ∃ r content, c.executable = some content ∧ s.world.openfiles r = none ∧ openExecutable c s =
        .ok { s.setWorld { s.world with openfiles := Function.update s.world.openfiles r (some ⟨content, 0⟩) } with
          file := some r } := by
  unfold openExecutable
  cases hf : (List.finRange CONFIG_MAX_OPEN_FILES).find? fun r => (s.world.openfiles r).isNone with
  | none =>
    refine Or.inl ⟨rfl, Or.inr fun r => ?_⟩
    simpa using List.find?_eq_none.1 hf r (List.mem_finRange r)
  | some r =>
    cases he : c.executable with
    | none => exact Or.inl ⟨rfl, Or.inl rfl⟩
    | some content => exact Or.inr ⟨r, content, rfl, by simpa using List.find?_some hf, rfl⟩

/-- The file of a call with the executable open. -/
theorem openFile_of_update {r : OpenFileRow} {f : OpenFile} {openfiles : OpenFileRow → Option OpenFile}
    (hfile : s.file = some r) (hopen : s.world.openfiles = Function.update openfiles r (some f)) :
    s.openFile = f := by
  rw [StartState.openFile, hfile, Option.bind_some, hopen, Function.update_self, Option.getD_some]

theorem Started.setFile (h : Started c w i heapVaddr s) (file : OpenFile) :
    Started c w i heapVaddr (s.setFile file) := by
  unfold StartState.setFile
  cases hr : s.file with
  | none => exact h
  | some r =>
    refine ⟨h.slots, h.userlandPid, h.myPid, h.data, Or.inr ⟨r, file, hr, ?_⟩⟩
    rcases h.files with ⟨hnone, -⟩ | ⟨r', f, hr', hfree, hopen⟩
    · rw [hr] at hnone
      cases hnone
    · rw [hr] at hr'
      cases hr'
      refine ⟨hfree, ?_⟩
      simp only [StartState.setWorld]
      rw [hopen, Function.update_idem]

theorem Taken.setFile {vs : List ℕ} {lost : Option ℕ} {t : ℕ} (h : Taken pool t s.world pt vs lost) (file : OpenFile) :
    Taken pool t (s.setFile file).world pt vs lost := by
  unfold StartState.setFile
  cases s.file with
  | none => exact h
  | some r => exact ⟨h.pagetable, h.maps, h.owners, h.free, h.static⟩

theorem acceptExecutable_result (c : StartCall) (hpool : PoolWf w.pool) :
    HeaderResult c w (acceptExecutable c w) := by
  unfold acceptExecutable takeSlot
  cases hi : findFree w.table with
  | none => exact .noSlot hi
  | some i =>
    rw [Start.ok_bind]
    show HeaderResult c w (createPagetable c (slotState c w i) >>= _)
    cases hpt : w.pagetable with
    | some pt =>
      have hstop : createPagetable c (slotState c w i) = .fails (slotState c w i) := by
        simp only [createPagetable, slotState, hpt]
      rw [hstop, Start.fails_bind]
      exact .hasTable hi hpt
    | none =>
      rcases createPagetable_result (c := c) (s := slotState c w i) hpool hpt with
        ⟨hzero, hstop⟩ | ⟨hpos, pt, pool, hok, h⟩
      · rw [hstop, Start.fails_bind]
        exact .noPage hi hpt hzero
      · rw [hok, Start.ok_bind]
        have hs := (slotState_started c w i).withMemory (some pt) pool
        rcases openExecutable_cases c ((slotState c w i).withMemory (some pt) pool) with
          ⟨hstop, hwhy⟩ | ⟨r, content, hexe, hrow, hopen⟩
        · rw [hstop, Start.fails_bind]
          refine .refused hi hpt (fun content elf hacc => ?_) hs h
          rcases hwhy with hnone | hfull
          · rw [hacc.executable] at hnone
            cases hnone
          · obtain ⟨r, hr⟩ := hacc.row
            exact hfull r hr
        · rw [hopen, Start.ok_bind]
          -- the executable is open
          generalize hs1 : ({ ((slotState c w i).withMemory (some pt) pool).setWorld { ((slotState c w i).withMemory
            (some pt) pool).world with openfiles := Function.update _ r (some ⟨content, 0⟩) } with
            file := some r } : StartState) = s1
          have hs' : Started c w i (w.slots i).heapVaddr s1 := by
            rw [← hs1]
            exact ⟨hs.slots, hs.userlandPid, hs.myPid, hs.data, Or.inr ⟨r, ⟨content, 0⟩, rfl, hrow, rfl⟩⟩
          have h' : Taken w.pool c.thread s1.world pt [] none := by
            rw [← hs1]
            exact ⟨h.pagetable, h.maps, h.owners, h.free, h.static⟩
          have hfile : s1.openFile = ⟨content, 0⟩ := by
            rw [← hs1]
            exact openFile_of_update rfl rfl
          have hr1 : s1.file = some r := by
            rw [← hs1]
          have hcontent : ∀ file, (s1.setFile file).openFile = file := by
            intro file
            have hopen : (s1.setFile file).world.openfiles = Function.update s1.world.openfiles r (some file) := by
              simp only [StartState.setFile, hr1]
              rfl
            refine openFile_of_update ?_ hopen
            simp only [StartState.setFile, hr1]
            exact hr1
          unfold checkHeader
          rw [hfile]
          have hsame := elfParseHeader_content ⟨content, 0⟩
          cases hp : elfParseHeader ⟨content, 0⟩ with
          | mk parsed file =>
            rw [hp] at hsame
            cases parsed with
            | none =>
              refine .refused hi hpt (fun content' elf hacc => ?_) (hs'.setFile file) (h'.setFile file)
              have he := hacc.executable
              rw [hexe] at he
              cases he
              have hheader := hacc.header
              rw [hp] at hheader
              cases hheader
            | some elf =>
              have hs2 : Started c w i (w.slots i).heapVaddr { s1.setFile file with elf := elf } := by
                have hset := hs'.setFile file
                exact ⟨hset.slots, hset.userlandPid, hset.myPid, hset.data, hset.files⟩
              have h2 : Taken w.pool c.thread ({ s1.setFile file with elf := elf } : StartState).world pt [] none :=
                h'.setFile file
              have hacc : ∀ content' elf', Accepts c w content' elf' → elf' = elf := by
                intro content' elf' hacc
                have he := hacc.executable
                rw [hexe] at he
                cases he
                have hheader := hacc.header
                rw [hp] at hheader
                cases hheader
                rfl
              simp only
              split
              · rename_i hentry
                refine .refused hi hpt (fun content' elf' ha => ?_) hs2 h2
                rw [← hacc content' elf' ha] at hentry
                exact absurd ha.entry (not_le.2 hentry)
              · rename_i hentry
                split
                · rename_i hrows
                  refine .refused hi hpt (fun content' elf' ha => ?_) hs2 h2
                  rw [← hacc content' elf' ha] at hrows
                  exact absurd ha.rows (not_le.2 hrows)
                · rename_i hrows
                  refine .accepted hi hpt hpos ?_ hs2 h2
                  refine ⟨by rw [hi]; simp, hpt, ⟨r, hrow⟩, ?_, ?_, not_lt.1 hentry, not_lt.1 hrows⟩
                  · show c.executable = some (s1.setFile file).openFile.content
                    rw [hcontent, hsame]
                    exact hexe
                  · show (elfParseHeader ⟨(s1.setFile file).openFile.content, 0⟩).1 = some elf
                    rw [hcontent, hsame, hp]

end Header

/-- Everything that the call maps. -/
def ElfInfo.addrs (elf : ElfInfo) : List ℕ := elf.segmentAddrs ++ [elf.heapVaddr]

section Prepare

variable {c : StartCall} {w : World} {s : StartState} {i : PID} {heapVaddr : ℕ} {pt : Pagetable} {pool : Pool}

/-- **How the call gets to the loading of the segments.** -/
inductive PrepareResult (c : StartCall) (w : World) : Start StartState → Prop where
  /-- before the mapping loops -/
  | early {s : StartState} (h : HeaderResult c w (.fails s)) : PrepareResult c w (.fails s)
  /-- there is no frame for an address -/
  | noFrame {i : PID} {s : StartState} {k heapVaddr : ℕ} {pt : Pagetable} (hi : findFree w.table = some i)
      (hacc : Accepts c w s.openFile.content s.elf) (hk : k < s.elf.addrs.length)
      (hfree : w.pool.numFreePages = k + 1) (hcan : CanMap (s.elf.addrs.take k))
      (hheap : heapVaddr = if k < s.elf.segmentAddrs.length then (w.slots i).heapVaddr else s.elf.heapVaddr)
      (hs : Started c w i heapVaddr s) (h : Taken w.pool c.thread s.world pt (s.elf.addrs.take k) none) :
      PrepareResult c w (.fails s)
  /-- `vm_map` refuses an address -/
  | refused {i : PID} {s : StartState} {k heapVaddr f : ℕ} {pt : Pagetable} (hi : findFree w.table = some i)
      (hacc : Accepts c w s.openFile.content s.elf) (hk : k < s.elf.addrs.length)
      (hfree : (k + 2 : ℤ) ≤ w.pool.numFreePages) (hcan : ¬ CanMap (s.elf.addrs.take (k + 1)))
      (hheap : heapVaddr = if k < s.elf.segmentAddrs.length then (w.slots i).heapVaddr else s.elf.heapVaddr)
      (hs : Started c w i heapVaddr s) (h : Taken w.pool c.thread s.world pt (s.elf.addrs.take k) (some f)) :
      PrepareResult c w (.fails s)
  /-- all pages are mapped -/
  | ready {i : PID} {s : StartState} {pt : Pagetable} (hi : findFree w.table = some i)
      (hacc : Accepts c w s.openFile.content s.elf)
      (hfree : (s.elf.addrs.length + 1 : ℤ) ≤ w.pool.numFreePages) (hcan : CanMap s.elf.addrs)
      (hs : Started c w i s.elf.heapVaddr s) (h : Taken w.pool c.thread s.world pt s.elf.addrs none) :
      PrepareResult c w (.ok s)

theorem addrs_length (elf : ElfInfo) : elf.addrs.length = elf.segmentAddrs.length + 1 := by
  rw [ElfInfo.addrs, List.length_append, List.length_singleton]

theorem addrs_take {elf : ElfInfo} {k : ℕ} (hk : k ≤ elf.segmentAddrs.length) :
    elf.addrs.take k = elf.segmentAddrs.take k := List.take_append_of_le_length hk

theorem addrs_take_length (elf : ElfInfo) : elf.addrs.take elf.segmentAddrs.length = elf.segmentAddrs := by
  rw [addrs_take le_rfl, List.take_length]

theorem addrs_take_all (elf : ElfInfo) : elf.addrs.take (elf.segmentAddrs.length + 1) = elf.addrs := by
  rw [← addrs_length, List.take_length]

/-- `heap_vaddr` is set. -/
theorem Started.setHeap (h : Started c w i heapVaddr s) : Started c w i s.elf.heapVaddr (setHeap s) := by
  unfold Proc.setHeap
  rw [h.myPid]
  refine ⟨?_, h.userlandPid, h.myPid, h.data, h.files⟩
  show Function.update s.world.slots i _ = _
  rw [h.slots, Function.update_idem, Function.update_self]

theorem Taken.setHeap {vs : List ℕ} {lost : Option ℕ} {t : ℕ} (h : Taken pool t s.world pt vs lost) :
    Taken pool t (setHeap s).world pt vs lost := by
  unfold Proc.setHeap
  cases s.myPid with
  | none => exact h
  | some i => exact ⟨h.pagetable, h.maps, h.owners, h.free, h.static⟩

theorem setHeap_elf (s : StartState) : (setHeap s).elf = s.elf := by
  unfold setHeap
  split <;> rfl

theorem setHeap_openFile (s : StartState) : (setHeap s).openFile = s.openFile := by
  unfold setHeap
  split <;> rfl

/-- **What `prepare` comes to.** -/
theorem prepare_result (c : StartCall) (hpool : PoolWf w.pool) : PrepareResult c w (prepare c w) := by
  have hheader := acceptExecutable_result c hpool
  unfold prepare
  generalize acceptExecutable c w = r at hheader
  cases r with
  | panics => cases hheader
  | fails s => exact .early hheader
  | ok s =>
    cases hheader with
    | @accepted i _ pt hi hnone hpos hacc hs h =>
      rw [Start.ok_bind]
      have hsegs : MapResult w.pool c.thread s [] s.elf.segmentAddrs (mapPages s.elf.segmentAddrs s) :=
        mapPages_result h
      generalize mapPages s.elf.segmentAddrs s = r at hsegs
      cases hsegs with
      | @noFrame k pt' pool' hk hfree hcan h' =>
        rw [List.nil_append, ← addrs_take hk.le] at hcan h'
        exact .noFrame hi hacc (by rw [addrs_length]; exact Nat.lt_succ_of_lt hk) (by simpa using hfree) hcan
          (if_pos hk).symm (hs.withMemory _ _) h'
      | @refused k f pt' pool' hk hfree hcan h' =>
        rw [List.nil_append, ← addrs_take hk] at hcan
        rw [List.nil_append, ← addrs_take hk.le] at h'
        exact .refused hi hacc (by rw [addrs_length]; exact Nat.lt_succ_of_lt hk) (by simpa using hfree) hcan
          (if_pos hk).symm (hs.withMemory _ _) h'
      | @done pt' pool' hcan hfree h' =>
        rw [List.nil_append] at hcan h'
        rw [Start.ok_bind]
        have hs' := (hs.withMemory (some pt') pool').setHeap
        have hheap : MapResult _ _ (setHeap (s.withMemory (some pt') pool')) _ [s.elf.heapVaddr] _ :=
          mapPage_result h'.setHeap
        show PrepareResult c w (mapPage (setHeap (s.withMemory (some pt') pool')) s.elf.heapVaddr)
        have helf : (setHeap (s.withMemory (some pt') pool')).elf = s.elf := setHeap_elf _
        have hfile : (setHeap (s.withMemory (some pt') pool')).openFile = s.openFile := setHeap_openFile _
        generalize setHeap (s.withMemory (some pt') pool') = s1 at hs' hheap helf hfile
        generalize mapPage s1 s.elf.heapVaddr = r at hheap
        have hacc' : Accepts c w s1.openFile.content s1.elf := by
          rw [hfile, helf]
          exact hacc
        have hlast : ∀ heapVaddr, (heapVaddr = if s1.elf.segmentAddrs.length < s1.elf.segmentAddrs.length then
            (w.slots i).heapVaddr else s1.elf.heapVaddr) ↔ heapVaddr = s1.elf.heapVaddr := by
          intro heapVaddr
          rw [if_neg (lt_irrefl _)]
        have hs1 : Started c w i s1.elf.heapVaddr s1 := by
          rw [helf]
          exact hs'
        rw [← helf] at hheap
        cases hheap with
        | done hcan' hfree' h'' =>
          have hlen : (s1.elf.addrs.length + 1 : ℤ) ≤ w.pool.numFreePages := by
            rw [addrs_length]
            push_cast
            simpa using hfree'
          exact .ready hi hacc' hlen hcan' (hs1.withMemory _ _) h''
        | @noFrame k pt'' pool'' hk hfree' hcan' h'' =>
          obtain rfl : k = 0 := by simpa using hk
          rw [List.take_zero, List.append_nil, ← addrs_take_length] at hcan' h''
          exact .noFrame hi hacc' (by rw [addrs_length]; exact Nat.lt_succ_self _) (by simpa using hfree') hcan'
            ((hlast _).2 rfl) (hs1.withMemory _ _) h''
        | @refused k f pt'' pool'' hk hfree' hcan' h'' =>
          obtain rfl : k = 0 := by simpa using hk
          rw [List.take_zero, List.append_nil, ← addrs_take_length] at h''
          refine .refused hi hacc' (by rw [addrs_length]; exact Nat.lt_succ_self _) (by simpa using hfree') ?_
            ((hlast _).2 rfl) (hs1.withMemory _ _) h''
          show ¬ CanMap (s1.elf.addrs.take (s1.elf.segmentAddrs.length + 1))
          rw [addrs_take_all]
          exact hcan'

/-- **When the call gets to the loading.** -/
structure Loads (c : StartCall) (w : World) (content : List UInt8) (elf : ElfInfo) : Prop where
  accepts : Accepts c w content elf
  frames : (elf.addrs.length + 1 : ℤ) ≤ w.pool.numFreePages
  canMap : CanMap elf.addrs

/-- The header of a call is the only one that it accepts. -/
theorem Accepts.unique {content content' : List UInt8} {elf elf' : ElfInfo} (h : Accepts c w content elf)
    (h' : Accepts c w content' elf') : content' = content ∧ elf' = elf := by
  have he := h.executable.symm.trans h'.executable
  cases he
  have hh := h.header.symm.trans h'.header
  cases hh
  exact ⟨rfl, rfl⟩

end Prepare

end Buenos.Proc

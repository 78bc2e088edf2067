import Buenos.Proc.HeapLimit
import Buenos.Proc.Loading

/-!
# A start that fails

What `restore_process_state` leaves when `process_start` returns, for every place where it can stop.

* `Restored` — everything is as before the call, and a waiting parent is told.
* `Undoable` — the condition on the state before the call.
* `Undone` — what `restore_process_state` does for a call that has a slot, the page pool apart.
* `Swept` — what it does to the page pool; the frames follow their owners (`Frames`, `Owns`).
* `FailResult` — the states in which it is called.

Principal result: `failed_start_exact`, a failed start is undone exactly under that condition.  With a parent
this means that the parent's list began with the slot before the call: `failed_start_dangling`.
-/

namespace Buenos.Proc

open Buenos.Vm

/-- The slot after `free_process_table_entry`, with the name that `process_start` gives. -/
def restoredSlot : ProcessSlot := ⟨freeEntry, "foobar", 0, fun _ => none⟩

/-- The data of a waiting parent: it is woken, and gets a negative pid. -/
def ParentTold (c : StartCall) (w' : World) : Prop :=
  c.parentPid.isSome = true → ∃ d, w'.data = some d ∧ d.ready = true ∧ d.broadcast = true ∧ d.childPid < 0

/-- **Everything is as before the call**, and the parent is told. -/
structure Restored (c : StartCall) (w w' : World) : Prop where
  slots : w'.slots = w.slots
  used : w'.pool.used = w.pool.used
  pagetable : w'.pagetable = w.pagetable
  userlandPid : w'.userlandPid = w.userlandPid
  openfiles : w'.openfiles = w.openfiles
  told : ParentTold c w'

/-- The free slot is as a failed start leaves it, and the parent's list begins with it. -/
structure SlotUndoable (c : StartCall) (w : World) (i : PID) : Prop where
  slot : w.slots i = restoredSlot
  parent : ∀ p, c.parentPid = some p → p ≠ i → (w.slots p).entry.lastChildPid = some i

/-- The heap page can be unmapped, although there is no frame for it. -/
def HeapUndoable (elf : ElfInfo) : Prop :=
  elf.heapVaddr = 0 ∨ elf.heapVaddr / PAGE_SIZE ∈ elf.segmentAddrs.map (· / PAGE_SIZE) ∨
    vpn2Of elf.heapVaddr ∉ elf.segmentAddrs.map vpn2Of

/-- `vm_map` refuses no page that gets a frame, and if the frames end at the heap then its page can be unmapped. -/
def PagesUndoable (c : StartCall) (w : World) : Prop :=
  ∀ content elf, Accepts c w content elf → CanMap (elf.addrs.take (w.pool.numFreePages.toNat - 1)) ∧
    (w.pool.numFreePages = elf.segmentAddrs.length + 1 → HeapUndoable elf)

/-- **When a failed start can be undone**: the thread has no page table and no process, the slot comes back as it was,
and so do the frames. -/
structure Undoable (c : StartCall) (w : World) : Prop where
  fresh : w.pagetable = none
  slot : ∀ i, findFree w.table = some i → w.userlandPid = none ∧ SlotUndoable c w i
  pages : PagesUndoable c w

/-! ## The slot -/

section Slot

variable {c : StartCall} {w : World} {i : PID}

/-- The other slots after a call that got slot `i`. -/
theorem filledSlots_other {j : PID} (hj : j ≠ i) : filledSlots c w i j =
    { w.slots j with entry := { (w.slots j).entry with
      lastChildPid := if c.parentPid = some j then some i else (w.slots j).entry.lastChildPid } } := by
  unfold filledSlots fillSlot
  rw [if_neg hj]
  cases hp : c.parentPid with
  | none =>
    simp only [Function.update_of_ne hj, reduceCtorEq, if_false]
    rfl
  | some p =>
    simp only [Option.some.injEq]
    by_cases hpj : p = j
    · rw [if_pos hpj, hpj, Function.update_self, Function.update_of_ne hj, Function.update_of_ne hj]
      rfl
    · rw [if_neg hpj, Function.update_of_ne (Ne.symm hpj), Function.update_of_ne hj, Function.update_of_ne hj]
      rfl

/-- **The process table comes back** exactly when the free slot was as it is left and the parent's list began
with it. -/
theorem slots_restored_iff :
    Function.update (filledSlots c w i) i restoredSlot = w.slots ↔ SlotUndoable c w i := by
  constructor
  · intro h
    refine ⟨?_, fun p hp hpi => ?_⟩
    · rw [← h, Function.update_self]
    · have hslot := congrFun h p
      rw [Function.update_of_ne hpi, filledSlots_other hpi, if_pos hp] at hslot
      rw [← hslot]
  · intro h
    funext j
    by_cases hj : j = i
    · rw [hj, Function.update_self, h.slot]
    · rw [Function.update_of_ne hj, filledSlots_other hj]
      by_cases hp : c.parentPid = some j
      · rw [if_pos hp, ← h.parent j hp hj]
      · rw [if_neg hp]

end Slot

/-! ## What is undone -/

/-- What `free_process_heap` does to the page table and the pool. -/
def freedHeap (pt : Pagetable) (heapVaddr : ℕ) (pool : Pool) : Option (Pagetable × Pool) :=
  if heapVaddr = 0 then some (pt, pool) else vmUnmap pt heapVaddr pool

/-- A broadcast to the parent. -/
def told (d : ChildProcessCreateData) : ChildProcessCreateData := { d with ready := true, broadcast := true }

/-- **`restore_process_state`** of a call that has slot `i`: everything but the page pool. -/
structure Undone (c : StartCall) (w : World) (i : PID) (w' : World) : Prop where
  slots : w'.slots = Function.update (filledSlots c w i) i restoredSlot
  userlandPid : w'.userlandPid = none
  pagetable : w'.pagetable = none
  openfiles : w'.openfiles = w.openfiles
  data : w'.data = w.data.map told

section Undone

variable {c : StartCall} {w w' : World} {s : StartState} {i : PID} {heapVaddr t : ℕ} {pt : Pagetable}
  {pool pool' : Pool} {vs : List ℕ}

theorem closeFile_world (w : World) (file : Option OpenFileRow) :
    closeFile w file = { w with openfiles := match file with
      | none => w.openfiles
      | some r => Function.update w.openfiles r none } := by
  cases file <;> rfl

/-- The files are closed again. -/
theorem Started.closed (hs : Started c w i heapVaddr s) : (match s.file with
    | none => s.world.openfiles
    | some r => Function.update s.world.openfiles r none) = w.openfiles := by
  rcases hs.files with ⟨hnone, hopen⟩ | ⟨r, f, hfile, hfree, hopen⟩
  · rw [hnone]
    exact hopen
  · rw [hfile]
    simp only [hopen, Function.update_idem]
    rw [← hfree, Function.update_eq_self]

theorem Started.slot (hs : Started c w i heapVaddr s) : (s.world.slots i).heapVaddr = heapVaddr ∧
    freedSlot (s.world.slots i) = restoredSlot := by
  rw [hs.slots, Function.update_self]
  refine ⟨rfl, ?_⟩
  have hname : (filledSlots c w i i).name = "foobar" := if_pos rfl
  unfold freedSlot restoredSlot
  rw [← hname]

/-- A call without a page table. -/
theorem restoreProcess_none (hs : Started c w i heapVaddr s) (hpt : s.world.pagetable = none)
    (hr : restoreProcess s = some w') : Undone c w i w' ∧ w'.pool = s.world.pool := by
  have hheap : freeProcessHeap s.world i = some s.world := by
    rw [freeProcessHeap, hpt]
  unfold restoreProcess restoreSlot restorePagetable at hr
  rw [hs.myPid] at hr
  simp only [hheap, Option.map_some, World.setSlot, hpt, Option.some.injEq] at hr
  rw [closeFile_world] at hr
  rw [← hr]
  refine ⟨⟨?_, rfl, rfl, hs.closed, ?_⟩, rfl⟩
  · show Function.update s.world.slots i _ = _
    rw [hs.slot.2, hs.slots, Function.update_idem]
  · show s.world.data.map _ = _
    rw [hs.data]
    rfl

/-- A call with a page table. -/
theorem restoreProcess_some (hs : Started c w i heapVaddr s) (hpt : s.world.pagetable = some pt)
    (hr : restoreProcess s = some w') : Undone c w i w' ∧ ∃ pt1 pool1 pool2,
      freedHeap pt heapVaddr s.world.pool = some (pt1, pool1) ∧
      releasePagetable pt1 (List.range pt1.validCount) pool1 = some pool2 ∧
      vmDestroyPagetable pt1 pool2 = some w'.pool := by
  have hheap : freeProcessHeap s.world i =
      (freedHeap pt heapVaddr s.world.pool).map fun r => { s.world with pagetable := some r.1, pool := r.2 } := by
    unfold freeProcessHeap freedHeap
    rw [hpt]
    simp only [hs.slot.1]
    split
    · simp only [Option.map_some, ← hpt]
    · rfl
  unfold restoreProcess restoreSlot at hr
  rw [hs.myPid] at hr
  simp only [hheap] at hr
  cases hfreed : freedHeap pt heapVaddr s.world.pool with
  | none =>
    rw [hfreed] at hr
    cases hr
  | some q =>
    obtain ⟨pt1, pool1⟩ := q
    rw [hfreed] at hr
    simp only [Option.map_some, World.setSlot, restorePagetable] at hr
    cases hrelease : releasePagetable pt1 (List.range pt1.validCount) pool1 with
    | none =>
      rw [hrelease] at hr
      cases hr
    | some pool2 =>
      rw [hrelease] at hr
      simp only at hr
      cases hdestroy : vmDestroyPagetable pt1 pool2 with
      | none =>
        rw [hdestroy] at hr
        cases hr
      | some pool3 =>
        rw [hdestroy] at hr
        simp only [Option.map_some, Option.some.injEq] at hr
        rw [closeFile_world] at hr
        rw [← hr]
        refine ⟨⟨?_, rfl, rfl, hs.closed, ?_⟩, pt1, pool1, pool2, rfl, hrelease, hdestroy⟩
        · show Function.update s.world.slots i _ = _
          rw [hs.slot.2, hs.slots, Function.update_idem]
        · show s.world.data.map _ = _
          rw [hs.data]
          rfl

/-! ## The frames -/

/-- The frames in use, from their owners. -/
theorem used_iff {ι : Type} {frame : ι → Option ℕ} (h : Frames frame pool) (f : ℕ) :
    pool.used f = true ↔ f < pool.staticEnd ∨ ∃ o, frame o = some f := by
  constructor
  · intro hu
    rcases Nat.lt_or_ge f pool.staticEnd with hlt | hge
    · exact Or.inl hlt
    · exact Or.inr (h.complete f hge hu)
  · rintro (hlt | ⟨o, ho⟩)
    · exact h.static f hlt
    · exact (h.owned o f ho).2.2

/-- What freeing pages does to a pool. -/
structure Freed (pool pool' : Pool) : Prop where
  static : pool'.staticEnd = pool.staticEnd
  used : ∀ f, pool'.used f = true → pool.used f = true

theorem Freed.refl (pool : Pool) : Freed pool pool := ⟨rfl, fun _ h => h⟩

theorem Freed.trans {pool1 pool2 pool3 : Pool} (h : Freed pool1 pool2) (h' : Freed pool2 pool3) :
    Freed pool1 pool3 := ⟨h'.static.trans h.static, fun f hf => h.used f (h'.used f hf)⟩

/-- **`pagepool_free_phys_page`**: the page was in use and is not any more. -/
theorem freePhysPage_some {a : ℕ} (h : pagepoolFreePhysPage pool a = some pool') :
    Freed pool pool' ∧ pool.staticEnd ≤ a / PAGE_SIZE ∧ pool.used (a / PAGE_SIZE) = true ∧
      pool'.used (a / PAGE_SIZE) = false := by
  unfold pagepoolFreePhysPage at h
  simp only at h
  split at h
  · cases h
  · rename_i hstatic
    split at h
    · cases h
    · rename_i hused
      cases h
      refine ⟨⟨rfl, fun f hf => ?_⟩, not_lt.1 hstatic, by simpa using hused, Function.update_self _ _ _⟩
      by_cases hfa : f = a / PAGE_SIZE
      · simp only [hfa, Function.update_self] at hf
        cases hf
      · simpa only [Function.update_of_ne hfa] using hf

theorem freeHalf_freed {x : Half} (h : freeHalf x pool = some pool') :
    Freed pool pool' ∧ (x.v = true → pool.used x.pfn = true) := by
  unfold freeHalf at h
  by_cases hv : x.v = true
  · rw [if_pos hv] at h
    obtain ⟨hfreed, -, hused, -⟩ := freePhysPage_some h
    rw [Nat.mul_div_cancel _ (by decide)] at hused
    exact ⟨hfreed, fun _ => hused⟩
  · rw [if_neg hv] at h
    cases h
    exact ⟨Freed.refl _, fun hv' => absurd hv' hv⟩

/-- The sweep over a page table frees frames that were in use. -/
theorem releasePagetable_freed {is : List ℕ} (h : releasePagetable pt is pool = some pool') :
    Freed pool pool' ∧ ∀ i ∈ is, ∀ odd : Bool, ((pt.entries i).half odd).v = true →
      pool.used ((pt.entries i).half odd).pfn = true := by
  induction is generalizing pool with
  | nil =>
    cases h
    exact ⟨Freed.refl _, fun i hi => absurd hi List.not_mem_nil⟩
  | cons i is ih =>
    rw [releasePagetable] at h
    cases heven : freeHalf (pt.entries i).even pool with
    | none =>
      rw [heven] at h
      cases h
    | some pool1 =>
      rw [heven] at h
      simp only at h
      cases hodd : freeHalf (pt.entries i).odd pool1 with
      | none =>
        rw [hodd] at h
        cases h
      | some pool2 =>
        rw [hodd] at h
        obtain ⟨h1, hv1⟩ := freeHalf_freed heven
        obtain ⟨h2, hv2⟩ := freeHalf_freed hodd
        obtain ⟨h3, hrest⟩ := ih h
        refine ⟨(h1.trans h2).trans h3, fun j hj odd hv => ?_⟩
        rcases List.mem_cons.1 hj with rfl | hj
        · cases odd with
          | false => exact hv1 hv
          | true => exact h1.used _ (hv2 hv)
        · exact (h1.trans h2).used _ (hrest j hj odd hv)

theorem vmUnmap_freed (hw : pt.Wf t) {pt' : Pagetable} {vaddr : ℕ}
    (h : vmUnmap pt vaddr pool = some (pt', pool')) : Freed pool pool' ∧ pt'.addr = pt.addr := by
  rw [vmUnmap_eq hw] at h
  split at h
  · cases h
    exact ⟨Freed.refl _, rfl⟩
  · obtain ⟨pool1, hfree, he⟩ := Option.map_eq_some_iff.1 h
    cases he
    exact ⟨(freePhysPage_some hfree).1, rfl⟩

/-- The page of the heap is mapped, or its address is 0, or its pair has no entry. -/
def HeapMapped (pt : Pagetable) (heapVaddr : ℕ) : Prop := heapVaddr = 0 ∨ unmapsMapped pt heapVaddr = true

/-- The frames after `restore_process_state`. -/
structure Swept (pt : Pagetable) (heapVaddr : ℕ) (pool pool' : Pool) : Prop where
  swept : ∃ pt1 pool1 pool2, freedHeap pt heapVaddr pool = some (pt1, pool1) ∧
    releasePagetable pt1 (List.range pt1.validCount) pool1 = some pool2 ∧ vmDestroyPagetable pt1 pool2 = some pool'

/-- **The sweep gives back what the page table and its pages own**, when the page of the heap is mapped. -/
theorem Swept.frames {frame : CallOwner → Option ℕ} (h : Swept pt heapVaddr pool pool') (hf : Frames frame pool)
    (ho : Owns frame .table .page pt) (hw : pt.Wf t) (hheap : HeapMapped pt heapVaddr) :
    ∃ frame' : CallOwner → Option ℕ, Frames frame' pool' ∧ frame' .table = none ∧ (∀ p, frame' (.page p) = none) ∧
      frame' .lost = frame .lost ∧ ∀ f, frame' (.other f) = frame (.other f) := by
  obtain ⟨pt1, pool1, pool2, hfreed, hrelease, hdestroy⟩ := h.swept
  -- first the heap, with what it leaves to the others
  obtain ⟨frame1, hf1, ho1, hw1, hlost1, hother1⟩ : ∃ frame1 : CallOwner → Option ℕ, Frames frame1 pool1 ∧
      Owns frame1 CallOwner.table CallOwner.page pt1 ∧ pt1.Wf t ∧ frame1 .lost = frame .lost ∧
      ∀ f, frame1 (.other f) = frame (.other f) := by
    unfold freedHeap at hfreed
    by_cases hzero : heapVaddr = 0
    · rw [if_pos hzero] at hfreed
      cases hfreed
      exact ⟨frame, hf, ho, hw, rfl, fun _ => rfl⟩
    · rw [if_neg hzero] at hfreed
      obtain ⟨pt', pool'', hu, hw', haddr, hm, hf'⟩ := ho.unmap hf hw (hheap.resolve_left hzero)
      rw [hfreed] at hu
      cases hu
      refine ⟨_, hf', ?_, hw', Function.update_of_ne (by simp) _ _, fun f => Function.update_of_ne (by simp) _ _⟩
      exact ho.update (m := none) haddr hm
  obtain ⟨pool1', pool2', frame', hr, hd, hf', htable, hpages, hrest⟩ := ho1.release hf1 hw1
  rw [hrelease] at hr
  cases hr
  rw [hdestroy] at hd
  cases hd
  refine ⟨frame', hf', htable, hpages, ?_, fun f => ?_⟩
  · rw [hrest _ (by simp) (by simp), hlost1]
  · rw [hrest _ (by simp) (by simp), hother1]

theorem Swept.freed (h : Swept pt heapVaddr pool pool') (hw : pt.Wf t) : Freed pool pool' := by
  obtain ⟨pt1, pool1, pool2, hfreed, hrelease, hdestroy⟩ := h.swept
  have hheap : Freed pool pool1 := by
    unfold freedHeap at hfreed
    split at hfreed
    · cases hfreed
      exact Freed.refl _
    · exact (vmUnmap_freed hw hfreed).1
  exact (hheap.trans (releasePagetable_freed hrelease).1).trans (freePhysPage_some hdestroy).1

/-- **Everything is given back** when no frame is lost and the page of the heap is mapped. -/
theorem Taken.given_back (h : Taken w.pool t s.world pt vs none) (hpool : PoolWf w.pool)
    (hs : Swept pt heapVaddr s.world.pool pool') (hheap : HeapMapped pt heapVaddr) :
    pool'.used = w.pool.used := by
  obtain ⟨frame, hf, ho, hlost, hother⟩ := h.owners
  obtain ⟨frame', hf', htable, hpages, hlost', hother'⟩ := hs.frames hf ho h.maps.wf hheap
  have hstatic : pool'.staticEnd = w.pool.staticEnd := (hs.freed h.maps.wf).static.trans h.static
  funext f
  rw [Bool.eq_iff_iff, used_iff hf', used_iff hpool.frames, hstatic]
  refine or_congr_right ⟨?_, ?_⟩
  · rintro ⟨o, hfo⟩
    cases o with
    | other g => exact ⟨.other g, by rw [← hfo, hother', hother]⟩
    | table =>
      rw [htable] at hfo
      cases hfo
    | page p =>
      rw [hpages] at hfo
      cases hfo
    | lost =>
      rw [hlost', hlost] at hfo
      cases hfo
  · rintro ⟨o, hfo⟩
    cases o with
    | other g => exact ⟨.other g, by rw [hother', hother]; exact hfo⟩
    | table => cases hfo
    | page p => cases hfo
    | lost => cases hfo

/-- A frame of an owner from before was in use before. -/
theorem othersFrame_of_used {f : ℕ} (hstatic : w.pool.staticEnd ≤ f) (hused : w.pool.used f = true) :
    othersFrame w.pool f = some f := if_pos ⟨hstatic, hused⟩

/-- **A frame that `vm_map` has refused** stays in use. -/
theorem Taken.not_given_back {f : ℕ} (h : Taken w.pool t s.world pt vs (some f))
    (hs : Swept pt heapVaddr s.world.pool pool') (hheap : HeapMapped pt heapVaddr) :
    pool'.used ≠ w.pool.used := by
  obtain ⟨frame, hf, ho, hlost, hother⟩ := h.owners
  obtain ⟨frame', hf', -, -, hlost', -⟩ := hs.frames hf ho h.maps.wf hheap
  intro hsame
  have hused : pool'.used f = true := (hf'.owned .lost f (hlost'.trans hlost)).2.2
  rw [hsame] at hused
  have hstatic := (hf.owned .lost f hlost).1
  rw [h.static] at hstatic
  have howned : frame (.other f) = some f := (hother f).trans (othersFrame_of_used hstatic hused)
  cases hf.once _ _ f howned hlost

/-- **A heap page that is not mapped, next to one that is**: `vm_unmap` frees the frame that happens to be
in its half of the entry.  If the call returns at all, that was a frame from before. -/
theorem Taken.stale_freed (h : Taken w.pool t s.world pt vs none)
    (hs : Swept pt heapVaddr s.world.pool pool') (hheap : ¬ HeapMapped pt heapVaddr) :
    pool'.used ≠ w.pool.used := by
  obtain ⟨pt1, pool1, pool2, hfreed, hrelease, hdestroy⟩ := hs.swept
  obtain ⟨hzero, hmapped⟩ := not_or.1 hheap
  have hw := h.maps.wf
  rw [freedHeap, if_neg hzero] at hfreed
  obtain ⟨hw1, hm1⟩ := vmUnmap_mapping hw hfreed
  have haddr := (vmUnmap_freed hw hfreed).2
  cases hfind : pt.findEntry (vpn2Of heapVaddr) with
  | none =>
    rw [unmapsMapped, hfind] at hmapped
    exact absurd rfl hmapped
  | some i =>
    rw [vmUnmap_eq hw, hfind] at hfreed
    obtain ⟨pool1', hfree, he⟩ := Option.map_eq_some_iff.1 hfreed
    cases he
    obtain ⟨-, hstatic, hused, hgone⟩ := freePhysPage_some hfree
    rw [Nat.mul_div_cancel _ (by decide)] at hstatic hused hgone
    generalize ((pt.entries i).half (onOddPage heapVaddr)).pfn = f at hstatic hused hgone
    obtain ⟨hfreed2, hsweep⟩ := releasePagetable_freed hrelease
    obtain ⟨hfreed3, -, hown, -⟩ := freePhysPage_some hdestroy
    obtain ⟨frame, hf, ho, hlost, hother⟩ := h.owners
    obtain ⟨o, hfo⟩ := hf.complete f hstatic hused
    cases o with
    | other g =>
      -- somebody else has lost it
      intro hsame
      have hbefore := hfo
      rw [hother] at hbefore
      obtain ⟨rfl, -, hg⟩ := othersFrame_some hbefore
      rw [← hsame] at hg
      rw [hfreed2.used _ (hfreed3.used _ hg)] at hgone
      cases hgone
    | table =>
      rw [ho.table, Option.some.injEq] at hfo
      have hown2 : pool1.used (pt.addr / PAGE_SIZE) = true := hfreed2.used _ hown
      rw [hfo, hgone] at hown2
      cases hown2
    | page p =>
      rw [ho.page] at hfo
      obtain ⟨m, hm, rfl⟩ := Option.map_eq_some_iff.1 hfo
      have hp : p ≠ heapVaddr / PAGE_SIZE := by
        rintro rfl
        exact hmapped (unmapsMapped_of_mapping hw (by rw [hm]; exact Option.some_ne_none m))
      have hm' := congrFun hm1 p
      rw [Function.update_of_ne hp, hm] at hm'
      obtain ⟨j, hj, -, hhalf⟩ := (PagetableMap.mapping_some hw1).1 hm'
      have hpage := hsweep j (List.mem_range.2 hj) (decide (p % 2 = 1)) (by rw [hhalf])
      rw [hhalf, hgone] at hpage
      cases hpage
    | lost =>
      rw [hlost] at hfo
      cases hfo

theorem Maps.heapMapped_iff (h : Maps pt t vs) : HeapMapped pt heapVaddr ↔
    heapVaddr = 0 ∨ heapVaddr / PAGE_SIZE ∈ vs.map (· / PAGE_SIZE) ∨ vpn2Of heapVaddr ∉ vs.map vpn2Of := by
  refine or_congr_right ?_
  have hpair := h.pairs (vpn2Of heapVaddr)
  rw [← h.mapped, ← hpair]
  unfold unmapsMapped
  cases hfind : pt.findEntry (vpn2Of heapVaddr) with
  | none => simp
  | some i =>
    obtain ⟨hi, hv⟩ := findEntry_some hfind
    rw [vpn2Of_eq] at hv
    rw [h.wf.mapping_eq hi hv, PagetableMap.Half.mapping_isSome]
    simp [onOddPage]

/-- An address that `vm_map` refuses is mapped already, or its pair has no entry. -/
theorem Maps.refused (h : Maps pt t vs) (hno : ¬ CanMap (vs ++ [heapVaddr])) : HeapMapped pt heapVaddr := by
  rw [h.heapMapped_iff]
  refine Or.inr ?_
  by_contra hboth
  obtain ⟨hpage, hpair⟩ := not_or.1 hboth
  rw [← h.mapped, Option.not_isSome_iff_eq_none] at hpage
  rw [not_not, ← h.pairs] at hpair
  have hmap : (vmMap pt 0 heapVaddr true).isSome = true := by
    rw [vmMap_isSome h.wf]
    exact ⟨hpage, Or.inl hpair⟩
  exact hno (h.vmMap_iff.1 hmap)

end Undone

/-! ## Where a call fails -/

section Fails

variable {c : StartCall} {w w' : World} {s : StartState}

/-- **The states in which `restore_process_state` is called.**  With a page table: what the call has taken, and that
the frames can be given back exactly if the state before the call says so. -/
inductive FailResult (c : StartCall) (w : World) : StartState → Prop where
  | noSlot (h : findFree w.table = none) : FailResult c w ⟨w, none, none, .zeroed 0⟩
  | hasTable {i : PID} {pt : Pagetable} (hi : findFree w.table = some i) (hpt : w.pagetable = some pt) :
      FailResult c w (slotState c w i)
  | noPage {i : PID} (hi : findFree w.table = some i) (hnone : w.pagetable = none)
      (hfree : w.pool.numFreePages = 0) : FailResult c w (slotState c w i)
  | taken {i : PID} {s : StartState} {heapVaddr : ℕ} {vs : List ℕ} {lost : Option ℕ} {pt : Pagetable}
      (hi : findFree w.table = some i) (hnone : w.pagetable = none) (hs : Started c w i heapVaddr s)
      (h : Taken w.pool c.thread s.world pt vs lost)
      (hback : (w.slots i).heapVaddr = 0 → (lost = none ∧ HeapMapped pt heapVaddr ↔ PagesUndoable c w))
      (hlost : (w.slots i).heapVaddr = 0 → lost ≠ none → HeapMapped pt heapVaddr) : FailResult c w s

theorem load_fails (h : load s = .fails s') : ∃ file, s' = s.setFile file := by
  unfold load at h
  split at h
  · cases h
  · simp only at h
    split at h
    · split at h
      · cases h
      · cases h
        exact ⟨_, rfl⟩
    · cases h

/-- The condition on the pages, for a call whose executable is accepted. -/
theorem pagesUndoable_iff {content : List UInt8} {elf : ElfInfo} (h : Accepts c w content elf) :
    PagesUndoable c w ↔ CanMap (elf.addrs.take (w.pool.numFreePages.toNat - 1)) ∧
      (w.pool.numFreePages = elf.segmentAddrs.length + 1 → HeapUndoable elf) := by
  refine ⟨fun hall => hall _ _ h, fun hpages content' elf' h' => ?_⟩
  obtain ⟨-, rfl⟩ := h.unique h'
  exact hpages

/-- **Where a call fails.** -/
theorem fails_result (hpool : PoolWf w.pool) (h : prepare c w >>= load = .fails s) : FailResult c w s := by
  have hresult := prepare_result c hpool
  generalize prepare c w = r at h hresult
  cases hresult with
  | early hheader =>
    rw [Start.fails_bind] at h
    cases h
    cases hheader with
    | noSlot hno => exact .noSlot hno
    | hasTable hi hpt => exact .hasTable hi hpt
    | noPage hi hnone hfree => exact .noPage hi hnone hfree
    | refused hi hnone hno hs ht =>
      -- the header is not accepted
      refine .taken hi hnone hs ht (fun hzero => ?_) fun _ hlost => absurd rfl hlost
      rw [hzero]
      exact iff_of_true ⟨rfl, Or.inl rfl⟩ fun content elf ha => absurd ha (hno content elf)
  | @noFrame i s' k heapVaddr pt hi hacc hk hfree hcan hheap hs ht =>
    rw [Start.fails_bind] at h
    cases h
    refine .taken hi hacc.fresh hs ht (fun hzero => ?_) fun _ hlost => absurd rfl hlost
    have hk1 : w.pool.numFreePages.toNat - 1 = k := by omega
    rw [addrs_length] at hk
    rw [and_iff_right rfl, pagesUndoable_iff hacc, hk1, and_iff_right hcan]
    by_cases hlt : k < s.elf.segmentAddrs.length
    · -- the frames end at a segment
      rw [if_pos hlt, hzero] at hheap
      exact iff_of_true (Or.inl hheap) fun hlast => absurd hlast (by omega)
    · obtain rfl : k = s.elf.segmentAddrs.length := by omega
      rw [if_neg hlt] at hheap
      rw [hheap, ht.maps.heapMapped_iff, addrs_take_length]
      exact (imp_iff_right (by omega)).symm
  | @refused i s' k heapVaddr f pt hi hacc hk hfree hcan hheap hs ht =>
    rw [Start.fails_bind] at h
    cases h
    refine .taken hi hacc.fresh hs ht (fun hzero => ?_) fun hzero _ => ?_
    · rw [pagesUndoable_iff hacc]
      refine iff_of_false (fun hboth => by cases hboth.1) fun hpages => ?_
      have hmap := hpages.1
      rw [← List.take_append_drop (k + 1) (List.take _ _), List.take_take, min_eq_left (by omega)] at hmap
      exact hcan hmap.prefix
    · rw [addrs_length] at hk
      by_cases hlt : k < s.elf.segmentAddrs.length
      · rw [if_pos hlt, hzero] at hheap
        exact Or.inl hheap
      · obtain rfl : k = s.elf.segmentAddrs.length := by omega
        rw [if_neg hlt] at hheap
        rw [hheap]
        refine ht.maps.refused ?_
        rw [addrs_take_length]
        rw [addrs_take_all] at hcan
        exact hcan
  | @ready i s0 pt hi hacc hfree hcan hs ht =>
    rw [Start.ok_bind] at h
    obtain ⟨file, rfl⟩ := load_fails h
    rw [addrs_length] at hfree
    refine .taken hi hacc.fresh (hs.setFile file) (ht.setFile file) (fun _ => ?_) fun _ hlost => absurd rfl hlost
    rw [pagesUndoable_iff hacc]
    refine iff_of_true ⟨rfl, ?_⟩ ⟨?_, fun hlast => ?_⟩
    · rw [ht.maps.heapMapped_iff]
      refine Or.inr (Or.inl (List.mem_map_of_mem ?_))
      exact List.mem_append_right _ List.mem_cons_self
    · rw [← List.take_append_drop (w.pool.numFreePages.toNat - 1) s0.elf.addrs] at hcan
      exact hcan.prefix
    · push_cast at hfree
      omega

/-- A failed call leaves no page table. -/
theorem restoreProcess_pagetable (hr : restoreProcess s = some w') : w'.pagetable = none := by
  unfold restoreProcess at hr
  split at hr
  · cases hr
  · rename_i w1 hslot
    obtain ⟨w2, hw2, rfl⟩ := Option.map_eq_some_iff.1 hr
    rw [closeFile_world]
    show w2.pagetable = none
    unfold restorePagetable at hw2
    split at hw2
    · rename_i hnone
      cases hw2
      exact hnone
    · split at hw2
      · cases hw2
      · obtain ⟨pool, -, rfl⟩ := Option.map_eq_some_iff.1 hw2
        rfl

theorem parentTold (hdata : w.data = c.parentPid.map fun _ => execpData) (h : w'.data = w.data.map told) :
    ParentTold c w' := by
  intro hparent
  obtain ⟨p, hp⟩ := Option.isSome_iff_exists.1 hparent
  refine ⟨told execpData, ?_, rfl, rfl, by decide⟩
  rw [h, hdata, hp]
  rfl

/-- A call that got slot `i`: everything but the page pool comes back if the thread was fresh and the slot was as it is
left. -/
theorem Undone.restored_iff {i : PID} (h : Undone c w i w') (hnone : w.pagetable = none)
    (hdata : w.data = c.parentPid.map fun _ => execpData) :
    Restored c w w' ↔ (w.userlandPid = none ∧ SlotUndoable c w i) ∧ w'.pool.used = w.pool.used := by
  constructor
  · intro hr
    exact ⟨⟨hr.userlandPid.symm.trans h.userlandPid, slots_restored_iff.1 (h.slots.symm.trans hr.slots)⟩, hr.used⟩
  · rintro ⟨⟨hpid, hslot⟩, hused⟩
    exact ⟨h.slots.trans (slots_restored_iff.2 hslot), hused, h.pagetable.trans hnone.symm,
      h.userlandPid.trans hpid.symm, h.openfiles, parentTold hdata h.data⟩

/-- The condition for a call whose slot is `i`. -/
theorem undoable_iff {i : PID} (hi : findFree w.table = some i) (hnone : w.pagetable = none) :
    Undoable c w ↔ (w.userlandPid = none ∧ SlotUndoable c w i) ∧ PagesUndoable c w := by
  constructor
  · exact fun h => ⟨h.slot i hi, h.pages⟩
  · rintro ⟨hslot, hpages⟩
    refine ⟨hnone, fun j hj => ?_, hpages⟩
    rw [hi] at hj
    cases hj
    exact hslot

/-- **`restore_process_state`** brings the state before the call back exactly under the condition. -/
theorem FailResult.restored_iff (h : FailResult c w s) (hpool : PoolWf w.pool)
    (hdata : w.data = c.parentPid.map fun _ => execpData) (hr : restoreProcess s = some w') :
    Restored c w w' ↔ Undoable c w := by
  have hgone := restoreProcess_pagetable hr
  cases h with
  | noSlot hno =>
    constructor
    · intro hrest
      refine ⟨hrest.pagetable.symm.trans hgone, fun i hi => ?_, fun content elf ha => absurd hno ha.slot⟩
      rw [hno] at hi
      cases hi
    · intro hundo
      have hsame : w' = { w with data := w.data.map told } := by
        simp only [restoreProcess, restoreSlot, restorePagetable, hundo.fresh, closeFile, Option.map_some,
          Option.some.injEq] at hr
        rw [← hr, ← hundo.fresh]
        rfl
      rw [hsame]
      exact ⟨rfl, rfl, rfl, rfl, rfl, parentTold hdata rfl⟩
  | hasTable hi hpt =>
    refine iff_of_false (fun hrest => ?_) fun hundo => ?_
    · rw [hrest.pagetable, hpt] at hgone
      cases hgone
    · rw [hundo.fresh] at hpt
      cases hpt
  | @noPage i hi hnone hfree =>
    obtain ⟨hundone, hpool'⟩ := restoreProcess_none (slotState_started c w i) hnone hr
    have hpages : PagesUndoable c w := by
      intro content elf ha
      refine ⟨?_, fun hmore => ?_⟩
      · rw [hfree]
        exact ⟨List.nodup_nil, Nat.zero_le _⟩
      · rw [hfree] at hmore
        omega
    rw [hundone.restored_iff hnone hdata, undoable_iff hi hnone, hpool']
    exact and_congr_right fun _ => iff_of_true rfl hpages
  | @taken i s heapVaddr vs lost pt hi hnone hs ht hback hlost =>
    obtain ⟨hundone, hswept⟩ := restoreProcess_some hs ht.pagetable hr
    have hswept : Swept pt heapVaddr s.world.pool w'.pool := ⟨hswept⟩
    rw [hundone.restored_iff hnone hdata, undoable_iff hi hnone]
    refine and_congr_right fun hslot => ?_
    have hzero : (w.slots i).heapVaddr = 0 := by
      rw [hslot.2.slot]
      rfl
    rw [← hback hzero]
    cases lost with
    | none =>
      by_cases hheap : HeapMapped pt heapVaddr
      · exact iff_of_true (ht.given_back hpool hswept hheap) ⟨rfl, hheap⟩
      · exact iff_of_false (ht.stale_freed hswept hheap) fun h => hheap h.2
    | some f =>
      refine iff_of_false (ht.not_given_back hswept (hlost hzero (Option.some_ne_none f))) fun h => ?_
      cases h.1

/-- The data of the parent is not looked at before the end. -/
theorem accepts_data {d : Option ChildProcessCreateData} {content : List UInt8} {elf : ElfInfo} :
    Accepts c { w with data := d } content elf ↔ Accepts c w content elf := by
  constructor
  · exact fun h => ⟨h.slot, h.fresh, h.row, h.executable, h.header, h.entry, h.rows⟩
  · exact fun h => ⟨h.slot, h.fresh, h.row, h.executable, h.header, h.entry, h.rows⟩

theorem undoable_data {d : Option ChildProcessCreateData} : Undoable c { w with data := d } ↔ Undoable c w := by
  constructor
  · intro h
    refine ⟨h.fresh, fun i hi => ?_, fun content elf ha => h.pages content elf (accepts_data.2 ha)⟩
    obtain ⟨hpid, hslot⟩ := h.slot i hi
    exact ⟨hpid, hslot.slot, hslot.parent⟩
  · intro h
    refine ⟨h.fresh, fun i hi => ?_, fun content elf ha => h.pages content elf (accepts_data.1 ha)⟩
    obtain ⟨hpid, hslot⟩ := h.slot i hi
    exact ⟨hpid, hslot.slot, hslot.parent⟩

theorem restored_data {d : Option ChildProcessCreateData} : Restored c { w with data := d } w' ↔ Restored c w w' := by
  constructor
  · exact fun h => ⟨h.slots, h.used, h.pagetable, h.userlandPid, h.openfiles, h.told⟩
  · exact fun h => ⟨h.slots, h.used, h.pagetable, h.userlandPid, h.openfiles, h.told⟩

/-- **A failed start is undone exactly under the condition on the state before the call**: for every content of the
executable, every state of the page pool, the process table and the open files, and every place where
`process_start` fails and returns. -/
theorem failed_start_exact (hpool : PoolWf w.pool) (h : processStart c w = some (.failed w')) :
    Restored c w w' ↔ Undoable c w := by
  unfold processStart at h
  split at h
  · obtain ⟨w2, -, he⟩ := Option.map_eq_some_iff.1 h
    cases he
  · rename_i s hs
    obtain ⟨w2, hr, he⟩ := Option.map_eq_some_iff.1 h
    cases he
    have hiff := (fails_result (w := { w with data := c.parentPid.map fun _ => execpData }) hpool hs).restored_iff
      hpool rfl hr
    rw [← restored_data, hiff, undoable_data]
  · cases h

end Fails

/-! ## Two calls for a missing file -/

/-- What a call leaves that fails. -/
def failedWorld : Option StartOutcome → Option World
  | some (.failed w) => some w
  | _ => none

theorem failedWorld_eq_some {r : Option StartOutcome} {w : World} (h : failedWorld r = some w) :
    r = some (.failed w) := by
  unfold failedWorld at h
  split at h
  · cases h
    rfl
  · cases h

/-- The first process is to be started, from a file that does not exist. -/
def missingCall : StartCall := { smallCall 0 with executable := none }

/-- Without a parent everything is as before. -/
theorem failed_start_missing :
    ∃ w', processStart missingCall freshWorld = some (.failed w') ∧ Restored missingCall freshWorld w' := by
  have hfails : (failedWorld (processStart missingCall freshWorld)).isSome = true := by decide +kernel
  obtain ⟨w', hw'⟩ := Option.isSome_iff_exists.1 hfails
  have h := failedWorld_eq_some hw'
  refine ⟨w', h, (failed_start_exact smallPool_wf h).2 ⟨rfl, fun i _ => ⟨rfl, rfl, ?_⟩, ?_⟩⟩
  · intro p hp
    cases hp
  · intro content elf ha
    cases ha.executable

/-- A kernel with one process, in slot 0, which has no children. -/
def parentWorld : World := freshWorld.setSlot 0 ⟨{ freeEntry with tid := some 0 }, "foobar", 0, fun _ => none⟩

/-- That process wants to start a child from the missing file. -/
def childCall : StartCall := { missingCall with parentPid := some 0 }

/-- **The parent keeps a child that does not exist**: its list of children begins with the slot that the failed call
has given back. -/
theorem failed_start_dangling : PoolWf parentWorld.pool ∧ (parentWorld.slots 0).entry.lastChildPid = none ∧
    ∃ w', processStart childCall parentWorld = some (.failed w') ∧
      (w'.slots 0).entry.lastChildPid = some 1 ∧ (w'.slots 1).entry = freeEntry ∧
      ¬ Restored childCall parentWorld w' := by
  have hfails : (failedWorld (processStart childCall parentWorld)).map
      (fun w' => ((w'.slots 0).entry.lastChildPid, (w'.slots 1).entry)) = some (some 1, freeEntry) := by
    decide +kernel
  obtain ⟨w', hw', hentries⟩ := Option.map_eq_some_iff.1 hfails
  rw [Prod.mk.injEq] at hentries
  have hbefore : (parentWorld.slots 0).entry.lastChildPid = none := by decide +kernel
  refine ⟨smallPool_wf, hbefore, w', failedWorld_eq_some hw', hentries.1, hentries.2, fun hrest => ?_⟩
  rw [hrest.slots, hbefore] at hentries
  cases hentries.1

end Buenos.Proc

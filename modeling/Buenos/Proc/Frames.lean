import Buenos.Proc.Tables
import Mathlib.Data.Finset.Card
import Mathlib.Data.Finset.Range

/-!
# Who owns a frame

Frames of the page pool go to page tables and to the pages that these map.  Where `vm_map` fails the
frame it was to map is lost, and `vm_unmap` frees the frame number it finds in a half of an entry also
when the half is not valid.

* `Owner`, `frames` — the owners of frames and what they own.
* `Frames` — every allocated frame has one owner, and owners own allocated frames.
* `KeepsFrames` — the events in which every `vm_map` succeeds and every `vm_unmap` finds its page mapped.

Principal result: `frames_owned`.
-/

namespace Buenos.Proc

open Buenos.Vm Buenos.Transition

/-! ## The pool and its owners -/

section Pool

variable {ι : Type} {frame : ι → Option ℕ} {pool pool' : Pool} {o : ι} {a f : ℕ}

/-- The owners of the frames of a pool. -/
structure Frames (frame : ι → Option ℕ) (pool : Pool) : Prop where
  pos : 0 < pool.staticEnd
  static : ∀ i < pool.staticEnd, pool.used i = true
  count : pool.numFreePages = ((Finset.range pool.numPages).filter fun i => pool.used i = false).card
  owned : ∀ o f, frame o = some f → pool.staticEnd ≤ f ∧ f < pool.numPages ∧ pool.used f = true
  once : ∀ o o' f, frame o = some f → frame o' = some f → o = o'
  complete : ∀ f, pool.staticEnd ≤ f → pool.used f = true → ∃ o, frame o = some f

/-- Without a free page the pool gives the address 0 and stays as it is. -/
theorem Frames.get_zero (h : Frames frame pool) (hget : pagepoolGetPhysPage pool = some (0, pool')) :
    pool' = pool := by
  unfold pagepoolGetPhysPage at hget
  split at hget
  · split at hget
    · cases hget
    · rename_i i hi
      rw [Option.some.injEq, Prod.mk.injEq] at hget
      have hi0 : i = 0 := by
        have hmul : i * PAGE_SIZE = 0 := hget.1
        simpa [PAGE_SIZE] using hmul
      have hfree := List.find?_some hi
      rw [hi0, h.static 0 h.pos] at hfree
      cases hfree
  · cases hget
    rfl

/-- With a free page the pool gives one. -/
theorem Frames.get_pos (h : Frames frame pool) (hpos : 0 < pool.numFreePages) :
    ∃ a pool', pagepoolGetPhysPage pool = some (a, pool') ∧ a ≠ 0 ∧
      pool'.numFreePages = pool.numFreePages - 1 := by
  unfold pagepoolGetPhysPage
  rw [if_pos hpos]
  cases hf : (List.range pool.numPages).find? fun i => !pool.used i with
  | none =>
    have hempty : ((Finset.range pool.numPages).filter fun i => pool.used i = false) = ∅ := by
      refine Finset.filter_eq_empty_iff.2 fun i hi hfree => ?_
      have hnot := List.find?_eq_none.1 hf i (by simpa using hi)
      simp [hfree] at hnot
    rw [h.count, hempty, Finset.card_empty] at hpos
    exact absurd hpos (by decide)
  | some i =>
    refine ⟨_, _, rfl, ?_, rfl⟩
    have hfree := List.find?_some hf
    have hi : i ≠ 0 := by
      rintro rfl
      rw [h.static 0 h.pos] at hfree
      cases hfree
    simpa [PAGE_SIZE] using hi

variable [DecidableEq ι]

/-- **A new owner** for a frame from the pool. -/
theorem Frames.take (h : Frames frame pool) (hget : pagepoolGetPhysPage pool = some (a, pool')) (ha : a ≠ 0)
    (ho : frame o = none) : Frames (Function.update frame o (some (a / PAGE_SIZE))) pool' := by
  unfold pagepoolGetPhysPage at hget
  split at hget
  · split at hget
    · cases hget
    · rename_i i hi
      cases hget
      have hrange : i < pool.numPages := by simpa using List.mem_of_find?_eq_some hi
      have hfree : pool.used i = false := by simpa using List.find?_some hi
      have hdiv : i * PAGE_SIZE / PAGE_SIZE = i := Nat.mul_div_cancel i (by decide)
      have hstatic : pool.staticEnd ≤ i := by
        by_contra hlt
        rw [h.static i (not_le.1 hlt)] at hfree
        cases hfree
      have hother : ∀ o' f, frame o' = some f → f ≠ i := by
        rintro o' f hf rfl
        rw [(h.owned o' f hf).2.2] at hfree
        cases hfree
      rw [hdiv]
      refine ⟨h.pos, fun j hj => ?_, ?_, fun o' f hf => ?_, fun o1 o2 f h1 h2 => ?_, fun f hf hu => ?_⟩
      · have hji : j ≠ i := by
          rintro rfl
          exact absurd hstatic (not_le.2 hj)
        exact (Function.update_of_ne hji _ _).trans (h.static j hj)
      · have herase : ((Finset.range pool.numPages).filter fun j => Function.update pool.used i true j = false) =
            ((Finset.range pool.numPages).filter fun j => pool.used j = false).erase i := by
          ext j
          by_cases hj : j = i
          · simp [hj]
          · simp [hj]
        have hmem : i ∈ (Finset.range pool.numPages).filter fun j => pool.used j = false := by
          simp [hrange, hfree]
        simp only [herase, Finset.card_erase_of_mem hmem, h.count]
        have hpos := Finset.card_pos.2 ⟨i, hmem⟩
        omega
      · by_cases ho' : o' = o
        · rw [ho', Function.update_self] at hf
          cases hf
          exact ⟨hstatic, hrange, by simp⟩
        · rw [Function.update_of_ne ho'] at hf
          obtain ⟨h1, h2, h3⟩ := h.owned o' f hf
          exact ⟨h1, h2, (Function.update_of_ne (hother o' f hf) _ _).trans h3⟩
      · by_cases ho1 : o1 = o
        · by_cases ho2 : o2 = o
          · rw [ho1, ho2]
          · rw [ho1, Function.update_self] at h1
            cases h1
            rw [Function.update_of_ne ho2] at h2
            exact absurd rfl (hother o2 i h2)
        · rw [Function.update_of_ne ho1] at h1
          by_cases ho2 : o2 = o
          · rw [ho2, Function.update_self] at h2
            cases h2
            exact absurd rfl (hother o1 i h1)
          · rw [Function.update_of_ne ho2] at h2
            exact h.once o1 o2 f h1 h2
      · by_cases hfi : f = i
        · exact ⟨o, by rw [Function.update_self, hfi]⟩
        · simp only [Function.update_of_ne hfi] at hu
          obtain ⟨o', ho'⟩ := h.complete f hf hu
          refine ⟨o', ?_⟩
          rw [Function.update_of_ne]
          · exact ho'
          · rintro rfl
            rw [ho] at ho'
            cases ho'
  · cases hget
    exact absurd rfl ha

/-- **An owner gives its frame back**, and no assertion fails. -/
theorem Frames.drop (h : Frames frame pool) (ho : frame o = some f) (ha : a / PAGE_SIZE = f) :
    ∃ pool', pagepoolFreePhysPage pool a = some pool' ∧ Frames (Function.update frame o none) pool' := by
  obtain ⟨hstatic, hrange, hused⟩ := h.owned o f ho
  have hfree : pagepoolFreePhysPage pool a = some
      { pool with used := Function.update pool.used f false, numFreePages := pool.numFreePages + 1 } := by
    unfold pagepoolFreePhysPage
    simp only [ha]
    rw [if_neg (not_lt.2 hstatic), if_neg (by rw [hused]; simp)]
  have hother : ∀ o' f', o' ≠ o → frame o' = some f' → f' ≠ f := by
    rintro o' f' hne hf rfl
    exact hne (h.once o' o f' hf ho)
  have hupd : ∀ {o' f'}, Function.update frame o none o' = some f' → o' ≠ o ∧ frame o' = some f' := by
    intro o' f' hf
    by_cases ho' : o' = o
    · rw [ho', Function.update_self] at hf
      cases hf
    · rw [Function.update_of_ne ho'] at hf
      exact ⟨ho', hf⟩
  refine ⟨_, hfree, h.pos, fun j hj => ?_, ?_, fun o' f' hf => ?_, fun o1 o2 f' h1 h2 => ?_, fun f' hf hu => ?_⟩
  · have hjf : j ≠ f := by
      rintro rfl
      exact absurd hstatic (not_le.2 hj)
    exact (Function.update_of_ne hjf _ _).trans (h.static j hj)
  · have hinsert : ((Finset.range pool.numPages).filter fun j => Function.update pool.used f false j = false) =
        insert f ((Finset.range pool.numPages).filter fun j => pool.used j = false) := by
      ext j
      by_cases hj : j = f
      · simp [hj, hrange]
      · simp [hj]
    have hmem : f ∉ (Finset.range pool.numPages).filter fun j => pool.used j = false := by
      simp [hused]
    simp only [hinsert, Finset.card_insert_of_notMem hmem, h.count]
    omega
  · obtain ⟨hne, hf⟩ := hupd hf
    obtain ⟨h1, h2, h3⟩ := h.owned o' f' hf
    exact ⟨h1, h2, (Function.update_of_ne (hother o' f' hne hf) _ _).trans h3⟩
  · exact h.once o1 o2 f' (hupd h1).2 (hupd h2).2
  · by_cases hff : f' = f
    · simp only [hff, Function.update_self] at hu
      cases hu
    · simp only [Function.update_of_ne hff] at hu
      obtain ⟨o', ho'⟩ := h.complete f' hf hu
      refine ⟨o', ?_⟩
      rw [Function.update_of_ne]
      · exact ho'
      · rintro rfl
        rw [ho] at ho'
        cases ho'
        exact hff rfl

end Pool

/-! ## A page table among the owners

One page table takes frames for itself, as `table`, and for its pages, as `page p`. -/

/-- Is the page mapped, if its pair has an entry? -/
def unmapsMapped (pt : Pagetable) (vaddr : ℕ) : Bool :=
  (pt.findEntry (vpn2Of vaddr)).all fun i => ((pt.entries i).half (onOddPage vaddr)).v

section Owns

variable {ι : Type} [DecidableEq ι] {frame : ι → Option ℕ} {table : ι} {page : ℕ → ι} {pool pool' : Pool}
  {pt pt' : Pagetable} {t vaddr physPage : ℕ} {o : ι}

/-- What a page table owns. -/
structure Owns (frame : ι → Option ℕ) (table : ι) (page : ℕ → ι) (pt : Pagetable) : Prop where
  inj : Function.Injective page
  ne : ∀ p, page p ≠ table
  table : frame table = some (pt.addr / PAGE_SIZE)
  page : ∀ p, frame (page p) = (pt.mapping p).map (·.frame)

/-- Another mapping of one page. -/
theorem Owns.update (ho : Owns frame table page pt) (haddr : pt'.addr = pt.addr) {p : ℕ} {m : Option Mapping}
    (hm : pt'.mapping = Function.update pt.mapping p m) :
    Owns (Function.update frame (page p) (m.map (·.frame))) table page pt' := by
  refine ⟨ho.inj, ho.ne, ?_, fun q => ?_⟩
  · rw [Function.update_of_ne (ho.ne p).symm, haddr]
    exact ho.table
  · by_cases hq : q = p
    · rw [hq, hm, Function.update_self, Function.update_self]
    · rw [hm, Function.update_of_ne hq, Function.update_of_ne fun h => hq (ho.inj h)]
      exact ho.page q

/-- `vm_map` of a new frame. -/
theorem Owns.map (ho : Owns frame table page pt) (h : Frames frame pool) (hw : pt.Wf t)
    (hget : pagepoolGetPhysPage pool = some (physPage, pool')) (hphys : physPage ≠ 0) {dirty : Bool}
    (hmap : vmMap pt physPage vaddr dirty = some pt') :
    Frames (Function.update frame (page (vaddr / PAGE_SIZE)) (some (physPage / PAGE_SIZE))) pool' ∧
      Owns (Function.update frame (page (vaddr / PAGE_SIZE)) (some (physPage / PAGE_SIZE))) table page pt' := by
  obtain ⟨-, hnone, hm⟩ := vmMap_mapping hw hmap
  refine ⟨h.take hget hphys ?_, ho.update (vmMap_addr hmap) hm⟩
  rw [ho.page, hnone]
  rfl

/-- `vm_unmap` of a page that is mapped. -/
theorem Owns.unmap (ho : Owns frame table page pt) (h : Frames frame pool) (hw : pt.Wf t)
    (hok : unmapsMapped pt vaddr = true) :
    ∃ pt' pool', vmUnmap pt vaddr pool = some (pt', pool') ∧ pt'.Wf t ∧ pt'.addr = pt.addr ∧
      pt'.mapping = Function.update pt.mapping (vaddr / PAGE_SIZE) none ∧
      Frames (Function.update frame (page (vaddr / PAGE_SIZE)) none) pool' := by
  have heq : vmUnmap pt vaddr pool = _ := vmUnmap_eq hw pool
  cases hf : pt.findEntry (vpn2Of vaddr) with
  | none =>
    rw [hf] at heq
    have hnone : pt.mapping (vaddr / PAGE_SIZE) = none := by
      rw [Pagetable.mapping, ← vpn2Of_eq, hf]
    refine ⟨pt, pool, heq, hw, rfl, ?_, ?_⟩
    · rw [Function.update_eq_self_iff.2 hnone.symm]
    · rw [Function.update_eq_self_iff.2]
      · exact h
      · rw [ho.page, hnone]
        rfl
  | some i =>
    rw [hf] at heq
    obtain ⟨h1, h2⟩ := findEntry_some hf
    rw [vpn2Of_eq] at h2
    have hv : ((pt.entries i).half (onOddPage vaddr)).v = true := by
      rw [unmapsMapped, hf] at hok
      simpa using hok
    have hmap : pt.mapping (vaddr / PAGE_SIZE) =
        some ⟨((pt.entries i).half (onOddPage vaddr)).pfn, ((pt.entries i).half (onOddPage vaddr)).d⟩ := by
      rw [hw.mapping_eq h1 h2]
      show ((pt.entries i).half (onOddPage vaddr)).mapping = _
      rw [Half.mapping, if_pos hv]
    obtain ⟨pool', hfree, hframes⟩ := h.drop (o := page (vaddr / PAGE_SIZE))
      (f := ((pt.entries i).half (onOddPage vaddr)).pfn)
      (a := ((pt.entries i).half (onOddPage vaddr)).pfn * PAGE_SIZE)
      (by rw [ho.page, hmap]; rfl) (Nat.mul_div_cancel _ (by decide))
    simp only [hfree, Option.map_some] at heq
    obtain ⟨hw', hm'⟩ := vmUnmap_mapping hw heq
    exact ⟨_, pool', heq, hw', rfl, hm', hframes⟩

/-! ### The sweep over a page table -/

theorem freeHalf_frames (h : Frames frame pool) {x : Half} (ho : frame o = x.mapping.map (·.frame)) :
    ∃ pool', freeHalf x pool = some pool' ∧ Frames (Function.update frame o none) pool' := by
  unfold freeHalf
  unfold Half.mapping at ho
  by_cases hv : x.v = true
  · rw [if_pos hv] at ho ⊢
    exact h.drop ho (Nat.mul_div_cancel _ (by decide))
  · rw [if_neg hv] at ho ⊢
    refine ⟨pool, rfl, ?_⟩
    rw [Function.update_eq_self_iff.2 ho.symm]
    exact h

/-- The sweep over some of the entries, none of them twice. -/
theorem releasePagetable_frames {is : List ℕ} (hinj : Function.Injective page) (h : Frames frame pool)
    (hnd : is.Nodup)
    (hframe : ∀ i ∈ is, ∀ odd : Bool, frame (page (2 * (pt.entries i).vpn2 + odd.toNat)) =
      ((pt.entries i).half odd).mapping.map (·.frame))
    (hdistinct : ∀ i ∈ is, ∀ j ∈ is, (pt.entries i).vpn2 = (pt.entries j).vpn2 → i = j) :
    ∃ pool' frame', releasePagetable pt is pool = some pool' ∧ Frames frame' pool' ∧
      (∀ i ∈ is, ∀ odd : Bool, frame' (page (2 * (pt.entries i).vpn2 + odd.toNat)) = none) ∧
      ∀ o, (∀ i ∈ is, ∀ odd : Bool, o ≠ page (2 * (pt.entries i).vpn2 + odd.toNat)) → frame' o = frame o := by
  induction is generalizing pool frame with
  | nil => exact ⟨pool, frame, rfl, h, by simp, fun o _ => rfl⟩
  | cons i is ih =>
    have heven := hframe i List.mem_cons_self false
    have hodd := hframe i List.mem_cons_self true
    simp only [Bool.toNat_false, Bool.toNat_true, add_zero] at heven hodd
    have hne : page (2 * (pt.entries i).vpn2 + 1) ≠ page (2 * (pt.entries i).vpn2) :=
      fun he => absurd (hinj he) (by omega)
    obtain ⟨pool1, hp1, h1⟩ := freeHalf_frames h heven
    obtain ⟨pool2, hp2, h2⟩ := freeHalf_frames h1 (o := page (2 * (pt.entries i).vpn2 + 1))
      (x := (pt.entries i).odd) (by rw [Function.update_of_ne hne]; exact hodd)
    -- the other entries are for other pages
    have hother : ∀ j ∈ is, ∀ odd : Bool, ∀ b : ℕ, b < 2 →
        page (2 * (pt.entries j).vpn2 + odd.toNat) ≠ page (2 * (pt.entries i).vpn2 + b) := by
      intro j hj odd b hb he
      have hle : odd.toNat < 2 := by
        cases odd <;> decide
      have heq := hinj he
      have hji := hdistinct j (List.mem_cons_of_mem _ hj) i List.mem_cons_self (by omega)
      exact (List.nodup_cons.1 hnd).1 (hji ▸ hj)
    obtain ⟨pool', frame', hp', h', hgone, hkeep⟩ := ih h2 (List.nodup_cons.1 hnd).2
      (fun j hj odd => by
        rw [Function.update_of_ne (hother j hj odd 1 (by decide)),
          Function.update_of_ne (by simpa using hother j hj odd 0 (by decide))]
        exact hframe j (List.mem_cons_of_mem _ hj) odd)
      fun j hj j' hj' => hdistinct j (List.mem_cons_of_mem _ hj) j' (List.mem_cons_of_mem _ hj')
    refine ⟨pool', frame', ?_, h', fun j hj odd => ?_, fun o ho => ?_⟩
    · have hp1 : freeHalf (pt.entries i).even pool = some pool1 := hp1
      rw [releasePagetable, hp1]
      simp only
      rw [hp2]
      exact hp'
    · rcases List.mem_cons.1 hj with rfl | hj
      · rw [hkeep _ fun j' hj' odd' he => ?_]
        · cases odd
          · rw [Bool.toNat_false, add_zero, Function.update_of_ne hne.symm, Function.update_self]
          · rw [Bool.toNat_true, Function.update_self]
        · exact hother j' hj' odd' odd.toNat (by cases odd <;> decide) he.symm
      · exact hgone j hj odd
    · rw [hkeep o fun j hj odd => ho j (List.mem_cons_of_mem _ hj) odd,
        Function.update_of_ne (by simpa using ho i List.mem_cons_self true),
        Function.update_of_ne (by simpa using ho i List.mem_cons_self false)]

/-- **A page table gives back** the frames of its pages and its own. -/
theorem Owns.release (ho : Owns frame table page pt) (h : Frames frame pool) (hw : pt.Wf t) :
    ∃ pool1 pool2 frame', releasePagetable pt (List.range pt.validCount) pool = some pool1 ∧
      vmDestroyPagetable pt pool1 = some pool2 ∧ Frames frame' pool2 ∧ frame' table = none ∧
      (∀ p, frame' (page p) = none) ∧ ∀ o, o ≠ table → (∀ p, o ≠ page p) → frame' o = frame o := by
  have hframe : ∀ i ∈ List.range pt.validCount, ∀ odd : Bool,
      frame (page (2 * (pt.entries i).vpn2 + odd.toNat)) =
        ((pt.entries i).half odd).mapping.map (·.frame) := by
    intro i hi odd
    have hdiv : (pt.entries i).vpn2 = (2 * (pt.entries i).vpn2 + odd.toNat) / 2 := by
      cases odd
      · rw [Bool.toNat_false]
        omega
      · rw [Bool.toNat_true]
        omega
    have hmod : decide ((2 * (pt.entries i).vpn2 + odd.toNat) % 2 = 1) = odd := by
      cases odd
      · rw [Bool.toNat_false]
        exact decide_eq_false (by omega)
      · rw [Bool.toNat_true]
        exact decide_eq_true (by omega)
    rw [ho.page, hw.mapping_eq (List.mem_range.1 hi) hdiv, hmod]
  obtain ⟨pool1, frame1, hp1, h1, hgone, hkeep⟩ := releasePagetable_frames ho.inj h List.nodup_range hframe
    fun i hi j hj => hw.distinct i (List.mem_range.1 hi) j (List.mem_range.1 hj)
  have htable : frame1 table = some (pt.addr / PAGE_SIZE) := by
    rw [hkeep _ fun i hi odd => (ho.ne _).symm]
    exact ho.table
  obtain ⟨pool2, hp2, h2⟩ := h1.drop htable rfl
  refine ⟨pool1, pool2, _, hp1, hp2, h2, Function.update_self _ _ _, fun p => ?_, fun o hne hnp => ?_⟩
  · rw [Function.update_of_ne (ho.ne p)]
    cases hf : pt.findEntry (p / 2) with
    | none =>
      have hnone : pt.mapping p = none := by rw [Pagetable.mapping, hf]
      rw [hkeep, ho.page, hnone]
      · rfl
      · rintro i hi odd he
        have hle : odd.toNat < 2 := by
          cases odd <;> decide
        have heq := ho.inj he
        exact findEntry_none hf i (List.mem_range.1 hi) (by omega)
    | some i =>
      obtain ⟨hi, hv⟩ := findEntry_some hf
      have hg := hgone i (List.mem_range.2 hi) (decide (p % 2 = 1))
      have hpage : 2 * (pt.entries i).vpn2 + (decide (p % 2 = 1)).toNat = p := by
        rw [hv]
        by_cases hp : p % 2 = 1
        · simp only [hp, decide_true, Bool.toNat_true]
          omega
        · simp only [hp, decide_false, Bool.toNat_false]
          omega
      rwa [hpage] at hg
  · rw [Function.update_of_ne hne, hkeep o fun i hi odd => hnp _]

end Owns

/-! ## Page tables as owners -/

/-- What a frame can be used for: the page table of a thread, or a page of it. -/
inductive Owner where
  | table (t : TID)
  | page (t : TID) (page : ℕ)
  deriving DecidableEq

/-- The frame of each owner. -/
def frames (pts : TID → Option Pagetable) : Owner → Option ℕ
  | .table t => (pts t).map fun pt => pt.addr / PAGE_SIZE
  | .page t page => (pts t).bind fun pt => (pt.mapping page).map (·.frame)

section Tables

variable {pts : TID → Option Pagetable} {pool pool' : Pool} {t : TID} {pt pt' : Pagetable} {vaddr page : ℕ}

/-- A page table with another mapping of one page. -/
theorem frames_update (hpt : pts t = some pt) (haddr : pt'.addr = pt.addr) {m : Option Mapping}
    (hm : pt'.mapping = Function.update pt.mapping page m) :
    frames (Function.update pts t (some pt')) =
      Function.update (frames pts) (.page t page) (m.map (·.frame)) := by
  funext o
  cases o with
  | table t' =>
    rw [Function.update_of_ne (by simp)]
    by_cases ht : t' = t
    · simp [frames, ht, hpt, haddr]
    · simp [frames, ht]
  | page t' page' =>
    by_cases ht : t' = t
    · by_cases hp : page' = page
      · simp [frames, ht, hp, hm]
      · rw [Function.update_of_ne (by simp [hp])]
        simp [frames, ht, hpt, hm, hp]
    · rw [Function.update_of_ne (by simp [ht])]
      simp [frames, ht]

/-- A page table with the frames of the old one. -/
theorem frames_same (hpt : pts t = some pt) (haddr : pt'.addr = pt.addr)
    (hm : ∀ page, (pt'.mapping page).map (·.frame) = (pt.mapping page).map (·.frame)) :
    frames (Function.update pts t (some pt')) = frames pts := by
  funext o
  cases o with
  | table t' =>
    by_cases ht : t' = t
    · simp [frames, ht, hpt, haddr]
    · simp [frames, ht]
  | page t' page' =>
    by_cases ht : t' = t
    · simp [frames, ht, hpt, hm]
    · simp [frames, ht]

/-- The page table of a thread owns its frames. -/
theorem frames_owns (hpt : pts t = some pt) : Owns (frames pts) (.table t) (.page t) pt where
  inj := fun p q h => (Owner.page.injEq t p t q ▸ h).2
  ne := fun p h => by cases h
  table := by simp [frames, hpt]
  page := fun p => by simp [frames, hpt]

/-- `vm_map` of a new frame. -/
theorem Frames.map (h : Frames (frames pts) pool) (hpt : pts t = some pt) (hw : pt.Wf t) {physPage : ℕ}
    (hget : pagepoolGetPhysPage pool = some (physPage, pool')) (hphys : physPage ≠ 0) {dirty : Bool}
    (hmap : vmMap pt physPage vaddr dirty = some pt') :
    Frames (frames (Function.update pts t (some pt'))) pool' := by
  rw [frames_update hpt (vmMap_addr hmap) (vmMap_mapping hw hmap).2.2]
  exact ((frames_owns hpt).map h hw hget hphys hmap).1

/-- `vm_unmap` of a page that is mapped. -/
theorem Frames.unmap (h : Frames (frames pts) pool) (hpt : pts t = some pt) (hw : pt.Wf t)
    (hok : unmapsMapped pt vaddr = true) :
    ∃ pt' pool', vmUnmap pt vaddr pool = some (pt', pool') ∧ pt'.Wf t ∧ pt'.addr = pt.addr ∧
      Frames (frames (Function.update pts t (some pt'))) pool' := by
  obtain ⟨pt', pool', hun, hw', haddr, hm, hf⟩ := (frames_owns hpt).unmap h hw hok
  refine ⟨pt', pool', hun, hw', haddr, ?_⟩
  rw [frames_update hpt haddr hm]
  exact hf

/-- `vm_create_pagetable`. -/
theorem Frames.create (h : Frames (frames pts) pool) (hnone : pts t = none) {asid : ℕ} {memory : ℕ → TlbEntry}
    (hc : vmCreatePagetable pool asid memory = some (some pt, pool')) :
    Frames (frames (Function.update pts t (some pt))) pool' := by
  have hempty := (vmCreatePagetable_wf hc).2
  unfold vmCreatePagetable at hc
  split at hc
  · cases hc
  · rename_i addr pool1 hget
    split at hc
    · cases hc
    · rename_i haddr
      have htake := h.take (o := .table t) hget haddr (by simp [frames, hnone])
      have heq : frames (Function.update pts t (some pt)) =
          Function.update (frames pts) (.table t) (some (addr / PAGE_SIZE)) := by
        funext o
        cases hc
        cases o with
        | table t' =>
          by_cases ht : t' = t
          · simp [frames, ht]
          · rw [Function.update_of_ne (by simp [ht])]
            simp [frames, ht]
        | page t' page =>
          rw [Function.update_of_ne (by simp)]
          by_cases ht : t' = t
          · simp [frames, ht, hnone, hempty]
          · simp [frames, ht]
      cases hc
      rw [heq]
      exact htake

/-- **A page table gives back** the frames of its pages and its own. -/
theorem Frames.release (h : Frames (frames pts) pool) (hpt : pts t = some pt) (hw : pt.Wf t) :
    ∃ pool1 pool2, releasePagetable pt (List.range pt.validCount) pool = some pool1 ∧
      vmDestroyPagetable pt pool1 = some pool2 ∧ Frames (frames (Function.update pts t none)) pool2 := by
  obtain ⟨pool1, pool2, frame', hp1, hp2, h2, htable, hpage, hkeep⟩ := (frames_owns hpt).release h hw
  refine ⟨pool1, pool2, hp1, hp2, ?_⟩
  have heq : frames (Function.update pts t none) = frame' := by
    funext o
    cases o with
    | table t' =>
      by_cases ht : t' = t
      · rw [ht, htable]
        simp [frames]
      · rw [hkeep _ (by simp [ht]) (by simp)]
        simp [frames, ht]
    | page t' page =>
      by_cases ht : t' = t
      · rw [ht, hpage]
        simp [frames]
      · rw [hkeep _ (by simp) (by simp [ht])]
        simp [frames, ht]
  rw [heq]
  exact h2

/-! ### `memlimit` -/

/-- Does every `vm_map` of the loop succeed? -/
def mapsAll (pageNow : ℕ) : List ℕ → Pagetable → Pool → Bool
  | [], _, _ => true
  | i :: is, pt, pool =>
    match pagepoolGetPhysPage pool with
    | none => false
    | some (physPage, pool) =>
      match vmMap pt physPage (u32 (pageNow + i * PAGE_SIZE)) true with
      | none => false
      | some pt => mapsAll pageNow is pt pool

/-- Does every `vm_unmap` of the loop find its page mapped? -/
def unmapsAll (pageNow : ℕ) : List ℕ → Pagetable → Pool → Bool
  | [], _, _ => true
  | i :: is, pt, pool =>
    unmapsMapped pt (sub32 pageNow (i * PAGE_SIZE)) &&
      match vmUnmap pt (sub32 pageNow (i * PAGE_SIZE)) pool with
      | none => false
      | some (pt, pool) => unmapsAll pageNow is pt pool

/-- Is that so in a call of `syscall_handle_memlimit`? -/
def limitsMapped (heapEnd heapVaddr offset : ℕ) (pt : Pagetable) (pool : Pool) : Bool :=
  let heapNow := heapNow heapVaddr offset
  let requiredPages := pageDiff heapEnd heapNow
  if heapEnd = 0 ∨ STACK_BOTTOM ≤ heapEnd ∨ heapEnd < heapVaddr then true
  else if 0 < requiredPages then
    decide (pool.numFreePages < requiredPages) || canBeMapped requiredPages (pageStart heapNow) pt ||
      mapsAll (pageStart heapNow) ((List.range requiredPages.toNat).map (· + 1)) pt pool
  else unmapsAll (pageStart heapNow) (List.range (-requiredPages).toNat) pt pool

theorem Frames.mapHeapPages {pageNow : ℕ} {is : List ℕ} (h : Frames (frames pts) pool) (hpt : pts t = some pt)
    (hw : pt.Wf t) (hfree : (is.length : ℤ) ≤ pool.numFreePages) (hall : mapsAll pageNow is pt pool = true) :
    ∃ pt' pool', mapHeapPages pageNow is pt pool = some (pt', pool') ∧
      Frames (frames (Function.update pts t (some pt'))) pool' := by
  induction is generalizing pts pt pool with
  | nil =>
    refine ⟨pt, pool, rfl, ?_⟩
    rw [Function.update_eq_self_iff.2 hpt.symm]
    exact h
  | cons i is ih =>
    rw [List.length_cons] at hfree
    obtain ⟨physPage, pool1, hget, hphys, hcount⟩ := h.get_pos (by omega)
    rw [mapsAll, hget] at hall
    simp only at hall
    cases hmap : vmMap pt physPage (u32 (pageNow + i * PAGE_SIZE)) true with
    | none =>
      rw [hmap] at hall
      cases hall
    | some pt1 =>
      rw [hmap] at hall
      obtain ⟨pt', pool', hloop, hframes⟩ := ih (h.map hpt hw hget hphys hmap) (Function.update_self _ _ _)
        (vmMap_mapping hw hmap).1 (by omega) hall
      refine ⟨pt', pool', ?_, ?_⟩
      · rw [Proc.mapHeapPages, hget]
        simp only [hmap, Option.getD_some]
        exact hloop
      · rwa [Function.update_idem] at hframes

theorem Frames.unmapHeapPages {pageNow : ℕ} {is : List ℕ} (h : Frames (frames pts) pool) (hpt : pts t = some pt)
    (hw : pt.Wf t) (hall : unmapsAll pageNow is pt pool = true) :
    ∃ pt' pool', unmapHeapPages pageNow is pt pool = some (pt', pool') ∧
      Frames (frames (Function.update pts t (some pt'))) pool' := by
  induction is generalizing pts pt pool with
  | nil =>
    refine ⟨pt, pool, rfl, ?_⟩
    rw [Function.update_eq_self_iff.2 hpt.symm]
    exact h
  | cons i is ih =>
    rw [unmapsAll, Bool.and_eq_true] at hall
    obtain ⟨pt1, pool1, hun, hw1, -, hframes1⟩ := h.unmap hpt hw hall.1
    have hrest := hall.2
    rw [hun] at hrest
    obtain ⟨pt', pool', hloop, hframes⟩ := ih hframes1 (Function.update_self _ _ _) hw1 hrest
    refine ⟨pt', pool', ?_, ?_⟩
    · rw [Proc.unmapHeapPages, hun]
      exact hloop
    · rwa [Function.update_idem] at hframes

theorem Frames.memlimit {heapEnd heapVaddr offset : ℕ} (h : Frames (frames pts) pool) (hpt : pts t = some pt)
    (hw : pt.Wf t) (hok : limitsMapped heapEnd heapVaddr offset pt pool = true) :
    ∃ r, syscallHandleMemlimit heapEnd heapVaddr offset pt pool = some r ∧
      Frames (frames (Function.update pts t (some r.pagetable))) r.pool := by
  have hsame : Frames (frames (Function.update pts t (some pt))) pool := by
    rw [Function.update_eq_self_iff.2 hpt.symm]
    exact h
  unfold syscallHandleMemlimit
  simp only
  split
  · exact ⟨_, rfl, hsame⟩
  · rename_i h0
    split
    · exact ⟨_, rfl, hsame⟩
    · rename_i hrange
      unfold limitsMapped at hok
      simp only [if_neg (not_or.2 ⟨h0, hrange⟩)] at hok
      split
      · rename_i hpos
        rw [if_pos hpos] at hok
        split
        · exact ⟨_, rfl, hsame⟩
        · rename_i hfree
          rw [not_or] at hfree
          have hlt : decide (pool.numFreePages < pageDiff heapEnd (heapNow heapVaddr offset)) = false :=
            decide_eq_false hfree.1
          rw [hlt, Bool.false_or, eq_false_of_ne_true hfree.2, Bool.false_or] at hok
          obtain ⟨pt', pool', hloop, hframes⟩ := h.mapHeapPages hpt hw
            (by simp only [List.length_map, List.length_range]; omega) hok
          exact ⟨_, by rw [hloop]; rfl, hframes⟩
      · rename_i hpos
        rw [if_neg hpos] at hok
        split
        · obtain ⟨pt', pool', hloop, hframes⟩ := h.unmapHeapPages hpt hw hok
          exact ⟨_, by rw [hloop]; rfl, hframes⟩
        · exact ⟨_, rfl, hsame⟩

end Tables

/-! ## Events -/

section Events

variable {rows : ℕ} {s s' : Machine rows} {t : TID} {e : Event rows}

/-- Is the heap page that `restore_process_state` unmaps mapped, if its pair has an entry? -/
def restoresMapped (s : Machine rows) (t : TID) : Bool :=
  match s.procs.code t, s.pagetable t with
  | .load _ p, some pt => s.heapVaddr p == 0 || unmapsMapped pt (s.heapVaddr p)
  | _, _ => true

/-- The same for `syscall_handle_exit`. -/
def exitsMapped (s : Machine rows) (t : TID) : Bool :=
  match s.procs.userlandPid t, s.pagetable t with
  | some p, some pt => unmapsMapped pt (s.heapVaddr p)
  | _, _ => true

/-- Does every frame that an event gets from the pool go to a page, and every `vm_unmap` of a
`memlimit` find its page mapped? -/
def Event.places (s : Machine rows) : Event rows → Bool
  | .start t _ => mapsFrame s t
  | .memlimit t heapEnd =>
    match s.procs.userlandPid t, s.pagetable t with
    | some p, some pt => limitsMapped heapEnd (s.heapVaddr p) s.offset pt s.pool
    | _, _ => true
  | _ => true

/-- Every `vm_map` succeeds and every `vm_unmap` finds its page mapped. -/
structure KeepsFrames (s : Machine rows) (e : Event rows) : Prop where
  fails : e.fails s = true → restoresMapped s e.thread = true
  kills : e.kills s = true → exitsMapped s e.thread = true
  places : e.places s = true

instance (s : Machine rows) (e : Event rows) : Decidable (KeepsFrames s e) :=
  decidable_of_iff ((e.fails s = true → restoresMapped s e.thread = true) ∧
      (e.kills s = true → exitsMapped s e.thread = true) ∧ e.places s = true)
    ⟨fun h => ⟨h.1, h.2.1, h.2.2⟩, fun h => ⟨h.fails, h.kills, h.places⟩⟩

/-- `restore_process_state` frees what its process owns. -/
theorem Frames.failStart (h : Frames (frames s.pagetable) s.pool) (hw : Tables s)
    {data : Option CreateData} {p : PID} (hcode : s.procs.code t = .load data p)
    (hok : restoresMapped s t = true) :
    ∃ s', failStart s t = some s' ∧ Frames (frames s'.pagetable) s'.pool := by
  unfold Proc.failStart
  rw [hcode]
  simp only
  cases hpt : s.pagetable t with
  | none => exact ⟨_, rfl, h⟩
  | some pt =>
    simp only
    rw [restoresMapped, hcode, hpt, Bool.or_eq_true, beq_iff_eq] at hok
    have hunmap : ∃ pt1 pool1,
        (if s.heapVaddr p = 0 then some (pt, s.pool) else vmUnmap pt (s.heapVaddr p) s.pool) =
          some (pt1, pool1) ∧ pt1.Wf t ∧ Frames (frames (Function.update s.pagetable t (some pt1))) pool1 := by
      by_cases hzero : s.heapVaddr p = 0
      · refine ⟨pt, s.pool, if_pos hzero, hw t pt hpt, ?_⟩
        rw [Function.update_eq_self_iff.2 hpt.symm]
        exact h
      · obtain ⟨pt1, pool1, hun, hw1, -, hf1⟩ := h.unmap hpt (hw t pt hpt) (hok.resolve_left hzero)
        exact ⟨pt1, pool1, (if_neg hzero).trans hun, hw1, hf1⟩
    obtain ⟨pt1, pool1, hun, hw1, hf1⟩ := hunmap
    obtain ⟨pool2, pool3, hrel, hdes, hf3⟩ := hf1.release (Function.update_self _ _ _) hw1
    rw [hun]
    simp only [hrel, hdes]
    refine ⟨_, rfl, ?_⟩
    rwa [Function.update_idem] at hf3

/-- `syscall_handle_exit` frees what its process owns. -/
theorem Frames.exitProcess (h : Frames (frames s.pagetable) s.pool) (hw : Tables s) {p : PID} {retval : ℤ}
    {procs : Procs} {pt : Pagetable} (hp : s.procs.userlandPid t = some p)
    (hexit : processExit s.procs t p retval = some procs) (hpt : s.pagetable t = some pt)
    (hok : exitsMapped s t = true) :
    ∃ s', exitProcess s t retval = some s' ∧ Frames (frames s'.pagetable) s'.pool := by
  rw [exitsMapped, hp, hpt] at hok
  obtain ⟨pt1, pool1, hun, hw1, -, hf1⟩ := h.unmap hpt (hw t pt hpt) hok
  obtain ⟨pool2, pool3, hrel, hdes, hf3⟩ := hf1.release (Function.update_self _ _ _) hw1
  unfold Proc.exitProcess
  rw [hp]
  simp only [hexit, hpt, hun, hrel, hdes]
  refine ⟨_, rfl, ?_⟩
  rwa [Function.update_idem] at hf3

theorem frames_next (hord : Orderly s) (h : Frames (frames s.pagetable) s.pool) (hc : KeepsFrames s e)
    (hs : next s e = some s') : Frames (frames s'.pagetable) s'.pool := by
  have hw := hord.tables
  cases next_effect hord.paired hs with
  | none => exact h
  | created hnone hcr => exact h.create hnone hcr
  | @mapped t _ pt _ _ _ _ _ hpt hget hphys hmap => exact h.map hpt (hw t pt hpt) hget hphys hmap
  | heap hp => exact h
  | @dirtied t _ pt pt' vaddr _ htodo hpt hset =>
    obtain ⟨-, m, hm, hnew⟩ := vmSetDirty_mapping (hw t pt hpt) hset
    have hsame : frames (Function.update s.pagetable t (some pt')) = frames s.pagetable := by
      refine frames_same hpt (vmSetDirty_addr hset) fun page => ?_
      rw [hnew]
      by_cases hp : page = vaddr / PAGE_SIZE
      · rw [hp, Function.update_self, hm, Option.map_some, Option.map_some]
      · rw [Function.update_of_ne hp]
    rw [hsame]
    exact h
  | replaced hpt hi => exact h
  | refilled hpt hmiss hfill => exact h
  | @limited t heapEnd p pt r hp hpt hr =>
    have hok : limitsMapped heapEnd (s.heapVaddr p) s.offset pt s.pool = true := by
      have hplaces := hc.places
      rwa [Event.places, hp, hpt] at hplaces
    obtain ⟨r', hr', hf⟩ := h.memlimit hpt (hw t pt hpt) hok
    rw [hr] at hr'
    cases hr'
    exact hf
  | @failed _ _ pool hwhy hpool hf =>
    -- no frame is lost
    have hpool : pool = s.pool := by
      rcases hpool with hpool | hpool | ⟨⟨memory, he⟩, hmaps⟩
      · exact hpool
      · exact h.get_zero hpool
      · have hplaces := hc.places
        rw [he, Event.places, hmaps] at hplaces
        cases hplaces
    subst hpool
    have hcode : ∃ data p, s.procs.code e.thread = .load data p := by
      unfold Proc.failStart at hf
      split at hf
      · rename_i data p hcode
        exact ⟨data, p, hcode⟩
      · cases hf
    obtain ⟨data, p, hcode⟩ := hcode
    have hok : restoresMapped s e.thread = true := by
      rcases hwhy with hfails | hnone
      · exact hc.fails hfails
      · rw [restoresMapped, hcode, hnone]
    obtain ⟨s1, hs1, hf1⟩ := h.failStart hw hcode hok
    have heq : some s1 = some s' := hs1.symm.trans hf
    cases heq
    exact hf1
  | @exited _ _ retval hwhy he =>
    have hexit : ∃ p procs pt, s.procs.userlandPid e.thread = some p ∧
        processExit s.procs e.thread p retval = some procs ∧ s.pagetable e.thread = some pt := by
      unfold Proc.exitProcess at he
      split at he
      · cases he
      · rename_i p hp
        split at he
        · rename_i procs pt hpe hpt
          exact ⟨p, procs, pt, hp, hpe, hpt⟩
        · cases he
    obtain ⟨p, procs, pt, hp, hpe, hpt⟩ := hexit
    obtain ⟨s1, hs1, hf1⟩ := h.exitProcess hw hp hpe hpt (hc.kills hwhy)
    rw [he] at hs1
    cases hs1
    exact hf1

/-- After boot nothing is allocated for processes. -/
theorem frames_boot {numPages staticEnd : ℕ} (hpos : 0 < staticEnd) (hle : staticEnd ≤ numPages) :
    Frames (frames (Machine.boot rows numPages staticEnd).pagetable) (Machine.boot rows numPages staticEnd).pool := by
  refine ⟨hpos, fun i hi => decide_eq_true hi, ?_, fun o f ho => ?_, fun o o' f ho => ?_, fun f hf hu => ?_⟩
  · have hfilter : ((Finset.range numPages).filter fun i =>
        (Machine.boot rows numPages staticEnd).pool.used i = false) =
          Finset.range numPages \ Finset.range staticEnd := by
      ext i
      simp [Machine.boot]
    have hcard := Finset.card_sdiff_of_subset (Finset.range_subset_range.2 hle)
    have hfree : (Machine.boot rows numPages staticEnd).pool.numFreePages = (numPages : ℤ) - staticEnd := rfl
    have hnum : (Machine.boot rows numPages staticEnd).pool.numPages = numPages := rfl
    rw [hfree, hnum, hfilter, hcard, Finset.card_range, Finset.card_range]
    omega
  · cases o <;> cases ho
  · cases o <;> cases ho
  · have hlt : f < staticEnd := of_decide_eq_true hu
    exact absurd hf (not_le.2 hlt)

/-- **Every frame in use by processes has one owner**, no free frame is mapped, and no assertion of the
page pool fails, as long as every `vm_map` succeeds and every `vm_unmap` finds its page mapped. -/
theorem frames_owned {numPages staticEnd : ℕ} (hpos : 0 < staticEnd) (hle : staticEnd ≤ numPages)
    {as : List (Event rows)} {s : Machine rows}
    (hc : Every next KeepsFrames (Machine.boot rows numPages staticEnd) as)
    (hr : run next (Machine.boot rows numPages staticEnd) as = some s) :
    (∀ f, s.pool.staticEnd ≤ f → s.pool.used f = true → ∃! o, frames s.pagetable o = some f) ∧
    (∀ o f, frames s.pagetable o = some f → s.pool.staticEnd ≤ f ∧ s.pool.used f = true) ∧
    (∀ t data p, s.procs.code t = .load data p → restoresMapped s t = true → failStart s t ≠ none) ∧
    (∀ t p retval procs pt, s.procs.userlandPid t = some p → processExit s.procs t p retval = some procs →
      s.pagetable t = some pt → exitsMapped s t = true → exitProcess s t retval ≠ none) ∧
    ∀ t p pt heapEnd, s.procs.userlandPid t = some p → s.pagetable t = some pt →
      limitsMapped heapEnd (s.heapVaddr p) s.offset pt s.pool = true → memlimit s t heapEnd ≠ none := by
  have h : Orderly s ∧ Frames (frames s.pagetable) s.pool := by
    refine run_invariant (I := fun s => Orderly s ∧ Frames (frames s.pagetable) s.pool)
      (fun ha hi hs => ?_) ⟨orderly_boot _ _ _, frames_boot hpos hle⟩ hc hr
    exact ⟨hi.1.next hs, frames_next hi.1 hi.2 ha hs⟩
  obtain ⟨hord, hf⟩ := h
  refine ⟨fun f hstatic hused => ?_, fun o f ho => ?_, fun t data p hcode hok => ?_,
    fun t p retval procs pt hp hexit hpt hok => ?_, fun t p pt heapEnd hp hpt hok => ?_⟩
  · obtain ⟨o, ho⟩ := hf.complete f hstatic hused
    exact ⟨o, ho, fun o' ho' => hf.once o' o f ho' ho⟩
  · obtain ⟨h1, -, h3⟩ := hf.owned o f ho
    exact ⟨h1, h3⟩
  · obtain ⟨s', hs', -⟩ := hf.failStart hord.tables hcode hok
    rw [hs']
    exact Option.some_ne_none _
  · obtain ⟨s', hs', -⟩ := hf.exitProcess hord.tables hp hexit hpt hok
    rw [hs']
    exact Option.some_ne_none _
  · obtain ⟨r, hr', -⟩ := hf.memlimit hpt (hord.tables t pt hpt) hok
    rw [memlimit, hp, hpt]
    simp only [hr', Option.map_some]
    exact Option.some_ne_none _

end Events

/-- A process grows its heap by two pages, gives one back and exits. -/
theorem frames_owned_heap : ∃ s, run next (Machine.boot 4 16 2) (startHeap ++ [.memlimit 0 0x10004000,
      .memlimit 0 0x10003000, .exit 0 0]) = some s ∧
    (∀ f, s.pool.staticEnd ≤ f → s.pool.used f = true → ∃! o, frames s.pagetable o = some f) ∧
    (∀ o f, frames s.pagetable o = some f → s.pool.staticEnd ≤ f ∧ s.pool.used f = true) ∧
    (∀ t data p, s.procs.code t = .load data p → restoresMapped s t = true → failStart s t ≠ none) ∧
    (∀ t p retval procs pt, s.procs.userlandPid t = some p → processExit s.procs t p retval = some procs →
      s.pagetable t = some pt → exitsMapped s t = true → exitProcess s t retval ≠ none) ∧
    ∀ t p pt heapEnd, s.procs.userlandPid t = some p → s.pagetable t = some pt →
      limitsMapped heapEnd (s.heapVaddr p) s.offset pt s.pool = true → memlimit s t heapEnd ≠ none := by
  have hsome : (run next (Machine.boot 4 16 2) (startHeap ++ [.memlimit 0 0x10004000,
      .memlimit 0 0x10003000, .exit 0 0])).isSome = true := by decide +kernel
  obtain ⟨s, hs⟩ := Option.isSome_iff_exists.1 hsome
  exact ⟨s, hs, frames_owned (by decide) (by decide) (by decide +kernel) hs⟩

/-- A segment at the address of the stack: `vm_map` fails, and after the start has failed the frame
that was to be mapped is in use by nobody. -/
theorem frame_lost : ∃ s, run next (Machine.boot 4 16 2) ([.boot 0, .slot 0 ⟨0, 0, 0x7fffe000, 1⟩] ++
      List.replicate 4 (.start 0 emptyPage)) = some s ∧
    s.pool.staticEnd ≤ 4 ∧ s.pool.used 4 = true ∧ ∀ o, frames s.pagetable o ≠ some 4 := by
  have hsome : ∃ s ∈ run next (Machine.boot 4 16 2) ([.boot 0, .slot 0 ⟨0, 0, 0x7fffe000, 1⟩] ++
      List.replicate 4 (.start 0 emptyPage)), s.pool.staticEnd ≤ 4 ∧ s.pool.used 4 = true ∧
      ∀ t, (s.pagetable t).isNone = true := by decide +kernel
  obtain ⟨s, hs, h1, h2, h3⟩ := hsome
  refine ⟨s, hs, h1, h2, fun o ho => ?_⟩
  cases o with
  | table t =>
    rw [frames, Option.isNone_iff_eq_none.1 (h3 t)] at ho
    cases ho
  | page t page =>
    rw [frames, Option.isNone_iff_eq_none.1 (h3 t)] at ho
    cases ho

end Buenos.Proc

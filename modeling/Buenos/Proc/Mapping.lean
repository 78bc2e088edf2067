import Buenos.Proc.Start

/-!
# What a starting process takes

The frames that `process_start` gets from the pool, for its page table and for the pages that it maps, and
where its mapping loops stop.

* `PoolWf` — a page pool in order.
* `CanMap` — the addresses that `vm_map` maps one after another.
* `Taken` — what the call has taken: a page table with these pages mapped, and perhaps a frame that nobody
  has got.
* `MapResult` — how a mapping loop ends.

Principal results: `mapPages_result` and `createPagetable_result`.
-/

namespace Buenos.Proc

open Buenos.Vm

/-! ## Mapping into a new page table -/

/-- Addresses that can be mapped one after another: their pages are distinct, and there are entries for
their pairs. -/
structure CanMap (vaddrs : List ℕ) : Prop where
  once : (vaddrs.map (· / PAGE_SIZE)).Nodup
  room : (vaddrs.map vpn2Of).toFinset.card ≤ PAGETABLE_ENTRIES

instance (vaddrs : List ℕ) : Decidable (CanMap vaddrs) :=
  decidable_of_iff ((vaddrs.map (· / PAGE_SIZE)).Nodup ∧ (vaddrs.map vpn2Of).toFinset.card ≤ PAGETABLE_ENTRIES)
    ⟨fun h => ⟨h.1, h.2⟩, fun h => ⟨h.once, h.room⟩⟩

/-- A page table in which the pages of these addresses are mapped, for writing, and no others. -/
structure Maps (pt : Pagetable) (t : ℕ) (vaddrs : List ℕ) : Prop where
  wf : pt.Wf t
  once : (vaddrs.map (· / PAGE_SIZE)).Nodup
  mapped : ∀ p, (pt.mapping p).isSome = true ↔ p ∈ vaddrs.map (· / PAGE_SIZE)
  dirty : ∀ p m, pt.mapping p = some m → m.dirty = true
  pairs : ∀ q, (pt.findEntry q).isSome = true ↔ q ∈ vaddrs.map vpn2Of
  count : pt.validCount = (vaddrs.map vpn2Of).toFinset.card

section Maps

variable {pt pt' : Pagetable} {t vaddr physPage : ℕ} {vaddrs : List ℕ}

theorem CanMap.prefix {l l' : List ℕ} (h : CanMap (l ++ l')) : CanMap l := by
  refine ⟨?_, le_trans (Finset.card_le_card fun q hq => ?_) h.room⟩
  · have honce := h.once
    rw [List.map_append] at honce
    exact (List.nodup_append.1 honce).1
  · rw [List.mem_toFinset] at hq ⊢
    rw [List.map_append]
    exact List.mem_append_left _ hq

theorem Maps.canMap (h : Maps pt t vaddrs) : CanMap vaddrs := ⟨h.once, h.count ▸ h.wf.count⟩

/-- An empty page table. -/
theorem Maps.empty (hw : pt.Wf t) (hcount : pt.validCount = 0) : Maps pt t [] := by
  have hno : ∀ q, pt.findEntry q = none := fun q => by
    rw [Pagetable.findEntry, hcount]
    rfl
  have hmap : ∀ p, pt.mapping p = none := fun p => by
    rw [Pagetable.mapping, hno]
  refine ⟨hw, List.nodup_nil, fun p => ?_, fun p m hm => ?_, fun q => ?_, hcount⟩
  · simp [hmap]
  · rw [hmap] at hm
    cases hm
  · simp [hno]

theorem toFinset_snoc_card {l : List ℕ} {q : ℕ} :
    (l ++ [q]).toFinset.card = if q ∈ l then l.toFinset.card else l.toFinset.card + 1 := by
  rw [List.toFinset_append, Finset.union_comm]
  by_cases hq : q ∈ l
  · rw [if_pos hq]
    simp [Finset.insert_eq_of_mem (List.mem_toFinset.2 hq)]
  · rw [if_neg hq]
    simp [Finset.card_insert_of_notMem (fun h => hq (List.mem_toFinset.1 h))]

/-- **`vm_map`** into such a table maps an address exactly when all of them can be mapped. -/
theorem Maps.vmMap_iff (h : Maps pt t vaddrs) :
    (vmMap pt physPage vaddr true).isSome = true ↔ CanMap (vaddrs ++ [vaddr]) := by
  have hnone : pt.mapping (vaddr / PAGE_SIZE) = none ↔ vaddr / PAGE_SIZE ∉ vaddrs.map (· / PAGE_SIZE) := by
    rw [← h.mapped, Option.not_isSome_iff_eq_none]
  rw [vmMap_isSome h.wf, h.pairs, h.count, hnone]
  have hcount := h.wf.count
  rw [h.count] at hcount
  constructor
  · rintro ⟨hpage, hroom⟩
    refine ⟨?_, ?_⟩
    · rw [List.map_append]
      exact List.nodup_append.2 ⟨h.once, by simp, by
        intro a ha b hb
        rw [List.map_singleton, List.mem_singleton] at hb
        rintro rfl
        exact hpage (hb ▸ ha)⟩
    · rw [List.map_append, List.map_singleton, toFinset_snoc_card]
      split
      · exact hcount
      · rename_i hq
        exact hroom.resolve_left hq
  · rintro ⟨honce, hroom⟩
    rw [List.map_append, List.map_singleton] at honce hroom
    rw [toFinset_snoc_card] at hroom
    refine ⟨fun hmem => ?_, ?_⟩
    · exact (List.nodup_append.1 honce).2.2 _ hmem _ List.mem_cons_self rfl
    · by_cases hq : vpn2Of vaddr ∈ vaddrs.map vpn2Of
      · exact Or.inl hq
      · rw [if_neg hq] at hroom
        exact Or.inr hroom

theorem Maps.map (h : Maps pt t vaddrs) (hmap : vmMap pt physPage vaddr true = some pt') :
    Maps pt' t (vaddrs ++ [vaddr]) := by
  obtain ⟨hw, -, hm⟩ := vmMap_mapping h.wf hmap
  obtain ⟨hentries, hcount⟩ := vmMap_entries hmap
  have hcan := h.vmMap_iff.1 (Option.isSome_iff_exists.2 ⟨pt', hmap⟩)
  refine ⟨hw, hcan.once, fun p => ?_, fun p m hp => ?_, fun q => ?_, ?_⟩
  · rw [hm, List.map_append, List.mem_append, List.map_singleton, List.mem_singleton, ← h.mapped]
    by_cases hp : p = vaddr / PAGE_SIZE
    · simp [hp]
    · rw [Function.update_of_ne hp]
      simp [hp]
  · rw [hm] at hp
    by_cases hpv : p = vaddr / PAGE_SIZE
    · rw [hpv, Function.update_self] at hp
      cases hp
      rfl
    · rw [Function.update_of_ne hpv] at hp
      exact h.dirty p m hp
  · rw [hentries, h.pairs, List.map_append, List.mem_append, List.map_singleton, List.mem_singleton, or_comm]
  · rw [hcount, List.map_append, List.map_singleton, toFinset_snoc_card, h.count]
    simp only [h.pairs]

end Maps

/-! ## The frames of a call -/

/-- A page pool in order: the static pages are in use, the free pages are counted, and the bitmap ends
with the pages. -/
structure PoolWf (pool : Pool) : Prop where
  pos : 0 < pool.staticEnd
  static : ∀ i < pool.staticEnd, pool.used i = true
  count : pool.numFreePages = ((Finset.range pool.numPages).filter fun i => pool.used i = false).card
  range : ∀ f, pool.used f = true → f < pool.numPages

/-- A pool of 16 pages, two of them in use. -/
def smallPool : Pool := ⟨16, 2, fun i => decide (i < 2), 14⟩

theorem smallPool_wf : PoolWf smallPool := by
  refine ⟨by decide, fun i hi => ?_, by decide, fun f hf => ?_⟩
  · exact decide_eq_true hi
  · have hlt : f < 2 := of_decide_eq_true hf
    exact hlt.trans (by decide)

/-- Who can own a frame while a process starts: somebody from before, the page table, a page, or nobody. -/
inductive CallOwner where
  | other (f : ℕ)
  | table
  | page (p : ℕ)
  | lost
  deriving DecidableEq

/-- The frames of the owners from before. -/
def othersFrame (pool : Pool) (f : ℕ) : Option ℕ :=
  if pool.staticEnd ≤ f ∧ pool.used f = true then some f else none

/-- What a call has taken since the page pool was `pool`: a page table, the pages of these addresses, and
perhaps a frame that nobody has got. -/
structure Taken (pool : Pool) (t : ℕ) (w : World) (pt : Pagetable) (vaddrs : List ℕ) (lost : Option ℕ) :
    Prop where
  pagetable : w.pagetable = some pt
  maps : Maps pt t vaddrs
  owners : ∃ frame : CallOwner → Option ℕ, Frames frame w.pool ∧ Owns frame .table .page pt ∧
    frame .lost = lost ∧ ∀ f, frame (.other f) = othersFrame pool f
  free : lost = none → w.pool.numFreePages = pool.numFreePages - 1 - vaddrs.length
  static : w.pool.staticEnd = pool.staticEnd

section Taken

variable {pool pool' : Pool} {t vaddr a : ℕ} {w : World} {pt : Pagetable} {vaddrs : List ℕ} {s : StartState}

theorem othersFrame_some {f g : ℕ} (h : othersFrame pool f = some g) :
    g = f ∧ pool.staticEnd ≤ f ∧ pool.used f = true := by
  unfold othersFrame at h
  split at h
  · rename_i hf
    cases h
    exact ⟨rfl, hf⟩
  · cases h

/-- Before the call every frame in use is owned by somebody else. -/
theorem PoolWf.frames (h : PoolWf pool) : Frames (fun o => match o with
    | CallOwner.other f => othersFrame pool f
    | _ => none) pool := by
  refine ⟨h.pos, h.static, h.count, fun o f hf => ?_, fun o o' f hf hf' => ?_, fun f hle hu => ?_⟩
  · cases o with
    | other g =>
      obtain ⟨rfl, h1, h2⟩ := othersFrame_some hf
      exact ⟨h1, h.range _ h2, h2⟩
    | table => cases hf
    | page p => cases hf
    | lost => cases hf
  · cases o with
    | other g =>
      cases o' with
      | other g' => rw [← (othersFrame_some hf).1, ← (othersFrame_some hf').1]
      | table => cases hf'
      | page p => cases hf'
      | lost => cases hf'
    | table => cases hf
    | page p => cases hf
    | lost => cases hf
  · refine ⟨.other f, ?_⟩
    exact if_pos ⟨hle, hu⟩

/-- A page from the pool: how many pages there were, and what does not change. -/
theorem getPhysPage_cases {ι : Type} {frame : ι → Option ℕ} (h : Frames frame pool) :
    (pool.numFreePages = 0 ∧ pagepoolGetPhysPage pool = some (0, pool)) ∨
      (0 < pool.numFreePages ∧ ∃ a pool', pagepoolGetPhysPage pool = some (a, pool') ∧ a ≠ 0 ∧
        pool'.numFreePages = pool.numFreePages - 1 ∧ pool'.staticEnd = pool.staticEnd) := by
  by_cases hpos : 0 < pool.numFreePages
  · obtain ⟨a, pool', hget, ha, hfree⟩ := h.get_pos hpos
    refine Or.inr ⟨hpos, a, pool', hget, ha, hfree, ?_⟩
    unfold pagepoolGetPhysPage at hget
    rw [if_pos hpos] at hget
    split at hget
    · cases hget
    · cases hget
      rfl
  · have hnonneg : 0 ≤ pool.numFreePages := by
      rw [h.count]
      exact Int.natCast_nonneg _
    refine Or.inl ⟨by omega, ?_⟩
    rw [pagepoolGetPhysPage, if_neg hpos]

/-- `s` with another page table and another page pool. -/
def StartState.withMemory (s : StartState) (pt : Option Pagetable) (pool : Pool) : StartState :=
  s.setWorld { s.world with pagetable := pt, pool := pool }

/-- **How the mapping of `vaddrs` ends** when the pages of `vs` are mapped: all of them are mapped, the
frames run out, or `vm_map` refuses an address and its frame is lost. -/
inductive MapResult (pool : Pool) (t : ℕ) (s : StartState) (vs vaddrs : List ℕ) : Start StartState → Prop where
  | done {pt : Pagetable} {pool' : Pool} (hcan : CanMap (vs ++ vaddrs))
      (hfree : (vs.length + vaddrs.length + 1 : ℤ) ≤ pool.numFreePages)
      (h : Taken pool t (s.withMemory (some pt) pool').world pt (vs ++ vaddrs) none) :
      MapResult pool t s vs vaddrs (.ok (s.withMemory (some pt) pool'))
  | noFrame {k : ℕ} {pt : Pagetable} {pool' : Pool} (hk : k < vaddrs.length)
      (hfree : pool.numFreePages = vs.length + k + 1) (hcan : CanMap (vs ++ vaddrs.take k))
      (h : Taken pool t (s.withMemory (some pt) pool').world pt (vs ++ vaddrs.take k) none) :
      MapResult pool t s vs vaddrs (.fails (s.withMemory (some pt) pool'))
  | refused {k f : ℕ} {pt : Pagetable} {pool' : Pool} (hk : k < vaddrs.length)
      (hfree : (vs.length + k + 2 : ℤ) ≤ pool.numFreePages) (hcan : ¬ CanMap (vs ++ vaddrs.take (k + 1)))
      (h : Taken pool t (s.withMemory (some pt) pool').world pt (vs ++ vaddrs.take k) (some f)) :
      MapResult pool t s vs vaddrs (.fails (s.withMemory (some pt) pool'))

/-- **`pagepool_get_phys_page` and `vm_map`.** -/
theorem mapPage_result (h : Taken pool t s.world pt vaddrs none) :
    MapResult pool t s vaddrs [vaddr] (mapPage s vaddr) := by
  obtain ⟨frame, hframes, howns, hlost, hother⟩ := h.owners
  have hfree := h.free rfl
  unfold mapPage
  simp only [h.pagetable]
  rcases getPhysPage_cases hframes with ⟨hzero, hget⟩ | ⟨hpos, a, pool', hget, ha, hfree', hstatic⟩
  · simp only [hget, if_true]
    refine MapResult.noFrame (show 0 < [vaddr].length from Nat.one_pos) (by push_cast; omega) ?_ ?_
    · simpa using h.maps.canMap
    · rw [List.take_zero, List.append_nil]
      exact ⟨rfl, h.maps, h.owners, h.free, h.static⟩
  · simp only [hget, if_neg ha]
    cases hmap : vmMap pt a vaddr true with
    | none =>
      have hcan : ¬ CanMap (vaddrs ++ [vaddr]) := by
        have hmaps : (vmMap pt a vaddr true).isSome = true ↔ CanMap (vaddrs ++ [vaddr]) := h.maps.vmMap_iff
        rw [← hmaps, hmap]
        simp
      refine MapResult.refused (show 0 < [vaddr].length from Nat.one_pos) (by push_cast; omega)
        (by simpa using hcan)
        (show Taken pool t _ pt (vaddrs ++ [vaddr].take 0) (some (a / PAGE_SIZE)) from ?_)
      rw [List.take_zero, List.append_nil]
      refine ⟨rfl, h.maps, ⟨_, hframes.take hget ha hlost, ?_, Function.update_self _ _ _, fun f => ?_⟩,
        (fun hn => by cases hn), hstatic.trans h.static⟩
      · refine ⟨howns.inj, howns.ne, ?_, fun p => ?_⟩
        · rw [Function.update_of_ne (by simp)]
          exact howns.table
        · rw [Function.update_of_ne (by simp)]
          exact howns.page p
      · rw [Function.update_of_ne (by simp)]
        exact hother f
    | some pt' =>
      obtain ⟨hframes', howns'⟩ := howns.map hframes h.maps.wf hget ha hmap
      simp only
      refine .done (h.maps.map hmap).canMap ?_ ⟨rfl, h.maps.map hmap,
        ⟨_, hframes', howns', ?_, fun f => ?_⟩, fun _ => ?_, hstatic.trans h.static⟩
      · rw [List.length_singleton]
        push_cast
        omega
      · rw [Function.update_of_ne (by simp)]
        exact hlost
      · rw [Function.update_of_ne (by simp)]
        exact hother f
      · rw [List.length_append, List.length_singleton]
        show pool'.numFreePages = _
        push_cast
        omega

end Taken

section Loops

variable {pool pool' : Pool} {t vaddr : ℕ} {s : StartState} {pt : Pagetable} {vs vaddrs : List ℕ}
  {r : Start StartState} {s' : StartState}

/-- A loop that stops at its first address. -/
theorem MapResult.stopped (h : MapResult pool t s vs [vaddr] (.fails s')) :
    MapResult pool t s vs (vaddr :: vaddrs) (.fails s') := by
  generalize hr : Start.fails s' = r at h
  cases h with
  | done hcan hfree h => cases hr
  | @noFrame k pt pool' hk hfree hcan h =>
    cases hr
    obtain rfl : k = 0 := by simpa using hk
    exact .noFrame (k := 0) (by simp) hfree hcan h
  | @refused k f pt pool' hk hfree hcan h =>
    cases hr
    obtain rfl : k = 0 := by simpa using hk
    exact .refused (k := 0) (by simp) hfree hcan h

/-- A loop that goes on after its first address. -/
theorem MapResult.cons (h : MapResult pool t (s.withMemory (some pt) pool') (vs ++ [vaddr]) vaddrs r) :
    MapResult pool t s vs (vaddr :: vaddrs) r := by
  cases h with
  | done hcan hfree h =>
    rw [List.append_assoc, List.singleton_append] at hcan h
    rw [List.length_append, List.length_singleton] at hfree
    exact .done hcan (by rw [List.length_cons]; push_cast at hfree ⊢; omega) h
  | @noFrame k pt pool' hk hfree hcan h =>
    rw [List.append_assoc, List.singleton_append, ← List.take_succ_cons] at hcan h
    rw [List.length_append, List.length_singleton] at hfree
    exact .noFrame (k := k + 1) (Nat.succ_lt_succ hk) (by push_cast at hfree ⊢; omega) hcan h
  | @refused k f pt pool' hk hfree hcan h =>
    rw [List.append_assoc, List.singleton_append, ← List.take_succ_cons] at hcan h
    rw [List.length_append, List.length_singleton] at hfree
    exact .refused (k := k + 1) (Nat.succ_lt_succ hk) (by push_cast at hfree ⊢; omega) hcan h

/-- **The mapping loops.** -/
theorem mapPages_result (h : Taken pool t s.world pt vs none) :
    MapResult pool t s vs vaddrs (mapPages vaddrs s) := by
  induction vaddrs generalizing s pt vs with
  | nil =>
    obtain ⟨frame, hframes, -, -, -⟩ := h.owners
    have hself : s.withMemory (some pt) s.world.pool = s := by
      rw [StartState.withMemory, ← h.pagetable]
      rfl
    have hfree := h.free rfl
    rw [hframes.count] at hfree
    refine Eq.subst (motive := fun s' => MapResult pool t s vs [] (.ok s')) hself (.done ?_ ?_ ?_)
    · simpa using h.maps.canMap
    · rw [List.length_nil]
      push_cast
      omega
    · rw [List.append_nil, hself]
      exact h
  | cons vaddr vaddrs ih =>
    have hpage : MapResult _ _ _ _ [vaddr] (mapPage s vaddr) := mapPage_result h
    rw [mapPages]
    generalize mapPage s vaddr = r at hpage
    cases hpage with
    | done hcan hfree h' => exact (ih h').cons
    | noFrame hk hfree hcan h' => exact (MapResult.noFrame hk hfree hcan h').stopped
    | refused hk hfree hcan h' => exact (MapResult.refused hk hfree hcan h').stopped

/-- **`vm_create_pagetable`**, for a thread without a page table. -/
theorem createPagetable_result {c : StartCall} (hpool : PoolWf s.world.pool) (hnone : s.world.pagetable = none) :
    (s.world.pool.numFreePages = 0 ∧ createPagetable c s = .fails s) ∨
      (0 < s.world.pool.numFreePages ∧ ∃ pt pool', createPagetable c s = .ok (s.withMemory (some pt) pool') ∧
        Taken s.world.pool c.thread (s.withMemory (some pt) pool').world pt [] none) := by
  unfold createPagetable vmCreatePagetable
  simp only [hnone]
  rcases getPhysPage_cases hpool.frames with ⟨hzero, hget⟩ | ⟨hpos, a, pool', hget, ha, hfree, hstatic⟩
  · refine Or.inl ⟨hzero, ?_⟩
    simp only [hget, if_true]
    have hworld : ({ s.world with pagetable := none } : World) = s.world := by rw [← hnone]
    exact congrArg (fun w => Start.fails (s.setWorld w)) hworld
  · refine Or.inr ⟨hpos, ⟨a, c.thread, 0, c.memory⟩, pool', ?_, ?_⟩
    · simp only [hget, if_neg ha]
      rfl
    · have hwf : Pagetable.Wf ⟨a, c.thread, 0, c.memory⟩ c.thread :=
        ⟨rfl, Nat.zero_le _, fun i hi => absurd hi (Nat.not_lt_zero _),
          fun i hi => absurd hi (Nat.not_lt_zero _)⟩
      have hmaps := Maps.empty hwf rfl
      refine ⟨rfl, hmaps, ⟨_, hpool.frames.take (o := .table) hget ha rfl, ?_, ?_, fun f => ?_⟩, fun _ => ?_,
        hstatic⟩
      · refine ⟨fun p q h => CallOwner.page.inj h, fun p h => (by cases h), Function.update_self _ _ _, fun p => ?_⟩
        have hnot : ¬ (Pagetable.mapping ⟨a, c.thread, 0, c.memory⟩ p).isSome = true := by
          rw [hmaps.mapped]
          exact List.not_mem_nil
        rw [Option.not_isSome_iff_eq_none.1 hnot, Function.update_of_ne (by simp)]
        rfl
      · rw [Function.update_of_ne (by simp)]
      · rw [Function.update_of_ne (by simp)]
      · show pool'.numFreePages = _
        rw [hfree]
        simp

end Loops

end Buenos.Proc

import Buenos.Proc.Table

/-!
# Lists of children

A process finds its children through `last_child_pid` and the `next` fields of their slots.  Neither
`syscall_handle_join` nor `restore_process_state` takes a slot out of that list.

* `ChildList` — the list of a process holds exactly the slots with that parent.
* `KeepsSiblings` — the steps that leave every slot in the list it belongs to.
* `ExitsCleanly` — an `exit` whose loop meets no child of another process.

Principal results: `child_lists` and `child_kept`, what holds of the lists and of the children a
process has not joined yet, as long as the steps are such.
-/

namespace Buenos.Proc

open Buenos.Transition Buenos.Linked

/-! ## The list of a process -/

/-- The `next` fields as links. -/
def link (table : Table) : Option PID → Option PID := fun c => c.bind fun c => (table c).next

/-- From `lastChildPid`, the `next` fields lead through `xs`, which are the children of `p`. -/
structure ChildList (table : Table) (p : PID) (xs : List PID) : Prop where
  chain : Chain (link table) none (table p).lastChildPid (xs.map some)
  mem : ∀ q, q ∈ xs ↔ (table q).parentPid = some p

section Links

variable {table table' : Table} {p q i : PID} {t : TID} {xs : List PID}

theorem ChildList.nodup (h : ChildList table p xs) : xs.Nodup :=
  List.Nodup.of_map _ h.chain.nodup

theorem ChildList.length_lt (h : ChildList table p xs) : xs.length < ROUNDS := by
  have hcard := h.nodup.length_le_card
  rw [Fintype.card_fin] at hcard
  exact Nat.lt_succ_of_le hcard

/-- A list of children depends on the links of the children only. -/
theorem ChildList.congr (h : ChildList table p xs) (hlast : (table' p).lastChildPid = (table p).lastChildPid)
    (hnext : ∀ q ∈ xs, (table' q).next = (table q).next)
    (hparent : ∀ q, (table' q).parentPid = some p ↔ (table q).parentPid = some p) :
    ChildList table' p xs := by
  refine ⟨?_, fun q => (h.mem q).trans (hparent q).symm⟩
  rw [hlast]
  refine h.chain.congr fun x hx => ?_
  obtain ⟨q, hq, rfl⟩ := List.mem_map.1 hx
  exact hnext q hq

/-- **The loop of `exit`** along a list takes the parent from its slots. -/
theorem orphanChildren_chain {n : ℕ} {child : Option PID} (h : Chain (link table) none child (xs.map some))
    (hn : xs.length < n) :
    orphanChildren n child table =
      some fun q => if q ∈ xs then { table q with parentPid := none } else table q := by
  induction xs generalizing n child table with
  | nil =>
    obtain ⟨n, rfl⟩ := Nat.exists_eq_succ_of_ne_zero (Nat.ne_of_gt hn)
    obtain rfl : child = none := h.seg
    rw [orphanChildren]
    simp
  | cons c xs ih =>
    obtain ⟨n, rfl⟩ := Nat.exists_eq_succ_of_ne_zero (Nat.ne_of_gt (Nat.zero_lt_of_lt hn))
    obtain rfl : child = some c := h.seg.1
    have hlink : link (Function.update table c { table c with parentPid := none }) = link table := by
      funext x
      cases x with
      | none => rfl
      | some q =>
        by_cases hq : q = c
        · simp [link, hq]
        · simp [link, hq]
    have htail : Chain (link table) none (table c).next (xs.map some) := h.tail
    rw [orphanChildren, ih (by rw [hlink]; exact htail) (by simpa using hn)]
    congr 1
    funext q
    by_cases hq : q = c
    · subst hq
      by_cases hm : q ∈ xs
      · simp [hm]
      · simp [hm]
    · by_cases hm : q ∈ xs
      · simp [hm, hq]
      · simp [hm, hq]

/-- The table without the children of `p`. -/
def orphaned (table : Table) (p : PID) : Table := fun q =>
  if (table q).parentPid = some p then { table q with parentPid := none } else table q

theorem ChildList.orphanChildren (h : ChildList table p xs) :
    orphanChildren ROUNDS (table p).lastChildPid table = some (orphaned table p) := by
  rw [orphanChildren_chain h.chain h.length_lt]
  congr 1
  funext q
  by_cases hq : q ∈ xs
  · rw [if_pos hq, orphaned, if_pos ((h.mem q).1 hq)]
  · rw [if_neg hq, orphaned, if_neg fun hp => hq ((h.mem q).2 hp)]

/-- The table after the exit of `p`. -/
def exited (table : Table) (p : PID) (retval : ℤ) : Table :=
  Function.update (orphaned table p) p
    { orphaned table p p with tid := none, retval := exitRetval retval }

theorem ChildList.syscallHandleExit (h : ChildList table p xs) (retval : ℤ) :
    syscallHandleExit table p retval = some (exited table p retval) := by
  rw [Proc.syscallHandleExit, h.orphanChildren]
  rfl

section Exited

variable {retval : ℤ}

theorem orphaned_same : orphaned table p q = { table q with parentPid := (orphaned table p q).parentPid } := by
  unfold orphaned
  split <;> rfl

theorem orphaned_parentPid {r : PID} :
    (orphaned table p q).parentPid = some r ↔ (table q).parentPid = some r ∧ r ≠ p := by
  unfold orphaned
  split
  · rename_i hp
    rw [hp]
    simp only [Option.some.injEq]
    exact iff_of_false (by simp) fun hr => hr.2 hr.1.symm
  · rename_i hp
    constructor
    · intro hr
      refine ⟨hr, ?_⟩
      rintro rfl
      exact hp hr
    · exact fun hr => hr.1

theorem exited_parentPid {r : PID} :
    (exited table p retval q).parentPid = some r ↔ (table q).parentPid = some r ∧ r ≠ p := by
  rw [← orphaned_parentPid, exited]
  by_cases hq : q = p
  · rw [hq, Function.update_self]
  · rw [Function.update_of_ne hq]

theorem exited_next : (exited table p retval q).next = (table q).next := by
  by_cases hq : q = p
  · rw [exited, hq, Function.update_self, orphaned_same]
  · rw [exited, Function.update_of_ne hq, orphaned_same]

theorem exited_lastChildPid : (exited table p retval q).lastChildPid = (table q).lastChildPid := by
  by_cases hq : q = p
  · rw [exited, hq, Function.update_self, orphaned_same]
  · rw [exited, Function.update_of_ne hq, orphaned_same]

theorem exited_tid : (exited table p retval q).tid = if q = p then none else (table q).tid := by
  by_cases hq : q = p
  · rw [exited, hq, Function.update_self, if_pos rfl]
  · rw [exited, Function.update_of_ne hq, if_neg hq, orphaned_same]

end Exited

/-! ### A new slot -/

theorem fillSlot_none (q : PID) :
    fillSlot table i t none q = if q = i then ⟨some t, none, PROCESS_NO_RETVAL, none, none⟩ else table q := by
  unfold fillSlot
  by_cases hq : q = i
  · simp [hq]
  · simp [hq]

theorem fillSlot_some (hne : p ≠ i) (q : PID) :
    fillSlot table i t (some p) q =
      if q = i then ⟨some t, (table p).lastChildPid, PROCESS_NO_RETVAL, some p, none⟩
      else if q = p then { table q with lastChildPid := some i } else table q := by
  unfold fillSlot
  by_cases hq : q = i
  · subst hq
    simp [hne, Ne.symm hne]
  · by_cases hqp : q = p
    · subst hqp
      simp [hq]
    · simp [hq, hqp]

theorem fillSlot_parentPid (parentPid : Option PID) (hne : parentPid ≠ some i) (q : PID) :
    (fillSlot table i t parentPid q).parentPid = if q = i then parentPid else (table q).parentPid := by
  cases parentPid with
  | none =>
    rw [fillSlot_none]
    split <;> rfl
  | some p =>
    rw [fillSlot_some fun h => hne (congrArg some h)]
    split
    · rfl
    · split <;> rfl

/-- The lists of other processes do not see the new slot. -/
theorem ChildList.fillSlot_other (h : ChildList table q xs) (hi : (table i).parentPid = none) (hqi : q ≠ i)
    (parentPid : Option PID) (hne : parentPid ≠ some i) (hq : parentPid ≠ some q) :
    ChildList (fillSlot table i t parentPid) q xs := by
  have hnot : ∀ x ∈ xs, x ≠ i := by
    rintro x hx rfl
    rw [(h.mem x).1 hx] at hi
    cases hi
  refine h.congr ?_ (fun x hx => ?_) fun x => ?_
  · cases parentPid with
    | none => rw [fillSlot_none, if_neg hqi]
    | some p =>
      rw [fillSlot_some fun he => hne (congrArg some he), if_neg hqi,
        if_neg fun he => hq (congrArg some he.symm)]
  · cases parentPid with
    | none => rw [fillSlot_none, if_neg (hnot x hx)]
    | some p =>
      rw [fillSlot_some fun he => hne (congrArg some he), if_neg (hnot x hx)]
      split <;> rfl
  · rw [fillSlot_parentPid _ hne]
    by_cases hx : x = i
    · rw [if_pos hx, hx, hi]
      exact iff_of_false hq (by simp)
    · rw [if_neg hx]

/-- The parent gets the new slot in front. -/
theorem ChildList.fillSlot_parent (h : ChildList table p xs) (hi : (table i).parentPid = none) (hne : p ≠ i) :
    ChildList (fillSlot table i t (some p)) p (i :: xs) := by
  have hnot : i ∉ xs := by
    intro hm
    rw [(h.mem i).1 hm] at hi
    cases hi
  refine ⟨?_, fun q => ?_⟩
  · have hlink : ∀ x ∈ (i :: xs).map some, link (fillSlot table i t (some p)) x =
        Function.update (link table) (some i) (table p).lastChildPid x := by
      intro x hx
      obtain ⟨q, -, rfl⟩ := List.mem_map.1 hx
      simp only [link, Option.bind_some, fillSlot_some hne]
      by_cases hq : q = i
      · simp [hq]
      · rw [if_neg hq, Function.update_of_ne (by simpa using hq)]
        split <;> rfl
    have hpush := h.chain.push (t := some i) (by simpa using hnot) (Option.some_ne_none i)
    rw [fillSlot_some hne, if_neg hne, if_pos rfl]
    exact hpush.congr hlink
  · rw [fillSlot_parentPid _ (by simpa using hne), List.mem_cons, h.mem]
    by_cases hq : q = i
    · simp [hq]
    · simp [hq]

/-- The new process has no child. -/
theorem ChildList.fillSlot_self (parentPid : Option PID) (hne : parentPid ≠ some i)
    (hno : ∀ q, (table q).parentPid ≠ some i) : ChildList (fillSlot table i t parentPid) i [] := by
  refine ⟨?_, fun q => ?_⟩
  · have hlast : (fillSlot table i t parentPid i).lastChildPid = none := by
      cases parentPid with
      | none => rw [fillSlot_none, if_pos rfl]
      | some p => rw [fillSlot_some fun he => hne (congrArg some he), if_pos rfl]
    rw [hlast]
    exact chain_empty _ _
  · rw [fillSlot_parentPid _ hne]
    by_cases hq : q = i
    · rw [if_pos hq]
      exact iff_of_false (by simp) hne
    · rw [if_neg hq]
      exact iff_of_false (by simp) (hno q)

end Links

/-! ## Steps that keep every slot in its list -/

/-- No `join` completes, and no start made by `execp` fails after it has its slot. -/
def KeepsSiblings (s : Procs) : Action → Prop
  | .joined _ => False
  | .fail t => (s.code t).data = none
  | _ => True

instance (s : Procs) : ∀ a, Decidable (KeepsSiblings s a)
  | .joined _ => isFalse id
  | .fail t => inferInstanceAs (Decidable ((s.code t).data = none))
  | .boot _ => isTrue trivial
  | .execp _ _ => isTrue trivial
  | .slot _ => isTrue trivial
  | .started _ => isTrue trivial
  | .exit _ _ => isTrue trivial
  | .join _ _ => isTrue trivial

/-- Parents are alive, every live process has its list, and a process that is being started has no
children and the parent that waits for it. -/
structure Families (s : Procs) : Prop where
  paired : Paired s
  live : ∀ q p, (s.table q).parentPid = some p → (s.table p).tid ≠ none
  lists : ∀ p, (s.table p).tid ≠ none → ∃ xs, ChildList s.table p xs
  childless : ∀ t data p, s.code t = .load data p → (s.table p).lastChildPid = none
  parent : ∀ t data p, s.code t = .load data p → (s.table p).parentPid = data.map (·.parentPid)

namespace Families

variable {s s' : Procs} {t : TID} {p : PID} {data : Option CreateData}

theorem init : Families Procs.init := by
  refine ⟨paired_init, fun q p h => ?_, fun p h => absurd rfl h, fun t d p h => ?_, fun t d p h => ?_⟩
  · cases h
  · cases h
  · cases h

/-- A step that changes no slot. -/
theorem code_only (h : Families s) (hp : Paired s') (htable : s'.table = s.table)
    (hload : ∀ t data p, s'.code t = .load data p → s.code t = .load data p) : Families s' := by
  refine ⟨hp, ?_, ?_, fun t d p hc => ?_, fun t d p hc => ?_⟩
  · rw [htable]
    exact h.live
  · rw [htable]
    exact h.lists
  · rw [htable]
    exact h.childless t d p (hload t d p hc)
  · rw [htable]
    exact h.parent t d p (hload t d p hc)

theorem wakeParent_load {code : TID → Code} {data' : Option CreateData} {t' : TID}
    (h : wakeParent data code t' = .load data' p) : code t' = .load data' p := by
  cases data with
  | none => exact h
  | some d =>
    by_cases ht : t' = d.parent
    · rw [wakeParent, ht, Function.update_self] at h
      cases h
    · rwa [wakeParent, Function.update_of_ne ht] at h

theorem update_load {c : Code} (hc : ∀ data p, c ≠ .load data p) {t' : TID} {data' : Option CreateData}
    {code : TID → Code} (h : Function.update code t c t' = .load data' p) :
    t' ≠ t ∧ code t' = .load data' p := by
  by_cases ht : t' = t
  · rw [ht, Function.update_self] at h
    exact absurd h (hc _ _)
  · rw [Function.update_of_ne ht] at h
    exact ⟨ht, h⟩

theorem slot (h : Families s) (ht : s.code t = .start data) : Families (processStartSlot s t data) := by
  have hpaired := h.paired.slot ht
  unfold processStartSlot at hpaired ⊢
  cases hf : findFree s.table with
  | none =>
    rw [hf] at hpaired
    refine h.code_only hpaired rfl fun t' d p hc => ?_
    exact (update_load (by simp) (wakeParent_load hc)).2
  | some i =>
    rw [hf] at hpaired
    obtain ⟨hi1, hi2⟩ := findFree_some hf
    -- the parent waits for this thread, so it is alive and is not the free slot
    have hlive : ∀ p, data.map (·.parentPid) = some p → (s.table p).tid ≠ none := by
      intro p hp
      obtain ⟨d, rfl, rfl⟩ := Option.map_eq_some_iff.1 hp
      rw [(h.paired.pair _ _).2 (h.paired.waits t d (by rw [ht]; rfl)).2]
      exact Option.some_ne_none _
    have hne : data.map (·.parentPid) ≠ some i := fun he => hlive i he hi1
    have hno : ∀ q, (s.table q).parentPid ≠ some i := fun q he => h.live q i he hi1
    refine ⟨hpaired, fun q p hq => ?_, fun p hp => ?_, fun t' d p hc => ?_, fun t' d p hc => ?_⟩
    · rw [fillSlot_parentPid _ hne] at hq
      rw [fillSlot_tid]
      by_cases hpi : p = i
      · rw [if_pos hpi]
        exact Option.some_ne_none _
      · rw [if_neg hpi]
        split at hq
        · exact hlive p hq
        · exact h.live q p hq
    · rw [fillSlot_tid] at hp
      by_cases hpi : p = i
      · rw [hpi]
        exact ⟨[], ChildList.fillSlot_self _ hne hno⟩
      · rw [if_neg hpi] at hp
        obtain ⟨xs, hxs⟩ := h.lists p hp
        by_cases hd : data.map (·.parentPid) = some p
        · rw [hd]
          exact ⟨i :: xs, hxs.fillSlot_parent hi2 hpi⟩
        · exact ⟨xs, hxs.fillSlot_other hi2 hpi _ hne hd⟩
    · by_cases ht' : t' = t
      · simp only [ht', Function.update_self, Code.load.injEq] at hc
        obtain ⟨-, rfl⟩ := hc
        have hself := (ChildList.fillSlot_self (t := t) _ hne hno).chain.head
        simpa using hself
      · simp only [Function.update_of_ne ht'] at hc
        -- the slot of another thread that is being started is not the parent's
        have hpt := h.paired.fits t'
        rw [hc] at hpt
        have hpi : p ≠ i := by
          rintro rfl
          rw [(h.paired.pair p t').2 hpt] at hi1
          cases hi1
        have hold := h.childless t' d p hc
        cases hd : data with
        | none => simpa [fillSlot_none, hpi] using hold
        | some d' =>
          have hw := h.paired.waits t d' (by rw [ht, hd]; rfl)
          have hpd : p ≠ d'.parentPid := by
            rintro rfl
            have h1 := (h.paired.pair _ _).2 hpt
            rw [(h.paired.pair _ _).2 hw.2] at h1
            cases h1
            rw [hc] at hw
            cases hw.1
          have hni : d'.parentPid ≠ i := fun he => hne (by rw [hd, ← he]; rfl)
          simpa [fillSlot_some hni, hpi, hpd] using hold
    · rw [fillSlot_parentPid _ hne]
      by_cases ht' : t' = t
      · simp only [ht', Function.update_self, Code.load.injEq] at hc
        obtain ⟨rfl, rfl⟩ := hc
        rw [if_pos rfl]
      · simp only [Function.update_of_ne ht'] at hc
        have hpt := h.paired.fits t'
        rw [hc] at hpt
        have hpi : p ≠ i := by
          rintro rfl
          rw [(h.paired.pair p t').2 hpt] at hi1
          cases hi1
        rw [if_neg hpi]
        exact h.parent t' d p hc

/-- A start without a parent that fails gives back a slot in no list and without children. -/
theorem fail (h : Families s) (ht : s.code t = .load none p) : Families (restoreProcessState s t none p) := by
  have hparent : (s.table p).parentPid = none := h.parent t none p ht
  have hpt := h.paired.fits t
  rw [ht] at hpt
  have htid : (s.table p).tid = some t := (h.paired.pair p t).2 hpt
  have hno : ∀ q, (s.table q).parentPid ≠ some p := by
    obtain ⟨xs, hxs⟩ := h.lists p (by rw [htid]; exact Option.some_ne_none _)
    have hhead := hxs.chain.head
    rw [h.childless t none p ht] at hhead
    intro q hq
    cases xs with
    | nil => exact absurd ((hxs.mem q).2 hq) (by simp)
    | cons x xs => cases hhead
  have hself : ∀ q, q ≠ p → freeProcessTableEntry s.table p q = s.table q :=
    fun q hq => Function.update_of_ne hq _ _
  have hfree : freeProcessTableEntry s.table p p = freeEntry := Function.update_self _ _ _
  have hparents : ∀ q, (freeProcessTableEntry s.table p q).parentPid = (s.table q).parentPid := by
    intro q
    by_cases hq : q = p
    · rw [hq, hfree, hparent]
      rfl
    · rw [hself q hq]
  have hload : ∀ {t' d r}, (restoreProcessState s t none p).code t' = .load d r →
      r ≠ p ∧ s.code t' = .load d r := by
    intro t' d r hc
    have hcode : Function.update s.code t .idle t' = .load d r := hc
    obtain ⟨hne, hold⟩ := update_load (by simp) hcode
    refine ⟨?_, hold⟩
    rintro rfl
    have hf := h.paired.fits t'
    rw [hold] at hf
    have h2 := (h.paired.pair _ _).2 hf
    rw [htid] at h2
    cases h2
    exact hne rfl
  refine ⟨h.paired.fail ht, fun q r hq => ?_, fun r hr => ?_, fun t' d r hc => ?_, fun t' d r hc => ?_⟩
  · have hq : (s.table q).parentPid = some r := (hparents q).symm.trans hq
    have hrp : r ≠ p := fun he => hno q (he ▸ hq)
    show (freeProcessTableEntry s.table p r).tid ≠ none
    rw [hself r hrp]
    exact h.live q r hq
  · have hrp : r ≠ p := by
      rintro rfl
      exact hr (congrArg ProcessEntry.tid hfree)
    have hr : (s.table r).tid ≠ none := by
      rw [← hself r hrp]
      exact hr
    obtain ⟨xs, hxs⟩ := h.lists r hr
    refine ⟨xs, hxs.congr (congrArg ProcessEntry.lastChildPid (hself r hrp)) (fun q hq => ?_) fun q => ?_⟩
    · refine congrArg ProcessEntry.next (hself q ?_)
      rintro rfl
      have hm := (hxs.mem q).1 hq
      rw [hparent] at hm
      cases hm
    · exact (congrArg (· = some r) (hparents q)).to_iff
  · obtain ⟨hrp, hc⟩ := hload hc
    exact (congrArg ProcessEntry.lastChildPid (hself r hrp)).trans (h.childless t' d r hc)
  · obtain ⟨hrp, hc⟩ := hload hc
    exact (hparents r).trans (h.parent t' d r hc)

/-- `exit` orphans the children of its process and leaves the other lists as they are. -/
theorem exit (h : Families s) (hc : (s.code t).canExit = true) (hp : s.userlandPid t = some p) {retval : ℤ}
    (he : processExit s t p retval = some s') : Families s' := by
  have hpaired := h.paired.exit hc hp he
  have htid : (s.table p).tid = some t := (h.paired.pair p t).2 hp
  obtain ⟨xs, hxs⟩ := h.lists p (by rw [htid]; exact Option.some_ne_none _)
  unfold processExit at he
  rw [hxs.syscallHandleExit] at he
  cases he
  have hload : ∀ {t' d r}, Function.update s.code t .idle t' = .load d r → s.code t' = .load d r :=
    fun hc => (update_load (by simp) hc).2
  refine ⟨hpaired, fun q r hq => ?_, fun r hr => ?_, fun t' d r hc' => ?_, fun t' d r hc' => ?_⟩
  · obtain ⟨hq, hrp⟩ := exited_parentPid.1 hq
    show (exited s.table p retval r).tid ≠ none
    rw [exited_tid, if_neg hrp]
    exact h.live q r hq
  · have hr : (exited s.table p retval r).tid ≠ none := hr
    rw [exited_tid] at hr
    split at hr
    · exact absurd rfl hr
    · rename_i hrp
      obtain ⟨ys, hys⟩ := h.lists r hr
      refine ⟨ys, hys.congr exited_lastChildPid (fun q _ => exited_next) fun q => ?_⟩
      rw [exited_parentPid]
      exact and_iff_left hrp
  · exact exited_lastChildPid.trans (h.childless t' d r (hload hc'))
  · have hold := h.parent t' d r (hload hc')
    show (exited s.table p retval r).parentPid = _
    cases hd : d.map (·.parentPid) with
    | none =>
      rw [hd] at hold
      cases hx : (exited s.table p retval r).parentPid with
      | none => rfl
      | some x =>
        rw [(exited_parentPid.1 hx).1] at hold
        cases hold
    | some x =>
      rw [hd] at hold
      refine exited_parentPid.2 ⟨hold, ?_⟩
      -- a parent that waits for its child does not exit
      rintro rfl
      obtain ⟨d', rfl, rfl⟩ := Option.map_eq_some_iff.1 hd
      have hw := h.paired.waits t' d' (by rw [hload hc']; rfl)
      have h1 := (h.paired.pair _ _).2 hw.2
      rw [htid] at h1
      cases h1
      rw [hw.1] at hc
      cases hc

theorem step (h : Families s) {a : Action} (ha : KeepsSiblings s a) (hs : step s a = some s') :
    Families s' := by
  have hpaired := h.paired.step hs
  cases step_cases hs with
  | boot _ => exact h.code_only hpaired rfl fun t' d p hc => (update_load (by simp) hc).2
  | execp _ _ _ =>
    refine h.code_only hpaired rfl fun t' d p hc => ?_
    exact (update_load (by simp) (update_load (by simp) hc).2).2
  | slot ht => exact h.slot ht
  | fail ht =>
    have hdata : (s.code _).data = none := ha
    rw [ht] at hdata
    obtain rfl := hdata
    exact h.fail ht
  | started _ =>
    exact h.code_only hpaired rfl fun t' d p hc => (update_load (by simp) (wakeParent_load hc)).2
  | exit hp hc he => exact h.exit hc hp he
  | refused _ _ _ => exact h
  | join _ _ _ => exact h.code_only hpaired rfl fun t' d p hc => (update_load (by simp) hc).2
  | joined _ _ => exact ha.elim

end Families

/-- **The children of a live process** are what its list leads through, and the loop of `exit` ends and
changes the parent of these slots only. -/
theorem child_lists {as : List Action} {s : Procs} (hc : Every step KeepsSiblings Procs.init as)
    (hr : run step Procs.init as = some s) (p : PID) (hp : (s.table p).tid ≠ none) :
    ∃ xs : List PID, ChildList s.table p xs ∧ xs.Nodup ∧
      orphanChildren ROUNDS (s.table p).lastChildPid s.table = some (orphaned s.table p) := by
  have h : Families s := run_invariant (fun ha hi hs => hi.step ha hs) Families.init hc hr
  obtain ⟨xs, hxs⟩ := h.lists p hp
  exact ⟨xs, hxs, hxs.nodup, hxs.orphanChildren⟩

/-- A process with three children, of which one has exited and one has a child of its own. -/
theorem child_lists_three : ∃ s, run step Procs.init [.boot 0, .slot 0, .started 0, .execp 0 1, .slot 1,
      .started 1, .execp 0 2, .slot 2, .started 2, .execp 2 3, .slot 3, .started 3, .execp 0 4, .slot 4,
      .started 4, .exit 1 5] = some s ∧ (s.table 0).tid ≠ none ∧
    ∃ xs : List PID, ChildList s.table 0 xs ∧ xs.Nodup ∧
      orphanChildren ROUNDS (s.table 0).lastChildPid s.table = some (orphaned s.table 0) := by
  have hsome : ∃ s ∈ run step Procs.init [.boot 0, .slot 0, .started 0, .execp 0 1, .slot 1, .started 1,
      .execp 0 2, .slot 2, .started 2, .execp 2 3, .slot 3, .started 3, .execp 0 4, .slot 4, .started 4,
      .exit 1 5], (s.table 0).tid ≠ none := by decide +kernel
  obtain ⟨s, hs, hp⟩ := hsome
  exact ⟨s, hs, hp, child_lists (by decide +kernel) hs 0 hp⟩

/-- `execp`, `join`, `execp`: the slot of the joined child is taken again and follows itself. -/
theorem join_keeps_sibling : ∃ s, run step Procs.init [.boot 0, .slot 0, .started 0, .execp 0 1, .slot 1,
      .started 1, .exit 1 5, .join 0 2, .joined 0, .execp 0 1, .slot 1, .started 1] = some s ∧
    (s.table 0).tid ≠ none ∧ (∀ xs, ¬ ChildList s.table 0 xs) ∧
    orphanChildren ROUNDS (s.table 0).lastChildPid s.table = none := by
  have hsome : ∃ s ∈ run step Procs.init [.boot 0, .slot 0, .started 0, .execp 0 1, .slot 1, .started 1,
      .exit 1 5, .join 0 2, .joined 0, .execp 0 1, .slot 1, .started 1], (s.table 0).tid ≠ none ∧
      (orphanChildren ROUNDS (s.table 0).lastChildPid s.table).isNone = true := by decide +kernel
  obtain ⟨s, hs, hp, ho⟩ := hsome
  rw [Option.isNone_iff_eq_none] at ho
  refine ⟨s, hs, hp, fun xs hxs => ?_, ho⟩
  rw [hxs.orphanChildren] at ho
  cases ho

/-! ## Children that have not been joined -/

/-- The slots that the loop of `exit` comes to. -/
def reached (table : Table) : ℕ → Option PID → List PID
  | 0, _ => []
  | _ + 1, none => []
  | n + 1, some c => c :: reached table n (table c).next

/-- No process exits while its list leads to a child of another process, nor with the smallest
`int`. -/
def ExitsCleanly (s : Procs) : Action → Prop
  | .exit t retval => retval ≠ -2 ^ 31 ∧ ∀ p, s.userlandPid t = some p →
      ∀ c ∈ reached s.table ROUNDS (s.table p).lastChildPid,
        (s.table c).parentPid = none ∨ (s.table c).parentPid = some p
  | _ => True

instance (s : Procs) : ∀ a, Decidable (ExitsCleanly s a)
  | .exit t retval => inferInstanceAs (Decidable (retval ≠ -2 ^ 31 ∧ ∀ p, s.userlandPid t = some p →
      ∀ c ∈ reached s.table ROUNDS (s.table p).lastChildPid,
        (s.table c).parentPid = none ∨ (s.table c).parentPid = some p))
  | .boot _ => isTrue trivial
  | .execp _ _ => isTrue trivial
  | .slot _ => isTrue trivial
  | .fail _ => isTrue trivial
  | .started _ => isTrue trivial
  | .join _ _ => isTrue trivial
  | .joined _ => isTrue trivial

/-- The loop of `exit` changes the parents of the slots it comes to. -/
theorem orphanChildren_reached : ∀ {n : ℕ} {child : Option PID} {table table' : Table},
    orphanChildren n child table = some table' → ∀ q, (table' q).parentPid =
      if q ∈ reached table n child then none else (table q).parentPid
  | 0, _, _, _, h, _ => by cases h
  | _ + 1, none, _, _, h, _ => by cases h; rw [reached]; simp
  | n + 1, some c, table, table', h, q => by
    rw [orphanChildren] at h
    have hnext : ∀ m (child : Option PID),
        reached (Function.update table c { table c with parentPid := none }) m child = reached table m child := by
      intro m
      induction m with
      | zero => exact fun _ => rfl
      | succ m ih =>
        intro child
        cases child with
        | none => rfl
        | some x =>
          rw [reached, reached, ih]
          by_cases hx : x = c
          · simp [hx]
          · simp [hx]
    rw [orphanChildren_reached h q, hnext, reached]
    by_cases hq : q = c
    · simp [hq]
    · simp [hq]

theorem exitRetval_eq {retval : ℤ} (h : retval ≠ -2 ^ 31) : exitRetval retval = |retval| := by
  have hneg : intNeg retval = -retval := if_neg h
  rw [exitRetval, hneg]
  split
  · rename_i hlt
    rw [abs_of_neg hlt]
  · rename_i hpos
    rw [abs_of_nonneg (not_lt.1 hpos)]

/-- What the slots of unjoined children hold. -/
structure Unjoined (s : Procs) : Prop where
  paired : Paired s
  parent : ∀ c p, s.held c = some p → (s.table c).parentPid = some p
  value : ∀ c p, s.held c = some p → (s.table c).tid = none →
    ∃ arg, s.exitArg c = some arg ∧ (s.table c).retval = |arg|
  load : ∀ t data p, s.code t = .load data p →
    s.held p = none ∧ (s.table p).parentPid = data.map (·.parentPid)
  join : ∀ t c, s.code t = .join c → (s.table c).parentPid = s.userlandPid t

namespace Unjoined

variable {s s' : Procs} {t : TID} {p : PID} {data : Option CreateData}

theorem init : Unjoined Procs.init := by
  refine ⟨paired_init, fun c p h => ?_, fun c p h => ?_, fun t d p h => ?_, fun t c h => ?_⟩
  all_goals cases h

theorem update_join {c : Code} (hc : ∀ c', c ≠ .join c') {t' : TID} {q : PID}
    {code : TID → Code} (h : Function.update code t c t' = .join q) : t' ≠ t ∧ code t' = .join q := by
  by_cases ht : t' = t
  · rw [ht, Function.update_self] at h
    exact absurd h (hc _)
  · rw [Function.update_of_ne ht] at h
    exact ⟨ht, h⟩

theorem wakeParent_join {code : TID → Code} {t' : TID} {q : PID}
    (h : wakeParent data code t' = .join q) : code t' = .join q := by
  cases data with
  | none => exact h
  | some d =>
    by_cases ht : t' = d.parent
    · rw [wakeParent, ht, Function.update_self] at h
      cases h
    · rwa [wakeParent, Function.update_of_ne ht] at h

/-- A step that changes the code of threads only. -/
theorem code_only (h : Unjoined s) {code : TID → Code} (hp : Paired { s with code := code })
    (hload : ∀ t data p, code t = .load data p → s.code t = .load data p)
    (hjoin : ∀ t c, code t = .join c → s.code t = .join c ∨ (s.table c).parentPid = s.userlandPid t) :
    Unjoined { s with code := code } := by
  refine ⟨hp, h.parent, h.value, fun t d p hc => h.load t d p (hload t d p hc), fun t c hc => ?_⟩
  rcases hjoin t c hc with ho | hn
  · exact h.join t c ho
  · exact hn

/-- A slot that a waiting parent holds for the child it starts. -/
theorem parent_ne_free (h : Unjoined s) (ht : s.code t = .start data) {i : PID} (hi : (s.table i).tid = none) :
    data.map (·.parentPid) ≠ some i := by
  intro he
  obtain ⟨d, rfl, rfl⟩ := Option.map_eq_some_iff.1 he
  have hw := h.paired.waits t d (by rw [ht]; rfl)
  rw [(h.paired.pair _ _).2 hw.2] at hi
  cases hi

theorem slot (h : Unjoined s) (ht : s.code t = .start data) : Unjoined (processStartSlot s t data) := by
  have hpaired := h.paired.slot ht
  unfold processStartSlot at hpaired ⊢
  cases hf : findFree s.table with
  | none =>
    rw [hf] at hpaired
    refine h.code_only hpaired (fun t' d p hc => ?_) fun t' c hc => ?_
    · exact (Families.update_load (by simp) (Families.wakeParent_load hc)).2
    · exact Or.inl (update_join (by simp) (wakeParent_join hc)).2
  | some i =>
    rw [hf] at hpaired
    obtain ⟨hi1, hi2⟩ := findFree_some hf
    have hne := h.parent_ne_free ht hi1
    -- the free slot is held by nobody
    have hheld : ∀ c q, s.held c = some q → c ≠ i := by
      rintro c q hc rfl
      rw [h.parent c q hc] at hi2
      cases hi2
    have hnone : s.userlandPid t = none := by
      have hfit := h.paired.fits t
      rwa [ht] at hfit
    have hretval : ∀ c, c ≠ i → (fillSlot s.table i t (data.map (·.parentPid)) c).retval = (s.table c).retval := by
      intro c hc
      cases hd : data.map (·.parentPid) with
      | none => rw [fillSlot_none, if_neg hc]
      | some q =>
        rw [fillSlot_some (fun he => hne (hd.trans (congrArg some he))), if_neg hc]
        split <;> rfl
    refine ⟨hpaired, fun c q hc => ?_, fun c q hc htid => ?_, fun t' d q hc => ?_, fun t' c hc => ?_⟩
    · rw [fillSlot_parentPid _ hne, if_neg (hheld c q hc)]
      exact h.parent c q hc
    · have hci := hheld c q hc
      rw [fillSlot_tid, if_neg hci] at htid
      simp only [Function.update_of_ne hci, hretval c hci]
      exact h.value c q hc htid
    · by_cases ht' : t' = t
      · simp only [ht', Function.update_self, Code.load.injEq] at hc
        obtain ⟨rfl, rfl⟩ := hc
        refine ⟨?_, by rw [fillSlot_parentPid _ hne, if_pos rfl]⟩
        cases hx : s.held i with
        | none => rfl
        | some q => exact absurd rfl (hheld i q hx)
      · simp only [Function.update_of_ne ht'] at hc
        have hpt := h.paired.fits t'
        rw [hc] at hpt
        have hqi : q ≠ i := by
          rintro rfl
          rw [(h.paired.pair q t').2 hpt] at hi1
          cases hi1
        rw [fillSlot_parentPid _ hne, if_neg hqi]
        exact h.load t' d q hc
    · obtain ⟨ht', hold⟩ := update_join (by simp) hc
      have hj := h.join t' c hold
      have hci : c ≠ i := by
        rintro rfl
        have hfit := h.paired.fits t'
        rw [hold, ← hj, hi2] at hfit
        exact hfit rfl
      simp only [fillSlot_parentPid _ hne, if_neg hci, Function.update_of_ne ht']
      exact hj

/-- What the other threads are doing while a thread with the slot `p` goes on without it. -/
theorem others_load (h : Unjoined s) (hp : s.userlandPid t = some p) {t' : TID} (ht' : t' ≠ t)
    {d : Option CreateData} {q : PID} (hc : s.code t' = .load d q) : q ≠ p := by
  rintro rfl
  have hfit := h.paired.fits t'
  rw [hc] at hfit
  have h1 := (h.paired.pair _ _).2 hfit
  rw [(h.paired.pair _ _).2 hp] at h1
  cases h1
  exact ht' rfl

theorem fail (h : Unjoined s) (ht : s.code t = .load data p) : Unjoined (restoreProcessState s t data p) := by
  have hp := h.paired.fits t
  rw [ht] at hp
  obtain ⟨hheld, hparent⟩ := h.load t data p ht
  have hne : ∀ c q, s.held c = some q → c ≠ p := by
    rintro c q hc rfl
    rw [hheld] at hc
    cases hc
  have hself : ∀ q, q ≠ p → freeProcessTableEntry s.table p q = s.table q :=
    fun q hq => Function.update_of_ne hq _ _
  refine ⟨h.paired.fail ht, fun c q hc => ?_, fun c q hc htid => ?_, fun t' d q hc => ?_, fun t' c hc => ?_⟩
  · exact (congrArg ProcessEntry.parentPid (hself c (hne c q hc))).trans (h.parent c q hc)
  · have hcp := hself c (hne c q hc)
    have htid : (freeProcessTableEntry s.table p c).tid = none := htid
    show ∃ arg, s.exitArg c = some arg ∧ (freeProcessTableEntry s.table p c).retval = |arg|
    rw [hcp] at htid ⊢
    exact h.value c q hc htid
  · obtain ⟨ht', hold⟩ := Families.update_load (by simp) (Families.wakeParent_load hc)
    obtain ⟨h1, h2⟩ := h.load t' d q hold
    exact ⟨h1, (congrArg ProcessEntry.parentPid (hself q (h.others_load hp ht' hold))).trans h2⟩
  · obtain ⟨ht', hold⟩ := update_join (by simp) (wakeParent_join hc)
    have hj := h.join t' c hold
    -- a parent that waits in join does not wait for a start
    have hcp : c ≠ p := by
      rintro rfl
      have hfit := h.paired.fits t'
      rw [hold, ← hj, hparent] at hfit
      obtain ⟨x, hx⟩ := Option.ne_none_iff_exists'.1 hfit
      obtain ⟨d, rfl, rfl⟩ := Option.map_eq_some_iff.1 hx
      have hw := h.paired.waits t d (by rw [ht]; rfl)
      have h1 := (h.paired.pair _ _).2 hw.2
      rw [hparent] at hj
      rw [(h.paired.pair _ _).2 hj.symm] at h1
      cases h1
      rw [hold] at hw
      cases hw.1
    refine (congrArg ProcessEntry.parentPid (hself c hcp)).trans (hj.trans ?_)
    exact (Function.update_of_ne ht' _ _).symm

theorem started (h : Unjoined s) (ht : s.code t = .load data p) : Unjoined (processStarted s t data p) := by
  have hp := h.paired.fits t
  rw [ht] at hp
  have htid : (s.table p).tid = some t := (h.paired.pair p t).2 hp
  obtain ⟨hheld, hparent⟩ := h.load t data p ht
  have hold : ∀ c q, (processStarted s t data p).held c = some q →
      s.held c = some q ∨ c = p ∧ data.map (·.parentPid) = some q := by
    intro c q hc
    unfold processStarted at hc
    cases data with
    | none => exact Or.inl hc
    | some d =>
      by_cases hcp : c = p
      · simp only [hcp, Function.update_self] at hc
        exact Or.inr ⟨hcp, hc⟩
      · simp only [Function.update_of_ne hcp] at hc
        exact Or.inl hc
  refine ⟨h.paired.started ht, fun c q hc => ?_, fun c q hc hnone => ?_, fun t' d q hc => ?_, fun t' c hc => ?_⟩
  · rcases hold c q hc with ho | ⟨rfl, hd⟩
    · exact h.parent c q ho
    · exact hparent.trans hd
  · rcases hold c q hc with ho | ⟨rfl, hd⟩
    · exact h.value c q ho hnone
    · have hnone : (s.table c).tid = none := hnone
      rw [htid] at hnone
      cases hnone
  · obtain ⟨ht', hload⟩ := Families.update_load (by simp) (Families.wakeParent_load hc)
    obtain ⟨h1, h2⟩ := h.load t' d q hload
    refine ⟨?_, h2⟩
    cases hx : (processStarted s t data p).held q with
    | none => rfl
    | some r =>
      rcases hold q r hx with ho | ⟨hqp, -⟩
      · rw [h1] at ho
        cases ho
      · exact absurd hqp (h.others_load hp ht' hload)
  · exact h.join t' c (update_join (by simp) (wakeParent_join hc)).2

theorem exit (h : Unjoined s) (hc : (s.code t).canExit = true) (hp : s.userlandPid t = some p) {retval : ℤ}
    (ha : ExitsCleanly s (.exit t retval)) (he : processExit s t p retval = some s') : Unjoined s' := by
  have hpaired := h.paired.exit hc hp he
  have htid : (s.table p).tid = some t := (h.paired.pair p t).2 hp
  unfold processExit syscallHandleExit at he
  split at he
  · cases he
  · rename_i table htable
    split at htable
    · cases htable
    · rename_i table1 ho
      cases htable
      cases he
      have hsame := orphanChildren_same ho
      have hclean := ha.2 p hp
      -- slots of other processes keep their parent
      have hkeep : ∀ q r, (s.table q).parentPid = some r → r ≠ p → (table1 q).parentPid = some r := by
        intro q r hq hr
        rw [orphanChildren_reached ho q]
        split
        · rename_i hm
          rcases hclean q hm with h0 | h0
          · rw [h0] at hq
            cases hq
          · rw [h0] at hq
            cases hq
            exact absurd rfl hr
        · exact hq
      have hnone : ∀ q, (s.table q).parentPid = none → (table1 q).parentPid = none := by
        intro q hq
        rw [orphanChildren_reached ho q, hq]
        split <;> rfl
      have hparent : ∀ q, (Function.update table1 p
          { table1 p with tid := none, retval := exitRetval retval } q).parentPid = (table1 q).parentPid := by
        intro q
        by_cases hq : q = p
        · rw [hq, Function.update_self]
        · rw [Function.update_of_ne hq]
      have hheld : ∀ c r, (if s.held c = some p then none else s.held c) = some r →
          s.held c = some r ∧ r ≠ p := by
        intro c r hr
        split at hr
        · cases hr
        · rename_i hcp
          refine ⟨hr, ?_⟩
          rintro rfl
          exact hcp hr
      -- a thread that waits for a child is not the one that exits
      have hwait : ∀ {x}, s.userlandPid x = some p → x = t := by
        intro x hx
        have h1 := (h.paired.pair p x).2 hx
        rw [htid] at h1
        cases h1
        rfl
      refine ⟨hpaired, fun c r hr => ?_, fun c r hr hdead => ?_, fun t' d q hl => ?_, fun t' c hj => ?_⟩
      · obtain ⟨hr, hrp⟩ := hheld c r hr
        exact (hparent c).trans (hkeep c r (h.parent c r hr) hrp)
      · obtain ⟨hr, -⟩ := hheld c r hr
        by_cases hcp : c = p
        · subst hcp
          refine ⟨retval, by simp, ?_⟩
          simp only [Function.update_self]
          exact exitRetval_eq ha.1
        · simp only [Function.update_of_ne hcp] at hdead ⊢
          rw [hsame c] at hdead ⊢
          exact h.value c r hr hdead
      · obtain ⟨ht', hold⟩ := Families.update_load (by simp) hl
        obtain ⟨h1, h2⟩ := h.load t' d q hold
        refine ⟨by simp [h1], (hparent q).trans ?_⟩
        cases hd : d.map (·.parentPid) with
        | none => exact hnone q (h2.trans hd)
        | some r =>
          refine hkeep q r (h2.trans hd) ?_
          rintro rfl
          obtain ⟨d', rfl, rfl⟩ := Option.map_eq_some_iff.1 hd
          have hw := h.paired.waits t' d' (by rw [hold]; rfl)
          rw [hwait hw.2] at hw
          rw [hw.1] at hc
          cases hc
      · obtain ⟨ht', hold⟩ := update_join (by simp) hj
        have hu := h.join t' c hold
        have hfit := h.paired.fits t'
        rw [hold] at hfit
        obtain ⟨r, hr⟩ := Option.ne_none_iff_exists'.1 hfit
        refine (hparent c).trans ((hkeep c r (hu.trans hr) ?_).trans ?_)
        · rintro rfl
          exact ht' (hwait hr)
        · exact hr.symm.trans (Function.update_of_ne ht' _ _).symm

theorem joined (h : Unjoined s) {c : PID} (ht : s.code t = .join c) {r : ℤ} {table : Table}
    (hj : syscallHandleJoin s.table c = some (r, table)) :
    Unjoined { s with table := table, code := Function.update s.code t .user,
                      held := Function.update s.held c none } := by
  have hpaired := h.paired.joined ht hj
  have hct := h.join t c ht
  have htid : (s.table c).tid = none := by
    unfold syscallHandleJoin at hj
    split at hj
    · assumption
    · cases hj
  have htable : table = Function.update s.table c { s.table c with parentPid := none } := by
    unfold syscallHandleJoin at hj
    rw [if_pos htid] at hj
    cases hj
    rfl
  subst htable
  have hheld : ∀ q x, Function.update s.held c none q = some x → q ≠ c ∧ s.held q = some x := by
    intro q x hq
    by_cases hqc : q = c
    · rw [hqc, Function.update_self] at hq
      cases hq
    · rw [Function.update_of_ne hqc] at hq
      exact ⟨hqc, hq⟩
  refine ⟨hpaired, fun q x hq => ?_, fun q x hq hdead => ?_, fun t' d q hl => ?_, fun t' q hj' => ?_⟩
  · obtain ⟨hqc, hq⟩ := hheld q x hq
    simp only [Function.update_of_ne hqc]
    exact h.parent q x hq
  · obtain ⟨hqc, hq⟩ := hheld q x hq
    simp only [Function.update_of_ne hqc] at hdead ⊢
    exact h.value q x hq hdead
  · obtain ⟨ht', hold⟩ := Families.update_load (by simp) hl
    obtain ⟨h1, h2⟩ := h.load t' d q hold
    have hfit := h.paired.fits t'
    rw [hold] at hfit
    have hqc : q ≠ c := by
      rintro rfl
      rw [(h.paired.pair _ _).2 hfit] at htid
      cases htid
    simp only [Function.update_of_ne hqc]
    exact ⟨h1, h2⟩
  · obtain ⟨ht', hold⟩ := update_join (by simp) hj'
    have hq := h.join t' q hold
    -- two processes do not wait for one child
    have hqc : q ≠ c := by
      rintro rfl
      have hfit := h.paired.fits t'
      rw [hold] at hfit
      obtain ⟨x, hx⟩ := Option.ne_none_iff_exists'.1 hfit
      rw [hct, hx] at hq
      have h1 := (h.paired.pair x t').2 hx
      rw [(h.paired.pair x t).2 hq] at h1
      cases h1
      exact ht' rfl
    simp only [Function.update_of_ne hqc]
    exact hq

theorem step (h : Unjoined s) {a : Action} (ha : ExitsCleanly s a) (hs : step s a = some s') :
    Unjoined s' := by
  have hpaired := h.paired.step hs
  cases step_cases hs with
  | boot _ =>
    exact h.code_only hpaired (fun t' d p hc => (Families.update_load (by simp) hc).2)
      fun t' c hc => Or.inl (update_join (by simp) hc).2
  | execp _ _ _ =>
    refine h.code_only hpaired (fun t' d p hc => ?_) fun t' c hc => Or.inl ?_
    · exact (Families.update_load (by simp) (Families.update_load (by simp) hc).2).2
    · exact (update_join (by simp) (update_join (by simp) hc).2).2
  | slot ht => exact h.slot ht
  | fail ht => exact h.fail ht
  | started ht => exact h.started ht
  | exit hp hc he => exact h.exit hc hp ha he
  | refused _ _ _ => exact h
  | @join t p c pid hp ht hj =>
    refine h.code_only hpaired (fun t' d p hc => (Families.update_load (by simp) hc).2) fun t' q hc => ?_
    by_cases ht' : t' = t
    · rw [ht', Function.update_self] at hc
      cases hc
      refine Or.inr ?_
      rw [ht', hp]
      unfold joinedSlot at hj
      split at hj
      · simp only at hj
        split at hj
        · rename_i hparent
          cases hj
          exact hparent
        · cases hj
      · cases hj
    · rw [Function.update_of_ne ht'] at hc
      exact Or.inl hc
  | joined ht hj => exact h.joined ht hj

end Unjoined

/-- `join` waits for a child. -/
theorem joinedSlot_child {table : Table} {p c : PID} (h : (table c).parentPid = some p) :
    joinedSlot table p (c.val + 1) = some c := by
  have hrange : (0 : ℤ) < (c.val : ℤ) + 1 ∧ (c.val : ℤ) + 1 ≤ CONFIG_MAX_PROCESSES := by
    have hlt := c.isLt
    omega
  have hself : (⟨((c.val : ℤ) + 1 - 1).toNat, by omega⟩ : PID) = c := Fin.ext (by simp)
  rw [joinedSlot, dif_pos hrange]
  simp only [hself, h, if_true]

/-- **A child that has not been joined** keeps its slot, and `join` waits for it and returns the
absolute value of its exit argument. -/
theorem child_kept {as : List Action} {s : Procs} (hc : Every step ExitsCleanly Procs.init as)
    (hr : run step Procs.init as = some s) {p c : PID} (hheld : s.held c = some p) :
    (∀ a s' x, step s a = some s' → (s'.table c).tid = some x → (s.table c).tid = some x) ∧
    joinedSlot s.table p (c.val + 1) = some c ∧
    ∀ r table, syscallHandleJoin s.table c = some (r, table) →
      ∃ arg, s.exitArg c = some arg ∧ r = |arg| := by
  have h : Unjoined s := run_invariant (fun ha hi hs => hi.step ha hs) Unjoined.init hc hr
  have hparent := h.parent c p hheld
  refine ⟨fun a s' x hs hx => ?_, joinedSlot_child hparent, fun r table hj => ?_⟩
  · by_contra hold
    rw [(step_free hs hold hx).2] at hparent
    cases hparent
  · unfold syscallHandleJoin at hj
    split at hj
    · rename_i htid
      cases hj
      exact h.value c p hheld htid
    · cases hj

/-- A parent has a child that has exited with -5, in a slot from which another process has joined a
child. -/
theorem child_kept_exited : ∃ s, run step Procs.init [.boot 0, .slot 0, .started 0, .execp 0 1, .slot 1,
      .started 1, .execp 1 2, .slot 2, .started 2, .exit 2 7, .join 1 3, .joined 1, .execp 0 3, .slot 3,
      .started 3, .exit 3 (-5)] = some s ∧
    s.held 2 = some 0 ∧
    (∀ a s' x, step s a = some s' → (s'.table 2).tid = some x → (s.table 2).tid = some x) ∧
    joinedSlot s.table 0 3 = some 2 ∧
    ∀ r table, syscallHandleJoin s.table 2 = some (r, table) →
      ∃ arg, s.exitArg 2 = some arg ∧ r = |arg| := by
  have hsome : ∃ s ∈ run step Procs.init [.boot 0, .slot 0, .started 0, .execp 0 1, .slot 1, .started 1,
      .execp 1 2, .slot 2, .started 2, .exit 2 7, .join 1 3, .joined 1, .execp 0 3, .slot 3, .started 3,
      .exit 3 (-5)], s.held 2 = some 0 := by decide +kernel
  obtain ⟨s, hs, h2⟩ := hsome
  exact ⟨s, hs, h2, child_kept (by decide +kernel) hs h2⟩

/-- Process 1 exits instead.  Its list still leads to the slot of the child it joined, where a child of
process 0 lives now, and from there to its own slot: process 0 loses both its children, `join` refuses
them, and the slot of process 1 goes to another process. -/
theorem exit_orphans_foreign_child : ∃ s s', run step Procs.init [.boot 0, .slot 0, .started 0, .execp 0 1,
      .slot 1, .started 1, .execp 1 2, .slot 2, .started 2, .exit 2 7, .join 1 3, .joined 1, .execp 0 3,
      .slot 3, .started 3, .exit 1 0, .execp 0 4] = some s ∧
    s.held 1 = some 0 ∧ s.held 2 = some 0 ∧ joinedSlot s.table 0 2 = none ∧ joinedSlot s.table 0 3 = none ∧
    step s (.slot 4) = some s' ∧ (s'.table 1).tid = some 4 ∧ (s.table 1).tid = none := by
  have hsome : ∃ s ∈ run step Procs.init [.boot 0, .slot 0, .started 0, .execp 0 1, .slot 1, .started 1,
      .execp 1 2, .slot 2, .started 2, .exit 2 7, .join 1 3, .joined 1, .execp 0 3, .slot 3, .started 3,
      .exit 1 0, .execp 0 4], s.held 1 = some 0 ∧ s.held 2 = some 0 ∧ joinedSlot s.table 0 2 = none ∧
      joinedSlot s.table 0 3 = none ∧
      ∃ s' ∈ step s (.slot 4), (s'.table 1).tid = some 4 ∧ (s.table 1).tid = none := by decide +kernel
  obtain ⟨s, hs, h1, h2, h3, h4, s', hs', h5, h6⟩ := hsome
  exact ⟨s, s', hs, h1, h2, h3, h4, hs', h5, h6⟩

end Buenos.Proc

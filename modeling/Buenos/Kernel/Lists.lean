import Buenos.Base.Transition
import Buenos.Kernel.Threads

/-!
# One `next` field, many lists

The ready list and the chains of the sleep queue are threaded through the one `next` field of the
thread table, the timed sleepers through `next_sleeper_id`.

* `Lists k R Q Z` — the ready list holds the threads `R`, the chain of bucket `h` the threads `Q h`,
  the list of timed sleepers the threads `Z`, and the sets do not overlap.
* `States k` — what the states of the threads say about their other fields.
* `Inv k` — the lists hold exactly the threads whose fields say so.

Principal result: `thread_lists`, over every run of the thread library, the scheduler and the sleep
queue.
-/

namespace Buenos.Kernel

open Buenos.Linked Buenos.Transition

/-- A row of the thread table other than the idle thread's. -/
def Row (t : ℤ) : Prop := 0 < t ∧ t < 32

theorem Row.ne_end {t : ℤ} (h : Row t) : t ≠ -1 := by
  obtain ⟨h1, -⟩ := h
  omega

/-- The lists hold the threads `R`, `Q` and `Z`. -/
structure Lists (k : KernelState) (R : Set ℤ) (Q : ℕ → Set ℤ) (Z : Set ℤ) : Prop where
  ready : ∃ xs, Chain k.next (-1) k.head xs ∧ k.tail = xs.getLast?.getD (-1) ∧ ∀ t, t ∈ xs ↔ t ∈ R
  queue : ∀ h, ∃ xs, Chain k.next (-1) (k.sleepqHashtable h) xs ∧ ∀ t, t ∈ xs ↔ t ∈ Q h
  sleepers : ∃ xs, Chain k.nextSleeperId (-1) k.threadNextSleeperId xs ∧ ∀ t, t ∈ xs ↔ t ∈ Z
  disjoint : ∀ {t h}, t ∈ R → t ∉ Q h
  queues : ∀ {t h h'}, t ∈ Q h → t ∈ Q h' → h = h'
  readyRow : ∀ {t}, t ∈ R → Row t
  queueRow : ∀ {t h}, t ∈ Q h → Row t
  sleeperRow : ∀ {t}, t ∈ Z → Row t

section Links

variable {k : KernelState} {R Z : Set ℤ} {Q : ℕ → Set ℤ} {t : ℤ} {xs : List ℤ} {link : ℤ → ℤ}
  {a : ℤ}

/-- A loop along a chain of rows ends in time. -/
theorem length_lt_rounds (hc : Chain link (-1) a xs) (hrow : ∀ t ∈ xs, Row t) : xs.length < ROUNDS := by
  have hle := hc.length_le (s := Finset.Ioo 0 32) fun t ht => Finset.mem_Ioo.2 (hrow t ht)
  rw [Int.card_Ioo] at hle
  simp only [ROUNDS, CONFIG_MAX_THREADS]
  omega

/-- The links of a thread on no list do not matter. -/
theorem Lists.setNext (hl : Lists k R Q Z) (hR : t ∉ R) (hQ : ∀ h, t ∉ Q h) (v : ℤ) :
    Lists { k with next := Function.update k.next t v } R Q Z := by
  refine { hl with ready := ?_, queue := fun h => ?_ }
  · obtain ⟨xs, hc, htail, hmem⟩ := hl.ready
    exact ⟨xs, hc.update fun hm => hR ((hmem t).1 hm), htail, hmem⟩
  · obtain ⟨xs, hc, hmem⟩ := hl.queue h
    exact ⟨xs, hc.update fun hm => hQ h ((hmem t).1 hm), hmem⟩

/-- A new ready list that leaves the links of all other threads alone. -/
theorem Lists.setReady (hl : Lists k R Q Z) (ht : Row t) (hQ : ∀ h, t ∉ Q h) {next : ℤ → ℤ}
    {head tail : ℤ} (hc : Chain next (-1) head xs) (htail : tail = xs.getLast?.getD (-1))
    (hmem : ∀ x, x ∈ xs ↔ x = t ∨ x ∈ R) (hnext : ∀ x, x ≠ t → x ∉ R → next x = k.next x) :
    Lists { k with next := next, head := head, tail := tail } (insert t R) Q Z := by
  refine { hl with ready := ⟨xs, hc, htail, hmem⟩, queue := fun h => ?_, disjoint := ?_, readyRow := ?_ }
  · obtain ⟨ys, hy, hym⟩ := hl.queue h
    refine ⟨ys, hy.congr fun x hx => hnext x ?_ ?_, hym⟩
    · rintro rfl
      exact hQ h ((hym x).1 hx)
    · exact fun hR => hl.disjoint hR ((hym x).1 hx)
  · rintro x h (rfl | hx)
    · exact hQ h
    · exact hl.disjoint hx
  · rintro x (rfl | hx)
    · exact ht
    · exact hl.readyRow hx

/-- The first thread of the ready list, when it has one. -/
theorem Lists.ready_cons (hl : Lists k R Q Z) (htail : ¬ k.tail < 0) :
    ∃ xs, Chain k.next (-1) k.head (k.head :: xs) ∧
      k.tail = (k.head :: xs).getLast?.getD (-1) ∧ ∀ t, t ∈ k.head :: xs ↔ t ∈ R := by
  obtain ⟨xs, hc, ht, hmem⟩ := hl.ready
  cases xs with
  | nil =>
    rw [ht] at htail
    exact absurd (by decide) htail
  | cons x xs =>
    have hx : k.head = x := hc.seg.1
    subst hx
    exact ⟨xs, hc, ht, hmem⟩

/-- A ready list whose tail is negative is empty. -/
theorem Lists.ready_empty (hl : Lists k R Q Z) (htail : k.tail < 0) : ∀ t, t ∉ R := by
  obtain ⟨xs, hc, ht, hmem⟩ := hl.ready
  intro t hR
  have hne : xs ≠ [] := List.ne_nil_of_mem ((hmem t).2 hR)
  rw [List.getLast?_eq_some_getLast hne] at ht
  have hrow := hl.readyRow ((hmem _).1 (List.getLast_mem hne))
  obtain ⟨h1, -⟩ := hrow
  simp only [Option.getD_some] at ht
  omega

theorem getLast_splice {p : ℤ} {us ys : List ℤ} {d : ℤ} :
    (us ++ p :: t :: ys).getLast?.getD d = if ys = [] then t else (us ++ p :: ys).getLast?.getD d := by
  cases ys with
  | nil => simp
  | cons y ys => simp [List.getLast?_append, List.getLast?_cons]

/-- Where `scheduler_add_to_ready_list` puts a thread: behind the threads of high priority in front, or
at the end. -/
def insertReady (priority : ℤ → Priority) (xs : List ℤ) (t : ℤ) : List ℤ :=
  match priority t with
  | .high => xs.takeWhile (fun x => priority x == .high) ++ t :: xs.dropWhile fun x => priority x == .high
  | .normal => xs ++ [t]

/-- The ready list with a thread put in between. -/
theorem insertReady_high {priority : ℤ → Priority} {us ys : List ℤ} (ht : priority t = .high)
    (hus : ∀ x ∈ us, priority x = .high) (hys : ∀ y ∈ ys.head?, priority y ≠ .high) :
    insertReady priority (us ++ ys) t = us ++ t :: ys := by
  have htake : (us ++ ys).takeWhile (fun x => priority x == .high) = us := by
    rw [List.takeWhile_append_of_pos (by simpa using hus)]
    cases ys with
    | nil => simp
    | cons y ys =>
      have hy : priority y ≠ .high := hys y rfl
      simp [hy]
  have hdrop : (us ++ ys).dropWhile (fun x => priority x == .high) = ys := by
    rw [List.dropWhile_append_of_pos (by simpa using hus)]
    cases ys with
    | nil => simp
    | cons y ys =>
      have hy : priority y ≠ .high := hys y rfl
      simp [hy]
  rw [insertReady, ht]
  simp only [htake, hdrop]

/-- **`scheduler_add_to_ready_list`** puts a thread that is on no list on the ready list, and changes
no link of a thread that is not on it. -/
theorem Lists.addToReadyList (hl : Lists k R Q Z) (ht : Row t) (hR : t ∉ R) (hQ : ∀ h, t ∉ Q h) :
    ∃ next head tail, schedulerAddToReadyList k t =
        some { k with next := next, head := head, tail := tail } ∧
      Lists { k with next := next, head := head, tail := tail } (insert t R) Q Z ∧
      (∀ x, x ≠ t → x ∉ R → next x = k.next x) ∧
      ∀ zs, Chain k.next (-1) k.head zs → Chain next (-1) head (insertReady k.priority zs t) := by
  unfold schedulerAddToReadyList
  obtain ⟨ht1, ht2⟩ := ht
  have hne : t ≠ -1 := by omega
  have hidle : t ≠ IDLE_THREAD_TID := by
    simp only [IDLE_THREAD_TID]
    omega
  have hrange : ¬ ¬ (0 ≤ t ∧ t < CONFIG_MAX_THREADS) := by
    simp only [CONFIG_MAX_THREADS]
    omega
  rw [if_neg hidle, if_neg hrange]
  by_cases htail : k.tail < 0
  · have hempty := hl.ready_empty htail
    rw [if_pos htail]
    have hc : Chain (Function.update k.next t (-1)) (-1) t [t] :=
      (chain_empty k.next (-1)).push List.not_mem_nil hne
    refine ⟨_, _, _, rfl, hl.setReady ⟨ht1, ht2⟩ hQ hc rfl (fun x => ?_) (fun x hx _ => ?_), fun x hx _ => ?_,
      fun zs hz => ?_⟩
    · simp [hempty x]
    · exact Function.update_of_ne hx _ _
    · exact Function.update_of_ne hx _ _
    · obtain ⟨ys, hy, -, hym⟩ := hl.ready
      have hnil : zs = [] := by
        rw [hz.unique hy]
        exact List.eq_nil_iff_forall_not_mem.2 fun x hx => hempty x ((hym x).1 hx)
      subst hnil
      have hins : insertReady k.priority [] t = [t] := by
        unfold insertReady
        cases k.priority t with
        | normal => rfl
        | high => rfl
      rw [hins]
      exact hc
  rw [if_neg htail]
  obtain ⟨xs, hc, hlast, hmem⟩ := hl.ready_cons htail
  have htx : t ∉ k.head :: xs := fun hm => hR ((hmem t).1 hm)
  -- the thread goes behind the thread `p` of the list
  have hsplice : ∀ (tail : ℤ) {us ys : List ℤ} {p : ℤ}, k.head :: xs = us ++ p :: ys →
      tail = (if ys = [] then t else k.tail) →
      insertReady k.priority (us ++ p :: ys) t = us ++ p :: t :: ys → ∃ next head tail',
      (some { k with next := Function.update (Function.update k.next p t) t (k.next p), tail := tail } :
        Option KernelState) = some { k with next := next, head := head, tail := tail' } ∧
      Lists { k with next := next, head := head, tail := tail' } (insert t R) Q Z ∧
      (∀ x, x ≠ t → x ∉ R → next x = k.next x) ∧
      ∀ zs, Chain k.next (-1) k.head zs → Chain next (-1) head (insertReady k.priority zs t) := by
    intro tail us ys p heq htl hins
    rw [heq] at hc hlast hmem htx
    have hframe : ∀ x, x ≠ t → x ∉ R →
        Function.update (Function.update k.next p t) t (k.next p) x = k.next x := by
      intro x hx hxR
      rw [Function.update_of_ne hx, Function.update_of_ne]
      rintro rfl
      exact hxR ((hmem x).1 (by simp))
    refine ⟨_, _, _, rfl, hl.setReady ⟨ht1, ht2⟩ hQ (hc.splice htx hne) ?_ (fun x => ?_) hframe, hframe,
      fun zs hz => ?_⟩
    · rw [htl, getLast_splice, hlast]
    · rw [← hmem]
      simp only [List.mem_append, List.mem_cons]
      tauto
    · rw [hz.unique hc, hins]
      exact hc.splice htx hne
  cases hp : k.priority t with
  | normal =>
    simp only
    obtain ⟨us, p, heq⟩ : ∃ us p, k.head :: xs = us ++ [p] := by
      exact ⟨_, _, (List.dropLast_append_getLast (List.cons_ne_nil _ _)).symm⟩
    have hk : k.tail = p := by
      rw [hlast, heq]
      simp
    have hend : k.next p = -1 := by
      rw [heq] at hc
      exact hc.link_eq
    have := hsplice t heq (by simp) (by simp [insertReady, hp])
    rw [hend] at this
    rw [hk]
    exact this
  | high =>
    simp only
    cases hph : k.priority k.head with
    | normal =>
      simp only
      have hframe : ∀ x, x ≠ t → x ∉ R → Function.update k.next t k.head x = k.next x :=
        fun x hx _ => Function.update_of_ne hx _ _
      refine ⟨_, _, _, rfl, hl.setReady ⟨ht1, ht2⟩ hQ (hc.push htx hne) ?_ (fun x => ?_) hframe, hframe,
        fun zs hz => ?_⟩
      · rw [hlast]
        simp [List.getLast?_cons]
      · rw [List.mem_cons, hmem]
      · have hins : insertReady k.priority ([] ++ k.head :: xs) t = [] ++ t :: k.head :: xs := by
          refine insertReady_high hp (by simp) fun y hy => ?_
          cases hy
          rw [hph]
          decide
        rw [List.nil_append, List.nil_append] at hins
        rw [hz.unique hc, hins]
        exact hc.push htx hne
    | high =>
      simp only
      have hlen := length_lt_rounds hc fun x hx => hl.readyRow ((hmem x).1 hx)
      obtain ⟨pre, post, p, c, heq, hw, hpost, hpre, hgc, hprev⟩ :=
        walk_spec (fun next : ℤ => next != -1 && k.priority next == .high) ROUNDS
          k.head (by simp) hc.tail (by rw [List.length_cons] at hlen; omega)
      rw [hw]
      simp only
      have hus : ∃ us, k.head :: xs = us ++ p :: post ∧ us ++ [p] = k.head :: pre := by
        rcases hprev with ⟨rfl, rfl⟩ | ⟨pre', rfl⟩
        · exact ⟨[], by rw [heq]; rfl, rfl⟩
        · exact ⟨k.head :: pre', by rw [heq]; simp, rfl⟩
      obtain ⟨us, hus, hfront⟩ := hus
      have hnext : c = k.next p := by
        rw [hus] at hc
        rw [hc.link_eq, hpost.head]
      have hnil : c = -1 ↔ post = [] := by
        constructor
        · intro h1
          cases post with
          | nil => rfl
          | cons y ys => exact absurd (hpost.seg.1.symm.trans h1 ▸ List.mem_cons_self) hpost.end_notMem
        · rintro rfl
          exact hpost.head
      -- the threads in front have high priority, the one behind has not
      have hins : insertReady k.priority (us ++ p :: post) t = us ++ p :: t :: post := by
        have hsplit : us ++ p :: post = (k.head :: pre) ++ post := by
          rw [← hfront]
          simp
        have hsplit' : us ++ p :: t :: post = (k.head :: pre) ++ t :: post := by
          rw [← hfront]
          simp
        rw [hsplit, hsplit']
        refine insertReady_high hp (fun x hx => ?_) fun y hy => ?_
        · rcases List.mem_cons.1 hx with rfl | hx
          · exact hph
          · have hgo := hpre x hx
            simp only [Bool.and_eq_true, beq_iff_eq] at hgo
            exact hgo.2
        · have hc' := hpost.head
          cases post with
          | nil => cases hy
          | cons z zs =>
            cases hy
            simp only [List.head?_cons, Option.getD_some] at hc'
            rw [hc'] at hgc
            intro hhigh
            simp only [hhigh, beq_self_eq_true, Bool.and_true, bne_eq_false_iff_eq] at hgc
            exact hpost.end_notMem (by rw [hgc]; exact List.mem_cons_self)
      have := hsplice (if c = -1 then t else k.tail) hus (by simp only [hnil]) hins
      rw [hnext] at this ⊢
      exact this

/-- `scheduler_remove_first_ready` on an empty ready list. -/
theorem Lists.removeFirst_empty (hl : Lists k R Q Z) (hempty : ∀ t, t ∉ R) :
    schedulerRemoveFirstReady k = some (IDLE_THREAD_TID, k) := by
  obtain ⟨xs, hc, -, hmem⟩ := hl.ready
  have hnil : xs = [] := List.eq_nil_iff_forall_not_mem.2 fun x hx => hempty x ((hmem x).1 hx)
  subst hnil
  have hhead : k.head = -1 := hc.seg
  unfold schedulerRemoveFirstReady
  rw [if_neg (by rw [hhead]; decide), if_neg (by rw [hhead]; decide)]

/-- **`scheduler_remove_first_ready`** takes the first thread off the ready list. -/
theorem removeFirst_cons (hc : Chain k.next (-1) k.head (t :: xs)) (hlast : k.tail = (t :: xs).getLast?.getD (-1))
    (ht : Row t) (hready : k.state t = .ready) :
    ∃ head tail, schedulerRemoveFirstReady k = some (t, { k with head := head, tail := tail }) ∧
      Chain k.next (-1) head xs ∧ tail = xs.getLast?.getD (-1) := by
  have hhead : k.head = t := hc.seg.1
  obtain ⟨h1, -⟩ := ht
  have hnot : t ∉ xs := (List.nodup_cons.1 hc.nodup).1
  have hidle : k.head ≠ IDLE_THREAD_TID := by
    simp only [IDLE_THREAD_TID]
    omega
  unfold schedulerRemoveFirstReady
  rw [if_neg hidle, if_pos (by omega), hhead, if_neg (not_not.2 hready)]
  refine ⟨_, _, rfl, hc.tail, ?_⟩
  rw [hlast]
  cases xs with
  | nil => simp
  | cons y ys =>
    have hlt : (y :: ys).getLast?.getD (-1) ≠ t := by
      rw [List.getLast?_eq_some_getLast (List.cons_ne_nil _ _), Option.getD_some]
      rintro rfl
      exact hnot (List.getLast_mem _)
    rw [List.getLast?_cons_cons, if_neg hlt]

/-- **`scheduler_remove_first_ready`** takes one thread off the ready list. -/
theorem Lists.removeFirst (hl : Lists k R Q Z) (hready : ∀ t ∈ R, k.state t = .ready)
    (hne : ∃ t, t ∈ R) :
    ∃ t head tail, t ∈ R ∧
      schedulerRemoveFirstReady k = some (t, { k with head := head, tail := tail }) ∧
      Lists { k with head := head, tail := tail } (R \ {t}) Q Z := by
  obtain ⟨xs, hc, hlast, hmem⟩ := hl.ready
  obtain ⟨t0, ht0⟩ := hne
  cases xs with
  | nil => exact absurd ((hmem t0).2 ht0) List.not_mem_nil
  | cons t xs =>
    have ht : t ∈ R := (hmem t).1 List.mem_cons_self
    have hnot : t ∉ xs := (List.nodup_cons.1 hc.nodup).1
    obtain ⟨head, tail, hk, hc', htail⟩ := removeFirst_cons hc hlast (hl.readyRow ht) (hready t ht)
    have hdisj : ∀ {x h}, x ∈ R \ {t} → x ∉ Q h := fun hx => hl.disjoint hx.1
    have hrow : ∀ {x}, x ∈ R \ {t} → Row x := fun hx => hl.readyRow hx.1
    refine ⟨t, head, tail, ht, hk,
      { hl with ready := ⟨xs, hc', htail, fun x => ?_⟩, disjoint := hdisj, readyRow := hrow }⟩
    rw [Set.mem_sdiff, Set.mem_singleton_iff, ← hmem, List.mem_cons]
    constructor
    · intro hx
      refine ⟨Or.inr hx, ?_⟩
      rintro rfl
      exact hnot hx
    · rintro ⟨rfl | hx, h2⟩
      · exact absurd rfl h2
      · exact hx

end Links

/-! ## The chains of the sleep queue -/

section Queues

variable {k : KernelState} {R Z : Set ℤ} {Q : ℕ → Set ℤ} {t : ℤ} {h : ℕ}

/-- The loops over a bucket stand between the threads `pre` and the threads `post` of its chain. -/
structure Cursor (k : KernelState) (h : ℕ) (prev first : ℤ) (pre post : List ℤ) : Prop where
  chain : Chain k.next (-1) (k.sleepqHashtable h) (pre ++ post)
  first : first = post.head?.getD (-1)
  prev : (pre = [] ∧ prev = -1) ∨ ∃ pre', pre = pre' ++ [prev]

/-- The loop over a bucket starts at its first thread. -/
theorem Lists.cursor (hl : Lists k R Q Z) (h : ℕ) :
    ∃ post, Cursor k h (-1) (k.sleepqHashtable h) [] post ∧ ∀ t, t ∈ post ↔ t ∈ Q h := by
  obtain ⟨xs, hc, hmem⟩ := hl.queue h
  exact ⟨xs, ⟨hc, hc.head, Or.inl ⟨rfl, rfl⟩⟩, hmem⟩

/-- A new chain for one bucket that leaves the links of all other threads alone. -/
theorem Lists.setQueue (hl : Lists k R Q Z) {S : Set ℤ} {ys : List ℤ} {next : ℤ → ℤ} {table : ℕ → ℤ}
    (hnew : Chain next (-1) (table h) ys) (hmem : ∀ x, x ∈ ys ↔ x ∈ S)
    (htable : ∀ h', h' ≠ h → table h' = k.sleepqHashtable h')
    (hnext : ∀ x, x ∉ Q h → next x = k.next x)
    (hS : ∀ x ∈ S, x ∈ Q h ∨ (Row x ∧ x ∉ R ∧ ∀ h', x ∉ Q h')) :
    Lists { k with next := next, sleepqHashtable := table } R (Function.update Q h S) Z := by
  have hsub : ∀ {x h'}, x ∈ Function.update Q h S h' →
      x ∈ Q h' ∨ (h' = h ∧ Row x ∧ x ∉ R ∧ ∀ h', x ∉ Q h') := by
    intro x h' hx
    by_cases hh : h' = h
    · subst hh
      rw [Function.update_self] at hx
      exact (hS x hx).imp id fun hx => ⟨rfl, hx⟩
    · rw [Function.update_of_ne hh] at hx
      exact Or.inl hx
  refine { hl with ready := ?_, queue := fun h' => ?_, disjoint := ?_, queues := ?_, queueRow := ?_ }
  · obtain ⟨xs, h1, h2, h3⟩ := hl.ready
    exact ⟨xs, h1.congr fun x hx => hnext x (hl.disjoint ((h3 x).1 hx)), h2, h3⟩
  · by_cases hh : h' = h
    · subst hh
      rw [Function.update_self]
      exact ⟨_, hnew, hmem⟩
    · obtain ⟨xs, h1, h2⟩ := hl.queue h'
      rw [Function.update_of_ne hh]
      refine ⟨xs, ?_, h2⟩
      simp only
      rw [htable h' hh]
      exact h1.congr fun x hx => hnext x fun hx' => hh (hl.queues ((h2 x).1 hx) hx')
  · intro x h' hx hq
    rcases hsub hq with hq | ⟨-, -, hq, -⟩
    · exact hl.disjoint hx hq
    · exact hq hx
  · intro x h1 h2 hx1 hx2
    rcases hsub hx1 with hq1 | ⟨he1, -, -, hno⟩
    · rcases hsub hx2 with hq2 | ⟨-, -, -, hno⟩
      · exact hl.queues hq1 hq2
      · exact absurd hq1 (hno h1)
    · rcases hsub hx2 with hq2 | ⟨he2, -⟩
      · exact absurd hq2 (hno h2)
      · rw [he1, he2]
  · intro x h' hx
    rcases hsub hx with hx | ⟨-, hx, -⟩
    · exact hl.queueRow hx
    · exact hx

/-- **Taking a thread out of its chain**, before its own fields are set. -/
theorem Lists.unlinkQueue (hl : Lists k R Q Z) {prev first : ℤ} {pre post : List ℤ}
    (hc : Cursor k h prev first pre (first :: post)) (hmem : ∀ t, t ∈ pre ++ first :: post ↔ t ∈ Q h) :
    ∃ next table, (if prev ≤ 0 then
        { k with sleepqHashtable := Function.update k.sleepqHashtable h (k.next first) }
        else { k with next := Function.update k.next prev (k.next first) }) =
        { k with next := next, sleepqHashtable := table } ∧
      Lists { k with next := next, sleepqHashtable := table } R (Function.update Q h (Q h \ {first})) Z ∧
      Chain next (-1) (table h) (pre ++ post) ∧ (∀ h', h' ≠ h → table h' = k.sleepqHashtable h') ∧
      ∀ x, x ∉ Q h → next x = k.next x := by
  have hnd := hc.chain.nodup
  have hmem' : ∀ t, t ∈ pre ++ post ↔ t ∈ Q h \ {first} := by
    intro t
    rw [Set.mem_sdiff, Set.mem_singleton_iff, ← hmem]
    have hnot : first ∉ pre ++ post := (List.nodup_cons.1 (List.nodup_middle.1 hnd)).1
    simp only [List.mem_append, List.mem_cons]
    constructor
    · intro ht
      refine ⟨by tauto, ?_⟩
      rintro rfl
      exact hnot (List.mem_append.2 ht)
    · tauto
  have hS : ∀ x ∈ Q h \ {first}, x ∈ Q h ∨ (Row x ∧ x ∉ R ∧ ∀ h', x ∉ Q h') :=
    fun x hx => Or.inl hx.1
  rcases hc.prev with ⟨rfl, rfl⟩ | ⟨pre', rfl⟩
  · rw [if_pos (by decide)]
    have hnew : Chain k.next (-1) (Function.update k.sleepqHashtable h (k.next first) h) ([] ++ post) := by
      rw [Function.update_self]
      exact hc.chain.tail
    exact ⟨_, _, rfl, hl.setQueue hnew hmem' (fun h' hh => Function.update_of_ne hh _ _) (fun _ _ => rfl)
      hS, hnew, fun h' hh => Function.update_of_ne hh _ _, fun _ _ => rfl⟩
  · have hprev : prev ∈ Q h := (hmem prev).1 (by simp)
    obtain ⟨hpos, -⟩ := hl.queueRow hprev
    rw [if_neg (by omega)]
    have hch : Chain k.next (-1) (k.sleepqHashtable h) (pre' ++ prev :: first :: post) := by
      have := hc.chain
      rwa [List.append_assoc] at this
    have hnew := hch.unlink
    rw [show pre' ++ prev :: post = pre' ++ [prev] ++ post by simp] at hnew
    have hframe : ∀ x, x ∉ Q h → Function.update k.next prev (k.next first) x = k.next x := by
      intro x hx
      refine Function.update_of_ne ?_ _ _
      rintro rfl
      exact hx hprev
    exact ⟨_, _, rfl, hl.setQueue hnew hmem' (fun _ _ => rfl) hframe hS, hnew, fun _ _ => rfl, hframe⟩

/-- **Putting a thread** that is on no list and has no successor **at the end of a chain**. -/
theorem Lists.appendToQueue (hl : Lists k R Q Z) (ht : Row t) (hR : t ∉ R) (hQ : ∀ h, t ∉ Q h)
    (hend : k.next t = -1) :
    ∃ next table, appendToQueue k h t = some { k with next := next, sleepqHashtable := table } ∧
      Lists { k with next := next, sleepqHashtable := table } R
        (Function.update Q h (insert t (Q h))) Z ∧
      (∀ xs, Chain k.next (-1) (k.sleepqHashtable h) xs → Chain next (-1) (table h) (xs ++ [t])) ∧
      (∀ h', h' ≠ h → table h' = k.sleepqHashtable h') ∧ ∀ x, x ∉ Q h → next x = k.next x := by
  unfold Kernel.appendToQueue
  obtain ⟨xs, hc, hmem⟩ := hl.queue h
  have htx : t ∉ xs := fun hm => hQ h ((hmem t).1 hm)
  have hmem' : ∀ x, x ∈ xs ++ [t] ↔ x ∈ insert t (Q h) := by
    intro x
    rw [List.mem_append, List.mem_singleton, hmem, or_comm]
    rfl
  have hS : ∀ x ∈ insert t (Q h), x ∈ Q h ∨ (Row x ∧ x ∉ R ∧ ∀ h', x ∉ Q h') := by
    rintro x (rfl | hx)
    · exact Or.inr ⟨ht, hR, hQ⟩
    · exact Or.inl hx
  cases xs with
  | nil =>
    have hhead : k.sleepqHashtable h = -1 := hc.seg
    rw [if_pos (by rw [hhead]; decide)]
    have hnew : Chain k.next (-1) (Function.update k.sleepqHashtable h t h) ([] ++ [t]) := by
      rw [Function.update_self]
      exact ⟨⟨rfl, hend⟩, by simpa using ht.ne_end.symm⟩
    refine ⟨_, _, rfl, hl.setQueue hnew hmem' (fun h' hh => Function.update_of_ne hh _ _) (fun _ _ => rfl)
      hS, fun zs hz => ?_, fun h' hh => Function.update_of_ne hh _ _, fun _ _ => rfl⟩
    rw [hz.unique hc]
    exact hnew
  | cons x xs =>
    have hhead : k.sleepqHashtable h = x := hc.seg.1
    have hrow : ∀ y ∈ x :: xs, Row y := fun y hy => hl.queueRow ((hmem y).1 hy)
    obtain ⟨hpos, -⟩ := hrow x List.mem_cons_self
    rw [if_neg (by omega), hhead]
    have hlen := length_lt_rounds hc hrow
    obtain ⟨pre, post, p, c, heq, hw, hpost, -, hgc, hp⟩ :=
      walk_spec (fun next : ℤ => decide (0 < next)) ROUNDS x (by decide) hc.tail
        (by rw [List.length_cons] at hlen; omega)
    -- every thread of the chain has a positive number: the walk goes to the end
    have hnil : post = [] := by
      cases post with
      | nil => rfl
      | cons y ys =>
        obtain ⟨hy, -⟩ := hrow y (by rw [heq]; simp)
        have hcy : c = y := hpost.seg.1
        rw [hcy] at hgc
        simp only [decide_eq_false_iff_not] at hgc
        exact absurd hy hgc
    subst hnil
    obtain ⟨us, hus⟩ : ∃ us, x :: xs = us ++ [p] := by
      rcases hp with ⟨rfl, rfl⟩ | ⟨pre', rfl⟩
      · exact ⟨[], by rw [heq]; rfl⟩
      · exact ⟨x :: pre', by rw [heq]; simp⟩
    have hpm : p ∈ x :: xs := by rw [hus]; simp
    rw [hw]
    have hframe : ∀ y, y ∉ Q h → Function.update k.next p t y = k.next y := by
      intro y hy
      refine Function.update_of_ne ?_ _ _
      rintro rfl
      exact hy ((hmem y).1 hpm)
    have hnew : Chain (Function.update k.next p t) (-1) (k.sleepqHashtable h) ((x :: xs) ++ [t]) := by
      have hpt : t ≠ p := by
        rintro rfl
        exact htx hpm
      rw [hus] at hc htx ⊢
      have hsplice := hc.splice htx ht.ne_end
      have hself : Function.update (Function.update k.next p t) t (k.next p) = Function.update k.next p t := by
        rw [hc.link_eq]
        refine Function.update_eq_self_iff.2 ?_
        rw [Function.update_of_ne hpt, hend]
        rfl
      rw [hself] at hsplice
      simpa using hsplice
    refine ⟨_, _, rfl, hl.setQueue hnew hmem' (fun _ _ => rfl) hframe hS, fun zs hz => ?_, fun _ _ => rfl, hframe⟩
    rw [hhead] at hc hnew ⊢
    rw [hz.unique hc]
    exact hnew

end Queues

end Buenos.Kernel

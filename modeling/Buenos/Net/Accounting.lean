import Buenos.Net.Delivery

/-!
# Every accepted frame is accounted for

Who frees the frames of the POP queue, and why they leave it, over all runs of the receivers, the network
threads and the service thread.

* `Books` — the system with the pages whose frames have been accepted and not freed since.
* `Accounted` — such a page is the frame of exactly one slot, and there are no others in the queue.
* `Right` — what a step must observe: it frees only such pages, each of them once, and a frame leaves its
  slot for one of three reasons (`Reason`).
* `Undisturbed` — the condition on an eviction: the service thread is not about to discard the frame, and
  the clock has not wrapped since another slot was filled.
* `Unheard` — the condition on a scan: a frame whose recipient has been closed has no other one.
* `Balanced` — the invariant.

Principal results: `pop_frames` — under the condition the books balance in every run, and
`pop_freed_twice`, an eviction after which a page is freed twice and a new frame is dropped.
-/

namespace Buenos.Pop

open Transition

/-! ## The books -/

variable {τ : Type}

/-- The page whose frame a step of `pop_push_frame` or of the service thread passes to
`network_free_frame`. -/
def frees (s : State τ) : Action τ → Option Page
  | .pushFrame _ _ now _ => (pushSlot s.queue now).bind fun k => (s.queue k).frame
  | .serviceAct => match s.service with
    | .scanning => none
    | .discarding _ f => some f
    | .transferring _ f => some f
  | _ => none

/-- The page whose frame `pop_push_frame` accepts in the step. -/
def accepts (s : State τ) : Action τ → Option Page
  | .pushFrame p _ now _ => (pushSlot s.queue now).map fun _ => p
  | _ => none

/-- The system and the pages with a frame that was accepted and has not been freed. -/
structure Books (τ : Type) where
  sys : State τ
  live : Page → Bool

def Books.init (τ : Type) : Books τ := ⟨State.init τ, fun _ => false⟩

/-- The books after a step of the system. -/
def Books.entered (b : Books τ) (a : Action τ) (s' : State τ) : Books τ where
  sys := s'
  live p := decide (accepts b.sys a = some p) || b.live p && decide (frees b.sys a ≠ some p)

def Books.step [DecidableEq τ] (b : Books τ) (a : Action τ) : Option (Books τ) :=
  (Pop.step b.sys a).map (b.entered a)

/-! ## The property -/

/-- An accepted frame that has not been freed is the frame of exactly one slot. -/
structure Accounted (b : Books τ) : Prop where
  queued : ∀ p, b.live p = true → ∃ k, (b.sys.queue k).frame = some p ∧
    ∀ k', (b.sys.queue k').frame = some p → k' = k
  live : ∀ k p, (b.sys.queue k).frame = some p → b.live p = true

/-- The slot is the oldest one that is not busy, and old enough, and no slot is free. -/
structure Oldest (queue : Slot → QueueSlot) (now : UInt32) (k : Slot) : Prop where
  full : ∀ k', (queue k').frame ≠ none
  idle : (queue k).busy = false
  oldest : ∀ k', (queue k').busy = false → now - (queue k').timestamp ≤ now - (queue k).timestamp
  aged : POP_QUEUE_MIN_AGE ≤ now - (queue k).timestamp

/-- No socket is open for the port of the frame in page `p`. -/
def LacksRecipient (s : State τ) (p : Page) : Prop :=
  ∀ j, (s.sockets j).protocol = PROTOCOL_POP → (s.sockets j).port ≠ (s.pages p).destPort

/-- Why the frame in page `p` leaves slot `k` in the step from `s` to `s'`. -/
inductive Reason [DecidableEq τ] (s s' : State τ) (k : Slot) (p : Page) : Action τ → Prop
  | delivered {j : Sock} : s.service = .transferring k p → (s.queue k).socket = some j →
      deliver s (s.sockets j) (s.queue k).fromAddr (s.pages p) = some s'.vars →
      Reason s s' k p .serviceAct
  | discarded : s.service = .discarding k p → Reason s s' k p .serviceAct
  | evicted {p' : Page} {fromAddr now now' : UInt32} : Oldest s.queue now k →
      Reason s s' k p (.pushFrame p' fromAddr now now')

/-- What a step of the system from the books `b` to the state `s'` must observe. -/
structure Right [DecidableEq τ] (b : Books τ) (a : Action τ) (s' : State τ) : Prop where
  /-- a frame is freed once for each time it is accepted -/
  freed : ∀ p, frees b.sys a = some p → b.live p = true
  accepted : ∀ p, accepts b.sys a = some p → b.live p = false
  /-- and not by the network threads -/
  kept : ∀ p, a = .giveBack p → b.live p = false
  removed : ∀ k p, (b.sys.queue k).frame = some p → (s'.queue k).frame ≠ some p →
    frees b.sys a = some p ∧ Reason b.sys s' k p a
  /-- the service thread gives a frame up only for lack of a recipient -/
  givenUp : ∀ k p, s'.service = .discarding k p →
    b.sys.service = .discarding k p ∨ LacksRecipient s' p

/-- **What every step must observe.** -/
def StepsRight [DecidableEq τ] (b : Books τ) (a : Action τ) : Prop :=
  ∀ s', Pop.step b.sys a = some s' → Right b a s'

/-- Slot `k` can be evicted: it is not being discarded, and no other slot was filled before the clock
wrapped and `k` after it. -/
def Undisturbed (s : State τ) (now : UInt32) (k : Slot) : Prop :=
  KeepsClear (some k) s.service ∧ ∀ k', (s.queue k').busy = false →
    (s.queue k).timestamp ≤ now → (s.queue k').timestamp ≤ now

/-- The loop of the service thread passes over the slot: it is empty, or its recipient is open and nobody waits in
`socket_recvfrom`. -/
def PassesOver (s : State τ) (k : Slot) : Prop :=
  ∀ f ∈ (s.queue k).frame, ∃ j ∈ matchSocket s.sockets (s.queue k) (s.pages f),
    (s.sockets j).protocol = PROTOCOL_POP ∧ (s.sockets j).rbuf = none

/-- If the loop comes to slot `k` and the recipient of its frame has been closed, no socket is open for its port. -/
def Unheard (s : State τ) (k : Slot) : Prop :=
  (∀ k' < k, PassesOver s k') → ∀ f ∈ (s.queue k).frame, ∀ j ∈ (s.queue k).socket,
    (s.sockets j).protocol ≠ PROTOCOL_POP → LacksRecipient s f

/-- **The condition on a step.** -/
def RemovesRightly (b : Books τ) : Action τ → Prop
  | .pushFrame _ _ now _ => ∀ k, pushSlot b.sys.queue now = some k → (b.sys.queue k).frame ≠ none →
      Undisturbed b.sys now k
  | .serviceScan => ∀ k, Unheard b.sys k
  | _ => True

instance (s : State τ) (now : UInt32) (k : Slot) : Decidable (Undisturbed s now k) :=
  inferInstanceAs (Decidable (_ ∧ ∀ _, _ → _ → _))

instance (s : State τ) (p : Page) : Decidable (LacksRecipient s p) := inferInstanceAs (Decidable (∀ _, _ → _))

instance (s : State τ) (k : Slot) : Decidable (PassesOver s k) :=
  inferInstanceAs (Decidable (∀ f ∈ (s.queue k).frame, ∃ j ∈ matchSocket s.sockets (s.queue k) (s.pages f), _ ∧ _))

instance (s : State τ) (k : Slot) : Decidable (Unheard s k) :=
  inferInstanceAs (Decidable ((∀ k' < k, _) → ∀ f ∈ (s.queue k).frame, ∀ j ∈ (s.queue k).socket, _ → _))

instance (b : Books τ) : ∀ a, Decidable (RemovesRightly b a)
  | .pushFrame _ _ _ _ => inferInstanceAs (Decidable (∀ _, _ → _ → _))
  | .serviceScan => inferInstanceAs (Decidable (∀ _, _))
  | .socketOpen _ _ _ => isTrue trivial
  | .socketRecvfrom _ _ _ => isTrue trivial
  | .socketClose _ => isTrue trivial
  | .awaitComplete _ => isTrue trivial
  | .finish _ => isTrue trivial
  | .receive _ _ => isTrue trivial
  | .giveBack _ => isTrue trivial
  | .serviceAct => isTrue trivial

/-! ## The searches -/

/-- If the loop of `pop_push_frame` finds no free slot, there is none. -/
theorem chooseSlots_full (queue : Slot → QueueSlot) :
    ∀ (ks : List Slot) (free oldest : Option Slot), (chooseSlots queue ks (free, oldest)).1 = none →
      free = none ∧ ∀ k ∈ ks, (queue k).frame ≠ none
  | [], _, _, h => ⟨h, fun _ hk => absurd hk List.not_mem_nil⟩
  | k :: ks, free, oldest, h => by
    unfold chooseSlots at h
    obtain ⟨hfree, hrest⟩ := chooseSlots_full queue ks _ _ h
    split_ifs at hfree with hk
    refine ⟨hfree, fun k' hk' => ?_⟩
    obtain rfl | hk' := List.mem_cons.1 hk'
    · exact fun hn => hk ⟨hfree, hn⟩
    · exact hrest k' hk'

/-- The slot that it takes for the oldest has the least timestamp. -/
theorem chooseSlots_oldest (queue : Slot → QueueSlot) :
    ∀ (ks : List Slot) (free oldest : Option Slot) {o : Slot},
      (chooseSlots queue ks (free, oldest)).2 = some o →
      (∀ k ∈ oldest, (queue o).timestamp ≤ (queue k).timestamp) ∧
        ∀ k ∈ ks, (queue k).busy = false → (queue o).timestamp ≤ (queue k).timestamp
  | [], _, _, o, h => by
    refine ⟨fun k hk => ?_, fun _ hk => absurd hk List.not_mem_nil⟩
    cases h.symm.trans hk
    exact UInt32.le_refl _
  | k :: ks, free, oldest, o, h => by
    unfold chooseSlots at h
    obtain ⟨hold, hrest⟩ := chooseSlots_oldest queue ks _ _ h
    have hboth : (∀ k' ∈ oldest, (queue o).timestamp ≤ (queue k').timestamp) ∧
        ((queue k).busy = false → (queue o).timestamp ≤ (queue k).timestamp) := by
      cases oldest with
      | none =>
        refine ⟨fun _ h => absurd h (by simp), fun hb => hold k ?_⟩
        simp [hb]
      | some k0 =>
        by_cases hk : (queue k).busy = false ∧ (queue k).timestamp < (queue k0).timestamp
        · have hle : (queue o).timestamp ≤ (queue k).timestamp := hold k (by simp [hk])
          refine ⟨fun k' hk' => ?_, fun _ => hle⟩
          cases hk'
          exact UInt32.le_trans hle (UInt32.le_of_lt hk.2)
        · have hle : (queue o).timestamp ≤ (queue k0).timestamp := hold k0 (by simp [hk])
          refine ⟨fun k' hk' => ?_, fun hb => UInt32.le_trans hle ?_⟩
          · cases hk'
            exact hle
          · exact UInt32.not_lt.1 fun hlt => hk ⟨hb, hlt⟩
    refine ⟨hboth.1, fun k' hk' hb => ?_⟩
    obtain rfl | hk' := List.mem_cons.1 hk'
    · exact hboth.2 hb
    · exact hrest k' hk' hb

/-- With one turn of the clock, the least timestamp is the greatest age. -/
theorem age_le {now older newer : UInt32} (hle : older ≤ newer) (hturn : older ≤ now → newer ≤ now) :
    now - newer ≤ now - older := by
  rw [UInt32.le_iff_toNat_le] at *
  rw [UInt32.le_iff_toNat_le] at hturn
  rw [UInt32.toNat_sub, UInt32.toNat_sub]
  have := now.toNat_lt
  have := older.toNat_lt
  have := newer.toNat_lt
  omega

/-- **An eviction takes the oldest slot.** -/
theorem pushSlot_oldest {s : State τ} {now : UInt32} {k : Slot} (hk : pushSlot s.queue now = some k)
    (hfull : (s.queue k).frame ≠ none) (hc : Undisturbed s now k) : Oldest s.queue now k := by
  have hnone := chooseSlots_full s.queue (List.finRange POP_QUEUE_SIZE) none none
  have hleast := @chooseSlots_oldest s.queue (List.finRange POP_QUEUE_SIZE) none none
  have hspec := chooseSlots_spec s.queue (List.finRange POP_QUEUE_SIZE) none none (by simp) (by simp)
  unfold pushSlot at hk
  generalize chooseSlots s.queue (List.finRange POP_QUEUE_SIZE) (none, none) = c at hk hnone hleast hspec
  obtain ⟨free, oldest⟩ := c
  cases free with
  | some i =>
    cases hk
    exact absurd (hspec.1 _ rfl) hfull
  | none =>
    cases oldest with
    | none => cases hk
    | some o =>
      dsimp only at hk
      split_ifs at hk with hage
      cases hk
      refine ⟨fun k' => (hnone rfl).2 k' (List.mem_finRange k'), hspec.2 _ rfl, fun k' hb => ?_, ?_⟩
      · exact age_le ((hleast rfl).2 k' (List.mem_finRange k') hb) (hc.2 k' hb)
      · exact UInt32.not_lt.1 hage

/-- A frame whose recipient is looked for in vain is one that no socket is open for. -/
theorem matchSocket_none {s : State τ} {e : QueueSlot} {f : Page} (h : matchSocket s.sockets e (s.pages f) = none) :
    LacksRecipient s f := by
  intro j hp hport
  rw [matchSocket] at h
  cases hs : e.socket with
  | some _ =>
    rw [hs] at h
    cases h
  | none =>
    rw [hs] at h
    have hno := List.find?_eq_none.1 h j (List.mem_finRange j)
    simp [hp, hport] at hno

/-- What the loop of the service thread settles on lacks a recipient, if it is to be discarded: the slots before the
rest `ks` of the queue have been passed over. -/
theorem scan_lacksRecipient {s : State τ} (hc : ∀ k, Unheard s k) :
    ∀ (ks : List Slot) (queue : Slot → QueueSlot) {k : Slot} {p : Page}, ks.Pairwise (· < ·) →
      (∀ k', k' ∈ ks ∨ PassesOver s k') → (∀ k' ∈ ks, queue k' = s.queue k') →
      (scan s.sockets s.pages ks queue).2 = .discarding k p → LacksRecipient s p
  | [], _, _, _, _, _, _, h => by cases h
  | k :: ks, queue, k', p, hsorted, hpassed, hsame, h => by
    obtain ⟨hlt, hrest⟩ := List.pairwise_cons.1 hsorted
    have hk : queue k = s.queue k := hsame k List.mem_cons_self
    -- the loop goes on behind `k`, whatever it has written there
    have hnext : PassesOver s k → ∀ q : Slot → QueueSlot, (∀ i, i ≠ k → q i = queue i) →
        (scan s.sockets s.pages ks q).2 = .discarding k' p → LacksRecipient s p := by
      intro hpass q hq
      refine scan_lacksRecipient hc ks q hrest (fun i => ?_) fun i hi => ?_
      · obtain hi | hi := hpassed i
        · obtain rfl | hi := List.mem_cons.1 hi
          · exact .inr hpass
          · exact .inl hi
        · exact .inr hi
      · rw [hq i (hlt i hi).ne', hsame i (List.mem_cons_of_mem k hi)]
    have hbefore : ∀ i < k, PassesOver s i := by
      intro i hi
      obtain hmem | hpass := hpassed i
      · obtain rfl | hmem := List.mem_cons.1 hmem
        · exact absurd hi (lt_irrefl i)
        · exact absurd hi (hlt i hmem).not_gt
      · exact hpass
    cases hf : (queue k).frame with
    | none =>
      simp only [scan, hf] at h
      refine hnext (fun f hfk => ?_) queue (fun _ _ => rfl) h
      rw [← hk, hf] at hfk
      cases hfk
    | some f =>
      cases hj : matchSocket s.sockets (queue k) (s.pages f) with
      | none =>
        simp only [scan, hf, hj] at h
        cases h
        exact matchSocket_none hj
      | some j =>
        simp only [scan, hf, hj] at h
        split_ifs at h with hp hr
        · cases h
          cases hs : (queue k).socket with
          | none =>
            -- a socket that has just been found is open
            rw [matchSocket, hs] at hj
            have hfound := List.find?_some hj
            simp only [decide_eq_true_eq] at hfound
            exact absurd hfound.1 hp
          | some j' =>
            rw [matchSocket, hs] at hj
            cases hj
            exact hc k hbefore p (by rw [← hk]; exact hf) j (by rw [← hk]; exact hs) hp
        · refine hnext (fun f' hf' => ?_) _ (fun i hi => Function.update_of_ne hi _ _) h
          rw [← hk, hf] at hf'
          cases hf'
          rw [← hk]
          exact ⟨j, hj, not_not.1 hp, by simpa using hr⟩

/-! ## The invariant -/

/-- **The invariant**: exactly the pages in the queue are live. -/
structure Balanced (b : Books τ) : Prop where
  pages : Pages b.sys
  attends : Attends b.sys.queue b.sys.service
  live : ∀ p, b.live p = true ↔ ∃ k, (b.sys.queue k).frame = some p

theorem Balanced.accounted {b : Books τ} (hb : Balanced b) : Accounted b where
  queued := by
    intro p hp
    obtain ⟨k, hk⟩ := (hb.live p).1 hp
    exact ⟨k, hk, fun k' hk' => hb.pages.once hk' hk⟩
  live := fun k p hk => (hb.live p).2 ⟨k, hk⟩

/-- A page that a network thread may write to is not live. -/
theorem Balanced.not_live {b : Books τ} (hb : Balanced b) {p : Page}
    (hp : b.sys.reserved p = false ∨ b.sys.held p = true) : b.live p = false := by
  by_contra hlive
  obtain ⟨k, hk⟩ := (hb.live p).1 (by simpa using hlive)
  exact hb.pages.not_queued hp hk rfl

theorem entered_live {b : Books τ} {a : Action τ} {s' : State τ} {p : Page} :
    (b.entered a s').live p = true ↔
      accepts b.sys a = some p ∨ b.live p = true ∧ frees b.sys a ≠ some p := by
  simp [Books.entered]

/-- Nothing of the queue and the pages is different. -/
structure SameQueue (s s' : State τ) : Prop where
  queue : s'.queue = s.queue
  pages : s'.pages = s.pages
  reserved : s'.reserved = s.reserved
  held : s'.held = s.held
  accepted : s'.accepted = s.accepted
  service : s'.service = s.service

/-- The steps of the sockets and of the threads that receive. -/
def Action.ofSockets : Action τ → Bool
  | .socketOpen _ _ _ => true
  | .socketClose _ => true
  | .socketRecvfrom _ _ _ => true
  | .awaitComplete _ => true
  | .finish _ => true
  | _ => false

/-! ## The frames of a step -/

theorem Pages.same {s s' : State τ} (hs : Pages s) (h : SameQueue s s') : Pages s' := by
  obtain ⟨hq, hp, hr, hh, ha, -⟩ := h
  refine ⟨?_, ?_, ?_, ?_, ?_⟩
  · rw [hq, hr]
    exact hs.reserved
  · rw [hq, hh]
    exact hs.unheld
  · rw [hq, hp, ha]
    exact hs.accepted
  · rw [hq]
    exact hs.once
  · rw [hh, hr]
    exact hs.held

/-- A step that moves no frame: the books stay as they are. -/
theorem Balanced.quiet {b : Books τ} {a : Action τ} {s' : State τ} (hb : Balanced b)
    (ha : accepts b.sys a = none) (hf : frees b.sys a = none)
    (hq : ∀ k, (s'.queue k).frame = (b.sys.queue k).frame) (hpages : Pages s')
    (hatt : Attends s'.queue s'.service) : Balanced (b.entered a s') := by
  refine ⟨hpages, hatt, fun p => ?_⟩
  rw [entered_live, ha, hf]
  show _ ↔ ∃ k, (s'.queue k).frame = some p
  simp only [hq]
  rw [← hb.live p]
  simp

/-- The slot `k` loses its frame, which is freed. -/
theorem Balanced.emptied {b : Books τ} {a : Action τ} {s' : State τ} {k : Slot} {f : Page}
    (hb : Balanced b) (hk : (b.sys.queue k).frame = some f) (ha : accepts b.sys a = none)
    (hf : frees b.sys a = some f)
    (hq : s'.queue = Function.update b.sys.queue k { b.sys.queue k with frame := none })
    (hpages : Pages s') (hs : s'.service = .scanning) : Balanced (b.entered a s') := by
  refine ⟨hpages, ?_, fun p => ?_⟩
  · show Attends s'.queue s'.service
    rw [hs]
    trivial
  · rw [entered_live, ha, hf]
    show _ ↔ ∃ k', (s'.queue k').frame = some p
    rw [hq, hb.live p]
    constructor
    · rintro (h | ⟨⟨k', hk'⟩, hp⟩)
      · cases h
      · refine ⟨k', ?_⟩
        rw [Function.update_of_ne]
        · exact hk'
        · rintro rfl
          exact hp (hk.symm.trans hk')
    · rintro ⟨k', hk'⟩
      by_cases hkk : k' = k
      · subst hkk
        rw [Function.update_self] at hk'
        cases hk'
      · rw [Function.update_of_ne hkk] at hk'
        refine .inr ⟨⟨k', hk'⟩, fun hp => hkk ?_⟩
        cases hp
        exact hb.pages.once hk' hk

/-- The service thread is not about to discard the frame of the slot that `pop_push_frame` uses. -/
theorem Balanced.keepsClear {b : Books τ} (hb : Balanced b) {p : Page} {fromAddr now now' : UInt32}
    (hc : RemovesRightly b (.pushFrame p fromAddr now now')) {k : Slot}
    (hk : pushSlot b.sys.queue now = some k) : KeepsClear (some k) b.sys.service := by
  cases hold : (b.sys.queue k).frame with
  | some f => exact (hc k hk (by rw [hold]; simp)).1
  | none =>
    have hatt := hb.attends
    cases hs : b.sys.service with
    | scanning => trivial
    | transferring k' f' => trivial
    | discarding k' f' =>
      rw [hs] at hatt
      rintro ⟨⟩
      rw [Attends, hold] at hatt
      cases hatt

/-- What the service thread attends to is in its slot. -/
theorem Balanced.attended {b : Books τ} (hb : Balanced b) {k : Slot} {f : Page}
    (h : b.sys.service = .discarding k f ∨ b.sys.service = .transferring k f) :
    (b.sys.queue k).frame = some f := by
  have hatt := hb.attends
  obtain h | h := h
  · rw [h] at hatt
    exact hatt
  · rw [h] at hatt
    exact hatt.1

section

variable [DecidableEq τ]

theorem semaphoreP_same (s : State τ) (x : Sem) (t : τ) (r : Request) :
    SameQueue s (semaphoreP s x t r) := by
  rw [semaphoreP]
  dsimp only
  split_ifs <;> exact ⟨rfl, rfl, rfl, rfl, rfl, rfl⟩

theorem wake_same (s : State τ) (t : τ) : SameQueue s (wake s t) := by
  rw [wake]
  split <;> exact ⟨rfl, rfl, rfl, rfl, rfl, rfl⟩

theorem wake_vars (s : State τ) (t : τ) : (wake s t).vars = s.vars := by
  rw [wake]
  split <;> rfl

theorem semaphoreV_same (s : State τ) (x : Sem) :
    SameQueue s (semaphoreV s x) ∧ (semaphoreV s x).vars = s.vars := by
  rw [semaphoreV]
  dsimp only
  split_ifs
  · split
    · exact ⟨⟨rfl, rfl, rfl, rfl, rfl, rfl⟩, rfl⟩
    · rename_i t ts _
      obtain ⟨h1, h2, h3, h4, h5, h6⟩ := wake_same { s with
        value := Function.update s.value x (s.value x + 1)
        sleepers := Function.update s.sleepers x ts } t
      exact ⟨⟨h1, h2, h3, h4, h5, h6⟩, wake_vars _ _⟩
  · exact ⟨⟨rfl, rfl, rfl, rfl, rfl, rfl⟩, rfl⟩

/-- **The sockets' steps** leave the queue alone. -/
theorem step_ofSockets {s s' : State τ} {a : Action τ} (ha : a.ofSockets = true)
    (h : Pop.step s a = some s') : SameQueue s s' := by
  cases a with
  | socketOpen protocol port x =>
    rw [Pop.step] at h
    split_ifs at h
    rw [socketOpen] at h
    split at h
    · cases h
    · cases h
      exact ⟨rfl, rfl, rfl, rfl, rfl, rfl⟩
    · split at h <;> cases h <;> exact ⟨rfl, rfl, rfl, rfl, rfl, rfl⟩
  | socketClose i =>
    cases h
    rw [socketClose]
    split_ifs <;> exact ⟨rfl, rfl, rfl, rfl, rfl, rfl⟩
  | socketRecvfrom t i buflength =>
    rw [Pop.step] at h
    split_ifs at h
    cases h
    rw [socketRecvfrom]
    split_ifs <;> exact ⟨rfl, rfl, rfl, rfl, rfl, rfl⟩
  | awaitComplete t =>
    rw [Pop.step] at h
    split at h
    · obtain ⟨x, -, h⟩ := Option.bind_eq_some_iff.1 h
      cases h
      exact semaphoreP_same s x t _
    · cases h
  | finish t =>
    rw [Pop.step] at h
    split at h
    · cases h
      exact ⟨rfl, rfl, rfl, rfl, rfl, rfl⟩
    · cases h
  | receive p f => cases ha
  | giveBack p => cases ha
  | pushFrame p fromAddr now now' => cases ha
  | serviceScan => cases ha
  | serviceAct => cases ha

/-- **The transfer** frees the frame of its slot after it has been delivered. -/
theorem transfer_frees {s s' : State τ} {k : Slot} {f : Page} (h : transfer s k f = some s') :
    (∃ j, (s.queue k).socket = some j ∧
      deliver s (s.sockets j) (s.queue k).fromAddr (s.pages f) = some s'.vars) ∧
    SameQueue { s with queue := Function.update s.queue k { s.queue k with frame := none }
                       reserved := Function.update s.reserved f false
                       service := .scanning } s' := by
  rw [transfer] at h
  obtain ⟨j, hj, h⟩ := Option.bind_eq_some_iff.1 h
  obtain ⟨vars, hvars, h⟩ := Option.bind_eq_some_iff.1 h
  obtain ⟨s1, h1, h⟩ := Option.bind_eq_some_iff.1 h
  rw [networkFreeFrame_some h1] at h
  obtain ⟨x, -, h⟩ := Option.bind_eq_some_iff.1 h
  cases h
  obtain ⟨hsame, hv⟩ := semaphoreV_same { s.setSocket j { s.sockets j with
      rbuf := none, bufsize := 0, sender := none, copied := none, sport := none } with
    vars := vars, reserved := Function.update s.reserved f false } x
  have hqueue := congrArg (fun q : Slot → QueueSlot => Function.update q k { q k with frame := none })
    hsame.queue
  exact ⟨⟨j, hj, hvars.trans (congrArg some hv.symm)⟩, hqueue, hsame.pages, hsame.reserved, hsame.held,
    hsame.accepted, rfl⟩

/-! ## The steps -/

omit [DecidableEq τ] in
/-- **An accepted frame** takes its slot, and the frame that was there is freed. -/
theorem Balanced.pushed {b : Books τ} {s' : State τ} {p : Page} {fromAddr now now' : UInt32}
    (hb : Balanced b) (hheld : b.sys.held p = true) (hc : RemovesRightly b (.pushFrame p fromAddr now now'))
    (h : popPushFrame b.sys p fromAddr now now' = some s') :
    Balanced (b.entered (.pushFrame p fromAddr now now') s') := by
  have hpages := hb.pages.push hheld h
  obtain ⟨hk, rfl⟩ | ⟨k, reserved, hk, -, rfl⟩ := popPushFrame_cases h
  · exact hb.quiet (by rw [accepts, hk]; rfl) (by rw [frees, hk]; rfl) (fun _ => rfl) hb.pages hb.attends
  refine ⟨hpages, hb.attends.push hk (hb.keepsClear hc hk) _, fun q => ?_⟩
  have hne : ∀ {k' q}, (b.sys.queue k').frame = some q → q ≠ p :=
    fun hf => hb.pages.not_queued (.inr hheld) hf
  rw [entered_live, accepts, frees, hk, hb.live q]
  show some p = some q ∨ _ ∧ (b.sys.queue k).frame ≠ some q ↔
    ∃ k', (Function.update b.sys.queue k ⟨some p, none, now', fromAddr, false⟩ k').frame = some q
  constructor
  · rintro (hq | ⟨⟨k', hk'⟩, hq⟩)
    · exact ⟨k, by rw [Function.update_self]; exact hq⟩
    · refine ⟨k', ?_⟩
      rw [Function.update_of_ne]
      · exact hk'
      · rintro rfl
        exact hq hk'
  · rintro ⟨k', hk'⟩
    by_cases hkk : k' = k
    · subst hkk
      rw [Function.update_self] at hk'
      exact .inl hk'
    · rw [Function.update_of_ne hkk] at hk'
      exact .inr ⟨⟨k', hk'⟩, fun hq => hkk (hb.pages.once hk' hq)⟩

/-- A step that moves no frame observes everything, if what it leaves to be discarded lacks a recipient. -/
theorem Right.quiet {b : Books τ} {a : Action τ} {s' : State τ} (ha : accepts b.sys a = none)
    (hf : frees b.sys a = none) (hq : ∀ k, (s'.queue k).frame = (b.sys.queue k).frame)
    (hkept : ∀ p, a = .giveBack p → b.live p = false)
    (hgiven : ∀ k p, s'.service = .discarding k p →
      b.sys.service = .discarding k p ∨ LacksRecipient s' p) : Right b a s' where
  freed := by
    intro p hp
    rw [hf] at hp
    cases hp
  accepted := by
    intro p hp
    rw [ha] at hp
    cases hp
  kept := hkept
  removed := fun k p hk hk' => absurd ((hq k).trans hk) hk'
  givenUp := hgiven

/-- The service thread frees the frame that it attends to. -/
theorem Right.served {b : Books τ} {s' : State τ} {k : Slot} {f : Page} (hb : Balanced b)
    (hk : (b.sys.queue k).frame = some f) (hf : frees b.sys .serviceAct = some f)
    (hq : s'.queue = Function.update b.sys.queue k { b.sys.queue k with frame := none })
    (hs : s'.service = .scanning) (hreason : Reason b.sys s' k f .serviceAct) :
    Right b .serviceAct s' where
  freed := by
    intro p hp
    rw [hf] at hp
    cases hp
    exact (hb.live f).2 ⟨k, hk⟩
  accepted := fun _ hp => by cases hp
  kept := fun _ h => by cases h
  removed := by
    intro k' p hk' hne
    rw [hq] at hne
    by_cases hkk : k' = k
    · subst hkk
      cases hk.symm.trans hk'
      exact ⟨hf, hreason⟩
    · rw [Function.update_of_ne hkk] at hne
      exact absurd hk' hne
  givenUp := by
    intro k' p h
    rw [hs] at h
    cases h

theorem Right.pushed {b : Books τ} {s' : State τ} {p : Page} {fromAddr now now' : UInt32}
    (hb : Balanced b) (hheld : b.sys.held p = true) (hc : RemovesRightly b (.pushFrame p fromAddr now now'))
    (h : popPushFrame b.sys p fromAddr now now' = some s') :
    Right b (.pushFrame p fromAddr now now') s' := by
  obtain ⟨hk, rfl⟩ | ⟨k, reserved, hk, -, rfl⟩ := popPushFrame_cases h
  · exact Right.quiet (by rw [accepts, hk]; rfl) (by rw [frees, hk]; rfl) (fun _ => rfl)
      (fun _ h => by cases h) fun _ _ h => .inl h
  have hfrees : frees b.sys (.pushFrame p fromAddr now now') = (b.sys.queue k).frame := by
    rw [frees, hk]
    rfl
  refine ⟨?_, ?_, (fun _ h => by cases h), ?_, fun _ _ h => .inl h⟩
  · intro q hq
    rw [hfrees] at hq
    exact (hb.live q).2 ⟨k, hq⟩
  · intro q hq
    rw [accepts, hk] at hq
    cases hq
    exact hb.not_live (.inr hheld)
  · intro k' q hk' hne
    by_cases hkk : k' = k
    · subst hkk
      have hfull : (b.sys.queue k').frame ≠ none := by
        rw [hk']
        simp
      exact ⟨hfrees.trans hk', .evicted (pushSlot_oldest hk hfull (hc k' hk hfull))⟩
    · refine absurd ?_ hne
      show (Function.update b.sys.queue k _ k').frame = _
      rw [Function.update_of_ne hkk]
      exact hk'

/-- **One step** keeps the invariant and observes what it must. -/
theorem Balanced.step {b : Books τ} {a : Action τ} {s' : State τ} (hc : RemovesRightly b a)
    (hb : Balanced b) (h : Pop.step b.sys a = some s') :
    Balanced (b.entered a s') ∧ Right b a s' := by
  by_cases hsock : a.ofSockets = true
  · have hsame := step_ofSockets hsock h
    have hframes : ∀ k, (s'.queue k).frame = (b.sys.queue k).frame := fun k => by rw [hsame.queue]
    have hnone : accepts b.sys a = none ∧ frees b.sys a = none := by
      cases a with
      | pushFrame p fromAddr now now' => cases hsock
      | serviceAct => cases hsock
      | _ => exact ⟨rfl, rfl⟩
    refine ⟨hb.quiet hnone.1 hnone.2 hframes (hb.pages.same hsame) ?_,
      Right.quiet hnone.1 hnone.2 hframes ?_ fun k p hp => .inl (hsame.service.symm.trans hp)⟩
    · rw [hsame.queue, hsame.service]
      exact hb.attends
    · rintro p rfl
      cases hsock
  · cases a with
    | receive p f =>
      rw [Pop.step] at h
      split_ifs at h with hp
      cases h
      exact ⟨hb.quiet rfl rfl (fun _ => rfl) (hb.pages.receive hp) hb.attends,
        Right.quiet rfl rfl (fun _ => rfl) (fun _ h => by cases h) fun _ _ h => .inl h⟩
    | giveBack p =>
      rw [Pop.step] at h
      split_ifs at h with hp
      obtain ⟨s1, h1, h⟩ := Option.bind_eq_some_iff.1 h
      cases h
      have hpages := hb.pages.giveBack hp h1
      rw [networkFreeFrame_some h1] at hpages ⊢
      refine ⟨hb.quiet rfl rfl (fun _ => rfl) hpages hb.attends,
        Right.quiet rfl rfl (fun _ => rfl) (fun _ h => ?_) fun _ _ h => .inl h⟩
      cases h
      exact hb.not_live (.inr hp)
    | pushFrame p fromAddr now now' =>
      rw [Pop.step] at h
      split_ifs at h with hp
      exact ⟨hb.pushed hp hc h, Right.pushed hb hp hc h⟩
    | serviceScan =>
      rw [Pop.step] at h
      split_ifs at h
      cases h
      obtain ⟨-, hframes, hatt⟩ := scan_spec b.sys.sockets b.sys.pages (List.finRange POP_QUEUE_SIZE)
        b.sys.queue
      have hlacks := @scan_lacksRecipient τ b.sys hc (List.finRange POP_QUEUE_SIZE) b.sys.queue
      exact ⟨hb.quiet rfl rfl (fun k => (hframes k).1) hb.pages.scan hatt,
        Right.quiet rfl rfl (fun k => (hframes k).1) (fun _ h => by cases h)
          fun k p h => .inr (@hlacks k p (List.pairwise_lt_finRange _) (fun k' => .inl (List.mem_finRange k'))
            (fun _ _ => rfl) h)⟩
    | serviceAct =>
      rw [Pop.step] at h
      cases hs : b.sys.service with
      | scanning =>
        rw [hs] at h
        cases h
      | discarding k f =>
        rw [hs] at h
        have hk := hb.attended (.inl hs)
        have hf : frees b.sys .serviceAct = some f := by rw [frees, hs]
        obtain ⟨s1, h1, h⟩ := Option.bind_eq_some_iff.1 h
        rw [networkFreeFrame_some h1] at h
        cases h
        exact ⟨hb.emptied hk rfl hf rfl (hb.pages.empty hk rfl rfl rfl rfl rfl) rfl,
          Right.served hb hk hf rfl rfl (.discarded hs)⟩
      | transferring k f =>
        rw [hs] at h
        have hk := hb.attended (.inr hs)
        have hf : frees b.sys .serviceAct = some f := by rw [frees, hs]
        obtain ⟨⟨j, hj, hdel⟩, hsame⟩ := transfer_frees h
        have hpages : Pages { b.sys with
            queue := Function.update b.sys.queue k { b.sys.queue k with frame := none }
            reserved := Function.update b.sys.reserved f false
            service := .scanning } := hb.pages.empty hk rfl rfl rfl rfl rfl
        exact ⟨hb.emptied hk rfl hf hsame.queue (hpages.same hsame) hsame.service,
          Right.served hb hk hf hsame.queue hsame.service (.delivered hs hj hdel)⟩
    | _ => exact absurd rfl hsock

/-! ## Runs -/

omit [DecidableEq τ] in
theorem balanced_init : Balanced (Books.init τ) := by
  have hframe : ∀ {k f}, ((State.init τ).queue k).frame ≠ some f := fun h => by cases h
  refine ⟨inv_init.pages, trivial, fun p => ?_⟩
  constructor
  · intro h
    cases h
  · rintro ⟨k, hk⟩
    exact absurd hk hframe

theorem Balanced.books_step {b b' : Books τ} {a : Action τ} (hc : RemovesRightly b a) (hb : Balanced b)
    (h : Books.step b a = some b') : Balanced b' := by
  obtain ⟨s', hs', rfl⟩ := Option.map_eq_some_iff.1 h
  exact (hb.step hc hs').1

/-- **Every accepted frame is accounted for**: in every run in which no slot is evicted while it is being
discarded or after the clock has wrapped, and no frame's recipient is closed while another socket is open for its
port, an accepted frame is in exactly one slot until it is freed, is freed once, and leaves its slot only because it
is delivered, lacks a recipient, or is the oldest one. -/
theorem pop_frames {as : List (Action τ)} {b : Books τ}
    (hc : Every Books.step RemovesRightly (Books.init τ) as) (hr : run Books.step (Books.init τ) as = some b) :
    Accounted b ∧ Every Books.step StepsRight (Books.init τ) as :=
  ⟨(run_invariant Balanced.books_step balanced_init hc hr).accounted,
    Every.of_invariant Balanced.books_step (fun hc hb _ h => (hb.step hc h).2) balanced_init hc⟩

/-- A frame that is delivered, and one to a port on which nobody listens. -/
def servedRun : List (Action Unit) :=
  ordinaryRun ++ [.receive 1 ⟨9, 2, 1, [6]⟩, .pushFrame 1 7 0 0, .serviceScan, .serviceAct]

theorem pop_frames_served :
    ∃ b, run Books.step (Books.init Unit) servedRun = some b ∧ b.sys.reserved 0 = false ∧
      b.sys.reserved 1 = false ∧ Accounted b ∧ Every Books.step StepsRight (Books.init Unit) servedRun := by
  have hrun : ∃ b, run Books.step (Books.init Unit) servedRun = some b ∧ b.sys.reserved 0 = false ∧
      b.sys.reserved 1 = false := by decide +kernel
  have hc : Every Books.step RemovesRightly (Books.init Unit) servedRun := by decide +kernel
  obtain ⟨b, hr, h0, h1⟩ := hrun
  exact ⟨b, hr, h0, h1, pop_frames hc hr⟩

/-- The queue is full of frames for a port on which nobody listens, and 250 ms later a frame arrives while
the service thread is about to discard the first one, whose page then receives another frame. -/
def recycledRun : List (Action Unit) :=
  (List.range POP_QUEUE_SIZE).flatMap (fun p => [.receive p ⟨9, 2, 0, []⟩, .pushFrame p 7 0 0]) ++
    [.serviceScan, .receive 32 ⟨9, 2, 0, []⟩, .pushFrame 32 7 250 250, .receive 0 ⟨9, 2, 0, []⟩]

/-- A frame is matched to socket 1, which is then closed; its port is opened again, as socket 0, and a thread waits
for a frame there. -/
def movedRun : List (Action Unit) :=
  [.socketOpen PROTOCOL_POP 9 (some 0), .socketOpen PROTOCOL_POP 2 (some 1), .receive 0 ⟨9, 2, 0, []⟩,
    .pushFrame 0 7 0 0, .serviceScan, .socketClose 1, .socketClose 0, .socketOpen PROTOCOL_POP 2 (some 0),
    .socketRecvfrom () 0 10]

/-- **A page is freed twice**: the service thread frees the page of a frame that has not been accepted, and
drops the frame that took the slot without freeing it. And a frame for an open port is discarded. -/
theorem pop_freed_twice :
    (∃ b, run Books.step (Books.init Unit) (recycledRun ++ [.serviceAct]) = some b ∧ ¬ Accounted b) ∧
      ¬ Every Books.step StepsRight (Books.init Unit) (recycledRun ++ [.serviceAct]) ∧
      ¬ Every Books.step StepsRight (Books.init Unit) (movedRun ++ [.serviceScan]) := by
  have hafter : ∃ b, run Books.step (Books.init Unit) (recycledRun ++ [.serviceAct]) = some b ∧
      b.live 32 = true ∧ ∀ k, (b.sys.queue k).frame ≠ some 32 := by decide +kernel
  have hbefore : ∃ b, run Books.step (Books.init Unit) recycledRun = some b ∧ b.live 0 = false ∧
      frees b.sys .serviceAct = some 0 ∧ (Pop.step b.sys .serviceAct).isSome = true := by decide +kernel
  have hmoved : ∃ b, run Books.step (Books.init Unit) movedRun = some b ∧ b.sys.service = .scanning ∧
      ∃ s', Pop.step b.sys .serviceScan = some s' ∧ s'.service = .discarding 0 0 ∧ ¬ LacksRecipient s' 0 := by
    decide +kernel
  refine ⟨?_, ?_, ?_⟩
  · obtain ⟨b, hr, hlive, hslots⟩ := hafter
    refine ⟨b, hr, fun h => ?_⟩
    obtain ⟨k, hk, -⟩ := h.queued 32 hlive
    exact hslots k hk
  · obtain ⟨b, hr, hlive, hfrees, hsome⟩ := hbefore
    intro h
    obtain ⟨s', hs'⟩ := Option.isSome_iff_exists.1 hsome
    have hfreed := (h.last hr s' hs').freed 0 hfrees
    rw [hlive] at hfreed
    cases hfreed
  · obtain ⟨b, hr, hidle, s', hs', hservice, hheard⟩ := hmoved
    intro h
    rcases (h.last hr s' hs').givenUp 0 0 hservice with hold | hlacks
    · rw [hidle] at hold
      cases hold
    · exact hheard hlacks

end

end Buenos.Pop

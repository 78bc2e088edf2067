import Buenos.Base.Custody
import Buenos.Net.Delivery

/-!
# No frame is delivered twice

The frames that `pop_push_frame` has accepted, as a multiset, and where each of them has gone.

* `Got` — what a call of `socket_recvfrom` returns is from this frame.
* `waiting` — the frames in the queue.
* `Ledger` — the frames that threads have got but not returned with, and those of the calls that have returned,
  are with the waiting ones no more than were accepted.

Principal results: `Ledger.step`, one step of the system, and `pop_delivers_once`, every run: the calls that have
returned have got different frames, each accepted and for the port of the call.
-/

namespace Buenos.Pop

open Transition Custody

/-- The call has returned with the frame `a`, sent from `a.1` to its port. -/
def Got (x : Request × Vars) (a : UInt32 × Frame) : Prop :=
  a.2.destPort = x.1.port ∧ x.2 = written a.1 a.2 x.1.buflength

variable {τ : Type}

/-- The frame in a slot. -/
def slotFrame (s : State τ) (k : Slot) : Multiset (UInt32 × Frame) :=
  match (s.queue k).frame with
  | none => 0
  | some f => {((s.queue k).fromAddr, s.pages f)}

/-- The frames in the queue. -/
def waiting (s : State τ) : Multiset (UInt32 × Frame) := ∑ k, slotFrame s k

/-- **Where the accepted frames are**: `holding` are those that a thread has got in its variables, `done` those
of the calls that have returned. -/
structure Ledger (s : State τ) (holding : Multiset (τ × UInt32 × Frame)) (done : List (UInt32 × Frame)) : Prop where
  woken : ∀ {t r}, s.pc t = .woken r → Has holding t (Got (r, s.vars t))
  served : ∀ {i x t r}, (s.sockets i).receiveComplete = some x → s.value x = 1 → s.pc t = .entered r → r.socket = i →
    Has holding t (Got (r, s.vars t))
  returned : List.Forall₂ Got s.returned done
  balance : waiting s + goods holding + done ≤ (s.accepted : Multiset (UInt32 × Frame))

/-- **Delivered once**: the calls that have returned have got different ones of the accepted frames. -/
def DeliversOnce (s : State τ) : Prop :=
  ∃ done : List (UInt32 × Frame), List.Forall₂ Got s.returned done ∧
    (done : Multiset (UInt32 × Frame)) ≤ (s.accepted : Multiset (UInt32 × Frame))

/-! ## The queue -/

section Queue

variable {s s' : State τ}

theorem slotFrame_none {k : Slot} (h : (s.queue k).frame = none) : slotFrame s k = 0 := by
  rw [slotFrame, h]

theorem slotFrame_some {k : Slot} {f : Page} (h : (s.queue k).frame = some f) :
    slotFrame s k = {((s.queue k).fromAddr, s.pages f)} := by
  rw [slotFrame, h]

theorem slotFrame_entry {k : Slot} {e : QueueSlot} {f : Page} (hk : s.queue k = e) (hf : e.frame = some f) :
    slotFrame s k = {(e.fromAddr, s.pages f)} := by
  subst hk
  exact slotFrame_some hf

theorem slotFrame_congr {k : Slot} (hf : (s'.queue k).frame = (s.queue k).frame)
    (ha : (s'.queue k).fromAddr = (s.queue k).fromAddr)
    (hp : ∀ f, (s.queue k).frame = some f → s'.pages f = s.pages f) : slotFrame s' k = slotFrame s k := by
  cases h : (s.queue k).frame with
  | none => rw [slotFrame_none h, slotFrame_none (hf.trans h)]
  | some f => rw [slotFrame_some h, slotFrame_some (hf.trans h), ha, hp f h]

/-- The slots keep their frames. -/
theorem waiting_congr (hq : SameFrames s.queue s'.queue)
    (hp : ∀ k f, (s.queue k).frame = some f → s'.pages f = s.pages f) : waiting s' = waiting s :=
  Finset.sum_congr rfl fun k _ => slotFrame_congr (hq k).1 (hq k).2 (hp k)

/-- One slot changes. -/
theorem waiting_update (k : Slot) (hq : ∀ k', k' ≠ k → s'.queue k' = s.queue k') (hp : s'.pages = s.pages) :
    waiting s' + slotFrame s k = slotFrame s' k + waiting s := by
  have hrest : ∑ k' ∈ Finset.univ.erase k, slotFrame s' k' = ∑ k' ∈ Finset.univ.erase k, slotFrame s k' := by
    apply Finset.sum_congr rfl
    intro k' hk'
    have hne := hq k' (Finset.ne_of_mem_erase hk')
    exact slotFrame_congr (by rw [hne]) (by rw [hne]) fun f _ => by rw [hp]
  unfold waiting
  rw [← Finset.add_sum_erase _ _ (Finset.mem_univ k), hrest, ← Finset.add_sum_erase _ (slotFrame s) (Finset.mem_univ k)]
  simp only [add_assoc, add_comm, add_left_comm]

/-- Without the frame that the slot had. -/
theorem waiting_le (k : Slot) (hq : ∀ k', k' ≠ k → s'.queue k' = s.queue k') (hp : s'.pages = s.pages) :
    waiting s' ≤ slotFrame s' k + waiting s := by
  rw [← waiting_update k hq hp]
  exact Multiset.le_add_right _ _

/-- A slot is emptied. -/
theorem waiting_empty {k : Slot} {f : Page} (hk : (s.queue k).frame = some f)
    (hq : s'.queue = Function.update s.queue k { s.queue k with frame := none }) (hp : s'.pages = s.pages) :
    waiting s' + {((s.queue k).fromAddr, s.pages f)} = waiting s := by
  have hupdate : waiting s' + slotFrame s k = slotFrame s' k + waiting s :=
    waiting_update k (fun k' hk' => by rw [hq, Function.update_of_ne hk']) hp
  have hnone : slotFrame s' k = 0 := slotFrame_none (by rw [hq, Function.update_self])
  rw [slotFrame_some hk, hnone, zero_add] at hupdate
  exact hupdate

end Queue

/-! ## Steps -/

section Steps

variable {s s' : State τ} {holding holding' : Multiset (τ × UInt32 × Frame)} {done done' : List (UInt32 × Frame)}

/-- The threads, and what they have in their variables, stay. -/
theorem Ledger.keep (h : Ledger s holding done) (hpc : s'.pc = s.pc) (hvars : s'.vars = s.vars)
    (hret : s'.returned = s.returned)
    (hvalue : ∀ i x, (s'.sockets i).receiveComplete = some x → s'.value x = 1 →
      (s.sockets i).receiveComplete = some x ∧ s.value x = 1)
    (hbalance : ∀ m, waiting s + m ≤ (s.accepted : Multiset (UInt32 × Frame)) → waiting s' + m ≤ s'.accepted) :
    Ledger s' holding done where
  woken := by
    rw [hpc, hvars]
    exact h.woken
  served := by
    intro i x t r hx h1 ht hi
    obtain ⟨hx', h1'⟩ := hvalue i x hx h1
    rw [hpc] at ht
    rw [hvars]
    exact h.served hx' h1' ht hi
  returned := by
    rw [hret]
    exact h.returned
  balance := by
    rw [add_assoc]
    exact hbalance _ (by rw [← add_assoc]; exact h.balance)

/-- One thread goes on. -/
theorem Ledger.move (h : Ledger s holding done) (t : τ) (hpc : ∀ t', t' ≠ t → s'.pc t' = s.pc t')
    (hvars : ∀ t', t' ≠ t → s'.vars t' = s.vars t')
    (hvalue : ∀ i x t' r, t' ≠ t → (s'.sockets i).receiveComplete = some x → s'.value x = 1 → s.pc t' = .entered r →
      r.socket = i → (s.sockets i).receiveComplete = some x ∧ s.value x = 1)
    (hholding : ∀ t', t' ≠ t → ∀ P, Has holding t' P → Has holding' t' P)
    (hwoken : ∀ r, s'.pc t = .woken r → Has holding' t (Got (r, s'.vars t)))
    (hserved : ∀ x r, (s'.sockets r.socket).receiveComplete = some x → s'.value x = 1 → s'.pc t = .entered r →
      Has holding' t (Got (r, s'.vars t)))
    (hret : List.Forall₂ Got s'.returned done')
    (hbalance : waiting s' + goods holding' + done' ≤ (s'.accepted : Multiset (UInt32 × Frame))) :
    Ledger s' holding' done' where
  woken := by
    intro t' r ht'
    by_cases htt : t' = t
    · rw [htt] at ht' ⊢
      exact hwoken r ht'
    · rw [hpc t' htt] at ht'
      rw [hvars t' htt]
      exact hholding t' htt _ (h.woken ht')
  served := by
    intro i x t' r hx h1 ht' hi
    by_cases htt : t' = t
    · rw [htt] at ht' ⊢
      rw [← hi] at hx
      exact hserved x r hx h1 ht'
    · rw [hpc t' htt] at ht'
      obtain ⟨hx', h1'⟩ := hvalue i x t' r htt hx h1 ht' hi
      rw [hvars t' htt]
      exact hholding t' htt _ (h.served hx' h1' ht' hi)
  returned := hret
  balance := hbalance

/-- A frame arrives in a page that is not in the queue. -/
theorem Ledger.receive (h : Ledger s holding done) (hs : Inv s) {p : Page} (f : Frame)
    (hp : s.reserved p = false ∨ s.held p = true) :
    Ledger { s with pages := Function.update s.pages p f
                    reserved := Function.update s.reserved p true
                    held := Function.update s.held p true } holding done := by
  refine h.keep rfl rfl rfl (fun _ _ hx h1 => ⟨hx, h1⟩) fun m hm => ?_
  have hsame : waiting { s with pages := Function.update s.pages p f
                                reserved := Function.update s.reserved p true
                                held := Function.update s.held p true } = waiting s :=
    waiting_congr (fun _ => ⟨rfl, rfl⟩) fun _ _ hf => Function.update_of_ne (hs.pages.not_queued hp hf) ..
  rw [hsame]
  exact hm

/-- A page that is not in the queue is freed. -/
theorem Ledger.free (h : Ledger s holding done) {p : Page} (hfree : networkFreeFrame s p = some s') :
    Ledger s' holding done := by
  rw [networkFreeFrame_some hfree]
  exact h.keep rfl rfl rfl (fun _ _ hx h1 => ⟨hx, h1⟩) fun _ hm => hm

/-- A frame is accepted, maybe in the place of an older one. -/
theorem Ledger.push (h : Ledger s holding done) {f : Page} {fromAddr now now' : UInt32}
    (hpush : popPushFrame s f fromAddr now now' = some s') : Ledger s' holding done := by
  obtain ⟨-, rfl⟩ | ⟨k, reserved, hk, -, rfl⟩ := popPushFrame_cases hpush
  · exact h
  · refine h.keep rfl rfl rfl (fun _ _ hx h1 => ⟨hx, h1⟩) fun m hm => ?_
    -- the slot has the new frame, which is also the last one accepted
    refine le_trans (add_le_add (waiting_le k (fun k' hk' => Function.update_of_ne hk' ..) rfl) (le_refl m)) ?_
    rw [slotFrame_entry (Function.update_self ..) rfl, add_assoc, Multiset.singleton_add]
    exact Multiset.cons_le_cons _ hm

/-- A frame is given up. -/
theorem Ledger.discard (h : Ledger s holding done) (hs : Inv s) {k : Slot} {f : Page}
    (hk : s.service = .discarding k f) (hdiscard : discard s k f = some s') : Ledger s' holding done := by
  have hf : (s.queue k).frame = some f := by
    have hattends := hs.attends
    rw [hk] at hattends
    exact hattends
  rw [Pop.discard] at hdiscard
  obtain ⟨s1, h1, hdiscard⟩ := Option.bind_eq_some_iff.1 hdiscard
  rw [networkFreeFrame_some h1] at hdiscard
  cases hdiscard
  refine h.keep rfl rfl rfl (fun _ _ hx h1 => ⟨hx, h1⟩) fun m hm => ?_
  refine le_trans (add_le_add ?_ (le_refl m)) hm
  exact le_trans (Multiset.le_add_right _ _) (le_of_eq (waiting_empty hf rfl rfl))

/-- The loop of the service thread moves no frame. -/
theorem Ledger.scan (h : Ledger s holding done) :
    Ledger { s with queue := (scan s.sockets s.pages (List.finRange POP_QUEUE_SIZE) s.queue).1
                    service := (scan s.sockets s.pages (List.finRange POP_QUEUE_SIZE) s.queue).2 } holding done := by
  obtain ⟨-, hsame, -⟩ := scan_spec s.sockets s.pages (List.finRange POP_QUEUE_SIZE) s.queue
  have hwaiting : waiting { s with
      queue := (Pop.scan s.sockets s.pages (List.finRange POP_QUEUE_SIZE) s.queue).1
      service := (Pop.scan s.sockets s.pages (List.finRange POP_QUEUE_SIZE) s.queue).2 } = waiting s :=
    waiting_congr hsame fun _ _ _ => rfl
  refine h.keep rfl rfl rfl (fun _ _ hx h1 => ⟨hx, h1⟩) fun m hm => ?_
  rw [hwaiting]
  exact hm

/-- The semaphore of a socket that is closed counts no more. -/
theorem Ledger.close (h : Ledger s holding done) (i : Sock) : Ledger (socketClose s i) holding done := by
  rw [socketClose]
  split_ifs
  · exact h
  · refine h.keep rfl rfl rfl (fun j x hx h1 => ?_) fun m hm => hm
    by_cases hj : j = i
    · subst hj
      simp only [State.setSocket, Function.update_self] at hx
      cases hx
    · simp only [State.setSocket, Function.update_of_ne hj] at hx
      exact ⟨hx, h1⟩

/-- A new semaphore counts nothing yet. -/
theorem Ledger.opened (h : Ledger s holding done) {protocol : UInt8} {port : UInt16} {x : Option Sem}
    (hx : FreshSem s x) (ho : socketOpen s protocol port x = some s') : Ledger s' holding done := by
  rw [socketOpen] at ho
  cases hopen : opening s.sockets protocol port with
  | none =>
    rw [hopen] at ho
    cases ho
  | some o =>
    rw [hopen] at ho
    cases o with
    | fails =>
      cases ho
      exact h
    | entry i port' =>
      cases x with
      | none =>
        cases ho
        refine h.keep rfl rfl rfl (fun j y hy h1 => ?_) fun m hm => hm
        by_cases hj : j = i
        · subst hj
          simp only [State.setSocket, Function.update_self] at hy
          cases hy
        · simp only [State.setSocket, Function.update_of_ne hj] at hy
          exact ⟨hy, h1⟩
      | some x =>
        cases ho
        refine h.keep rfl rfl rfl (fun j y hy h1 => ?_) fun m hm => hm
        by_cases hj : j = i
        · subst hj
          simp only [State.setSocket, Function.update_self] at hy
          cases hy
          simp only [Function.update_self] at h1
          exact absurd h1 (by decide)
        · simp only [State.setSocket, Function.update_of_ne hj] at hy
          have hne : y ≠ x := by
            rintro rfl
            exact hx j (by rw [hy]; simp) hy
          simp only [Function.update_of_ne hne] at h1
          exact ⟨hy, h1⟩

end Steps

section Threads

variable [DecidableEq τ] {s s' : State τ} {holding : Multiset (τ × UInt32 × Frame)} {done : List (UInt32 × Frame)}

/-- A call begins on a socket whose semaphore counts nothing. -/
theorem Ledger.recvfrom (h : Ledger s holding done) (hs : Inv s) {t : τ} {i : Sock} {buflength : ℕ}
    (hc : NothingStale s (.socketRecvfrom t i buflength)) :
    Ledger (socketRecvfrom s t i buflength) holding done := by
  rw [socketRecvfrom]
  split_ifs with hrej
  · exact h
  rw [not_or, not_not, not_not] at hrej
  obtain ⟨hpop, hrbuf⟩ := hrej
  have hnobody : NobodyEntered s i := hc hpop (by rw [hrbuf]; rfl)
  have hcomplete : ∀ j x, ((s.setSocket i { s.sockets i with
      rbuf := some t
      bufsize := buflength
      sender := some t
      copied := some t
      sport := some t }).sockets j).receiveComplete = some x → (s.sockets j).receiveComplete = some x := by
    intro j x hx
    by_cases hj : j = i
    · subst hj
      simp only [State.setSocket, Function.update_self] at hx
      exact hx
    · simp only [State.setSocket, Function.update_of_ne hj] at hx
      exact hx
  refine h.move t (fun _ ht' => Function.update_of_ne ht' ..) (fun _ ht' => Function.update_of_ne ht' ..)
    (fun j x _ _ _ hx h1 _ _ => ⟨hcomplete j x hx, h1⟩) (fun _ _ _ ha => ha) ?_ ?_ h.returned h.balance
  · intro r hr
    simp only [Function.update_self] at hr
    cases hr
  · intro x r hx h1 hr
    simp only [Function.update_self] at hr
    cases hr
    -- the semaphore would have been signalled for somebody who has not come to it
    have hx' := hcomplete i x hx
    have h1' : s.value x = 1 := h1
    cases hs.calls.stage hx' with
    | quiet _ h0 => omega
    | asked _ hp => exact absurd (hp.rbuf.symm.trans hrbuf) (by simp)
    | waiting _ hp => exact absurd (hp.rbuf.symm.trans hrbuf) (by simp)
    | served t0 r0 _ ht0 hi =>
      have hbusy := hnobody t0
      rw [ht0, enteredAt_eq_true.2 ⟨r0, rfl, hi⟩] at hbusy
      cases hbusy

/-- At its semaphore, a thread sleeps or goes on with the frame that it has got. -/
theorem Ledger.awaitComplete (h : Ledger s holding done) (hs : Inv s) {t : τ} {r : Request} {x : Sem}
    (ht : s.pc t = .entered r) (hx : (s.sockets r.socket).receiveComplete = some x) :
    Ledger (semaphoreP s x t r) holding done := by
  have hat : (s.pc t).enteredAt r.socket = true := by
    rw [ht]
    exact enteredAt_eq_true.2 ⟨r, rfl, rfl⟩
  have hnot : ¬ NobodyEntered s r.socket := by
    intro hn
    rw [hn t] at hat
    cases hat
  -- other sockets have other semaphores
  have hvalue : ∀ v : ℤ, v ≠ 1 → ∀ i y t' (r' : Request), t' ≠ t → (s.sockets i).receiveComplete = some y →
      Function.update s.value x v y = 1 → s.pc t' = .entered r' → r'.socket = i →
      (s.sockets i).receiveComplete = some y ∧ s.value y = 1 := by
    intro v hv i y t' r' _ hy h1 _ _
    have hne : y ≠ x := by
      rintro rfl
      rw [Function.update_self] at h1
      exact hv h1
    rw [Function.update_of_ne hne] at h1
    exact ⟨hy, h1⟩
  cases hs.calls.stage hx with
  | quiet _ _ _ hn => exact absurd hn hnot
  | waiting _ _ _ _ _ hn => exact absurd hn hnot
  | asked _ _ _ h0 =>
    rw [semaphoreP_sleep h0]
    refine h.move t (fun _ ht' => Function.update_of_ne ht' ..) (fun _ _ => rfl) (hvalue (-1) (by decide))
      (fun _ _ _ ha => ha) ?_ ?_ h.returned h.balance
    · intro r' hr'
      simp only [Function.update_self] at hr'
      cases hr'
    · intro y r' _ _ hr'
      simp only [Function.update_self] at hr'
      cases hr'
  | served _ _ _ _ _ _ h1 =>
    have hgot := h.served hx h1 ht rfl
    rw [semaphoreP_pass h1]
    refine h.move t (fun _ ht' => Function.update_of_ne ht' ..) (fun _ _ => rfl) (hvalue 0 (by decide))
      (fun _ _ _ ha => ha) ?_ ?_ h.returned h.balance
    · intro r' hr'
      simp only [Function.update_self] at hr'
      cases hr'
      exact hgot
    · intro y r' _ _ hr'
      simp only [Function.update_self] at hr'
      cases hr'

/-- A call returns with the frame that its thread has got. -/
theorem Ledger.finish (h : Ledger s holding done) {t : τ} {r : Request} (ht : s.pc t = .woken r) :
    ∃ holding' done', Ledger { s with pc := Function.update s.pc t .outside
                                      returned := (r, s.vars t) :: s.returned } holding' done' := by
  obtain ⟨a, rest, hgot, rfl, hrest⟩ := (h.woken ht).take
  refine ⟨rest, a :: done, h.move t (fun _ ht' => Function.update_of_ne ht' ..) (fun _ _ => rfl)
    (fun _ _ _ _ _ hx h1 _ _ => ⟨hx, h1⟩) hrest ?_ ?_ (List.Forall₂.cons hgot h.returned) ?_⟩
  · intro r' hr'
    simp only [Function.update_self] at hr'
    cases hr'
  · intro y r' _ _ hr'
    simp only [Function.update_self] at hr'
    cases hr'
  · have hbalance := h.balance
    rw [goods_put, Multiset.add_cons, Multiset.cons_add] at hbalance
    rw [← Multiset.cons_coe, Multiset.add_cons]
    exact hbalance

/-- **A transfer**: a frame of the queue becomes that of the receiver. -/
theorem Ledger.transfer (h : Ledger s holding done) (hs : Inv s) {k : Slot} {f : Page}
    (hk : s.service = .transferring k f) (htransfer : transfer s k f = some s') :
    ∃ holding', Ledger s' holding' done := by
  have hf : (s.queue k).frame = some f := by
    have hattends := hs.attends
    rw [hk] at hattends
    exact hattends.1
  obtain ⟨j, t, x, value, sleepers, pc, hj, hp, hx, hstage, rfl⟩ := transfer_cases hs htransfer
  have hpop := hs.calls.pop hp.rbuf
  have hgot : Got (request s j, written (s.queue k).fromAddr (s.pages f) (s.sockets j).bufsize)
      ((s.queue k).fromAddr, s.pages f) := ⟨(hs.ports hf hj hpop).symm, rfl⟩
  have hcomplete : ∀ i, (Function.update s.sockets j (released (s.sockets j)) i).receiveComplete =
      (s.sockets i).receiveComplete := by
    intro i
    by_cases hi : i = j
    · rw [hi, Function.update_self]
      rfl
    · rw [Function.update_of_ne hi]
  refine ⟨(t, (s.queue k).fromAddr, s.pages f) ::ₘ holding, h.move t ?_ (fun _ ht' => Function.update_of_ne ht' ..) ?_
    (fun _ _ _ ha => ha.put _) ?_ ?_ h.returned ?_⟩
  · intro t' ht'
    obtain ⟨rfl, -⟩ | ⟨-, rfl, -⟩ := hstage
    · rfl
    · exact Function.update_of_ne ht' ..
  · intro i y t' r ht' hy h1 ht hi
    have hy' : (s.sockets i).receiveComplete = some y := (hcomplete i).symm.trans hy
    have hne : y ≠ x := by
      -- only `t` is at the semaphore of its socket
      rintro rfl
      have hij : i = j := hs.calls.own hy' hx
      have hat : (s.pc t').enteredAt j = true := by
        rw [ht]
        exact enteredAt_eq_true.2 ⟨r, rfl, hi.trans hij⟩
      obtain ⟨-, -, -, -, honly⟩ | ⟨-, -, -, -, hn⟩ := hstage
      · exact ht' (honly t' hat)
      · rw [hn t'] at hat
        cases hat
    have h1' : s.value y = 1 := by
      rw [← Function.update_of_ne hne value s.value]
      exact h1
    exact ⟨hy', h1'⟩
  · intro r hr
    obtain ⟨rfl, ht, -⟩ | ⟨-, rfl, -⟩ := hstage
    · simp only [ht] at hr
      cases hr
    · simp only [Function.update_self] at hr
      cases hr
      apply Has.put_self
      simp only [Function.update_self]
      exact hgot
  · intro y r _ _ hr
    obtain ⟨rfl, ht, -⟩ | ⟨-, rfl, -⟩ := hstage
    · simp only [ht] at hr
      cases hr
      apply Has.put_self
      simp only [Function.update_self]
      exact hgot
    · simp only [Function.update_self] at hr
      cases hr
  · rw [goods_put, ← Multiset.singleton_add, ← add_assoc]
    refine le_trans (add_le_add (add_le_add ?_ (le_refl _)) (le_refl _)) h.balance
    exact le_of_eq (waiting_empty hf rfl rfl)

/-- **One step.** -/
theorem Ledger.step {a : Action τ} (hc : NothingStale s a) (hs : Inv s) (h : Ledger s holding done)
    (hstep : Pop.step s a = some s') : ∃ holding' done', Ledger s' holding' done' := by
  cases a with
  | socketOpen protocol port x =>
    rw [Pop.step] at hstep
    split_ifs at hstep with hx
    exact ⟨_, _, h.opened hx hstep⟩
  | socketClose i =>
    cases hstep
    exact ⟨_, _, h.close i⟩
  | socketRecvfrom t i buflength =>
    rw [Pop.step] at hstep
    split_ifs at hstep
    cases hstep
    exact ⟨_, _, h.recvfrom hs hc⟩
  | awaitComplete t =>
    rw [Pop.step] at hstep
    cases ht : s.pc t with
    | entered r =>
      rw [ht] at hstep
      obtain ⟨x, hx, hstep⟩ := Option.bind_eq_some_iff.1 hstep
      cases hstep
      exact ⟨_, _, h.awaitComplete hs ht hx⟩
    | outside => simp [ht] at hstep
    | sleeping r x => simp [ht] at hstep
    | woken r => simp [ht] at hstep
  | finish t =>
    rw [Pop.step] at hstep
    cases ht : s.pc t with
    | woken r =>
      rw [ht] at hstep
      cases hstep
      exact h.finish ht
    | outside => simp [ht] at hstep
    | sleeping r x => simp [ht] at hstep
    | entered r => simp [ht] at hstep
  | receive p f =>
    rw [Pop.step] at hstep
    split_ifs at hstep with hp
    cases hstep
    exact ⟨_, _, h.receive hs f hp⟩
  | giveBack p =>
    rw [Pop.step] at hstep
    split_ifs at hstep
    obtain ⟨s1, h1, hstep⟩ := Option.bind_eq_some_iff.1 hstep
    cases hstep
    have h2 := h.free h1
    exact ⟨_, _, h2.keep rfl rfl rfl (fun _ _ hx hv => ⟨hx, hv⟩) fun _ hm => hm⟩
  | pushFrame p fromAddr now now' =>
    rw [Pop.step] at hstep
    split_ifs at hstep
    exact ⟨_, _, h.push hstep⟩
  | serviceScan =>
    rw [Pop.step] at hstep
    split_ifs at hstep
    cases hstep
    exact ⟨_, _, h.scan⟩
  | serviceAct =>
    rw [Pop.step] at hstep
    cases hv : s.service with
    | scanning => simp [hv] at hstep
    | discarding k f =>
      rw [hv] at hstep
      exact ⟨_, _, h.discard hs hv hstep⟩
    | transferring k f =>
      rw [hv] at hstep
      obtain ⟨holding', h'⟩ := h.transfer hs hv hstep
      exact ⟨_, _, h'⟩

/-! ## Runs -/

omit [DecidableEq τ] in
theorem ledger_init : Ledger (State.init τ) 0 [] where
  woken h := by cases h
  served h := by cases h
  returned := List.Forall₂.nil
  balance := by simp [waiting, slotFrame, State.init, goods]

/-- The invariant, with an account of the frames. -/
structure Sound (s : State τ) : Prop where
  inv : Inv s
  ledger : ∃ holding done, Ledger s holding done

theorem Sound.step {a : Action τ} (hc : NothingStale s a) (h : Sound s) (hstep : Pop.step s a = some s') :
    Sound s' := by
  obtain ⟨holding, done, hledger⟩ := h.ledger
  exact ⟨h.inv.step hc hstep, hledger.step hc h.inv hstep⟩

omit [DecidableEq τ] in
theorem sound_init : Sound (State.init τ) := ⟨inv_init, _, _, ledger_init⟩

omit [DecidableEq τ] in
theorem Sound.deliversOnce (h : Sound s) : DeliversOnce s := by
  obtain ⟨holding, done, hledger⟩ := h.ledger
  exact ⟨done, hledger.returned, le_trans (Multiset.le_add_left _ _) hledger.balance⟩

/-- **POP delivers each frame at most once**: in every run in which nothing stale is reused, the calls of
`socket_recvfrom` that have returned have got different ones of the frames that `pop_push_frame` accepted. -/
theorem pop_delivers_once {as : List (Action τ)} {s : State τ} (hc : Every step NothingStale (State.init τ) as)
    (hr : run step (State.init τ) as = some s) : DeliversOnce s :=
  (run_invariant Sound.step sound_init hc hr).deliversOnce

end Threads

end Buenos.Pop

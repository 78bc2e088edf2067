import Buenos.Drivers.Nic

/-!
# Wake-ups of the network interface driver

The interrupt handler acknowledges an interrupt and signals a condition variable without `nic->lock`, so the
thread that it means may not wait there yet.

* `NothingLost` — a frame in the receive buffer has somebody on the way to it, and whoever sleeps until the
  end of a transfer will be woken.
* `SignalsReach` — the condition on a step: the signal of the handler reaches the thread that it is for.
* `Wake` — the invariant of the runs that meet it.

Principal results: `nic_wakes`, and `nic_strands`, where a frame and a thread are stranded.
-/

namespace Buenos.Nic

open Transition

variable {τ : Type}

/-! ## The property and the condition -/

/-- The thread's `SEND` is being carried out, or its interrupt is pending. -/
def SendPending (s : State τ) (t : τ) : Prop :=
  s.transfer t = .sending ∧ s.sbusy = true ∨ s.transfer t = .sent ∧ s.sirq = true

/-- The thread's `RECEIVE` is being carried out, or its interrupt is pending. -/
def ReceivePending (s : State τ) (t : τ) : Prop :=
  s.transfer t = .receiving ∧ s.rbusy = true ∨ s.transfer t = .received ∧ s.rirq = true

theorem SendPending.ne {s : State τ} {t : τ} (h : SendPending s t) :
    s.transfer t ≠ .receiving ∧ s.transfer t ≠ .received := by
  obtain ⟨h, -⟩ | ⟨h, -⟩ := h <;> rw [h] <;> exact ⟨Transfer.noConfusion, Transfer.noConfusion⟩

theorem ReceivePending.ne {s : State τ} {t : τ} (h : ReceivePending s t) :
    s.transfer t ≠ .sending ∧ s.transfer t ≠ .sent := by
  obtain ⟨h, -⟩ | ⟨h, -⟩ := h <;> rw [h] <;> exact ⟨Transfer.noConfusion, Transfer.noConfusion⟩

/-- No frame and no thread is stranded: somebody is on the way to a frame that is not being transferred, and who
sleeps until the end of a transfer will be woken. -/
structure NothingLost (s : State τ) : Prop where
  frame : s.rxbusy = true → s.rbusy = false → s.rxirq = false → ∃ t, Signalled s t
  sender : ∀ t ∈ s.queues .csirq, SendPending s t
  receiver : ∀ t ∈ s.queues .crirq, ReceivePending s t

/-- **The condition on a step**: `RXIRQ` is acknowledged only while a receiver waits on `crxirq`, and `RIRQ`
and `SIRQ` only when every thread whose completed transfer they acknowledge is the one that the signal
wakes. -/
def SignalsReach (s : State τ) : Action τ → Prop
  | .interrupt => s.rxirq = true → s.dmabusy = false → s.queues .crxirq ≠ []
  | .interruptNext =>
    (s.handler = some .rirq → s.rirq = true → ∀ t, s.transfer t = .received → (s.queues .crirq).head? = some t) ∧
      (s.handler = some .sirq → s.sirq = true → ∀ t, s.transfer t = .sent → (s.queues .csirq).head? = some t)
  | _ => True

instance [DecidableEq τ] [Fintype τ] (s : State τ) : ∀ a, Decidable (SignalsReach s a)
  | .interrupt => inferInstanceAs (Decidable (_ → _ → _))
  | .interruptNext => inferInstanceAs (Decidable ((_ → _ → ∀ _, _ → _) ∧ (_ → _ → ∀ _, _ → _)))
  | .nicSend _ | .nicRecv _ | .acquire _ | .go _ | .frameArrives | .completeReceive | .completeSend => isTrue trivial

/-! ## The invariant -/

/-- Between `SEND` and the signal. -/
def Sends (s : State τ) (t : τ) : Prop := s.pc t = .sendIssued ∨ t ∈ s.queues .csirq

/-- Between `RECEIVE` and the signal. -/
def Receives (s : State τ) (t : τ) : Prop := s.pc t = .recvIssued ∨ t ∈ s.queues .crirq

/-- No wake-up was lost so far, nor will it be when a thread that has issued its command goes to sleep. A frame
stays the receiver's from `RECEIVE`, over the end of `RBUSY`, until `RIRQ` is acknowledged. -/
structure Wake (s : State τ) : Prop where
  inv : Inv s
  frame : s.rxbusy = true → s.rxirq = false → s.rbusy = false → s.rirq = false → ∃ t, Signalled s t
  sends : ∀ {t}, Sends s t → SendPending s t
  receives : ∀ {t}, Receives s t → ReceivePending s t

/-- The frame has nobody on the way to it only while its transfer waits for `RIRQ` to be acknowledged. -/
theorem Wake.nothingLost_iff {s : State τ} (h : Wake s) : NothingLost s ↔ s.rirq = false := by
  refine ⟨fun hlost => ?_, fun hri => ⟨fun hrx hrb hirq => h.frame hrx hirq hrb hri, fun _ ht => h.sends (.inr ht),
    fun _ ht => h.receives (.inr ht)⟩⟩
  by_contra hno
  have hri : s.rirq = true := eq_true_of_ne_false hno
  have hrb : s.rbusy ≠ true := fun hrb => hno ((h.inv.rbusy hrb).2)
  have hirq : s.rxirq ≠ true := fun hirq => hno ((h.inv.rxirq hirq).2.2)
  obtain ⟨t, ht⟩ := hlost.frame (h.inv.rirq hri) (eq_false_of_ne_true hrb) (eq_false_of_ne_true hirq)
  exact hno (h.inv.signalled ht).2.2.2

theorem wake_init : Wake (State.init τ) where
  inv := inv_init
  frame := fun h => Bool.noConfusion h
  sends := fun h => h.elim (fun h => Pc.noConfusion h) fun h => absurd h List.not_mem_nil
  receives := fun h => h.elim (fun h => Pc.noConfusion h) fun h => absurd h List.not_mem_nil

section Threads

variable {s s' : State τ} {t : τ}

/-- **The frame rule**: a step of `t` that clears no bit of the device. -/
theorem Wake.thread (hw : Wake s) (hinv : Inv s') (hpc : ∀ u, u ≠ t → s'.pc u = s.pc u)
    (hqueues : ∀ c u, u ≠ t → (u ∈ s'.queues c ↔ u ∈ s.queues c))
    (htransfer : ∀ u, u ≠ t → s'.transfer u = s.transfer u) (hrxbusy : s'.rxbusy = s.rxbusy)
    (hrxirq : s'.rxirq = s.rxirq) (hrirq : s'.rirq = s.rirq) (hsirq : s'.sirq = s.sirq)
    (hrbusy : s.rbusy = true → s'.rbusy = true) (hsbusy : s.sbusy = true → s'.sbusy = true)
    (hsignalled : Signalled s t → Signalled s' t ∨ s'.rbusy = true)
    (hsends : Sends s' t → SendPending s' t) (hreceives : Receives s' t → ReceivePending s' t) : Wake s' where
  inv := hinv
  frame := by
    rw [hrxbusy, hrxirq, hrirq]
    intro hrx hirq hrb hri
    have hrb' : s.rbusy = false := by
      cases h : s.rbusy with
      | false => rfl
      | true => rw [hrbusy h] at hrb; cases hrb
    obtain ⟨u, hu⟩ := hw.frame hrx hirq hrb' hri
    obtain rfl | hne := eq_or_ne u t
    · obtain h | h := hsignalled hu
      · exact ⟨u, h⟩
      · rw [hrb] at h
        cases h
    · refine ⟨u, ?_⟩
      unfold Signalled at hu ⊢
      rw [hpc u hne, hqueues _ u hne]
      exact hu
  sends := by
    intro u hu
    obtain rfl | hne := eq_or_ne u t
    · exact hsends hu
    · unfold Sends at hu
      rw [hpc u hne, hqueues _ u hne] at hu
      unfold SendPending
      rw [htransfer u hne, hsirq]
      exact (hw.sends hu).imp_left fun h => ⟨h.1, hsbusy h.2⟩
  receives := by
    intro u hu
    obtain rfl | hne := eq_or_ne u t
    · exact hreceives hu
    · unfold Receives at hu
      rw [hpc u hne, hqueues _ u hne] at hu
      unfold ReceivePending
      rw [htransfer u hne, hrirq]
      exact (hw.receives hu).imp_left fun h => ⟨h.1, hrbusy h.2⟩

/-- Who neither waits nor is to issue `RECEIVE` was not woken for a frame. -/
theorem not_signalled_of (ht : (s.pc t).waits = none) (hc : s.pc t ≠ .recvCommand) : ¬ Signalled s t := by
  rintro (⟨h, -⟩ | h)
  · rw [h] at ht
    cases ht
  · exact hc h

variable [DecidableEq τ] {p : Pc} {c : Cond}

/-- A thread that waits nowhere moves. -/
theorem Wake.setPc (hw : Wake s) {l : Lock τ} {w : List τ}
    (hinv : Inv ({ s with lock := l, lockQueue := w }.setPc t p)) (hnot : ∀ c, t ∉ s.queues c)
    (hframe : Signalled s t → p = .recvCommand) (hp : p ≠ .sendIssued ∧ p ≠ .recvIssued) :
    Wake ({ s with lock := l, lockQueue := w }.setPc t p) := by
  refine hw.thread hinv (fun u hu => setPc_ne hu) (fun _ _ _ => Iff.rfl) (fun _ _ => rfl) rfl rfl rfl rfl id id
    (fun h => .inl (.inr ?_)) (fun h => ?_) fun h => ?_
  · rw [setPc_self]
    exact hframe h
  · obtain h | h := h
    · exact absurd (setPc_self.symm.trans h) hp.1
    · exact absurd h (hnot _)
  · obtain h | h := h
    · exact absurd (setPc_self.symm.trans h) hp.2
    · exact absurd h (hnot _)

theorem mem_wait {u : τ} {d : Cond} (hu : u ≠ t) : u ∈ (s.wait t c p).queues d ↔ u ∈ s.queues d := by
  show u ∈ Function.update s.queues c (s.queues c ++ [t]) d ↔ _
  obtain rfl | hd := eq_or_ne d c
  · rw [Function.update_self, List.mem_append, List.mem_singleton]
    exact or_iff_left hu
  · rw [Function.update_of_ne hd]

/-- `condition_wait`: a thread that has issued a command stays between it and the signal. -/
theorem Wake.wait (hw : Wake s) (hinv : Inv (s.wait t c p)) (ht : (s.pc t).waits = none)
    (hframe : s.pc t ≠ .recvCommand) (hp : p ≠ .sendIssued ∧ p ≠ .recvIssued)
    (hs : c = .csirq → s.pc t = .sendIssued) (hr : c = .crirq → s.pc t = .recvIssued) : Wake (s.wait t c p) := by
  have hnot := hw.inv.not_mem ht
  have hother : ∀ {d}, d ≠ c → t ∉ (s.wait t c p).queues d := by
    intro d hd h
    have h : t ∈ Function.update s.queues c (s.queues c ++ [t]) d := h
    rw [Function.update_of_ne hd] at h
    exact hnot d h
  refine hw.thread hinv (fun u hu => setPc_ne hu) (fun _ _ hu => mem_wait hu) (fun _ _ => rfl) rfl rfl rfl rfl id id
    (fun h => ?_) (fun h => ?_) fun h => ?_
  · obtain ⟨h, -⟩ | h := h
    · rw [h] at ht
      cases ht
    · exact absurd h hframe
  · obtain h | h := h
    · exact absurd (setPc_self.symm.trans h) hp.1
    · by_cases hc : c = .csirq
      · exact hw.sends (.inl (hs hc))
      · exact absurd h (hother (Ne.symm hc))
  · obtain h | h := h
    · exact absurd (setPc_self.symm.trans h) hp.2
    · by_cases hc : c = .crirq
      · exact hw.receives (.inl (hr hc))
      · exact absurd h (hother (Ne.symm hc))

/-- The step that issues `SEND`. -/
theorem Wake.send (hw : Wake s) (ht : s.pc t = .sendCommand) :
    Wake ({ s with sbusy := true, transfer := Function.update s.transfer t .sending }.setPc t .sendIssued) := by
  refine hw.thread (hw.inv.send ht).inv (fun u hu => setPc_ne hu) (fun _ _ _ => Iff.rfl)
    (fun u hu => Function.update_of_ne hu _ _) rfl rfl rfl rfl id (fun _ => rfl) (fun h => ?_)
    (fun _ => .inl ⟨Function.update_self _ _ _, rfl⟩) fun h => ?_
  · refine absurd h (not_signalled_of ?_ ?_) <;> rw [ht]
    · rfl
    · exact Pc.noConfusion
  · obtain h | h := h
    · exact Pc.noConfusion (setPc_self.symm.trans h)
    · exact absurd h (hw.inv.not_mem (by rw [ht]; rfl) _)

/-- The step that issues `RECEIVE`. -/
theorem Wake.receive (hw : Wake s) (ht : s.pc t = .recvCommand) :
    Wake ({ s with rbusy := true, transfer := Function.update s.transfer t .receiving }.setPc t .recvIssued) := by
  refine hw.thread (hw.inv.receive ht).inv (fun u hu => setPc_ne hu) (fun _ _ _ => Iff.rfl)
    (fun u hu => Function.update_of_ne hu _ _) rfl rfl rfl rfl (fun _ => rfl) id (fun _ => .inr rfl)
    (fun h => ?_) fun _ => .inl ⟨Function.update_self _ _ _, rfl⟩
  obtain h | h := h
  · exact Pc.noConfusion (setPc_self.symm.trans h)
  · exact absurd h (hw.inv.not_mem (by rw [ht]; rfl) _)

theorem Wake.goStep (hw : Wake s) (h : s.go t = some s') : Wake s' := by
  have hinv := (hw.inv.goStep h).inv
  unfold State.go at h
  split at h
  · rename_i ht
    have hwaits : (s.pc t).waits = none := by rw [ht]; rfl
    have hnot : ¬ Signalled s t := not_signalled_of hwaits (by rw [ht]; exact Pc.noConfusion)
    split at h <;> cases h
    refine hw.setPc hinv (hw.inv.not_mem hwaits) (fun h => absurd h hnot) ?_
    split <;> exact ⟨Pc.noConfusion, Pc.noConfusion⟩
  · rename_i ht
    cases h
    exact hw.wait hinv (by rw [ht]; rfl) (by rw [ht]; exact Pc.noConfusion) ⟨Pc.noConfusion, Pc.noConfusion⟩
      (fun h => Cond.noConfusion h) fun h => Cond.noConfusion h
  · rename_i ht
    split at h <;> cases h
    exact hw.send ht
  · rename_i ht
    cases h
    exact hw.wait hinv (by rw [ht]; rfl) (by rw [ht]; exact Pc.noConfusion) ⟨Pc.noConfusion, Pc.noConfusion⟩
      (fun _ => ht) fun h => Cond.noConfusion h
  · rename_i ht
    cases h
    exact hw.wait hinv (by rw [ht]; rfl) (by rw [ht]; exact Pc.noConfusion) ⟨Pc.noConfusion, Pc.noConfusion⟩
      (fun h => Cond.noConfusion h) fun h => Cond.noConfusion h
  · rename_i ht
    split at h <;> cases h
    exact hw.receive ht
  · rename_i ht
    cases h
    exact hw.wait hinv (by rw [ht]; rfl) (by rw [ht]; exact Pc.noConfusion) ⟨Pc.noConfusion, Pc.noConfusion⟩
      (fun h => Cond.noConfusion h) fun _ => ht
  all_goals rename_i ht
  · have hwaits : (s.pc t).waits = none := by rw [ht]; rfl
    have hnot : ¬ Signalled s t := not_signalled_of hwaits (by rw [ht]; exact Pc.noConfusion)
    cases h
    exact hw.setPc hinv (hw.inv.not_mem hwaits) (fun h => absurd h hnot) ⟨Pc.noConfusion, Pc.noConfusion⟩
  · have hwaits : (s.pc t).waits = none := by rw [ht]; rfl
    have hnot : ¬ Signalled s t := not_signalled_of hwaits (by rw [ht]; exact Pc.noConfusion)
    cases h
    exact hw.setPc hinv (hw.inv.not_mem hwaits) (fun h => absurd h hnot) ⟨Pc.noConfusion, Pc.noConfusion⟩
  · cases h

/-- `lock_acquire`: a receiver that was woken for a frame goes on to its `RECEIVE`. -/
theorem Wake.acquire (hw : Wake s) (hp : (s.pc t).acquired = some p)
    (hq : ¬ ∃ c ∈ (s.pc t).waits, t ∈ s.queues c) (h : s.acquire t p = some s') : Wake s' := by
  have hinv := (hw.inv.acquire hp hq h).inv
  have hnot : ∀ c, t ∉ s.queues c := fun c hm => hq ⟨c, hw.inv.asleep hm, hm⟩
  have hframe : Signalled s t → p = .recvCommand := by
    rintro (⟨h, -⟩ | h)
    · rw [h] at hp
      exact (Option.some.inj hp).symm
    · rw [h] at hp
      cases hp
  have hcommand : p ≠ .sendIssued ∧ p ≠ .recvIssued := by
    cases hpc : s.pc t <;> rw [hpc] at hp <;> cases hp <;> exact ⟨Pc.noConfusion, Pc.noConfusion⟩
  unfold State.acquire at h
  split at h
  · cases h
    exact hw.setPc hinv hnot hframe hcommand
  · split at h
    · cases h
      exact hw.setPc hinv hnot hframe hcommand
    · split at h <;> cases h
      exact ⟨hinv, hw.frame, hw.sends, hw.receives⟩
  · split at h <;> cases h
    exact ⟨hinv, hw.frame, hw.sends, hw.receives⟩

end Threads

section Handler

variable {s s' : State τ} {c : Cond} {t : τ}

/-- The first waiter of a queue is not in its rest. -/
theorem not_mem_signal (hn : (s.queues c).Nodup) (h : (s.queues c).head? = some t) :
    t ∉ (s.signal c).queues c := by
  show t ∉ Function.update s.queues c (s.queues c).tail c
  rw [Function.update_self]
  cases hl : s.queues c with
  | nil =>
    rw [hl] at h
    cases h
  | cons u rest =>
    rw [hl] at h hn
    cases h
    exact (List.nodup_cons.1 hn).1

/-- A signal only takes threads out of the queues. -/
theorem Sends.of_signal (h : Sends (s.signal c) t) : Sends s t := h.imp_right mem_signal

theorem Receives.of_signal (h : Receives (s.signal c) t) : Receives s t := h.imp_right mem_signal

/-- `RXIRQ`: the first receiver is woken for the frame. -/
theorem Wake.handleRxirq (hw : Wake s) (hc : s.rxirq = true → s.dmabusy = false → s.queues .crxirq ≠ []) :
    Wake s.handleRxirq := by
  have hinv := hw.inv.handleRxirq
  unfold State.handleRxirq at hinv ⊢
  split
  · rename_i h
    rw [if_pos h] at hinv
    refine ⟨hinv, fun _ _ _ _ => ?_, fun h => hw.sends h.of_signal, fun h => hw.receives h.of_signal⟩
    obtain ⟨u, rest, hl⟩ := List.exists_cons_of_ne_nil (hc h.1 h.2)
    have hmem : u ∈ s.queues .crxirq := by
      rw [hl]
      exact List.mem_cons_self
    have hpc : s.pc u = .recvFrameWait := by
      have hwaits := hw.inv.asleep hmem
      cases hp : s.pc u <;> rw [hp] at hwaits <;> cases hwaits
    exact ⟨u, .inl ⟨hpc, not_mem_signal (s := { s with rxirq := false }) (hw.inv.nodup _) (by rw [hl]; rfl)⟩⟩
  · exact hw

theorem advance_of_ne {f : τ → Transfer} {a b : Transfer} (h : f t ≠ a) : advance f a b t = f t := if_neg h

/-- `RIRQ`: the receiver whose transfer has completed is woken. -/
theorem Wake.handleRirq (hw : Wake s)
    (hc : s.rirq = true → ∀ t, s.transfer t = .received → (s.queues .crirq).head? = some t) :
    Wake s.handleRirq := by
  have hinv := hw.inv.handleRirq.inv
  unfold State.handleRirq at hinv ⊢
  split
  · rename_i hri
    rw [if_pos hri] at hinv
    refine ⟨hinv, fun h => Bool.noConfusion h, fun {u} hu => ?_, fun {u} hu => ?_⟩
    · have hold : Sends s u := Sends.of_signal (Sends.of_signal hu)
      have hp := hw.sends hold
      have hne : s.transfer u ≠ .received := hp.ne.2
      show advance s.transfer .received .acknowledged u = .sending ∧ s.sbusy = true ∨
        advance s.transfer .received .acknowledged u = .sent ∧ s.sirq = true
      rw [advance_of_ne hne]
      exact hp
    · have hu := Receives.of_signal hu
      have hold : Receives s u := Receives.of_signal hu
      -- The thread whose transfer is acknowledged leaves the queue.
      have hne : s.transfer u ≠ .received := by
        intro h
        have hhead := hc hri u h
        have hmem : u ∈ s.queues .crirq := List.mem_of_mem_head? hhead
        obtain hpc | hin := hu
        · have hpc : s.pc u = .recvIssued := hpc
          have hwaits := hw.inv.asleep hmem
          rw [hpc] at hwaits
          cases hwaits
        · exact not_mem_signal (hw.inv.nodup _) hhead hin
      obtain ⟨htr, hrb⟩ | ⟨htr, -⟩ := hw.receives hold
      · refine .inl ⟨?_, hrb⟩
        show advance s.transfer .received .acknowledged u = .receiving
        rw [advance_of_ne hne, htr]
      · exact absurd htr hne
  · exact hw

/-- `SIRQ`: the sender whose transfer has completed is woken. -/
theorem Wake.handleSirq (hw : Wake s)
    (hc : s.sirq = true → ∀ t, s.transfer t = .sent → (s.queues .csirq).head? = some t) :
    Wake s.handleSirq := by
  have hinv := hw.inv.handleSirq.inv
  unfold State.handleSirq at hinv ⊢
  split
  · rename_i hsi
    rw [if_pos hsi] at hinv
    refine ⟨hinv, fun hrx hirq hrb hri => ?_, fun {u} hu => ?_, fun {u} hu => ?_⟩
    · obtain ⟨u, hu⟩ := hw.frame hrx hirq hrb hri
      refine ⟨u, (signal_signalled Cond.noConfusion).2 ((signal_signalled Cond.noConfusion).2 ?_)⟩
      exact hu
    · have hu := Sends.of_signal hu
      have hold : Sends s u := Sends.of_signal hu
      have hne : s.transfer u ≠ .sent := by
        intro h
        have hhead := hc hsi u h
        have hmem : u ∈ s.queues .csirq := List.mem_of_mem_head? hhead
        obtain hpc | hin := hu
        · have hpc : s.pc u = .sendIssued := hpc
          have hwaits := hw.inv.asleep hmem
          rw [hpc] at hwaits
          cases hwaits
        · exact not_mem_signal (hw.inv.nodup _) hhead hin
      obtain ⟨htr, hsb⟩ | ⟨htr, -⟩ := hw.sends hold
      · refine .inl ⟨?_, hsb⟩
        show advance s.transfer .sent .acknowledged u = .sending
        rw [advance_of_ne hne, htr]
      · exact absurd htr hne
    · have hold : Receives s u := Receives.of_signal (Receives.of_signal hu)
      have hp := hw.receives hold
      have hne : s.transfer u ≠ .sent := hp.ne.2
      show advance s.transfer .sent .acknowledged u = .receiving ∧ s.rbusy = true ∨
        advance s.transfer .sent .acknowledged u = .received ∧ s.rirq = true
      rw [advance_of_ne hne]
      exact hp
  · exact hw

end Handler

/-- **Every step that meets the condition keeps the invariant.** -/
theorem Wake.step [DecidableEq τ] {s s' : State τ} {a : Action τ} (hw : Wake s) (hc : SignalsReach s a)
    (h : step s a = some s') : Wake s' := by
  have hinv := hw.inv.step h
  have henter : ∀ {t p}, s.pc t = .outside → p ≠ .sendIssued ∧ p ≠ .recvIssued → Inv (s.setPc t p) →
      Wake (s.setPc t p) := by
    intro t p ht hp hinv
    have hwaits : (s.pc t).waits = none := by rw [ht]; rfl
    have hnot : ¬ Signalled s t := not_signalled_of hwaits (by rw [ht]; exact Pc.noConfusion)
    exact hw.setPc hinv (hw.inv.not_mem hwaits) (fun h => absurd h hnot) hp
  cases a with
  | nicSend t =>
    simp only [Nic.step] at h
    split at h <;> cases h
    rename_i ht
    exact henter ht ⟨Pc.noConfusion, Pc.noConfusion⟩ hinv
  | nicRecv t =>
    simp only [Nic.step] at h
    split at h <;> cases h
    rename_i ht
    exact henter ht ⟨Pc.noConfusion, Pc.noConfusion⟩ hinv
  | acquire t =>
    simp only [Nic.step] at h
    split at h
    · cases h
    · rename_i p hp
      split at h
      · cases h
      · rename_i hq
        exact hw.acquire hp hq h
  | go t => exact hw.goStep h
  | interrupt =>
    simp only [Nic.step] at h
    split at h <;> cases h
    have h1 := hw.handleRxirq hc
    exact ⟨hinv, h1.frame, h1.sends, h1.receives⟩
  | interruptNext =>
    simp only [Nic.step] at h
    split at h <;> cases h
    · rename_i hh
      have h1 := hw.handleRirq (hc.1 hh)
      exact ⟨hinv, h1.frame, h1.sends, h1.receives⟩
    · rename_i hh
      have h1 := hw.handleSirq (hc.2 hh)
      exact ⟨hinv, h1.frame, h1.sends, h1.receives⟩
  | frameArrives =>
    simp only [Nic.step] at h
    split at h <;> cases h
    exact ⟨hinv, fun _ h => Bool.noConfusion h, hw.sends, hw.receives⟩
  | completeReceive =>
    simp only [Nic.step] at h
    split at h <;> cases h
    refine ⟨hinv, fun _ _ _ h => Bool.noConfusion h, fun {u} hu => ?_, fun {u} hu => ?_⟩
    · have hp := hw.sends (t := u) hu
      have hne : s.transfer u ≠ .receiving := hp.ne.1
      show advance s.transfer .receiving .received u = .sending ∧ s.sbusy = true ∨
        advance s.transfer .receiving .received u = .sent ∧ s.sirq = true
      rw [advance_of_ne hne]
      exact hp
    · obtain ⟨htr, -⟩ | ⟨htr, -⟩ := hw.receives (t := u) hu
      · exact .inr ⟨if_pos htr, rfl⟩
      · refine .inr ⟨?_, rfl⟩
        show advance s.transfer .receiving .received u = .received
        rw [advance_of_ne (by rw [htr]; exact Transfer.noConfusion), htr]
  | completeSend =>
    simp only [Nic.step] at h
    split at h <;> cases h
    refine ⟨hinv, hw.frame, fun {u} hu => ?_, fun {u} hu => ?_⟩
    · obtain ⟨htr, -⟩ | ⟨htr, -⟩ := hw.sends (t := u) hu
      · exact .inr ⟨if_pos htr, rfl⟩
      · refine .inr ⟨?_, rfl⟩
        show advance s.transfer .sending .sent u = .sent
        rw [advance_of_ne (by rw [htr]; exact Transfer.noConfusion), htr]
    · have hp := hw.receives (t := u) hu
      have hne : s.transfer u ≠ .sending := hp.ne.1
      show advance s.transfer .sending .sent u = .receiving ∧ s.rbusy = true ∨
        advance s.transfer .sending .sent u = .received ∧ s.rirq = true
      rw [advance_of_ne hne]
      exact hp

/-- **No wake-up is lost** in any run in which every signal of the interrupt handler reaches the thread that
it is for: nobody sleeps for a transfer that is over, and a frame has somebody on the way to it, but for the time
between the end of its transfer and the handler. -/
theorem nic_wakes [DecidableEq τ] {as : List (Action τ)} {s : State τ}
    (hc : Every step SignalsReach (State.init τ) as) (hr : run step (State.init τ) as = some s) :
    (NothingLost s ↔ s.rirq = false) ∧ (∀ t ∈ s.queues .csirq, SendPending s t) ∧
      ∀ t ∈ s.queues .crirq, ReceivePending s t := by
  have h := run_invariant (fun hc hw h => Wake.step hw hc h) wake_init hc hr
  exact ⟨h.nothingLost_iff, fun _ ht => h.sends (.inr ht), fun _ ht => h.receives (.inr ht)⟩

/-- A frame is received and one is sent while both threads sleep when they should. -/
def wokenRun : List (Action Bool) :=
  [.nicRecv false, .acquire false, .go false, .frameArrives, .interrupt, .interruptNext, .interruptNext,
    .acquire false, .go false, .go false, .completeReceive, .interrupt, .interruptNext, .interruptNext,
    .nicSend true, .acquire true, .go true, .go true, .go true, .completeSend]

theorem nic_wakes_wokenRun :
    ∃ s, run step (State.init Bool) wokenRun = some s ∧ s.queues .csirq = [true] ∧ s.sirq = true ∧
      NothingLost s := by
  have hrun : ∃ s, run step (State.init Bool) wokenRun = some s ∧ s.queues .csirq = [true] ∧ s.sirq = true ∧
      s.rirq = false := by
    decide +kernel
  obtain ⟨s, hr, hq, hsi, hri⟩ := hrun
  exact ⟨s, hr, hq, hsi, (nic_wakes (by decide +kernel) hr).1.2 hri⟩

/-- A frame arrives before anybody waits for one: the handler acknowledges `RXIRQ`, and the receiver that
comes then sleeps on. -/
def earlyFrame : List (Action Unit) :=
  [.frameArrives, .interrupt, .interruptNext, .interruptNext, .nicRecv (), .acquire (), .go ()]

/-- A transfer completes before its thread sleeps: the handler acknowledges `SIRQ`, and then the thread goes
to sleep. -/
def earlyCompletion : List (Action Unit) :=
  [.nicSend (), .acquire (), .go (), .go (), .completeSend, .interrupt, .interruptNext, .interruptNext, .go ()]

/-- **A frame and a thread are stranded.** -/
theorem nic_strands :
    (∃ s, run step (State.init Unit) earlyFrame = some s ∧ s.rxbusy = true ∧ s.rbusy = false ∧
      s.rxirq = false ∧ s.rirq = false ∧ (∀ t, ¬ Signalled s t) ∧ s.queues .crxirq = [()] ∧ ¬ NothingLost s) ∧
    ∃ s, run step (State.init Unit) earlyCompletion = some s ∧ s.queues .csirq = [()] ∧ s.sbusy = false ∧
      s.sirq = false ∧ ¬ NothingLost s := by
  have hframe : ∃ s, run step (State.init Unit) earlyFrame = some s ∧ s.rxbusy = true ∧ s.rbusy = false ∧
      s.rxirq = false ∧ s.rirq = false ∧ (∀ t, ¬ Signalled s t) ∧ s.queues .crxirq = [()] := by decide +kernel
  have hthread : ∃ s, run step (State.init Unit) earlyCompletion = some s ∧ s.queues .csirq = [()] ∧
      s.sbusy = false ∧ s.sirq = false := by decide +kernel
  constructor
  · obtain ⟨s, hr, hrx, hrb, hirq, hri, hnone, hq⟩ := hframe
    refine ⟨s, hr, hrx, hrb, hirq, hri, hnone, hq, fun hlost => ?_⟩
    obtain ⟨t, ht⟩ := hlost.frame hrx hrb hirq
    exact hnone t ht
  · obtain ⟨s, hr, hq, hsb, hsi⟩ := hthread
    refine ⟨s, hr, hq, hsb, hsi, fun hlost => ?_⟩
    obtain ⟨-, h⟩ | ⟨-, h⟩ := hlost.sender () (by rw [hq]; exact List.mem_cons_self)
    · rw [hsb] at h
      cases h
    · rw [hsi] at h
      cases h

end Buenos.Nic

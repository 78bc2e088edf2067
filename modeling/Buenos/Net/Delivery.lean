import Buenos.Net.Pop

/-!
# POP delivers to the right port

What a `socket_recvfrom` returns, over all runs of the sockets, the network threads and the service thread.

* `Delivered` — the return variables hold an accepted frame for the port of the call.
* `NothingStale` — the condition on a step: `socket_open` does not reuse what an older call, semaphore or
  queue slot still refers to, `socket_recvfrom` does not begin between the transfer for an older call and
  its `semaphore_P`, and `pop_push_frame` does not recycle a slot that is being discarded.
* `Inv` — who owns each page, which frames are matched to which sockets, and for each open socket how far
  its receiver is (`Stage`).

Principal results: `pop_delivers` — under the condition everything returned is from a frame for the right
port, and `pop_wrong_port`, a frame for one port that is returned on another one.
-/

namespace Buenos.Pop

open Transition

/-! ## The property and the condition -/

/-- What a transfer writes for a call that has room for `buflength` bytes. -/
def written (fromAddr : UInt32) (f : Frame) (buflength : ℕ) : Vars :=
  ⟨some (f.payload.take (min f.size.toNat buflength)), some fromAddr, some f.sourcePort,
    some (min f.size.toNat buflength)⟩

/-- The variables hold the data and the sender of an accepted frame for the call's port. -/
def Delivered (accepted : List (UInt32 × Frame)) (r : Request) (v : Vars) : Prop :=
  ∃ a ∈ accepted, a.2.destPort = r.port ∧ v = written a.1 a.2 r.buflength

variable {τ : Type}

/-- Everything returned so far was delivered to the right port. -/
def DeliversRight (s : State τ) : Prop := ∀ x ∈ s.returned, Delivered s.accepted x.1 x.2

/-- The thread is between the section and the `semaphore_P` of a `socket_recvfrom` on `i`. -/
def Pc.enteredAt (i : Sock) : Pc → Bool
  | .entered r => decide (r.socket = i)
  | _ => false

/-- Nobody is there. -/
def NobodyEntered (s : State τ) (i : Sock) : Prop := ∀ t, (s.pc t).enteredAt i = false

/-- The frames matched to socket `i` are for the port. -/
def MatchedFor (s : State τ) (i : Sock) (port : UInt16) : Prop :=
  ∀ k, (s.queue k).socket = some i → ∀ f ∈ (s.queue k).frame, (s.pages f).destPort = port

/-- The entry, the port and the semaphore of a socket that is opened have no past. -/
def OpensFresh (s : State τ) (protocol : UInt8) (x : Sem) : Option Opening → Prop
  | some (.entry i port) => NobodyEntered s i ∧ s.sleepers x = [] ∧
      (protocol = PROTOCOL_POP → MatchedFor s i port)
  | _ => True

/-- The slot is not the one that is to be discarded. -/
def KeepsClear (slot : Option Slot) : Service → Prop
  | .discarding k _ => slot ≠ some k
  | _ => True

/-- **The condition on a step.** -/
def NothingStale (s : State τ) : Action τ → Prop
  | .socketOpen protocol port (some x) => OpensFresh s protocol x (opening s.sockets protocol port)
  | .socketRecvfrom _ i _ => (s.sockets i).protocol = PROTOCOL_POP → (s.sockets i).rbuf.isNone = true →
      NobodyEntered s i
  | .pushFrame _ _ now _ => KeepsClear (pushSlot s.queue now) s.service
  | _ => True

section

variable [Fintype τ] (s : State τ)

instance (i : Sock) : Decidable (NobodyEntered s i) := inferInstanceAs (Decidable (∀ _, _))

instance (i : Sock) (port : UInt16) : Decidable (MatchedFor s i port) :=
  inferInstanceAs (Decidable (∀ _, _ → _))

instance (protocol : UInt8) (x : Sem) : ∀ o, Decidable (OpensFresh s protocol x o)
  | some (.entry i _) =>
    have : Decidable (s.sleepers x = []) := decidable_of_iff _ List.isEmpty_iff
    inferInstanceAs (Decidable (NobodyEntered s i ∧ s.sleepers x = [] ∧ (_ → _)))
  | some .fails => isTrue trivial
  | none => isTrue trivial

instance (slot : Option Slot) : ∀ v, Decidable (KeepsClear slot v)
  | .discarding k _ => inferInstanceAs (Decidable (slot ≠ some k))
  | .scanning => isTrue trivial
  | .transferring _ _ => isTrue trivial

instance : ∀ a, Decidable (NothingStale s a)
  | .socketOpen _ _ (some _) => inferInstanceAs (Decidable (OpensFresh _ _ _ _))
  | .socketOpen _ _ none => isTrue trivial
  | .socketRecvfrom _ _ _ => inferInstanceAs (Decidable (_ → _ → _))
  | .pushFrame _ _ _ _ => inferInstanceAs (Decidable (KeepsClear _ _))
  | .socketClose _ => isTrue trivial
  | .awaitComplete _ => isTrue trivial
  | .finish _ => isTrue trivial
  | .receive _ _ => isTrue trivial
  | .giveBack _ => isTrue trivial
  | .serviceScan => isTrue trivial
  | .serviceAct => isTrue trivial

end

/-! ## The invariant -/

/-- A page is free, or held by a network thread, or in one slot of the queue. -/
structure Pages (s : State τ) : Prop where
  reserved : ∀ {k f}, (s.queue k).frame = some f → s.reserved f = true
  unheld : ∀ {k f}, (s.queue k).frame = some f → s.held f = false
  accepted : ∀ {k f}, (s.queue k).frame = some f → ((s.queue k).fromAddr, s.pages f) ∈ s.accepted
  once : ∀ {k k' f}, (s.queue k).frame = some f → (s.queue k').frame = some f → k = k'
  held : ∀ {f}, s.held f = true → s.reserved f = true

/-- Frames matched to an open socket are for its port. -/
def PortsMatch (sockets : Sock → Socket τ) (pages : Page → Frame) (queue : Slot → QueueSlot) : Prop :=
  ∀ ⦃k f j⦄, (queue k).frame = some f → (queue k).socket = some j →
    (sockets j).protocol = PROTOCOL_POP → (sockets j).port = (pages f).destPort

/-- The service thread's next action is about the frame in its slot. -/
def Attends (queue : Slot → QueueSlot) : Service → Prop
  | .scanning => True
  | .discarding k f => (queue k).frame = some f
  | .transferring k f => (queue k).frame = some f ∧ (queue k).busy = true

/-- The request that the socket's variables are for. -/
def request (s : State τ) (i : Sock) : Request := ⟨i, (s.sockets i).port, (s.sockets i).bufsize⟩

/-- All return pointers of the socket are those of one thread. -/
structure PointsTo (e : Socket τ) (t : τ) : Prop where
  rbuf : e.rbuf = some t
  sender : e.sender = some t
  copied : e.copied = some t
  sport : e.sport = some t

/-- How far the receiver on an open socket with semaphore `x` is. -/
inductive Stage (s : State τ) (i : Sock) (x : Sem) : Prop
  /-- nobody receives -/
  | quiet : (s.sockets i).rbuf = none → s.value x = 0 → s.sleepers x = [] → NobodyEntered s i →
      Stage s i x
  /-- `t` has left its variables in the socket -/
  | asked (t : τ) : PointsTo (s.sockets i) t → s.pc t = .entered (request s i) → s.value x = 0 →
      s.sleepers x = [] → (∀ t', (s.pc t').enteredAt i = true → t' = t) → Stage s i x
  /-- and sleeps -/
  | waiting (t : τ) : PointsTo (s.sockets i) t → s.pc t = .sleeping (request s i) x →
      s.value x = -1 → s.sleepers x = [t] → NobodyEntered s i → Stage s i x
  /-- `t` has got its frame before it came to sleep -/
  | served (t : τ) (r : Request) : (s.sockets i).rbuf = none → s.pc t = .entered r → r.socket = i →
      Delivered s.accepted r (s.vars t) → s.value x = 1 → s.sleepers x = [] →
      (∀ t', (s.pc t').enteredAt i = true → t' = t) → Stage s i x

structure Calls (s : State τ) : Prop where
  stage : ∀ {i x}, (s.sockets i).receiveComplete = some x → Stage s i x
  own : ∀ {i j x}, (s.sockets i).receiveComplete = some x → (s.sockets j).receiveComplete = some x →
    i = j
  pop : ∀ {i t}, (s.sockets i).rbuf = some t → (s.sockets i).protocol = PROTOCOL_POP
  complete : ∀ {i}, (s.sockets i).protocol = PROTOCOL_POP → (s.sockets i).receiveComplete ≠ none
  woken : ∀ {t r}, s.pc t = .woken r → Delivered s.accepted r (s.vars t)
  returned : DeliversRight s

/-- **The invariant.** -/
structure Inv (s : State τ) : Prop where
  pages : Pages s
  ports : PortsMatch s.sockets s.pages s.queue
  attends : Attends s.queue s.service
  calls : Calls s

theorem Delivered.mono {accepted accepted' : List (UInt32 × Frame)} {r : Request} {v : Vars}
    (h : Delivered accepted r v) (hsub : ∀ a ∈ accepted, a ∈ accepted') : Delivered accepted' r v := by
  obtain ⟨a, ha, hport, hv⟩ := h
  exact ⟨a, hsub a ha, hport, hv⟩

/-! ## The searches -/

theorem chooseSlots_spec (queue : Slot → QueueSlot) :
    ∀ (ks : List Slot) (free oldest : Option Slot),
      (∀ k ∈ free, (queue k).frame = none) → (∀ k ∈ oldest, (queue k).busy = false) →
      (∀ k ∈ (chooseSlots queue ks (free, oldest)).1, (queue k).frame = none) ∧
        ∀ k ∈ (chooseSlots queue ks (free, oldest)).2, (queue k).busy = false
  | [], _, _, hf, ho => ⟨hf, ho⟩
  | k :: ks, free, oldest, hf, ho => by
    unfold chooseSlots
    refine chooseSlots_spec queue ks _ _ ?_ ?_
    · intro k' hk'
      split_ifs at hk' with h
      · cases hk'
        exact h.2
      · exact hf k' hk'
    · intro k' hk'
      split_ifs at hk' with h
      · cases hk'
        exact h.1
      · exact ho k' hk'

/-- `pop_push_frame` uses a free slot or one that is not busy. -/
theorem pushSlot_spec {queue : Slot → QueueSlot} {now : UInt32} {k : Slot}
    (h : pushSlot queue now = some k) : (queue k).frame = none ∨ (queue k).busy = false := by
  have hspec := chooseSlots_spec queue (List.finRange POP_QUEUE_SIZE) none none (by simp) (by simp)
  unfold pushSlot at h
  generalize chooseSlots queue (List.finRange POP_QUEUE_SIZE) (none, none) = c at h hspec
  obtain ⟨free, oldest⟩ := c
  cases free with
  | some i =>
    cases h
    exact .inl (hspec.1 _ rfl)
  | none =>
    cases oldest with
    | none => cases h
    | some o =>
      dsimp only at h
      split_ifs at h
      cases h
      exact .inr (hspec.2 _ rfl)

theorem findSocket_spec {sockets : Sock → Socket τ} {port : UInt16} {j : Sock}
    (h : findSocket sockets port = some j) :
    (sockets j).protocol = PROTOCOL_POP ∧ (sockets j).port = port := by
  have hj := List.find?_some h
  simpa using hj

/-- The service thread matches a frame. -/
theorem PortsMatch.matched {sockets : Sock → Socket τ} {pages : Page → Frame}
    {queue : Slot → QueueSlot} (hq : PortsMatch sockets pages queue) {k : Slot} {f : Page}
    (hf : (queue k).frame = some f) (busy : Bool) :
    PortsMatch sockets pages (Function.update queue k
      { queue k with socket := matchSocket sockets (queue k) (pages f), busy := busy }) := by
  intro k' f' j hf' hj hp
  by_cases hk : k' = k
  · subst hk
    rw [Function.update_self] at hf' hj
    rw [hf] at hf'
    cases hf'
    cases hs : (queue k').socket with
    | none =>
      rw [matchSocket, hs] at hj
      exact (findSocket_spec hj).2
    | some j' =>
      rw [matchSocket, hs] at hj
      cases hj
      exact hq hf hs hp
  · rw [Function.update_of_ne hk] at hf' hj
    exact hq hf' hj hp

/-- What the loop of the service thread leaves alone. -/
def SameFrames (queue queue' : Slot → QueueSlot) : Prop :=
  ∀ k, (queue' k).frame = (queue k).frame ∧ (queue' k).fromAddr = (queue k).fromAddr

theorem sameFrames_matched (queue : Slot → QueueSlot) (k : Slot) (socket : Option Sock) (busy : Bool) :
    SameFrames queue (Function.update queue k { queue k with socket := socket, busy := busy }) := by
  intro k'
  by_cases hk : k' = k
  · subst hk
    rw [Function.update_self]
    exact ⟨rfl, rfl⟩
  · rw [Function.update_of_ne hk]
    exact ⟨rfl, rfl⟩

/-- **The loop of the service thread**: it matches frames to sockets and settles on a frame. -/
theorem scan_spec (sockets : Sock → Socket τ) (pages : Page → Frame) :
    ∀ (ks : List Slot) (queue : Slot → QueueSlot),
      (PortsMatch sockets pages queue → PortsMatch sockets pages (scan sockets pages ks queue).1) ∧
      SameFrames queue (scan sockets pages ks queue).1 ∧
      Attends (scan sockets pages ks queue).1 (scan sockets pages ks queue).2
  | [], queue => ⟨id, fun _ => ⟨rfl, rfl⟩, trivial⟩
  | k :: ks, queue => by
    cases hf : (queue k).frame with
    | none =>
      simp only [scan, hf]
      exact scan_spec sockets pages ks queue
    | some f =>
      have hmatch := fun b (hq : PortsMatch sockets pages queue) => hq.matched hf b
      have hsame := sameFrames_matched queue k (matchSocket sockets (queue k) (pages f))
      have hself : ∀ b, (Function.update queue k { queue k with
          socket := matchSocket sockets (queue k) (pages f), busy := b } k).frame = some f := by
        intro b
        rw [Function.update_self]
        exact hf
      simp only [scan, hf]
      cases hj : matchSocket sockets (queue k) (pages f) with
      | none =>
        simp only [hj, hf] at hmatch hsame hself
        exact ⟨hmatch _, hsame _, hself _⟩
      | some j =>
        simp only [hj, hf] at hmatch hsame hself
        dsimp only
        split_ifs with hp hr
        · exact ⟨hmatch _, hsame _, hself _⟩
        · refine ⟨hmatch _, hsame _, hself _, ?_⟩
          simp only [Function.update_self]
        · obtain ⟨h1, h2, h3⟩ := scan_spec sockets pages ks
            (Function.update queue k { queue k with frame := some f, socket := some j })
          refine ⟨fun hq => h1 (hmatch (queue k).busy hq), fun k' => ?_, h3⟩
          exact ⟨(h2 k').1.trans (hsame _ k').1, (h2 k').2.trans (hsame _ k').2⟩

/-! ## Frames of the invariant -/

/-- The thread's place matters for socket `i` with semaphore `x`. -/
def Pc.concerns (i : Sock) (x : Sem) (c : Pc) : Prop :=
  c.enteredAt i = true ∨ ∃ r, c = .sleeping r x

/-- A stage is about the socket, its semaphore, and the threads that are at it. -/
theorem Stage.frame {s s' : State τ} {i : Sock} {x : Sem} (h : Stage s i x)
    (hsock : s'.sockets i = s.sockets i) (hv : s'.value x = s.value x)
    (hq : s'.sleepers x = s.sleepers x)
    (hpc : ∀ t, (s.pc t).concerns i x ∨ (s'.pc t).concerns i x →
      s'.pc t = s.pc t ∧ s'.vars t = s.vars t)
    (hacc : ∀ a ∈ s.accepted, a ∈ s'.accepted) : Stage s' i x := by
  have hreq : request s' i = request s i := by rw [request, request, hsock]
  have hback : ∀ {t}, (s'.pc t).enteredAt i = true → (s.pc t).enteredAt i = true := by
    intro t ht
    rw [← (hpc t (.inr (.inl ht))).1]
    exact ht
  have hnobody : NobodyEntered s i → NobodyEntered s' i := by
    intro hn t
    by_contra ht
    have := hback (Bool.not_eq_false _ ▸ ht)
    rw [hn t] at this
    cases this
  have hat : ∀ {r : Request}, r.socket = i → (Pc.entered r).enteredAt i = true := by
    intro r hr
    rw [Pc.enteredAt, decide_eq_true hr]
  cases h with
  | quiet hr h0 hnil hn =>
    exact .quiet (by rw [hsock, hr]) (by rw [hv, h0]) (by rw [hq, hnil]) (hnobody hn)
  | asked t hp ht h0 hnil honly =>
    have hsame := (hpc t (.inl (.inl (by rw [ht]; exact hat rfl)))).1
    exact .asked t (by rw [hsock]; exact hp) (by rw [hsame, ht, hreq]) (by rw [hv, h0])
      (by rw [hq, hnil]) fun t' h' => honly t' (hback h')
  | waiting t hp ht h0 hone hn =>
    have hsame := (hpc t (.inl (.inr ⟨_, ht⟩))).1
    exact .waiting t (by rw [hsock]; exact hp) (by rw [hsame, ht, hreq]) (by rw [hv, h0])
      (by rw [hq, hone]) (hnobody hn)
  | served t r hr ht hi hd h0 hnil honly =>
    obtain ⟨hsame, hvars⟩ := hpc t (.inl (.inl (by rw [ht]; exact hat hi)))
    exact .served t r (by rw [hsock, hr]) (by rw [hsame, ht]) hi (by rw [hvars]; exact hd.mono hacc)
      (by rw [hv, h0]) (by rw [hq, hnil]) fun t' h' => honly t' (hback h')

/-! ## The queue's steps -/

/-- What stays when only pages and the queue change. -/
theorem Calls.queue_only {s s' : State τ} (h : Calls s) (hsock : s'.sockets = s.sockets)
    (hv : s'.value = s.value) (hq : s'.sleepers = s.sleepers) (hpc : s'.pc = s.pc)
    (hvars : s'.vars = s.vars) (hret : s'.returned = s.returned)
    (hacc : ∀ a ∈ s.accepted, a ∈ s'.accepted) : Calls s' where
  stage := by
    intro i x hx
    rw [hsock] at hx
    refine (h.stage hx).frame (by rw [hsock]) (by rw [hv]) (by rw [hq]) (fun t _ => ?_) hacc
    exact ⟨by rw [hpc], by rw [hvars]⟩
  own := by
    rw [hsock]
    exact h.own
  pop := by
    rw [hsock]
    exact h.pop
  complete := by
    rw [hsock]
    exact h.complete
  woken := by
    intro t r ht
    rw [hpc] at ht
    rw [hvars]
    exact (h.woken ht).mono hacc
  returned := by
    intro y hy
    rw [hret] at hy
    exact (h.returned y hy).mono hacc

theorem networkFreeFrame_some {s s' : State τ} {f : Page} (h : networkFreeFrame s f = some s') :
    s' = { s with reserved := Function.update s.reserved f false } := by
  rw [networkFreeFrame] at h
  split_ifs at h
  cases h
  rfl

/-- A page that a network thread may write to is not in the queue. -/
theorem Pages.not_queued {s : State τ} (hs : Pages s) {p : Page} (hp : s.reserved p = false ∨ s.held p = true)
    {k : Slot} {f : Page} (hf : (s.queue k).frame = some f) : f ≠ p := by
  rintro rfl
  obtain h | h := hp
  · rw [hs.reserved hf] at h
    cases h
  · rw [hs.unheld hf] at h
    cases h

/-- A frame arrives in a page that is not in the queue. -/
theorem Pages.receive {s : State τ} (hs : Pages s) {p : Page} {f : Frame}
    (hp : s.reserved p = false ∨ s.held p = true) :
    Pages { s with pages := Function.update s.pages p f
                   reserved := Function.update s.reserved p true
                   held := Function.update s.held p true } := by
  refine ⟨?_, ?_, ?_, hs.once, ?_⟩
  · intro k f' hf
    show Function.update s.reserved p true f' = true
    rw [Function.update_of_ne (hs.not_queued hp hf)]
    exact hs.reserved hf
  · intro k f' hf
    show Function.update s.held p true f' = false
    rw [Function.update_of_ne (hs.not_queued hp hf)]
    exact hs.unheld hf
  · intro k f' hf
    show ((s.queue k).fromAddr, Function.update s.pages p f f') ∈ s.accepted
    rw [Function.update_of_ne (hs.not_queued hp hf)]
    exact hs.accepted hf
  · intro f' hf'
    show Function.update s.reserved p true f' = true
    by_cases h : f' = p
    · rw [h, Function.update_self]
    · have hh : s.held f' = true := by
        rw [← Function.update_of_ne h true s.held]
        exact hf'
      rw [Function.update_of_ne h]
      exact hs.held hh

theorem Inv.receive {s : State τ} (hs : Inv s) {p : Page} {f : Frame}
    (hp : s.reserved p = false ∨ s.held p = true) :
    Inv { s with pages := Function.update s.pages p f
                 reserved := Function.update s.reserved p true
                 held := Function.update s.held p true } := by
  refine ⟨hs.pages.receive hp, ?_, hs.attends, hs.calls.queue_only rfl rfl rfl rfl rfl rfl fun _ h => h⟩
  intro k f' j hf hj hpop
  show (s.sockets j).port = (Function.update s.pages p f f').destPort
  rw [Function.update_of_ne (hs.pages.not_queued hp hf)]
  exact hs.ports hf hj hpop

/-- A page that is not in the queue is freed. -/
theorem Pages.free {s s' : State τ} (hs : Pages s) {p : Page} (hq : s'.queue = s.queue)
    (hpages : s'.pages = s.pages) (hres : s'.reserved = Function.update s.reserved p false)
    (hheld : ∀ f, s'.held f = true → s.held f = true ∧ f ≠ p) (hacc : s'.accepted = s.accepted)
    (hne : ∀ {k f}, (s.queue k).frame = some f → f ≠ p) : Pages s' := by
  refine ⟨?_, ?_, ?_, ?_, ?_⟩
  · intro k f hf
    rw [hq] at hf
    rw [hres, Function.update_of_ne (hne hf)]
    exact hs.reserved hf
  · intro k f hf
    rw [hq] at hf
    by_contra hh
    have hh' := (hheld f (by simpa using hh)).1
    rw [hs.unheld hf] at hh'
    cases hh'
  · intro k f hf
    rw [hq] at hf ⊢
    rw [hpages, hacc]
    exact hs.accepted hf
  · rw [hq]
    exact hs.once
  · intro f hf
    obtain ⟨hf, hfp⟩ := hheld f hf
    rw [hres, Function.update_of_ne hfp]
    exact hs.held hf

/-- A network thread gives a page back. -/
theorem Pages.giveBack {s s' : State τ} (hs : Pages s) {p : Page} (hp : s.held p = true)
    (h : networkFreeFrame s p = some s') : Pages { s' with held := Function.update s'.held p false } := by
  rw [networkFreeFrame_some h]
  refine hs.free rfl rfl rfl ?_ rfl fun hf => hs.not_queued (.inr hp) hf
  intro f hf
  have hf : Function.update s.held p false f = true := hf
  by_cases hfp : f = p
  · rw [hfp, Function.update_self] at hf
    cases hf
  · rw [Function.update_of_ne hfp] at hf
    exact ⟨hf, hfp⟩

theorem Inv.giveBack {s s' : State τ} (hs : Inv s) {p : Page} (hp : s.held p = true)
    (h : networkFreeFrame s p = some s') : Inv { s' with held := Function.update s'.held p false } := by
  have hpages := hs.pages.giveBack hp h
  rw [networkFreeFrame_some h] at hpages ⊢
  exact ⟨hpages, hs.ports, hs.attends, hs.calls.queue_only rfl rfl rfl rfl rfl rfl fun _ h => h⟩

/-- The frame of a slot is freed and the slot emptied. -/
theorem Pages.empty {s s' : State τ} (hs : Pages s) {k : Slot} {p : Page}
    (hk : (s.queue k).frame = some p)
    (hq : s'.queue = Function.update s.queue k { s.queue k with frame := none })
    (hpages : s'.pages = s.pages) (hres : s'.reserved = Function.update s.reserved p false)
    (hheld : s'.held = s.held) (hacc : s'.accepted = s.accepted) : Pages s' := by
  have hold : ∀ {k' f}, (s'.queue k').frame = some f → k' ≠ k ∧ (s.queue k').frame = some f := by
    intro k' f hf
    rw [hq] at hf
    by_cases hkk : k' = k
    · subst hkk
      rw [Function.update_self] at hf
      cases hf
    · rw [Function.update_of_ne hkk] at hf
      exact ⟨hkk, hf⟩
  have hsame : ∀ {k' f}, (s'.queue k').frame = some f → s'.queue k' = s.queue k' := by
    intro k' f hf
    rw [hq, Function.update_of_ne (hold hf).1]
  have hne : ∀ {k' f}, (s'.queue k').frame = some f → f ≠ p := by
    rintro k' f hf rfl
    exact (hold hf).1 (hs.once (hold hf).2 hk)
  refine ⟨?_, ?_, ?_, ?_, ?_⟩
  · intro k' f hf
    rw [hres, Function.update_of_ne (hne hf)]
    exact hs.reserved (hold hf).2
  · intro k' f hf
    rw [hheld]
    exact hs.unheld (hold hf).2
  · intro k' f hf
    rw [hsame hf, hpages, hacc]
    exact hs.accepted (hold hf).2
  · intro k' k'' f hf hf'
    exact hs.once (hold hf).2 (hold hf').2
  · intro f hf
    rw [hheld] at hf
    have hfp : f ≠ p := by
      rintro rfl
      rw [hs.unheld hk] at hf
      cases hf
    rw [hres, Function.update_of_ne hfp]
    exact hs.held hf

/-- A slot without a frame has nothing to match. -/
theorem PortsMatch.empty {sockets : Sock → Socket τ} {pages : Page → Frame} {queue : Slot → QueueSlot}
    (hq : PortsMatch sockets pages queue) (k : Slot) :
    PortsMatch sockets pages (Function.update queue k { queue k with frame := none }) := by
  intro k' f j hf hj hp
  by_cases hk : k' = k
  · subst hk
    rw [Function.update_self] at hf
    cases hf
  · rw [Function.update_of_ne hk] at hf hj
    exact hq hf hj hp

theorem Inv.discard {s s' : State τ} (hs : Inv s) {k : Slot} {f : Page}
    (hk : s.service = .discarding k f) (h : discard s k f = some s') : Inv s' := by
  have hf : (s.queue k).frame = some f := by
    have := hs.attends
    rw [hk] at this
    exact this
  rw [Pop.discard] at h
  obtain ⟨s1, h1, h⟩ := Option.bind_eq_some_iff.1 h
  rw [networkFreeFrame_some h1] at h
  cases h
  exact ⟨hs.pages.empty hf rfl rfl rfl rfl rfl, hs.ports.empty k, trivial,
    hs.calls.queue_only rfl rfl rfl rfl rfl rfl fun _ h => h⟩

/-- The loop of the service thread moves no frame. -/
theorem Pages.scan {s : State τ} (hs : Pages s) :
    Pages { s with queue := (scan s.sockets s.pages (List.finRange POP_QUEUE_SIZE) s.queue).1
                   service := (scan s.sockets s.pages (List.finRange POP_QUEUE_SIZE) s.queue).2 } := by
  obtain ⟨-, hsame, -⟩ := scan_spec s.sockets s.pages (List.finRange POP_QUEUE_SIZE) s.queue
  refine ⟨?_, ?_, ?_, ?_, hs.held⟩
  · intro k f hf
    exact hs.reserved ((hsame k).1.symm.trans hf)
  · intro k f hf
    exact hs.unheld ((hsame k).1.symm.trans hf)
  · intro k f hf
    have hin := hs.accepted ((hsame k).1.symm.trans hf)
    rw [← (hsame k).2] at hin
    exact hin
  · intro k k' f hf hf'
    exact hs.once ((hsame k).1.symm.trans hf) ((hsame k').1.symm.trans hf')

theorem Inv.scan {s : State τ} (hs : Inv s) :
    Inv { s with queue := (scan s.sockets s.pages (List.finRange POP_QUEUE_SIZE) s.queue).1
                 service := (scan s.sockets s.pages (List.finRange POP_QUEUE_SIZE) s.queue).2 } := by
  obtain ⟨hports, -, hatt⟩ := scan_spec s.sockets s.pages (List.finRange POP_QUEUE_SIZE) s.queue
  exact ⟨hs.pages.scan, hports hs.ports, hatt, hs.calls.queue_only rfl rfl rfl rfl rfl rfl fun _ h => h⟩

/-- The state after an accepted frame: the slot's old page, if any, is freed. -/
theorem popPushFrame_cases {s s' : State τ} {f : Page} {fromAddr now now' : UInt32}
    (h : popPushFrame s f fromAddr now now' = some s') :
    pushSlot s.queue now = none ∧ s' = s ∨ ∃ k reserved, pushSlot s.queue now = some k ∧
      (reserved = s.reserved ∧ (s.queue k).frame = none ∨
        ∃ old, (s.queue k).frame = some old ∧ reserved = Function.update s.reserved old false) ∧
      s' = { s.setSlot k ⟨some f, none, now', fromAddr, false⟩ with
        reserved := reserved
        held := Function.update s.held f false
        accepted := (fromAddr, s.pages f) :: s.accepted } := by
  unfold popPushFrame at h
  cases hk : pushSlot s.queue now with
  | none =>
    rw [hk] at h
    cases h
    exact .inl ⟨rfl, rfl⟩
  | some k =>
    rw [hk] at h
    refine .inr ⟨k, ?_⟩
    cases hold : (s.queue k).frame with
    | none =>
      simp only [hold] at h
      cases h
      exact ⟨s.reserved, rfl, .inl ⟨rfl, rfl⟩, rfl⟩
    | some old =>
      simp only [hold] at h
      obtain ⟨s1, h1, h⟩ := Option.bind_eq_some_iff.1 h
      rw [networkFreeFrame_some h1] at h
      cases h
      exact ⟨_, rfl, .inr ⟨old, rfl, rfl⟩, rfl⟩

/-- The pages after an accepted frame. -/
theorem Pages.push {s s' : State τ} (hs : Pages s) {f : Page} {fromAddr now now' : UInt32}
    (hheld : s.held f = true) (h : popPushFrame s f fromAddr now now' = some s') : Pages s' := by
  obtain ⟨-, rfl⟩ | ⟨k, reserved, hk, hres, rfl⟩ := popPushFrame_cases h
  · exact hs
  have hne : ∀ {k' f'}, (s.queue k').frame = some f' → f' ≠ f := fun hf => hs.not_queued (.inr hheld) hf
  have hother : ∀ {k'}, k' ≠ k → Function.update s.queue k ⟨some f, none, now', fromAddr, false⟩ k' =
      s.queue k' := fun hk' => Function.update_of_ne hk' _ _
  have hfree : ∀ {f'}, (∀ old, (s.queue k).frame = some old → f' ≠ old) →
      reserved f' = s.reserved f' := by
    intro f' hf'
    obtain ⟨rfl, -⟩ | ⟨old, hold, rfl⟩ := hres
    · rfl
    · rw [Function.update_of_ne (hf' old hold)]
  refine ⟨?_, ?_, ?_, ?_, ?_⟩
  · intro k' f' hf
    show reserved f' = true
    by_cases hkk : k' = k
    · subst hkk
      simp only [State.setSlot, Function.update_self] at hf
      cases hf
      rw [hfree fun old hold => (hne hold).symm]
      exact hs.held hheld
    · simp only [State.setSlot, hother hkk] at hf
      rw [hfree ?_]
      · exact hs.reserved hf
      · rintro old hold rfl
        exact hkk (hs.once hf hold)
  · intro k' f' hf
    show Function.update s.held f false f' = false
    by_cases hkk : k' = k
    · subst hkk
      simp only [State.setSlot, Function.update_self] at hf
      cases hf
      rw [Function.update_self]
    · simp only [State.setSlot, hother hkk] at hf
      rw [Function.update_of_ne (hne hf)]
      exact hs.unheld hf
  · intro k' f' hf
    by_cases hkk : k' = k
    · subst hkk
      simp only [State.setSlot, Function.update_self] at hf ⊢
      cases hf
      exact List.mem_cons_self
    · simp only [State.setSlot, hother hkk] at hf ⊢
      exact List.mem_cons_of_mem _ (hs.accepted hf)
  · intro k' k'' f' hf hf'
    by_cases hkk : k' = k
    · by_cases hkk' : k'' = k
      · rw [hkk, hkk']
      · subst hkk
        simp only [State.setSlot, Function.update_self, hother hkk'] at hf hf'
        cases hf
        exact absurd rfl (hne hf')
    · by_cases hkk' : k'' = k
      · subst hkk'
        simp only [State.setSlot, Function.update_self, hother hkk] at hf hf'
        cases hf'
        exact absurd rfl (hne hf)
      · simp only [State.setSlot, hother hkk, hother hkk'] at hf hf'
        exact hs.once hf hf'
  · intro f' hf'
    show reserved f' = true
    have hf' : Function.update s.held f false f' = true := hf'
    have hff : f' ≠ f := by
      rintro rfl
      rw [Function.update_self] at hf'
      cases hf'
    rw [Function.update_of_ne hff] at hf'
    rw [hfree ?_]
    · exact hs.held hf'
    · rintro old hold rfl
      rw [hs.unheld hold] at hf'
      cases hf'

/-- The slot of an accepted frame is not the one that the service thread attends to. -/
theorem Attends.push {queue : Slot → QueueSlot} {service : Service} (hs : Attends queue service) {k : Slot}
    {now : UInt32} (hk : pushSlot queue now = some k) (hc : KeepsClear (some k) service) (e : QueueSlot) :
    Attends (Function.update queue k e) service := by
  cases service with
  | scanning => trivial
  | discarding k0 f0 =>
    have hk0 : k0 ≠ k := by
      rintro rfl
      exact hc rfl
    rw [Attends, Function.update_of_ne hk0]
    exact hs
  | transferring k0 f0 =>
    have hk0 : k0 ≠ k := by
      rintro rfl
      obtain hn | hn := pushSlot_spec hk
      · rw [hs.1] at hn
        cases hn
      · rw [hs.2] at hn
        cases hn
    rw [Attends, Function.update_of_ne hk0]
    exact hs

theorem Inv.push {s s' : State τ} (hs : Inv s) {f : Page} {fromAddr now now' : UInt32}
    (hheld : s.held f = true) (hc : NothingStale s (.pushFrame f fromAddr now now'))
    (h : popPushFrame s f fromAddr now now' = some s') : Inv s' := by
  have hpages := hs.pages.push hheld h
  obtain ⟨-, rfl⟩ | ⟨k, reserved, hk, hres, rfl⟩ := popPushFrame_cases h
  · exact hs
  rw [NothingStale, hk] at hc
  refine ⟨hpages, fun k' f' j hf hj hp => ?_, hs.attends.push hk hc _,
    hs.calls.queue_only rfl rfl rfl rfl rfl rfl fun _ h => List.mem_cons_of_mem _ h⟩
  by_cases hkk : k' = k
  · subst hkk
    simp only [State.setSlot, Function.update_self] at hj
    cases hj
  · simp only [State.setSlot, Function.update_of_ne hkk] at hf hj
    exact hs.ports hf hj hp

/-! ## The sockets' steps -/

/-- A thread moves on, and everything else of the sockets stays. -/
theorem Stage.other {s s' : State τ} {i : Sock} {x : Sem} (h : Stage s i x) {t : τ}
    (hsock : s'.sockets i = s.sockets i) (hv : s'.value x = s.value x)
    (hq : s'.sleepers x = s.sleepers x) (hbefore : ¬ (s.pc t).concerns i x)
    (hafter : ¬ (s'.pc t).concerns i x) (hpc : ∀ t', t' ≠ t → s'.pc t' = s.pc t')
    (hvars : ∀ t', t' ≠ t → s'.vars t' = s.vars t') (hacc : s'.accepted = s.accepted) :
    Stage s' i x := by
  refine h.frame hsock hv hq (fun t' ht' => ?_) fun a ha => by rw [hacc]; exact ha
  have hne : t' ≠ t := by
    rintro rfl
    exact ht'.elim hbefore hafter
  exact ⟨hpc t' hne, hvars t' hne⟩

theorem concerns_entered {r : Request} {i : Sock} {x : Sem} :
    (Pc.entered r).concerns i x ↔ r.socket = i := by
  simp [Pc.concerns, Pc.enteredAt]

theorem concerns_sleeping {r : Request} {i : Sock} {x y : Sem} :
    (Pc.sleeping r y).concerns i x ↔ y = x := by
  simp [Pc.concerns, Pc.enteredAt]

theorem concerns_woken {r : Request} {i : Sock} {x : Sem} : ¬ (Pc.woken r).concerns i x := by
  simp [Pc.concerns, Pc.enteredAt]

theorem concerns_outside {i : Sock} {x : Sem} : ¬ Pc.outside.concerns i x := by
  simp [Pc.concerns, Pc.enteredAt]

theorem enteredAt_eq_true {c : Pc} {i : Sock} :
    c.enteredAt i = true ↔ ∃ r, c = .entered r ∧ r.socket = i := by
  cases c <;> simp [Pc.enteredAt]

variable [DecidableEq τ]

omit [DecidableEq τ] in
/-- A step of the sockets and the threads at them. -/
theorem Inv.sockets {s s' : State τ} (hs : Inv s) (hq : s'.queue = s.queue) (hpages : s'.pages = s.pages)
    (hres : s'.reserved = s.reserved) (hheld : s'.held = s.held) (hacc : s'.accepted = s.accepted)
    (hserv : s'.service = s.service) (hports : PortsMatch s'.sockets s.pages s.queue)
    (hcalls : Calls s') : Inv s' := by
  refine ⟨⟨?_, ?_, ?_, ?_, ?_⟩, ?_, ?_, hcalls⟩
  · rw [hq, hres]
    exact hs.pages.reserved
  · rw [hq, hheld]
    exact hs.pages.unheld
  · rw [hq, hpages, hacc]
    exact hs.pages.accepted
  · rw [hq]
    exact hs.pages.once
  · rw [hheld, hres]
    exact hs.pages.held
  · rw [hq, hpages]
    exact hports
  · rw [hq, hserv]
    exact hs.attends

theorem Inv.finish {s : State τ} (hs : Inv s) {t : τ} {r : Request} (ht : s.pc t = .woken r) :
    Inv { s with pc := Function.update s.pc t .outside
                 returned := (r, s.vars t) :: s.returned } := by
  refine hs.sockets rfl rfl rfl rfl rfl rfl hs.ports ⟨?_, hs.calls.own, hs.calls.pop, hs.calls.complete, ?_, ?_⟩
  · intro i x hx
    refine (hs.calls.stage hx).other (t := t) rfl rfl rfl ?_ ?_ ?_ (fun _ _ => rfl) rfl
    · rw [ht]
      exact concerns_woken
    · simp only [Function.update_self]
      exact concerns_outside
    · intro t' ht'
      exact Function.update_of_ne ht' _ _
  · intro t' r' ht'
    by_cases htt : t' = t
    · subst htt
      simp only [Function.update_self] at ht'
      cases ht'
    · simp only [Function.update_of_ne htt] at ht'
      exact hs.calls.woken ht'
  · intro y hy
    obtain rfl | hy := List.mem_cons.1 hy
    · exact hs.calls.woken ht
    · exact hs.calls.returned y hy

/-- The one thread that is before its `semaphore_P` moves on. -/
theorem nobodyEntered_update {s s' : State τ} {i : Sock} {t : τ} {c : Pc}
    (honly : ∀ t', (s.pc t').enteredAt i = true → t' = t) (hpc : s'.pc = Function.update s.pc t c)
    (hc : c.enteredAt i = false) : NobodyEntered s' i := by
  intro t'
  rw [hpc]
  by_cases htt : t' = t
  · rw [htt, Function.update_self]
    exact hc
  · rw [Function.update_of_ne htt]
    by_contra hh
    exact htt (honly t' (by simpa using hh))

/-- One thread at socket `i` with semaphore `x` moves from `c` to `c'`. -/
theorem Calls.move {s s' : State τ} (hs : Calls s) {i : Sock} {x : Sem} {t : τ} {c : Pc}
    (hx : (s.sockets i).receiveComplete = some x)
    (hcomplete : ∀ j, (s'.sockets j).receiveComplete = (s.sockets j).receiveComplete)
    (hproto : ∀ j, (s'.sockets j).protocol = (s.sockets j).protocol)
    (hsock : ∀ j, j ≠ i → s'.sockets j = s.sockets j) (hv : ∀ y, y ≠ x → s'.value y = s.value y)
    (hq : ∀ y, y ≠ x → s'.sleepers y = s.sleepers y) (hpc : s'.pc = Function.update s.pc t c)
    (hbefore : ∀ j y, j ≠ i → y ≠ x → ¬ (s.pc t).concerns j y)
    (hafter : ∀ j y, j ≠ i → y ≠ x → ¬ c.concerns j y)
    (hvars : ∀ t', t' ≠ t → s'.vars t' = s.vars t') (hacc : s'.accepted = s.accepted)
    (hret : s'.returned = s.returned) (hstage : Stage s' i x)
    (hpop : ∀ {t'}, (s'.sockets i).rbuf = some t' → (s.sockets i).protocol = PROTOCOL_POP)
    (hwoken : ∀ {r}, c = .woken r → Delivered s.accepted r (s'.vars t)) : Calls s' := by
  have hne : ∀ t', t' ≠ t → s'.pc t' = s.pc t' := by
    intro t' ht'
    rw [hpc, Function.update_of_ne ht']
  have hself : s'.pc t = c := by rw [hpc, Function.update_self]
  refine ⟨?_, ?_, ?_, ?_, ?_, ?_⟩
  · intro j y hy
    rw [hcomplete] at hy
    by_cases hj : j = i
    · subst hj
      rw [hx] at hy
      cases hy
      exact hstage
    · have hyx : y ≠ x := by
        rintro rfl
        exact hj (hs.own hy hx)
      refine (hs.stage hy).other (t := t) (hsock j hj) (hv y hyx) (hq y hyx) (hbefore j y hj hyx) ?_ hne
        hvars hacc
      rw [hself]
      exact hafter j y hj hyx
  · intro j j' y hy hy'
    rw [hcomplete] at hy hy'
    exact hs.own hy hy'
  · intro j t' hj
    rw [hproto]
    by_cases hji : j = i
    · subst hji
      exact hpop hj
    · rw [hsock j hji] at hj
      exact hs.pop hj
  · intro j hj
    rw [hproto] at hj
    rw [hcomplete]
    exact hs.complete hj
  · intro t' r ht'
    rw [hacc]
    by_cases htt : t' = t
    · subst htt
      rw [hself] at ht'
      exact hwoken ht'
    · rw [hne t' htt] at ht'
      rw [hvars t' htt]
      exact hs.woken ht'
  · intro y hy
    rw [hret] at hy
    rw [hacc]
    exact hs.returned y hy

theorem semaphoreP_sleep {s : State τ} {x : Sem} (h : s.value x = 0) (t : τ) (r : Request) :
    semaphoreP s x t r = { s with value := Function.update s.value x (-1)
                                  sleepers := Function.update s.sleepers x (s.sleepers x ++ [t])
                                  pc := Function.update s.pc t (.sleeping r x) } := by
  rw [semaphoreP]
  simp only [Function.update_self, h]
  rfl

theorem semaphoreP_pass {s : State τ} {x : Sem} (h : s.value x = 1) (t : τ) (r : Request) :
    semaphoreP s x t r = { s with value := Function.update s.value x 0
                                  pc := Function.update s.pc t (.woken r) } := by
  rw [semaphoreP]
  simp only [Function.update_self, h]
  rfl

/-- The `semaphore_P` of `socket_recvfrom`: to sleep, or straight on if the frame has come. -/
theorem Inv.awaitComplete {s : State τ} (hs : Inv s) {t : τ} {r : Request} {x : Sem}
    (ht : s.pc t = .entered r) (hx : (s.sockets r.socket).receiveComplete = some x) :
    Inv (semaphoreP s x t r) := by
  have hat : (s.pc t).enteredAt r.socket = true := by
    rw [ht]
    exact enteredAt_eq_true.2 ⟨r, rfl, rfl⟩
  have hbefore : ∀ j y, j ≠ r.socket → y ≠ x → ¬ (s.pc t).concerns j y := by
    intro j y hj _
    rw [ht, concerns_entered]
    exact hj.symm
  have hnot : ¬ NobodyEntered s r.socket := by
    intro hn
    rw [hn t] at hat
    cases hat
  cases hs.calls.stage hx with
  | quiet _ _ _ hn => exact absurd hn hnot
  | waiting _ _ _ _ _ hn => exact absurd hn hnot
  | asked t0 hp ht0 h0 hnil honly =>
    obtain rfl := honly t hat
    have hr : r = request s r.socket := by
      rw [ht] at ht0
      exact Pc.entered.inj ht0
    rw [semaphoreP_sleep h0]
    refine hs.sockets rfl rfl rfl rfl rfl rfl hs.ports
      (hs.calls.move hx (fun _ => rfl) (fun _ => rfl) (fun _ _ => rfl) (fun y hy => Function.update_of_ne hy _ _)
        (fun y hy => Function.update_of_ne hy _ _) rfl hbefore ?_ (fun _ _ => rfl) rfl rfl ?_
        hs.calls.pop ?_)
    · intro j y _ hy
      rw [concerns_sleeping]
      exact hy.symm
    · refine .waiting t hp ?_ (Function.update_self ..) ?_ (nobodyEntered_update honly rfl rfl)
      · simp only [Function.update_self]
        exact congrArg (Pc.sleeping · x) hr
      · simp only [Function.update_self, hnil, List.nil_append]
    · intro r' hr'
      cases hr'
  | served t0 r0 hr ht0 hi hd h0 hnil honly =>
    obtain rfl := honly t hat
    rw [ht] at ht0
    cases ht0
    rw [semaphoreP_pass h0]
    refine hs.sockets rfl rfl rfl rfl rfl rfl hs.ports
      (hs.calls.move hx (fun _ => rfl) (fun _ => rfl) (fun _ _ => rfl) (fun y hy => Function.update_of_ne hy _ _)
        (fun _ _ => rfl) rfl hbefore ?_ (fun _ _ => rfl) rfl rfl ?_ hs.calls.pop ?_)
    · intro j y _ _
      exact concerns_woken
    · exact .quiet hr (Function.update_self ..) hnil (nobodyEntered_update honly rfl rfl)
    · intro r' hr'
      cases hr'
      exact hd

omit [DecidableEq τ] in
/-- The ports of the open sockets are the same. -/
theorem PortsMatch.same {sockets sockets' : Sock → Socket τ} {pages : Page → Frame}
    {queue : Slot → QueueSlot} (hq : PortsMatch sockets pages queue)
    (h : ∀ j, (sockets' j).protocol = PROTOCOL_POP →
      (sockets j).protocol = PROTOCOL_POP ∧ (sockets' j).port = (sockets j).port) :
    PortsMatch sockets' pages queue := by
  intro k f j hf hj hp
  obtain ⟨hp', hport⟩ := h j hp
  rw [hport]
  exact hq hf hj hp'

/-- A `socket_recvfrom` begins on a socket that nobody is at. -/
theorem Inv.recvfrom {s : State τ} (hs : Inv s) {t : τ} {i : Sock} {buflength : ℕ}
    (ht : s.pc t = .outside) (hc : NothingStale s (.socketRecvfrom t i buflength)) :
    Inv (socketRecvfrom s t i buflength) := by
  rw [socketRecvfrom]
  split_ifs with hrej
  · exact hs
  rw [not_or, not_not, not_not] at hrej
  obtain ⟨hpop, hrbuf⟩ := hrej
  have hnobody : NobodyEntered s i := hc hpop (by rw [hrbuf]; rfl)
  obtain ⟨x, hx⟩ := Option.ne_none_iff_exists'.1 (hs.calls.complete hpop)
  have hsock : ∀ j, j ≠ i → ∀ e, Function.update s.sockets i e j = s.sockets j :=
    fun j hj e => Function.update_of_ne hj _ _
  have hfield : ∀ {β : Type} (g : Socket τ → β) (e : Socket τ), g e = g (s.sockets i) →
      ∀ j, g (Function.update s.sockets i e j) = g (s.sockets j) := by
    intro β g e he j
    by_cases hj : j = i
    · rw [hj, Function.update_self, he]
    · rw [hsock j hj]
  refine hs.sockets rfl rfl rfl rfl rfl rfl ?_
    (hs.calls.move (i := i) (x := x) (t := t) hx (hfield Socket.receiveComplete _ rfl)
      (hfield Socket.protocol _ rfl) (fun j hj => hsock j hj _) (fun _ _ => rfl) (fun _ _ => rfl) rfl
      ?_ ?_ (fun t' ht' => Function.update_of_ne ht' _ _) rfl rfl ?_ (fun _ => hpop) ?_)
  · refine hs.ports.same fun j hj => ?_
    by_cases hji : j = i
    · subst hji
      simp only [State.setSocket, Function.update_self] at hj ⊢
      exact ⟨hj, trivial⟩
    · simp only [State.setSocket, Function.update_of_ne hji] at hj ⊢
      exact ⟨hj, trivial⟩
  · intro j y _ _
    rw [ht]
    exact concerns_outside
  · intro j y hj _
    rw [concerns_entered]
    exact hj.symm
  · cases hs.calls.stage hx with
    | asked t0 hp => exact absurd (hp.rbuf.symm.trans hrbuf) (by simp)
    | waiting t0 hp => exact absurd (hp.rbuf.symm.trans hrbuf) (by simp)
    | served t0 r0 _ ht0 hi =>
      have := hnobody t0
      rw [ht0, enteredAt_eq_true.2 ⟨r0, rfl, hi⟩] at this
      cases this
    | quiet _ h0 hnil _ =>
      refine .asked t ?_ ?_ h0 hnil ?_
      · simp only [State.setSocket, Function.update_self]
        exact ⟨rfl, rfl, rfl, rfl⟩
      · simp only [Function.update_self, request, State.setSocket]
      · intro t' ht'
        by_contra htt
        simp only [Function.update_of_ne htt] at ht'
        rw [hnobody t'] at ht'
        cases ht'
  · intro r hr
    cases hr

omit [DecidableEq τ] in
/-- An entry of the table is replaced by one without return variables. -/
theorem Calls.entry {s s' : State τ} (hs : Calls s) {i : Sock} {e : Socket τ}
    (hsock : s'.sockets = Function.update s.sockets i e) (hrbuf : e.rbuf = none)
    (hcomplete : e.protocol = PROTOCOL_POP → e.receiveComplete ≠ none)
    (hown : ∀ {j x}, (s.sockets j).receiveComplete = some x → e.receiveComplete ≠ some x)
    (hv : ∀ y, e.receiveComplete ≠ some y → s'.value y = s.value y) (hq : s'.sleepers = s.sleepers)
    (hpc : s'.pc = s.pc) (hvars : s'.vars = s.vars) (hacc : s'.accepted = s.accepted)
    (hret : s'.returned = s.returned) (hstage : ∀ {x}, e.receiveComplete = some x → Stage s' i x) :
    Calls s' := by
  have hself : s'.sockets i = e := by rw [hsock, Function.update_self]
  have hne : ∀ {j}, j ≠ i → s'.sockets j = s.sockets j := by
    intro j hj
    rw [hsock, Function.update_of_ne hj]
  refine ⟨?_, ?_, ?_, ?_, ?_, ?_⟩
  · intro j y hy
    by_cases hj : j = i
    · subst hj
      rw [hself] at hy
      exact hstage hy
    · rw [hne hj] at hy
      refine (hs.stage hy).frame (hne hj) (hv y (hown hy)) (by rw [hq]) (fun t _ => ?_)
        fun a ha => by rw [hacc]; exact ha
      exact ⟨by rw [hpc], by rw [hvars]⟩
  · intro j j' y hy hy'
    by_cases hj : j = i
    · by_cases hj' : j' = i
      · rw [hj, hj']
      · rw [hj, hself] at hy
        rw [hne hj'] at hy'
        exact absurd hy (hown hy')
    · by_cases hj' : j' = i
      · rw [hj', hself] at hy'
        rw [hne hj] at hy
        exact absurd hy' (hown hy)
      · rw [hne hj] at hy
        rw [hne hj'] at hy'
        exact hs.own hy hy'
  · intro j t hj
    by_cases hji : j = i
    · rw [hji, hself, hrbuf] at hj
      cases hj
    · rw [hne hji] at hj ⊢
      exact hs.pop hj
  · intro j hj
    by_cases hji : j = i
    · rw [hji, hself] at hj ⊢
      exact hcomplete hj
    · rw [hne hji] at hj ⊢
      exact hs.complete hj
  · intro t r ht
    rw [hpc] at ht
    rw [hacc, hvars]
    exact hs.woken ht
  · intro y hy
    rw [hret] at hy
    rw [hacc]
    exact hs.returned y hy

omit [DecidableEq τ] in
theorem Inv.close {s : State τ} (hs : Inv s) (i : Sock) : Inv (socketClose s i) := by
  rw [socketClose]
  split_ifs with hrc
  · exact hs
  refine hs.sockets rfl rfl rfl rfl rfl rfl ?_
    (hs.calls.entry rfl rfl (fun h => absurd h (show ¬ (0 : UInt8) = PROTOCOL_POP by decide))
      (fun _ h => by cases h) (fun _ _ => rfl) rfl
      rfl rfl rfl rfl fun h => by cases h)
  refine hs.ports.same fun j hj => ?_
  by_cases hji : j = i
  · subst hji
    simp only [State.setSocket, Function.update_self] at hj
    exact absurd hj (by decide)
  · simp only [State.setSocket, Function.update_of_ne hji] at hj ⊢
    exact ⟨hj, trivial⟩

omit [DecidableEq τ] in
theorem freeSocket_spec {sockets : Sock → Socket τ} {i : Sock} (h : freeSocket sockets = some i) :
    (sockets i).protocol = 0 := by
  have hi := List.find?_some h
  simpa using hi

omit [DecidableEq τ] in
/-- The entry that `socket_open` fills is free. -/
theorem opening_spec {sockets : Sock → Socket τ} {protocol : UInt8} {port port' : UInt16} {i : Sock}
    (h : opening sockets protocol port = some (.entry i port')) : (sockets i).protocol = 0 := by
  unfold opening at h
  by_cases hproto : protocol ≠ PROTOCOL_POP ∧ protocol ≠ PROTOCOL_SOP
  · rw [if_pos hproto] at h
    cases h
  · rw [if_neg hproto] at h
    cases hf : freeSocket sockets with
    | none =>
      rw [hf] at h
      cases h
    | some i' =>
      have hi : i' = i := by
        simp only [hf] at h
        by_cases h0 : port = 0
        · rw [if_pos h0] at h
          cases hp : findPort sockets (2 ^ 16) 0 with
          | none =>
            rw [hp] at h
            cases h
          | some p =>
            simp only [hp] at h
            split_ifs at h
            cases h
            rfl
        · rw [if_neg h0] at h
          split_ifs at h
          · cases h
          · cases h
            rfl
      rw [← hi]
      exact freeSocket_spec hf

omit [DecidableEq τ] in
theorem Inv.opened {s s' : State τ} (hs : Inv s) {protocol : UInt8} {port : UInt16} {x : Option Sem}
    (hx : FreshSem s x) (hc : NothingStale s (.socketOpen protocol port x))
    (h : socketOpen s protocol port x = some s') : Inv s' := by
  rw [socketOpen] at h
  cases ho : opening s.sockets protocol port with
  | none =>
    rw [ho] at h
    cases h
  | some o =>
    rw [ho] at h
    cases o with
    | fails =>
      cases h
      exact hs
    | entry i port' =>
      have hfree : ¬ (s.sockets i).protocol = PROTOCOL_POP := by
        rw [opening_spec ho]
        decide
      cases x with
      | none =>
        cases h
        refine hs.sockets rfl rfl rfl rfl rfl rfl ?_
          (hs.calls.entry rfl ?_ (fun h => absurd h hfree) (fun _ h => by cases h) (fun _ _ => rfl) rfl
            rfl rfl rfl rfl fun h => by cases h)
        · refine hs.ports.same fun j hj => ?_
          by_cases hji : j = i
          · subst hji
            simp only [State.setSocket, Function.update_self] at hj
            exact absurd hj hfree
          · simp only [State.setSocket, Function.update_of_ne hji] at hj ⊢
            exact ⟨hj, trivial⟩
        · show (s.sockets i).rbuf = none
          by_contra hr
          obtain ⟨t, ht⟩ := Option.ne_none_iff_exists'.1 hr
          exact hfree (hs.calls.pop ht)
      | some x =>
        cases h
        rw [NothingStale, ho] at hc
        obtain ⟨hnobody, hnil, hmatch⟩ := hc
        refine hs.sockets rfl rfl rfl rfl rfl rfl ?_
          (hs.calls.entry rfl rfl (fun _ h => by cases h) ?_ ?_ rfl rfl rfl rfl rfl ?_)
        · intro k f j hf hj hp
          by_cases hji : j = i
          · subst hji
            simp only [State.setSocket, Function.update_self] at hp ⊢
            exact (hmatch hp k hj f hf).symm
          · simp only [State.setSocket, Function.update_of_ne hji] at hp ⊢
            exact hs.ports hf hj hp
        · intro j y hy h
          cases h
          exact hx j (by rw [hy]; simp) hy
        · intro y hy
          have hyx : y ≠ x := by
            rintro rfl
            exact hy rfl
          exact Function.update_of_ne hyx _ _
        · intro y hy
          cases hy
          refine .quiet ?_ (Function.update_self ..) hnil hnobody
          simp only [State.setSocket, Function.update_self]

/-! ## The transfer -/

omit [DecidableEq τ] in
theorem PointsTo.unique {e : Socket τ} {t t' : τ} (h : PointsTo e t) (h' : e.rbuf = some t') : t' = t := by
  rw [h.rbuf] at h'
  cases h'
  rfl

/-- The variables of the receiver are written, and no others. -/
theorem deliver_pointsTo {s : State τ} {e : Socket τ} {t : τ} (h : PointsTo e t) (fromAddr : UInt32)
    (f : Frame) :
    deliver s e fromAddr f = some (Function.update s.vars t (written fromAddr f e.bufsize)) := by
  rw [deliver, h.rbuf, h.sender, h.copied, h.sport]
  simp only [Option.bind_eq_bind, Option.bind_some, Function.update_self, Function.update_idem, written]

theorem deliver_rbuf {s : State τ} {e : Socket τ} {fromAddr : UInt32} {f : Frame} {vars : τ → Vars}
    (h : deliver s e fromAddr f = some vars) : ∃ t, e.rbuf = some t := by
  rw [deliver] at h
  obtain ⟨t, ht, -⟩ := Option.bind_eq_some_iff.1 h
  exact ⟨t, ht⟩

theorem semaphoreV_count {s : State τ} {x : Sem} (h : s.value x = 0) :
    semaphoreV s x = { s with value := Function.update s.value x 1 } := by
  rw [semaphoreV]
  simp only [Function.update_self, h]
  rfl

theorem semaphoreV_wake {s : State τ} {x : Sem} {t : τ} {r : Request} (h : s.value x = -1)
    (hq : s.sleepers x = [t]) (ht : s.pc t = .sleeping r x) :
    semaphoreV s x = { s with value := Function.update s.value x 0
                              sleepers := Function.update s.sleepers x []
                              pc := Function.update s.pc t (.woken r) } := by
  rw [semaphoreV]
  simp only [Function.update_self, h, hq, wake, ht]
  rfl

/-- The socket after a transfer. -/
def released (e : Socket τ) : Socket τ :=
  { e with rbuf := none, bufsize := 0, sender := none, copied := none, sport := none }

/-- **A transfer**: the receiver gets the frame of the slot, and is woken or will not sleep. -/
theorem transfer_cases {s s' : State τ} (hs : Inv s) {k : Slot} {f : Page}
    (h : transfer s k f = some s') :
    ∃ j t x value sleepers pc, (s.queue k).socket = some j ∧ PointsTo (s.sockets j) t ∧
      (s.sockets j).receiveComplete = some x ∧
      (pc = s.pc ∧ s.pc t = .entered (request s j) ∧ value = 1 ∧ sleepers = [] ∧
          (∀ t', (s.pc t').enteredAt j = true → t' = t) ∨
        s.pc t = .sleeping (request s j) x ∧ pc = Function.update s.pc t (.woken (request s j)) ∧
          value = 0 ∧ sleepers = [] ∧ NobodyEntered s j) ∧
      s' = { s with
        sockets := Function.update s.sockets j (released (s.sockets j))
        queue := Function.update s.queue k { s.queue k with frame := none }
        reserved := Function.update s.reserved f false
        value := Function.update s.value x value
        sleepers := Function.update s.sleepers x sleepers
        service := .scanning
        pc := pc
        vars := Function.update s.vars t
          (written (s.queue k).fromAddr (s.pages f) (s.sockets j).bufsize) } := by
  rw [transfer] at h
  obtain ⟨j, hj, h⟩ := Option.bind_eq_some_iff.1 h
  obtain ⟨vars, hvars, h⟩ := Option.bind_eq_some_iff.1 h
  obtain ⟨s1, h1, h⟩ := Option.bind_eq_some_iff.1 h
  rw [networkFreeFrame_some h1] at h
  obtain ⟨x, hx, h⟩ := Option.bind_eq_some_iff.1 h
  simp only [State.setSocket, Function.update_self] at hx
  obtain ⟨t, ht⟩ := deliver_rbuf hvars
  have hrel : ∀ {t0}, PointsTo (s.sockets j) t0 → t0 = t := fun hp => (hp.unique ht).symm
  cases hs.calls.stage hx with
  | quiet hr => exact absurd (hr.symm.trans ht) (by simp)
  | served _ _ hr => exact absurd (hr.symm.trans ht) (by simp)
  | asked t0 hp ht0 h0 hnil honly =>
    obtain rfl := hrel hp
    rw [deliver_pointsTo hp] at hvars
    cases hvars
    rw [semaphoreV_count (by exact h0)] at h
    cases h
    refine ⟨j, t0, x, 1, [], s.pc, hj, hp, hx, .inl ⟨rfl, ht0, rfl, rfl, honly⟩, ?_⟩
    have hq : Function.update s.sleepers x [] = s.sleepers := by
      rw [← hnil, Function.update_eq_self]
    rw [hq]
    rfl
  | waiting t0 hp ht0 h0 hone hn =>
    obtain rfl := hrel hp
    rw [deliver_pointsTo hp] at hvars
    cases hvars
    rw [semaphoreV_wake (by exact h0) (by exact hone) (by exact ht0)] at h
    cases h
    exact ⟨j, t0, x, 0, [], _, hj, hp, hx, .inr ⟨ht0, rfl, rfl, rfl, hn⟩, rfl⟩

theorem Inv.transfer {s s' : State τ} (hs : Inv s) {k : Slot} {f : Page}
    (hk : s.service = .transferring k f) (h : transfer s k f = some s') : Inv s' := by
  have hf : (s.queue k).frame = some f := by
    have := hs.attends
    rw [hk] at this
    exact this.1
  obtain ⟨j, t, x, value, sleepers, pc, hj, hp, hx, hstage, rfl⟩ := transfer_cases hs h
  have hpop := hs.calls.pop hp.rbuf
  have hdel : Delivered s.accepted (request s j)
      (written (s.queue k).fromAddr (s.pages f) (s.sockets j).bufsize) :=
    ⟨_, hs.pages.accepted hf, (hs.ports hf hj hpop).symm, rfl⟩
  have hself : Function.update s.sockets j (released (s.sockets j)) j = released (s.sockets j) :=
    Function.update_self ..
  have hsock : ∀ i, i ≠ j → Function.update s.sockets j (released (s.sockets j)) i = s.sockets i :=
    fun i hi => Function.update_of_ne hi _ _
  have hcomplete : ∀ i, (Function.update s.sockets j (released (s.sockets j)) i).receiveComplete =
      (s.sockets i).receiveComplete := by
    intro i
    by_cases hi : i = j
    · rw [hi, hself]
      rfl
    · rw [hsock i hi]
  have hproto : ∀ i, (Function.update s.sockets j (released (s.sockets j)) i).protocol =
      (s.sockets i).protocol ∧ (Function.update s.sockets j (released (s.sockets j)) i).port =
      (s.sockets i).port := by
    intro i
    by_cases hi : i = j
    · rw [hi, hself]
      exact ⟨rfl, rfl⟩
    · rw [hsock i hi]
      exact ⟨rfl, rfl⟩
  have hports : PortsMatch (Function.update s.sockets j (released (s.sockets j))) s.pages s.queue :=
    hs.ports.same fun i hi => ⟨(hproto i).1.symm.trans hi, (hproto i).2⟩
  have hrbuf : (Function.update s.sockets j (released (s.sockets j)) j).rbuf = none := by
    rw [hself]
    rfl
  refine ⟨hs.pages.empty hf rfl rfl rfl rfl rfl, hports.empty k, trivial, ?_⟩
  obtain ⟨rfl, ht, rfl, rfl, honly⟩ | ⟨ht, rfl, rfl, rfl, hn⟩ := hstage
  · refine hs.calls.move hx hcomplete (fun i => (hproto i).1) hsock
      (fun y hy => Function.update_of_ne hy _ _) (fun y hy => Function.update_of_ne hy _ _)
      (c := s.pc t) (Function.update_eq_self ..).symm ?_ ?_ (fun t' ht' => Function.update_of_ne ht' _ _)
      rfl rfl ?_ ?_ ?_
    · intro i y hi _
      rw [ht, concerns_entered]
      exact hi.symm
    · intro i y hi _
      rw [ht, concerns_entered]
      exact hi.symm
    · refine .served t (request s j) hrbuf ht rfl ?_ (Function.update_self ..) (Function.update_self ..)
        honly
      simp only [Function.update_self]
      exact hdel
    · intro t' h'
      rw [hrbuf] at h'
      cases h'
    · intro r hr
      rw [ht] at hr
      cases hr
  · refine hs.calls.move hx hcomplete (fun i => (hproto i).1) hsock
      (fun y hy => Function.update_of_ne hy _ _) (fun y hy => Function.update_of_ne hy _ _) rfl ?_ ?_
      (fun t' ht' => Function.update_of_ne ht' _ _) rfl rfl ?_ ?_ ?_
    · intro i y _ hy
      rw [ht, concerns_sleeping]
      exact hy.symm
    · intro i y _ _
      exact concerns_woken
    · exact .quiet hrbuf (Function.update_self ..) (Function.update_self ..)
        (nobodyEntered_update (fun t' h' => absurd h' (by rw [hn t']; simp)) rfl rfl)
    · intro t' h'
      rw [hrbuf] at h'
      cases h'
    · intro r hr
      cases hr
      simp only [Function.update_self]
      exact hdel

/-! ## Runs -/

/-- **One step.** -/
theorem Inv.step {s s' : State τ} {a : Action τ} (hc : NothingStale s a) (hs : Inv s)
    (h : step s a = some s') : Inv s' := by
  cases a with
  | socketOpen protocol port x =>
    rw [Pop.step] at h
    split_ifs at h with hx
    exact hs.opened hx hc h
  | socketClose i =>
    cases h
    exact hs.close i
  | socketRecvfrom t i buflength =>
    rw [Pop.step] at h
    split_ifs at h with ht
    cases h
    exact hs.recvfrom ht.1 hc
  | awaitComplete t =>
    rw [Pop.step] at h
    cases ht : s.pc t with
    | entered r =>
      rw [ht] at h
      obtain ⟨x, hx, h⟩ := Option.bind_eq_some_iff.1 h
      cases h
      exact hs.awaitComplete ht hx
    | outside =>
      rw [ht] at h
      cases h
    | sleeping r x =>
      rw [ht] at h
      cases h
    | woken r =>
      rw [ht] at h
      cases h
  | finish t =>
    rw [Pop.step] at h
    cases ht : s.pc t with
    | woken r =>
      rw [ht] at h
      cases h
      exact hs.finish ht
    | outside =>
      rw [ht] at h
      cases h
    | sleeping r x =>
      rw [ht] at h
      cases h
    | entered r =>
      rw [ht] at h
      cases h
  | receive p f =>
    rw [Pop.step] at h
    split_ifs at h with hp
    cases h
    exact hs.receive hp
  | giveBack p =>
    rw [Pop.step] at h
    split_ifs at h with hp
    obtain ⟨s1, h1, h⟩ := Option.bind_eq_some_iff.1 h
    cases h
    exact hs.giveBack hp h1
  | pushFrame p fromAddr now now' =>
    rw [Pop.step] at h
    split_ifs at h with hp
    exact hs.push hp hc h
  | serviceScan =>
    rw [Pop.step] at h
    split_ifs at h
    cases h
    exact hs.scan
  | serviceAct =>
    rw [Pop.step] at h
    cases hv : s.service with
    | scanning =>
      rw [hv] at h
      cases h
    | discarding k f =>
      rw [hv] at h
      exact hs.discard hv h
    | transferring k f =>
      rw [hv] at h
      exact hs.transfer hv h

omit [DecidableEq τ] in
theorem inv_init : Inv (State.init τ) := by
  have hframe : ∀ {k f}, ((State.init τ).queue k).frame ≠ some f := fun h => by cases h
  have hsem : ∀ {i x}, ((State.init τ).sockets i).receiveComplete ≠ some x := fun h => by cases h
  have hproto : ∀ {i}, ¬ ((State.init τ).sockets i).protocol = PROTOCOL_POP :=
    show ¬ (0 : UInt8) = PROTOCOL_POP by decide
  constructor
  · exact ⟨fun h => absurd h hframe, fun h => absurd h hframe, fun h => absurd h hframe,
      fun h => absurd h hframe, fun h => (Bool.false_ne_true h).elim⟩
  · exact fun _ _ _ h => absurd h hframe
  · trivial
  · exact ⟨fun h => absurd h hsem, fun h => absurd h hsem, fun h => (Option.some_ne_none _ h.symm).elim,
      fun h => absurd h hproto, fun h => Pc.noConfusion h, fun _ h => absurd h List.not_mem_nil⟩

/-- A frame that waits for its receiver. -/
def ordinaryRun : List (Action Unit) :=
  [.socketOpen PROTOCOL_POP 1 (some 0), .receive 0 ⟨9, 1, 1, [5]⟩, .pushFrame 0 7 0 0, .serviceScan,
    .socketRecvfrom () 0 10, .awaitComplete (), .serviceScan, .serviceAct, .finish ()]

end Buenos.Pop

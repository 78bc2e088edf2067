import Buenos.Net.Accounting
import Buenos.Net.Frames
import Buenos.Net.Once

/-!
# Machines on a network

Machines whose threads call `socket_sendto` and `socket_recvfrom`, with the frames that are on their way between
them.  A frame that is on the wire may arrive at any machine, with any source address, any number of times or never.

* `Packet` — a frame, with the datagram that it was built for.
* `Host` — the sockets and the queue of a machine, and what its network code uses each page for.
* `Network` — the machines and the wire; `sent` are the datagrams for which `network_send` was called, `arrivals`
  those whose frames a machine has been given by a GND or by itself.
* `Network.step` — one step of one thread of one machine.
* `HostOk` — the invariant of a machine, with the arrivals accounted for.

Principal results: `NetworkOk.step`, one step, and `network_delivers`, every run: what calls of `socket_recvfrom` have
returned is the data of different arrivals of datagrams that were sent to their ports.
-/

namespace Buenos.Pop

open Transition Custody
open Buenos.Vm (PAGE_SIZE)

/-- A call of `network_send` by `socket_sendto`. -/
structure Datagram (ν : Type) where
  host : ν
  addr : UInt32
  sport : UInt16
  dport : UInt16
  data : List UInt8

/-- `network_frame_t`, with the datagram it was built for. -/
structure Packet (ν : Type) where
  source : UInt32
  destination : UInt32
  protocolId : UInt32
  payload : Frame
  datagram : Datagram ν

/-- What the network code of a machine uses a page for. -/
inductive Use (ν : Type) where
  | idle
  /-- a network thread keeps it for the next frame -/
  | spare
  /-- a network thread has received a frame in it -/
  | received (m : Packet ν)
  /-- `network_send` has built a frame for the machine itself in it -/
  | loopback (m : Packet ν)
  /-- `network_send` has built a frame in it, which is still to go through these interfaces -/
  | sending (m : Packet ν) (interfaces : List ℕ)

structure Host (ν τ : Type) where
  pop : State τ
  use : Page → Use ν

structure Network (ν τ : Type) where
  hosts : ν → Host ν τ
  wire : List (Packet ν)
  sent : List (Datagram ν)
  arrivals : ν → List (Datagram ν)

inductive NetAction (ν τ : Type) where
  /-- a step in a call on a socket or of the service thread -/
  | call (n : ν) (a : Action τ)
  /-- `socket_sendto` up to the frame that `network_send` builds in `page`; `rest` is what is behind the data -/
  | sendto (n : ν) (i : Sock) (addr : UInt32) (dport : UInt16) (data : List UInt8) (page : Option Page)
      (rest : List UInt8)
  /-- `network_send_interface` for the next interface -/
  | transmit (n : ν) (p : Page) (onWire : Bool)
  /-- the end of `network_send` -/
  | finishSend (n : ν) (p : Page)
  /-- `gnd->recv` in a network thread, with the source address that the frame has then -/
  | arrive (n : ν) (p : Page) (j : ℕ) (source : UInt32)
  /-- `network_receive_frame` -/
  | handle (n : ν) (p : Page) (now now' : UInt32)

variable {ν τ : Type}

/-- The steps that belong to calls on sockets and to the service thread. -/
def Action.isCall (a : Action τ) : Bool :=
  a.ofSockets || match a with
    | .serviceScan | .serviceAct => true
    | _ => false

/-- The frame of `network_send` for a datagram whose header gives `size`. -/
def frameOf (d : Datagram ν) (size : ℤ) (rest : List UInt8) : Packet ν where
  source := if d.addr = NETWORK_LOOPBACK_ADDRESS then NETWORK_LOOPBACK_ADDRESS else NETWORK_BROADCAST_ADDRESS
  destination := d.addr
  protocolId := UInt32.ofNat PROTOCOL_POP.toNat
  payload := ⟨d.sport, d.dport, UInt32.ofInt size, d.data ++ rest⟩
  datagram := d

/-! ## Steps of a machine -/

section

variable [DecidableEq τ]

def Host.setUse (h : Host ν τ) (p : Page) (u : Use ν) : Host ν τ := { h with use := Function.update h.use p u }

/-- A step in a call or of the service thread. -/
def Host.call (h : Host ν τ) (a : Action τ) : Option (Host ν τ) :=
  if a.isCall = true then (Pop.step h.pop a).map fun s => { h with pop := s } else none

/-- A frame is put into a page. -/
def Host.fill (h : Host ν τ) (p : Page) (m : Packet ν) (u : Use ν) : Option (Host ν τ) :=
  (Pop.step h.pop (.receive p m.payload)).map fun s => { h.setUse p u with pop := s }

/-- A page is given back to the pool. -/
def Host.free (h : Host ν τ) (p : Page) : Option (Host ν τ) :=
  (Pop.step h.pop (.giveBack p)).map fun s => { h.setUse p .idle with pop := s }

/-- `network_send` builds the frame of a datagram in a page of the pool. -/
def Host.build (h : Host ν τ) (interfaces : List Interface) (d : Datagram ν) (size : ℤ) (rest : List UInt8)
    (p : Page) : Option (Host ν τ) :=
  match h.use p with
  | .idle =>
    if h.pop.reserved p = false then
      h.fill p (frameOf d size rest)
        (if d.addr = NETWORK_LOOPBACK_ADDRESS then .loopback (frameOf d size rest)
          else .sending (frameOf d size rest) (List.range (interfaces.takeWhile fun i => i.gnd).length))
    else none
  | _ => none

/-- A network thread receives a frame. -/
def Host.arrive (h : Host ν τ) (m : Packet ν) (p : Page) : Option (Host ν τ) :=
  match h.use p with
  | .spare => h.fill p m (.received m)
  | .idle => if h.pop.reserved p = false then h.fill p m (.received m) else none
  | _ => none

/-- `network_receive_frame`; none where it returns 0. -/
def Host.receiveFrame (h : Host ν τ) (m : Packet ν) (p : Page) (now now' : UInt32) : Option (Option (Host ν τ)) :=
  match protocolsGetFrameHandler m.protocolId with
  | none => some none
  | some .popPushFrame =>
    if pushSlot h.pop.queue now = none then some none
    else (Pop.step h.pop (.pushFrame p m.source now now')).map fun s => some { h.setUse p .idle with pop := s }

/-- What the caller of `network_receive_frame` does with its page. -/
def Host.handle (h : Host ν τ) (p : Page) (now now' : UInt32) : Option (Host ν τ) :=
  match h.use p with
  | .received m => (h.receiveFrame m p now now').map fun r => r.getD (h.setUse p .spare)
  | .loopback m =>
    match h.receiveFrame m p now now' with
    | none => none
    | some (some h) => some h
    | some none => h.free p
  | _ => none

end

/-! ## Steps of the network -/

section

variable [DecidableEq ν] [DecidableEq τ]

def Network.setHost (N : Network ν τ) (n : ν) (h : Host ν τ) : Network ν τ :=
  { N with hosts := Function.update N.hosts n h }

def Network.step (interfaces : ν → List Interface) (N : Network ν τ) : NetAction ν τ → Option (Network ν τ)
  | .call n a => ((N.hosts n).call a).map (N.setHost n)
  | .sendto n i addr dport data page rest =>
    if data.length < 2 ^ 31 then
      match socketSendto (interfaces n) (N.hosts n).pop.sockets i dport data.length with
      | .sends sport dport size _ =>
        match page with
        | none => some N
        | some p =>
          let d : Datagram ν := ⟨n, addr, sport, dport, data.take size.toNat⟩
          ((N.hosts n).build (interfaces n) d size rest p).map fun h =>
            { N.setHost n h with
              sent := d :: N.sent
              arrivals := if addr = NETWORK_LOOPBACK_ADDRESS then Function.update N.arrivals n (d :: N.arrivals n)
                else N.arrivals }
      | .fails => some N
      | _ => none
    else none
  | .transmit n p onWire =>
    match (N.hosts n).use p with
    | .sending m (_ :: is) =>
      some { N.setHost n ((N.hosts n).setUse p (.sending m is)) with
        wire := if onWire = true then { m with payload := (N.hosts n).pop.pages p } :: N.wire else N.wire }
    | _ => none
  | .finishSend n p =>
    match (N.hosts n).use p with
    | .sending _ [] => ((N.hosts n).free p).map (N.setHost n)
    | _ => none
  | .arrive n p j source =>
    match N.wire[j]? with
    | none => none
    | some m =>
      ((N.hosts n).arrive { m with source := source } p).map fun h =>
        { N.setHost n h with arrivals := Function.update N.arrivals n (m.datagram :: N.arrivals n) }
  | .handle n p now now' => ((N.hosts n).handle p now now').map (N.setHost n)

end

/-- After `network_init` on every machine. -/
def Network.init (ν τ : Type) : Network ν τ where
  hosts _ := ⟨State.init τ, fun _ => .idle⟩
  wire := []
  sent := []
  arrivals _ := []

/-! ## Where frames come from -/

/-- The frame holds the datagram. -/
structure Holds (f : Frame) (d : Datagram ν) : Prop where
  sport : f.sourcePort = d.sport
  dport : f.destPort = d.dport
  size : f.size.toNat = d.data.length
  data : ∃ rest, f.payload = d.data ++ rest

/-- The datagram was not sent to the loopback address, or it was by machine `n` and has this address as its source. -/
def Local (n : ν) (source : UInt32) (d : Datagram ν) : Prop :=
  d.addr = NETWORK_LOOPBACK_ADDRESS → d.host = n ∧ source = NETWORK_LOOPBACK_ADDRESS

/-- A frame that machine `n` has been given, with its source address, holds the datagram. -/
def Brings (n : ν) (a : UInt32 × Frame) (d : Datagram ν) : Prop := Holds a.2 d ∧ Local n a.1 d

/-- **What a call of `socket_recvfrom` on machine `n` has returned** is from the datagram: it is for the port of the
call, and the call has as much of its data as has room, the number of these bytes and the sender's port. -/
def Answers (n : ν) (x : Request × Vars) (d : Datagram ν) : Prop :=
  d.dport = x.1.port ∧ ∃ source, Local n source d ∧
    x.2 = ⟨some (d.data.take x.1.buflength), some source, some d.sport, some (min d.data.length x.1.buflength)⟩

theorem Brings.answers {n : ν} {x : Request × Vars} {a : UInt32 × Frame} {d : Datagram ν} (h : Brings n a d)
    (hx : Got x a) : Answers n x d := by
  obtain ⟨⟨hsport, hdport, hsize, rest, hdata⟩, hlocal⟩ := h
  obtain ⟨hport, hvars⟩ := hx
  refine ⟨hdport.symm.trans hport, a.1, hlocal, ?_⟩
  rw [hvars, written, hsize, hdata, hsport, List.take_append_of_le_length (min_le_left _ _)]
  rcases le_total d.data.length x.1.buflength with hle | hle
  · rw [min_eq_left hle, List.take_of_length_le (le_refl _), List.take_of_length_le hle]
  · rw [min_eq_right hle]

/-- The datagram was sent, not to the loopback address, and the frame holds it. -/
structure Outgoing (sent : List (Datagram ν)) (m : Packet ν) : Prop where
  holds : Holds m.payload m.datagram
  remote : m.datagram.addr ≠ NETWORK_LOOPBACK_ADDRESS
  sent : m.datagram ∈ sent

/-- **The invariant of a machine.**  `pending` are the datagrams of frames that have arrived and have not been given
to POP, by their pages, and `brought` those of the frames that POP has accepted. -/
structure HostOk (n : ν) (h : Host ν τ) (sent arrivals : List (Datagram ν))
    (pending : Multiset (Page × Datagram ν)) (brought : List (Datagram ν)) : Prop where
  sound : Sound h.pop
  held : ∀ p, h.use p ≠ .idle → h.pop.held p = true
  sending : ∀ p m is, h.use p = .sending m is → Outgoing sent { m with payload := h.pop.pages p }
  full : ∀ p m, h.use p = .received m ∨ h.use p = .loopback m → Has pending p (Brings n (m.source, h.pop.pages p))
  accepted : List.Forall₂ (Brings n) h.pop.accepted brought
  balance : goods pending + brought ≤ (arrivals : Multiset (Datagram ν))

/-! ## Steps of a machine -/

section

variable {n : ν} {h h' : Host ν τ} {s s' : State τ} {sent sent' arrivals arrivals' brought : List (Datagram ν)}
  {p : Page} {u : Use ν} {pending pending' : Multiset (Page × Datagram ν)} {m : Packet ν}

@[simp] theorem setUse_self (h : Host ν τ) (p : Page) (u : Use ν) : (h.setUse p u).use p = u :=
  Function.update_self ..

theorem setUse_of_ne {p' : Page} (hp : p' ≠ p) : (h.setUse p u).use p' = h.use p' := Function.update_of_ne hp ..

/-- More has been sent and has arrived. -/
theorem HostOk.mono (hok : HostOk n h sent arrivals pending brought) (hsent : ∀ d ∈ sent, d ∈ sent') :
    HostOk n h sent' arrivals pending brought where
  sound := hok.sound
  held := hok.held
  sending p m is hp := by
    obtain ⟨hholds, hremote, hin⟩ := hok.sending p m is hp
    exact ⟨hholds, hremote, hsent _ hin⟩
  full := hok.full
  accepted := hok.accepted
  balance := hok.balance

/-- The page is used for something else, and what is in the other pages stays. -/
theorem HostOk.reuse (hok : HostOk n h sent arrivals pending brought) {s : State τ} (hsound : Sound s)
    (hheld : ∀ p', p' ≠ p → s.held p' = h.pop.held p') (hpages : ∀ p', p' ≠ p → s.pages p' = h.pop.pages p')
    (hself : u ≠ .idle → s.held p = true)
    (hsending : ∀ m is, u = .sending m is → Outgoing sent { m with payload := s.pages p })
    (hfull : ∀ m, u = .received m ∨ u = .loopback m → Has pending' p (Brings n (m.source, s.pages p)))
    (hpending : ∀ p', p' ≠ p → ∀ P, Has pending p' P → Has pending' p' P) {brought' : List (Datagram ν)}
    (haccepted : List.Forall₂ (Brings n) s.accepted brought')
    (hbalance : goods pending' + brought' ≤ (arrivals' : Multiset (Datagram ν))) :
    HostOk n { h.setUse p u with pop := s } sent arrivals' pending' brought' where
  sound := hsound
  held := by
    intro p' hp'
    by_cases hpp : p' = p
    · subst hpp
      exact hself (by simpa using hp')
    · rw [hheld p' hpp]
      apply hok.held p'
      rwa [← setUse_of_ne (u := u) hpp]
  sending := by
    intro p' m is hp'
    by_cases hpp : p' = p
    · subst hpp
      exact hsending m is (by simpa using hp')
    · have hold := hok.sending p' m is ((setUse_of_ne hpp).symm.trans hp')
      rw [← hpages p' hpp] at hold
      exact hold
  full := by
    intro p' m hp'
    by_cases hpp : p' = p
    · subst hpp
      exact hfull m (by simpa using hp')
    · have hold := hok.full p' m (by rwa [← setUse_of_ne (h := h) (u := u) hpp])
      rw [← hpages p' hpp] at hold
      exact hpending p' hpp _ hold
  accepted := haccepted
  balance := hbalance

/-- What a step leaves alone of the frames. -/
structure SameFrame (s s' : State τ) : Prop where
  pages : s'.pages = s.pages
  held : s'.held = s.held
  accepted : s'.accepted = s.accepted

variable [DecidableEq τ]

theorem step_call {a : Action τ} (ha : a.isCall = true) (h : Pop.step s a = some s') : SameFrame s s' := by
  by_cases hsock : a.ofSockets = true
  · have hsame := step_ofSockets hsock h
    exact ⟨hsame.pages, hsame.held, hsame.accepted⟩
  · cases a with
    | serviceScan =>
      rw [Pop.step] at h
      split_ifs at h
      cases h
      exact ⟨rfl, rfl, rfl⟩
    | serviceAct =>
      rw [Pop.step] at h
      cases hv : s.service with
      | scanning => simp [hv] at h
      | discarding k f =>
        simp only [hv, Pop.discard] at h
        obtain ⟨s1, h1, h⟩ := Option.bind_eq_some_iff.1 h
        rw [networkFreeFrame_some h1] at h
        cases h
        exact ⟨rfl, rfl, rfl⟩
      | transferring k f =>
        rw [hv] at h
        obtain ⟨-, hsame⟩ := transfer_frees h
        exact ⟨hsame.pages, hsame.held, hsame.accepted⟩
    | socketOpen _ _ _ => exact absurd rfl hsock
    | socketClose _ => exact absurd rfl hsock
    | socketRecvfrom _ _ _ => exact absurd rfl hsock
    | awaitComplete _ => exact absurd rfl hsock
    | finish _ => exact absurd rfl hsock
    | receive _ _ => cases ha
    | giveBack _ => cases ha
    | pushFrame _ _ _ _ => cases ha

/-- A step that leaves the frames alone. -/
theorem HostOk.call (hok : HostOk n h sent arrivals pending brought) {a : Action τ} (hc : NothingStale h.pop a)
    (hcall : h.call a = some h') : HostOk n h' sent arrivals pending brought := by
  unfold Host.call at hcall
  split_ifs at hcall with ha
  obtain ⟨s', hstep, rfl⟩ := Option.map_eq_some_iff.1 hcall
  have hsame := step_call ha hstep
  constructor
  · exact hok.sound.step hc hstep
  · intro p hp
    rw [hsame.held]
    exact hok.held p hp
  · intro p m is hp
    rw [hsame.pages]
    exact hok.sending p m is hp
  · intro p m hp
    rw [hsame.pages]
    exact hok.full p m hp
  · rw [hsame.accepted]
    exact hok.accepted
  · exact hok.balance

/-- A frame is put into a page of the pool, or of a network thread. -/
theorem HostOk.fill (hok : HostOk n h sent arrivals pending brought)
    (hp : h.pop.reserved p = false ∨ h.pop.held p = true) (hfill : h.fill p m u = some h')
    (hsending : ∀ m' is, u = .sending m' is → Outgoing sent { m' with payload := m.payload })
    (hfull : ∀ m', u = .received m' ∨ u = .loopback m' → Has pending' p (Brings n (m'.source, m.payload)))
    (hpending : ∀ p', p' ≠ p → ∀ P, Has pending p' P → Has pending' p' P)
    (hbalance : goods pending' + brought ≤ (arrivals' : Multiset (Datagram ν))) :
    HostOk n h' sent arrivals' pending' brought := by
  obtain ⟨s', hstep, rfl⟩ := Option.map_eq_some_iff.1 hfill
  have hsound := hok.sound.step (a := .receive p m.payload) trivial hstep
  rw [Pop.step, if_pos hp] at hstep
  cases hstep
  have hself : Function.update h.pop.pages p m.payload p = m.payload := Function.update_self ..
  refine hok.reuse hsound (fun p' hp' => Function.update_of_ne hp' ..) (fun p' hp' => Function.update_of_ne hp' ..)
    (fun _ => Function.update_self ..) ?_ ?_ hpending hok.accepted hbalance
  · intro m' is hu
    simp only [hself]
    exact hsending m' is hu
  · intro m' hu
    simp only [hself]
    exact hfull m' hu

theorem HostOk.free (hok : HostOk n h sent arrivals pending brought) (hfree : h.free p = some h') :
    HostOk n h' sent arrivals pending brought := by
  obtain ⟨s', hstep, rfl⟩ := Option.map_eq_some_iff.1 hfree
  have hsound := hok.sound.step (a := .giveBack p) trivial hstep
  rw [Pop.step] at hstep
  split_ifs at hstep
  obtain ⟨s1, h1, hstep⟩ := Option.bind_eq_some_iff.1 hstep
  rw [networkFreeFrame_some h1] at hstep
  cases hstep
  refine hok.reuse hsound (fun p' hp' => Function.update_of_ne hp' ..) (fun _ _ => rfl) (fun hu => absurd rfl hu) ?_ ?_
    (fun _ _ _ hp => hp) hok.accepted hok.balance
  · intro m' is hu
    cases hu
  · intro m' hu
    rcases hu with hu | hu <;> cases hu

/-- **POP accepts a frame**, and the datagram that it brings. -/
theorem HostOk.accept (hok : HostOk n h sent arrivals pending brought)
    (huse : h.use p = .received m ∨ h.use p = .loopback m) {now now' : UInt32}
    (hc : NothingStale h.pop (.pushFrame p m.source now now'))
    (hreceive : h.receiveFrame m p now now' = some (some h')) :
    ∃ pending' brought', HostOk n h' sent arrivals pending' brought' := by
  unfold Host.receiveFrame at hreceive
  cases hhandler : protocolsGetFrameHandler m.protocolId with
  | none => simp [hhandler] at hreceive
  | some f =>
    cases f
    simp only [hhandler] at hreceive
    by_cases hslot : pushSlot h.pop.queue now = none
    · rw [if_pos hslot] at hreceive
      cases hreceive
    rw [if_neg hslot] at hreceive
    obtain ⟨s', hstep, hs'⟩ := Option.map_eq_some_iff.1 hreceive
    cases hs'
    have hsound := hok.sound.step hc hstep
    obtain ⟨d, rest, hbrings, rfl, hrest⟩ := (hok.full p m huse).take
    rw [Pop.step] at hstep
    split_ifs at hstep
    obtain ⟨hnone, -⟩ | ⟨k, reserved, -, -, rfl⟩ := popPushFrame_cases hstep
    · exact absurd hnone hslot
    refine ⟨rest, d :: brought, hok.reuse hsound (fun p' hp' => Function.update_of_ne hp' ..) (fun _ _ => rfl)
      (fun hu => absurd rfl hu) ?_ ?_ hrest (List.Forall₂.cons hbrings hok.accepted) ?_⟩
    · intro m' is hu
      cases hu
    · intro m' hu
      rcases hu with hu | hu <;> cases hu
    · have hbalance := hok.balance
      rw [goods_put, Multiset.cons_add] at hbalance
      rw [← Multiset.cons_coe, Multiset.add_cons]
      exact hbalance

/-- **`network_receive_frame`** and what its caller does with the page. -/
theorem HostOk.handle (hok : HostOk n h sent arrivals pending brought) {now now' : UInt32}
    (hc : NothingStale h.pop (.pushFrame p 0 now now')) (hhandle : h.handle p now now' = some h') :
    ∃ pending' brought', HostOk n h' sent arrivals pending' brought' := by
  unfold Host.handle at hhandle
  cases huse : h.use p with
  | idle => simp [huse] at hhandle
  | spare => simp [huse] at hhandle
  | sending m is => simp [huse] at hhandle
  | received m =>
    simp only [huse] at hhandle
    obtain ⟨r, hr, rfl⟩ := Option.map_eq_some_iff.1 hhandle
    cases r with
    | some h' => exact hok.accept (Or.inl huse) hc hr
    | none =>
      refine ⟨pending, brought, hok.reuse hok.sound (fun _ _ => rfl) (fun _ _ => rfl) (fun _ => ?_) ?_ ?_
        (fun _ _ _ hp => hp) hok.accepted hok.balance⟩
      · apply hok.held p
        rw [huse]
        simp
      · intro m' is hu
        cases hu
      · intro m' hu
        rcases hu with hu | hu <;> cases hu
  | loopback m =>
    simp only [huse] at hhandle
    cases hr : h.receiveFrame m p now now' with
    | none => simp [hr] at hhandle
    | some r =>
      simp only [hr] at hhandle
      cases r with
      | some h'' =>
        cases hhandle
        exact hok.accept (Or.inr huse) hc hr
      | none => exact ⟨pending, brought, hok.free hhandle⟩

theorem frameOf_holds {d : Datagram ν} {size : ℤ} (hsize : (UInt32.ofInt size).toNat = d.data.length)
    (rest : List UInt8) : Holds (frameOf d size rest).payload d :=
  ⟨rfl, rfl, hsize, rest, rfl⟩

/-- **`network_send` builds a frame**, which is one that has arrived if it is for the machine itself. -/
theorem HostOk.build (hok : HostOk n h sent arrivals pending brought) {interfaces : List Interface} {d : Datagram ν}
    {size : ℤ} (hsize : (UInt32.ofInt size).toNat = d.data.length) (hd : d.host = n) {rest : List UInt8}
    (hbuild : h.build interfaces d size rest p = some h') :
    ∃ pending', HostOk n h' (d :: sent)
      (if d.addr = NETWORK_LOOPBACK_ADDRESS then d :: arrivals else arrivals) pending' brought := by
  unfold Host.build at hbuild
  cases huse : h.use p with
  | idle =>
    simp only [huse] at hbuild
    split_ifs at hbuild with hres haddr
    · rw [if_pos haddr]
      refine ⟨(p, d) ::ₘ pending, (hok.mono fun _ => List.mem_cons_of_mem d).fill (Or.inl hres) hbuild ?_ ?_
        (fun _ _ _ hp => hp.put _) ?_⟩
      · intro m' is hu
        cases hu
      · intro m' hu
        rcases hu with hu | hu
        · cases hu
        · cases hu
          exact Has.put_self ⟨frameOf_holds hsize rest, fun _ => ⟨hd, if_pos haddr⟩⟩
      · rw [goods_put, Multiset.cons_add, ← Multiset.cons_coe]
        exact Multiset.cons_le_cons d hok.balance
    · rw [if_neg haddr]
      refine ⟨pending, (hok.mono fun _ => List.mem_cons_of_mem d).fill (Or.inl hres) hbuild ?_ ?_ (fun _ _ _ hp => hp)
        hok.balance⟩
      · intro m' is hu
        cases hu
        exact ⟨frameOf_holds hsize rest, haddr, List.mem_cons_self⟩
      · intro m' hu
        rcases hu with hu | hu <;> cases hu
  | spare => simp [huse] at hbuild
  | received m => simp [huse] at hbuild
  | loopback m => simp [huse] at hbuild
  | sending m is => simp [huse] at hbuild

/-- **A frame arrives** from the wire. -/
theorem HostOk.arrive (hok : HostOk n h sent arrivals pending brought) (hm : Outgoing sent m) {source : UInt32}
    (harrive : h.arrive { m with source := source } p = some h') :
    ∃ pending', HostOk n h' sent (m.datagram :: arrivals) pending' brought := by
  have hfilled : ∀ hp : h.pop.reserved p = false ∨ h.pop.held p = true,
      h.fill p { m with source := source } (.received { m with source := source }) = some h' →
      ∃ pending', HostOk n h' sent (m.datagram :: arrivals) pending' brought := by
    intro hp hfill
    refine ⟨(p, m.datagram) ::ₘ pending, hok.fill hp hfill ?_ ?_ (fun _ _ _ hp => hp.put _) ?_⟩
    · intro m' is hu
      cases hu
    · intro m' hu
      rcases hu with hu | hu
      · cases hu
        exact Has.put_self ⟨hm.holds, fun hloop => absurd hloop hm.remote⟩
      · cases hu
    · rw [goods_put, Multiset.cons_add, ← Multiset.cons_coe]
      exact Multiset.cons_le_cons _ hok.balance
  unfold Host.arrive at harrive
  cases huse : h.use p with
  | idle =>
    simp only [huse] at harrive
    split_ifs at harrive with hres
    exact hfilled (Or.inl hres) harrive
  | spare =>
    simp only [huse] at harrive
    refine hfilled (Or.inr (hok.held p ?_)) harrive
    rw [huse]
    simp
  | received m => simp [huse] at harrive
  | loopback m => simp [huse] at harrive
  | sending m is => simp [huse] at harrive

omit [DecidableEq τ] in
/-- The frame goes through one more interface. -/
theorem HostOk.transmit (hok : HostOk n h sent arrivals pending brought) {i : ℕ} {is : List ℕ}
    (huse : h.use p = .sending m (i :: is)) : HostOk n (h.setUse p (.sending m is)) sent arrivals pending brought := by
  refine hok.reuse hok.sound (fun _ _ => rfl) (fun _ _ => rfl) (fun _ => ?_) ?_ ?_ (fun _ _ _ hp => hp) hok.accepted
    hok.balance
  · apply hok.held p
    rw [huse]
    simp
  · intro m' is' hu
    cases hu
    exact hok.sending p m _ huse
  · intro m' hu
    rcases hu with hu | hu <;> cases hu

end

/-! ## Runs of the network -/

section

variable [DecidableEq ν] [DecidableEq τ] {N N' : Network ν τ}

/-- **The invariant of the network.** -/
structure NetworkOk (N : Network ν τ) : Prop where
  hosts : ∀ n, ∃ pending brought, HostOk n (N.hosts n) N.sent (N.arrivals n) pending brought
  wire : ∀ m ∈ N.wire, Outgoing N.sent m
  arrivals : ∀ n, ∀ d ∈ N.arrivals n, d ∈ N.sent
  loopback : ∀ n, List.Sublist ((N.arrivals n).filter fun d => d.addr = NETWORK_LOOPBACK_ADDRESS) N.sent

/-- Nothing stale is reused on the machine that goes on. -/
def NetworkFresh (N : Network ν τ) : NetAction ν τ → Prop
  | .call n a => NothingStale (N.hosts n).pop a
  | .handle n p now now' => NothingStale (N.hosts n).pop (.pushFrame p 0 now now')
  | _ => True

instance [Fintype τ] (N : Network ν τ) : ∀ a, Decidable (NetworkFresh N a)
  | .call n a => inferInstanceAs (Decidable (NothingStale (N.hosts n).pop a))
  | .handle n p now now' => inferInstanceAs (Decidable (NothingStale (N.hosts n).pop (.pushFrame p 0 now now')))
  | .sendto _ _ _ _ _ _ _ => isTrue trivial
  | .transmit _ _ _ => isTrue trivial
  | .finishSend _ _ => isTrue trivial
  | .arrive _ _ _ _ => isTrue trivial

omit [DecidableEq τ] in
/-- One machine has gone on; what has been sent and has arrived is still there. -/
theorem NetworkOk.change (hN : NetworkOk N) {n : ν} (hhosts : ∀ n', n' ≠ n → N'.hosts n' = N.hosts n')
    (hok : ∃ pending brought, HostOk n (N'.hosts n) N'.sent (N'.arrivals n) pending brought)
    (hsent : ∀ d ∈ N.sent, d ∈ N'.sent) (hothers : ∀ n', n' ≠ n → N'.arrivals n' = N.arrivals n')
    (hwire : ∀ m ∈ N'.wire, m ∈ N.wire ∨ Outgoing N'.sent m)
    (harrivals : ∀ d ∈ N'.arrivals n, d ∈ N.arrivals n ∨ d ∈ N'.sent)
    (hsub : List.Sublist N.sent N'.sent)
    (hloop : List.Sublist ((N'.arrivals n).filter fun d => d.addr = NETWORK_LOOPBACK_ADDRESS) N'.sent) :
    NetworkOk N' where
  hosts := by
    intro n'
    by_cases hn : n' = n
    · subst hn
      exact hok
    · obtain ⟨pending, brought, hold⟩ := hN.hosts n'
      rw [hhosts n' hn, hothers n' hn]
      exact ⟨pending, brought, hold.mono hsent⟩
  wire := by
    intro m hm
    rcases hwire m hm with hm | hm
    · obtain ⟨h1, h2, h3⟩ := hN.wire m hm
      exact ⟨h1, h2, hsent _ h3⟩
    · exact hm
  arrivals := by
    intro n' d hd
    by_cases hn : n' = n
    · subst hn
      rcases harrivals d hd with hd | hd
      · exact hsent d (hN.arrivals n' d hd)
      · exact hd
    · rw [hothers n' hn] at hd
      exact hsent d (hN.arrivals n' d hd)
  loopback := by
    intro n'
    by_cases hn : n' = n
    · subst hn
      exact hloop
    · rw [hothers n' hn]
      exact (hN.loopback n').trans hsub

omit [DecidableEq τ] in
/-- One machine has gone on, and nothing has been sent or has arrived. -/
theorem NetworkOk.setHost (hN : NetworkOk N) {n : ν} {h' : Host ν τ}
    (hok : ∃ pending brought, HostOk n h' N.sent (N.arrivals n) pending brought) : NetworkOk (N.setHost n h') := by
  refine hN.change (n := n) (fun _ hn => Function.update_of_ne hn ..) ?_ (fun _ hd => hd) (fun _ _ => rfl)
    (fun _ hm => Or.inl hm) (fun _ hd => Or.inl hd) (List.Sublist.refl _) (hN.loopback n)
  show ∃ pending brought, HostOk n (Function.update N.hosts n h' n) N.sent (N.arrivals n) pending brought
  rw [Function.update_self]
  exact hok

omit [DecidableEq τ] in
/-- The size in the header is the number of bytes that are taken. -/
theorem socketSendto_size {interfaces : List Interface} {sockets : Sock → Socket τ} {i : Sock}
    {sport dport dport' : UInt16} {size length : ℤ} {data : List UInt8} (hdata : data.length < 2 ^ 31)
    (h : socketSendto interfaces sockets i dport data.length = .sends sport dport' size length) :
    (UInt32.ofInt size).toNat = (data.take size.toNat).length := by
  unfold socketSendto at h
  cases hmtu : networkGetMtu interfaces NETWORK_BROADCAST_ADDRESS with
  | none =>
    simp only [hmtu] at h
    split_ifs at h
  | some mtu =>
    simp only [hmtu] at h
    split_ifs at h
    cases h
    have hpage : (UInt32.ofNat (PAGE_SIZE - POP_HEADER_SIZE)).toNat = 4088 := by decide
    have hword : (UInt32.ofInt data.length).toNat = data.length := by
      rw [ofInt_toNat (by omega) (by omega), Int.toNat_natCast]
    have hmin : (MIN (MIN (UInt32.ofInt data.length) (UInt32.ofInt mtu - UInt32.ofNat POP_HEADER_SIZE))
        (UInt32.ofNat (PAGE_SIZE - POP_HEADER_SIZE))).toNat = min (min data.length
        (UInt32.ofInt mtu - UInt32.ofNat POP_HEADER_SIZE).toNat) 4088 := by
      rw [MIN_toNat, MIN_toNat, hword, hpage]
    rw [payloadSize, int_eq (by omega), hmin, ofInt_toNat (by omega) (by omega), List.length_take]
    omega

/-- **One step of the network.** -/
theorem NetworkOk.step {interfaces : ν → List Interface} {a : NetAction ν τ} (hc : NetworkFresh N a)
    (hN : NetworkOk N) (hstep : N.step interfaces a = some N') : NetworkOk N' := by
  cases a with
  | call n a =>
    obtain ⟨h', hcall, rfl⟩ := Option.map_eq_some_iff.1 hstep
    obtain ⟨pending, brought, hok⟩ := hN.hosts n
    exact hN.setHost ⟨pending, brought, hok.call hc hcall⟩
  | sendto n i addr dport data page rest =>
    rw [Network.step] at hstep
    by_cases hdata : data.length < 2 ^ 31
    case neg =>
      rw [if_neg hdata] at hstep
      cases hstep
    rw [if_pos hdata] at hstep
    cases hsend : socketSendto (interfaces n) (N.hosts n).pop.sockets i dport data.length with
    | readsPast => simp [hsend] at hstep
    | panics => simp [hsend] at hstep
    | fails =>
      simp only [hsend] at hstep
      cases hstep
      exact hN
    | sends sport dport' size length =>
      simp only [hsend] at hstep
      cases page with
      | none =>
        cases hstep
        exact hN
      | some p =>
        obtain ⟨h', hbuild, rfl⟩ := Option.map_eq_some_iff.1 hstep
        obtain ⟨pending, brought, hok⟩ := hN.hosts n
        obtain ⟨pending', hok'⟩ := hok.build (socketSendto_size hdata hsend) rfl hbuild
        refine hN.change (n := n) (fun _ hn => Function.update_of_ne hn ..) ⟨pending', brought, ?_⟩
          (fun _ => List.mem_cons_of_mem _) (fun n' hn => ?_) (fun m hm => Or.inl hm) (fun d hd => ?_)
          (List.sublist_cons_self ..) ?_
        · simp only [Network.setHost, Function.update_self]
          split_ifs at hok' ⊢ with haddr
          · simpa using hok'
          · exact hok'
        · simp only
          split_ifs
          · exact Function.update_of_ne hn ..
          · rfl
        · simp only at hd
          split_ifs at hd
          · rw [Function.update_self] at hd
            rcases List.mem_cons.1 hd with rfl | hd
            · exact Or.inr List.mem_cons_self
            · exact Or.inl hd
          · exact Or.inl hd
        · simp only
          split_ifs with haddr
          · rw [Function.update_self, List.filter_cons_of_pos (by simpa using haddr)]
            exact (hN.loopback n).cons_cons _
          · exact (hN.loopback n).cons _
  | transmit n p onWire =>
    rw [Network.step] at hstep
    cases huse : (N.hosts n).use p with
    | sending m is =>
      cases is with
      | nil => simp [huse] at hstep
      | cons i is =>
        simp only [huse] at hstep
        cases hstep
        obtain ⟨pending, brought, hok⟩ := hN.hosts n
        have hout := hok.sending p m _ huse
        refine hN.change (n := n) (fun _ hn => Function.update_of_ne hn ..) ⟨pending, brought, ?_⟩ (fun _ hd => hd)
          (fun _ _ => rfl) (fun m' hm' => ?_) (fun _ hd => Or.inl hd) (List.Sublist.refl _) (hN.loopback n)
        · simp only [Network.setHost, Function.update_self]
          exact hok.transmit huse
        · simp only at hm'
          split_ifs at hm'
          · rcases List.mem_cons.1 hm' with rfl | hm'
            · exact Or.inr hout
            · exact Or.inl hm'
          · exact Or.inl hm'
    | idle => simp [huse] at hstep
    | spare => simp [huse] at hstep
    | received m => simp [huse] at hstep
    | loopback m => simp [huse] at hstep
  | finishSend n p =>
    rw [Network.step] at hstep
    cases huse : (N.hosts n).use p with
    | sending m is =>
      cases is with
      | cons i is => simp [huse] at hstep
      | nil =>
        simp only [huse] at hstep
        obtain ⟨h', hfree, rfl⟩ := Option.map_eq_some_iff.1 hstep
        obtain ⟨pending, brought, hok⟩ := hN.hosts n
        exact hN.setHost ⟨pending, brought, hok.free hfree⟩
    | idle => simp [huse] at hstep
    | spare => simp [huse] at hstep
    | received m => simp [huse] at hstep
    | loopback m => simp [huse] at hstep
  | arrive n p j source =>
    rw [Network.step] at hstep
    cases hm : N.wire[j]? with
    | none => simp [hm] at hstep
    | some m =>
      simp only [hm] at hstep
      obtain ⟨h', harrive, rfl⟩ := Option.map_eq_some_iff.1 hstep
      have hout := hN.wire m (List.mem_of_getElem? hm)
      obtain ⟨pending, brought, hok⟩ := hN.hosts n
      obtain ⟨pending', hok'⟩ := hok.arrive hout harrive
      refine hN.change (n := n) (fun _ hn => Function.update_of_ne hn ..) ⟨pending', brought, ?_⟩ (fun _ hd => hd)
        (fun _ hn => Function.update_of_ne hn ..) (fun m' hm' => Or.inl hm') (fun d hd => ?_) (List.Sublist.refl _) ?_
      · simp only [Network.setHost, Function.update_self]
        exact hok'
      · simp only [Function.update_self] at hd
        rcases List.mem_cons.1 hd with rfl | hd
        · exact Or.inr hout.sent
        · exact Or.inl hd
      · simp only [Function.update_self]
        rw [List.filter_cons_of_neg (by simpa using hout.remote)]
        exact hN.loopback n
  | handle n p now now' =>
    obtain ⟨h', hhandle, rfl⟩ := Option.map_eq_some_iff.1 hstep
    obtain ⟨pending, brought, hok⟩ := hN.hosts n
    exact hN.setHost (hok.handle hc hhandle)

omit [DecidableEq ν] [DecidableEq τ] in
theorem networkOk_init : NetworkOk (Network.init ν τ) where
  hosts n := by
    refine ⟨0, [], sound_init, fun p hp => absurd rfl hp, ?_, ?_, List.Forall₂.nil, le_refl _⟩
    · intro p m is hp
      cases hp
    · intro p m hp
      rcases hp with hp | hp <;> cases hp
  wire := by
    intro m hm
    cases hm
  arrivals := by
    intro n d hd
    cases hd
  loopback n := List.Sublist.refl _

/-- **What a network delivers**: in every run of machines on a network in which nothing stale is reused on any of them,
the calls of `socket_recvfrom` that have returned on a machine have got the data of different arrivals of datagrams,
each of which was sent by `socket_sendto` to the port of the call, and with its sender's port; and what was sent to
the loopback address has been got at most once, on the machine that sent it. -/
theorem network_delivers {interfaces : ν → List Interface} {as : List (NetAction ν τ)} {N : Network ν τ}
    (hc : Every (Network.step interfaces) NetworkFresh (Network.init ν τ) as)
    (hr : run (Network.step interfaces) (Network.init ν τ) as = some N) (n : ν) :
    ∃ ds : List (Datagram ν), List.Forall₂ (Answers n) (N.hosts n).pop.returned ds ∧
      (ds : Multiset (Datagram ν)) ≤ N.arrivals n ∧ (∀ d ∈ ds, d ∈ N.sent) ∧
      ((ds.filter fun d => d.addr = NETWORK_LOOPBACK_ADDRESS : List (Datagram ν)) : Multiset (Datagram ν)) ≤
        N.sent := by
  have hN : NetworkOk N := run_invariant NetworkOk.step networkOk_init hc hr
  obtain ⟨pending, brought, hok⟩ := hN.hosts n
  obtain ⟨done, hgot, hdone⟩ := hok.sound.deliversOnce
  obtain ⟨ds, hds, hle⟩ := exists_forall₂_le hok.accepted hdone
  have harrivals : (ds : Multiset (Datagram ν)) ≤ N.arrivals n :=
    hle.trans ((Multiset.le_add_left _ _).trans hok.balance)
  refine ⟨ds, ?_, harrivals, fun d hd => ?_, ?_⟩
  · exact forall₂_trans (fun hx hb => hb.answers hx) hgot hds
  · exact hN.arrivals n d (Multiset.mem_of_le harrivals hd)
  · rw [← Multiset.filter_coe]
    exact (Multiset.filter_le_filter _ harrivals).trans (Multiset.coe_le.2 (hN.loopback n).subperm)

/-- Three bytes to port 9 of another machine, of which there is room for two. -/
def lanRun : List (NetAction Bool Unit) :=
  [.call true (.socketOpen PROTOCOL_POP 9 (some 0)), .call false (.socketOpen PROTOCOL_POP 7 (some 0)),
    .sendto false 0 5 9 [1, 2, 3] (some 0) [], .transmit false 0 true, .finishSend false 0, .arrive true 0 0 6,
    .handle true 0 0 0, .call true (.socketRecvfrom () 0 2), .call true (.awaitComplete ()), .call true .serviceScan,
    .call true .serviceAct, .call true (.finish ())]

theorem network_delivers_one :
    ∃ N, run (Network.step fun _ => [⟨1, 1500, true⟩, noInterface]) (Network.init Bool Unit) lanRun = some N ∧
      (N.hosts true).pop.returned = [(⟨0, 9, 2⟩, ⟨some [1, 2], some 6, some 7, some 2⟩)] ∧
      ∃ ds : List (Datagram Bool), List.Forall₂ (Answers true) (N.hosts true).pop.returned ds ∧
        (ds : Multiset (Datagram Bool)) ≤ N.arrivals true ∧ (∀ d ∈ ds, d ∈ N.sent) ∧
        ((ds.filter fun d => d.addr = NETWORK_LOOPBACK_ADDRESS : List (Datagram Bool)) : Multiset (Datagram Bool)) ≤
          N.sent := by
  have hrun : ∃ N, run (Network.step fun _ => [⟨1, 1500, true⟩, noInterface]) (Network.init Bool Unit) lanRun = some N ∧
      (N.hosts true).pop.returned = [(⟨0, 9, 2⟩, ⟨some [1, 2], some 6, some 7, some 2⟩)] := by decide +kernel
  have hc : Every (Network.step fun _ => [⟨1, 1500, true⟩, noInterface]) NetworkFresh (Network.init Bool Unit)
      lanRun := by decide +kernel
  obtain ⟨N, hr, hret⟩ := hrun
  exact ⟨N, hr, hret, network_delivers hc hr true⟩

end

end Buenos.Pop

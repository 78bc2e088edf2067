import Buenos.Net.Sending

/-!
# A datagram in a frame

What `socket_sendto` and `network_send` write to memory, and what `network_receive_frame` and POP read there.

* `buildPacket`, `buildFrame` — the send buffer and the page of the frame.
* `networkSend` — `network_send` up to the GNDs or, for the loopback address, to the frame handlers.
* `networkReceiveFrame` — the frame handler and its arguments.
* `Receives` — a frame is received as this datagram, whatever buffer the receiver has.

Principal result: `datagram_received` — the frame that `socket_sendto` builds is received as the port of its socket
and the first bytes of its data, on any machine whose copy of the frame agrees with it in the first bytes, as many as
the smallest MTU, behind the addresses.
-/

namespace Buenos.Pop

open Buenos.Vm (PAGE_SIZE)
open Bytes

/-! ## Writing -/

/-- The 16-bit word at `a`. -/
def loadHalf (mem : Memory) (a : ℕ) : UInt16 := UInt16.ofNat (2 ^ 8 * (mem a).toNat + (mem (a + 1)).toNat)

/-- `*(uint16_t *) a = v`. -/
def storeHalf (mem : Memory) (a : ℕ) (v : UInt16) : Memory :=
  storeBytes mem a [UInt8.ofNat (v.toNat / 2 ^ 8), UInt8.ofNat v.toNat]

/-- What `socket_sendto` writes to `pop_send_buffer`. -/
def buildPacket (mem : Memory) (popSendBuffer : ℕ) (sport dport : UInt16) (size : ℤ) (buf : ℕ) : Memory :=
  let mem := storeHalf mem popSendBuffer sport
  let mem := storeHalf mem (popSendBuffer + 2) dport
  let mem := storeWord mem (popSendBuffer + 4) (UInt32.ofInt size).toNat
  memcopy mem size (popSendBuffer + POP_HEADER_SIZE) buf

/-- What `network_send` writes to the page at `frame`. -/
def buildFrame (mem : Memory) (frame : ℕ) (source destination protocolId : UInt32) (length : ℤ) (buffer : ℕ) : Memory :=
  let mem := storeWord mem (frame + 4) source.toNat
  let mem := storeWord mem frame destination.toNat
  let mem := storeWord mem (frame + 8) protocolId.toNat
  memcopy mem length (frame + FRAME_HEADER_SIZE) buffer

/-- `network_get_interface`; none is -1. -/
def networkGetInterface (interfaces : List Interface) (localAddress : UInt32) : Option ℕ :=
  interfaces.findIdx? fun n => n.address = localAddress

/-- What `network_send` does with a frame. -/
inductive Transmission where
  | panics
  | noPage
  | doesntExist
  /-- `network_receive_frame` is called -/
  | loopback (mem : Memory)
  /-- `network_send_interface` is called for these interfaces in turn -/
  | through (mem : Memory) (interfaces : List ℕ)

/-- `network_send`; `page` is what `pagepool_get_phys_page` returns. -/
def networkSend (mem : Memory) (interfaces : List Interface) (page : Option ℕ) (source destination protocolId : UInt32)
    (length : ℤ) (buffer : ℕ) : Transmission :=
  if Sendable length then
    match page with
    | none => .noPage
    | some frame =>
      let mem := buildFrame mem frame source destination protocolId length buffer
      if destination = NETWORK_LOOPBACK_ADDRESS then
        .loopback (if source = NETWORK_BROADCAST_ADDRESS then storeWord mem (frame + 4) NETWORK_LOOPBACK_ADDRESS.toNat
          else mem)
      else if source ≠ NETWORK_BROADCAST_ADDRESS then
        match networkGetInterface interfaces source with
        | none => .doesntExist
        | some interface => .through mem [interface]
      else .through mem (List.range (interfaces.takeWhile fun n => n.gnd).length)
  else .panics

/-- `socket_sendto` with its call of `network_send`; none where it does not come to that. -/
def socketSendtoFrame {τ : Type} (mem : Memory) (interfaces : List Interface) (sockets : Sock → Socket τ)
    (popSendBuffer : ℕ) (page : Option ℕ) (s : Sock) (addr : UInt32) (dport : UInt16) (buf : ℕ) (size : ℤ) :
    Option Transmission :=
  match socketSendto interfaces sockets s dport size with
  | .sends sport dport size length =>
    some (networkSend (buildPacket mem popSendBuffer sport dport size buf) interfaces page NETWORK_BROADCAST_ADDRESS
      addr (UInt32.ofNat PROTOCOL_POP.toNat) length popSendBuffer)
  | _ => none

/-! ## Reading -/

inductive FrameHandler where
  | popPushFrame
  deriving DecidableEq

/-- The entries of `network_protocols` in front of the one without a frame handler. -/
def networkProtocols : List (UInt32 × FrameHandler) := [(UInt32.ofNat PROTOCOL_POP.toNat, .popPushFrame)]

def protocolsGetFrameHandler (protocolId : UInt32) : Option FrameHandler :=
  (networkProtocols.find? fun p => p.1 = protocolId).map Prod.snd

/-- A call of a frame handler. -/
structure HandlerCall where
  handler : FrameHandler
  source : UInt32
  destination : UInt32
  protocolId : UInt32
  payload : ℕ
  deriving DecidableEq

/-- `network_receive_frame`; none where there is no handler. -/
def networkReceiveFrame (mem : Memory) (frame : ℕ) : Option HandlerCall :=
  (protocolsGetFrameHandler (UInt32.ofNat (loadWord mem (frame + 8)))).map fun handler =>
    { handler := handler
      source := UInt32.ofNat (loadWord mem (frame + 4))
      destination := UInt32.ofNat (loadWord mem frame)
      protocolId := UInt32.ofNat (loadWord mem (frame + 8))
      payload := frame + FRAME_HEADER_SIZE }

/-- `f->dest_port`. -/
def destPort (mem : Memory) (f : ℕ) : UInt16 := loadHalf mem (f + 2)

/-- **The frame is received as a datagram**: `network_receive_frame` gives it to POP, with the sender's address,
and its transfer to a buffer outside of the payload area writes there as much of the data as has room and nothing
else, and reports the sender's address and port and the number of bytes. -/
structure Receives (mem : Memory) (frame : ℕ) (fromAddr : UInt32) (sport dport : UInt16) (data : List UInt8) :
    Prop where
  handler : ∃ c, networkReceiveFrame mem frame = some c ∧ c.handler = .popPushFrame ∧
    c.protocolId.toNat = PROTOCOL_POP.toNat ∧ c.source = fromAddr ∧ c.payload = frame + FRAME_HEADER_SIZE
  port : destPort mem (frame + FRAME_HEADER_SIZE) = dport
  transfer : ∀ rbuf buflength, buflength < 2 ^ 31 → Outside (frame + FRAME_HEADER_SIZE) rbuf buflength →
    let r := popTransfer mem (frame + FRAME_HEADER_SIZE) fromAddr rbuf (UInt32.ofNat buflength)
    r.sender = fromAddr ∧ r.sport = sport ∧ r.copied = (data.take buflength).length ∧
      HoldsBytes r.mem rbuf (data.take buflength) ∧
      ∀ a, a < rbuf ∨ rbuf + (data.take buflength).length ≤ a → r.mem a = mem a

/-! ## Half words and words -/

section

variable {mem mem' : Memory} {a n : ℕ}

theorem loadWord_congr (h : ∀ i < 4, mem' (a + i) = mem (a + i)) : loadWord mem' a = loadWord mem a := by
  have h0 := h 0 (by omega)
  rw [Nat.add_zero] at h0
  rw [loadWord, loadWord, h0, h 1 (by omega), h 2 (by omega), h 3 (by omega)]

theorem loadHalf_congr (h : ∀ i < 2, mem' (a + i) = mem (a + i)) : loadHalf mem' a = loadHalf mem a := by
  have h0 := h 0 (by omega)
  rw [Nat.add_zero] at h0
  rw [loadHalf, loadHalf, h0, h 1 (by omega)]

theorem loadWord_storeWord (mem : Memory) (a : ℕ) (v : UInt32) : loadWord (storeWord mem a v.toNat) a = v.toNat := by
  rw [storeWord, (holdsBytes_storeBytes mem a (be32 v.toNat)).loadWord]
  exact Nat.mod_eq_of_lt v.toNat_lt

theorem loadHalf_storeHalf (mem : Memory) (a : ℕ) (v : UInt16) : loadHalf (storeHalf mem a v) a = v := by
  have hb := holdsBytes_storeBytes mem a [UInt8.ofNat (v.toNat / 2 ^ 8), UInt8.ofNat v.toNat]
  have h0 := hb 0 (by simp)
  have h1 := hb 1 (by simp)
  have hv := v.toNat_lt
  rw [Nat.add_zero] at h0
  apply UInt16.toNat_inj.1
  rw [loadHalf, storeHalf, h0, h1]
  simp only [List.getD_cons_zero, List.getD_cons_succ, UInt16.toNat_ofNat', UInt8.toNat_ofNat']
  omega

theorem storeWord_outside {v x : ℕ} (h : x < a ∨ a + 4 ≤ x) : storeWord mem a v x = mem x :=
  storeBytes_outside (by rwa [be32_length])

theorem storeHalf_outside {v : UInt16} {x : ℕ} (h : x < a ∨ a + 2 ≤ x) : storeHalf mem a v x = mem x :=
  storeBytes_outside h


/-! ## A packet in memory -/

/-- A POP packet lies at `f`. -/
structure HoldsPacket (mem : Memory) (f : ℕ) (sport dport : UInt16) (data : List UInt8) : Prop where
  sport : loadHalf mem f = sport
  dport : loadHalf mem (f + 2) = dport
  size : loadWord mem (f + 4) = data.length
  data : HoldsBytes mem (f + POP_HEADER_SIZE) data

variable {f f' rbuf buflength : ℕ} {sport dport : UInt16} {data : List UInt8} {fromAddr : UInt32}

/-- A copy of a packet. -/
theorem HoldsPacket.copy (h : HoldsPacket mem f sport dport data)
    (hcopy : ∀ i < POP_HEADER_SIZE + data.length, mem' (f' + i) = mem (f + i)) :
    HoldsPacket mem' f' sport dport data := by
  have hheader : POP_HEADER_SIZE = 8 := rfl
  have hword : ∀ o i, o + i < 8 → mem' (f' + o + i) = mem (f + o + i) := by
    intro o i hi
    rw [Nat.add_assoc, Nat.add_assoc, hcopy _ (by omega)]
  have hhalf : ∀ o, o + 2 ≤ 8 → loadHalf mem' (f' + o) = loadHalf mem (f + o) := by
    intro o ho
    have h0 := hword o 0 (by omega)
    simp only [Nat.add_zero] at h0
    rw [loadHalf, loadHalf, h0, hword o 1 (by omega)]
  constructor
  · rw [← h.sport]
    exact hhalf 0 (by omega)
  · rw [← h.dport]
    exact hhalf 2 (by omega)
  · have h0 := hword 4 0 (by omega)
    simp only [Nat.add_zero] at h0
    rw [← h.size, loadWord, loadWord, h0, hword 4 1 (by omega), hword 4 2 (by omega), hword 4 3 (by omega)]
  · intro i hi
    rw [Nat.add_assoc, hcopy _ (by omega), ← Nat.add_assoc, h.data i hi]

/-- **A packet in the payload area** of a frame for POP is received. -/
theorem HoldsPacket.receives {frame : ℕ} (h : HoldsPacket mem (frame + FRAME_HEADER_SIZE) sport dport data)
    (hprotocol : loadWord mem (frame + 8) = PROTOCOL_POP.toNat) (hsource : loadWord mem (frame + 4) = fromAddr.toNat)
    (hlen : POP_HEADER_SIZE + data.length ≤ PAYLOAD_SIZE) : Receives mem frame fromAddr sport dport data where
  handler := by
    refine ⟨⟨.popPushFrame, fromAddr, UInt32.ofNat (loadWord mem frame), UInt32.ofNat PROTOCOL_POP.toNat,
      frame + FRAME_HEADER_SIZE⟩, ?_, rfl, rfl, rfl, rfl⟩
    rw [networkReceiveFrame, hprotocol, hsource, UInt32.ofNat_toNat]
    rfl
  port := h.dport
  transfer := by
    intro rbuf buflength hint hout
    have hpayload : PAYLOAD_SIZE = 4084 := rfl
    have hsize : (UInt32.ofNat buflength).toNat = buflength := by
      rw [UInt32.toNat_ofNat']
      omega
    have hcopied : (popTransfer mem (frame + FRAME_HEADER_SIZE) fromAddr rbuf (UInt32.ofNat buflength)).copied =
        ((data.take buflength).length : ℕ) := by
      rw [popTransfer_copied (by omega), hsize, h.size, List.length_take, min_comm]
    have hle : (data.take buflength).length ≤ buflength := by
      rw [List.length_take]
      exact min_le_left _ _
    have hle' : (data.take buflength).length ≤ data.length := by
      rw [List.length_take]
      exact min_le_right _ _
    have hmem := popTransfer_mem hcopied hle (by omega) hout
    refine ⟨rfl, ?_, hcopied, ?_, hmem.outside⟩
    · -- the port is read after the copying, which is outside of the header
      rw [← h.sport]
      apply loadHalf_congr
      intro i hi
      apply hmem.outside
      unfold Outside at hout
      omega
    · intro i hi
      rw [hmem.inside i hi, h.data i (by omega), List.getD_eq_getElem _ _ (by omega), List.getD_eq_getElem _ _ hi,
        List.getElem_take]

/-! ## Building -/

/-- What `socket_sendto` leaves in its send buffer. -/
theorem buildPacket_holds {popSendBuffer buf n : ℕ} (sport dport : UInt16) (hn : POP_HEADER_SIZE + n ≤ PAGE_SIZE)
    (hbuf : buf + n ≤ popSendBuffer ∨ popSendBuffer + PAGE_SIZE ≤ buf) :
    HoldsPacket (buildPacket mem popSendBuffer sport dport n buf) popSendBuffer sport dport (bytesAt mem buf n) ∧
      ∀ a, a < popSendBuffer ∨ popSendBuffer + PAGE_SIZE ≤ a →
        buildPacket mem popSendBuffer sport dport n buf a = mem a := by
  have hheader : POP_HEADER_SIZE = 8 := rfl
  have hpage : PAGE_SIZE = 4096 := rfl
  have hlen : (bytesAt mem buf n).length = n := by simp [bytesAt]
  have hword : (UInt32.ofInt n).toNat = n := by
    rw [ofInt_toNat (by omega) (by omega), Int.toNat_natCast]
  unfold buildPacket
  extract_lets mem1 mem2 mem3
  have hcopy : Copied mem3 (memcopy mem3 n (popSendBuffer + POP_HEADER_SIZE) buf) (popSendBuffer + POP_HEADER_SIZE)
      buf n := memcopy_copied mem3 (by unfold Apart; omega)
  -- the header is written before the data, one field after the other
  have h3 : ∀ a, a < popSendBuffer + 4 ∨ popSendBuffer + 8 ≤ a → mem3 a = mem2 a := fun a ha =>
    storeWord_outside (by omega)
  have h2 : ∀ a, a < popSendBuffer + 2 ∨ popSendBuffer + 4 ≤ a → mem2 a = mem1 a := fun a ha =>
    storeHalf_outside (by omega)
  have h1 : ∀ a, a < popSendBuffer ∨ popSendBuffer + 2 ≤ a → mem1 a = mem a := fun a ha =>
    storeHalf_outside (by omega)
  refine ⟨⟨?_, ?_, ?_, ?_⟩, ?_⟩
  · rw [← loadHalf_storeHalf mem popSendBuffer sport]
    apply loadHalf_congr
    intro i hi
    rw [hcopy.outside _ (by omega), h3 _ (by omega), h2 _ (by omega)]
  · rw [← loadHalf_storeHalf mem1 (popSendBuffer + 2) dport]
    apply loadHalf_congr
    intro i hi
    rw [hcopy.outside _ (by omega), h3 _ (by omega)]
  · have hfield : loadWord mem3 (popSendBuffer + 4) = n := (loadWord_storeWord mem2 _ _).trans hword
    refine (loadWord_congr fun i hi => ?_).trans (hfield.trans hlen.symm)
    rw [hcopy.outside _ (by omega)]
  · intro i hi
    rw [hlen] at hi
    rw [hcopy.inside i hi, h3 _ (by omega), h2 _ (by omega), h1 _ (by omega), List.getD_eq_getElem _ _ (by omega)]
    simp [bytesAt]
  · intro a ha
    rw [hcopy.outside _ (by omega), h3 _ (by omega), h2 _ (by omega), h1 _ (by omega)]

/-- What `network_send` leaves in the page of the frame. -/
structure FrameBuilt (mem mem' : Memory) (frame : ℕ) (source protocolId : UInt32) (length buffer : ℕ) : Prop where
  source : loadWord mem' (frame + 4) = source.toNat
  protocol : loadWord mem' (frame + 8) = protocolId.toNat
  payload : ∀ i < length, mem' (frame + FRAME_HEADER_SIZE + i) = mem (buffer + i)
  outside : ∀ a, a < frame ∨ frame + PAGE_SIZE ≤ a → mem' a = mem a

theorem buildFrame_built {frame buffer length : ℕ} (source destination protocolId : UInt32)
    (hlen : length ≤ PAYLOAD_SIZE) (hbuf : buffer + PAGE_SIZE ≤ frame ∨ frame + PAGE_SIZE ≤ buffer) :
    FrameBuilt mem (buildFrame mem frame source destination protocolId length buffer) frame source protocolId length
      buffer := by
  have hheader : FRAME_HEADER_SIZE = 12 := rfl
  have hpayload : PAYLOAD_SIZE = 4084 := rfl
  have hpage : PAGE_SIZE = 4096 := rfl
  unfold buildFrame
  extract_lets mem1 mem2 mem3
  have hcopy : Copied mem3 (memcopy mem3 length (frame + FRAME_HEADER_SIZE) buffer) (frame + FRAME_HEADER_SIZE) buffer
      length := memcopy_copied mem3 (by unfold Apart; omega)
  have h3 : ∀ a, a < frame + 8 ∨ frame + 12 ≤ a → mem3 a = mem2 a := fun a ha => storeWord_outside (by omega)
  have h2 : ∀ a, a < frame ∨ frame + 4 ≤ a → mem2 a = mem1 a := fun a ha => storeWord_outside (by omega)
  have h1 : ∀ a, a < frame + 4 ∨ frame + 8 ≤ a → mem1 a = mem a := fun a ha => storeWord_outside (by omega)
  constructor
  · rw [← loadWord_storeWord mem (frame + 4) source]
    apply loadWord_congr
    intro i hi
    rw [hcopy.outside _ (by omega), h3 _ (by omega), h2 _ (by omega)]
  · rw [← loadWord_storeWord mem2 (frame + 8) protocolId]
    apply loadWord_congr
    intro i hi
    rw [hcopy.outside _ (by omega)]
  · intro i hi
    rw [hcopy.inside i hi, h3 _ (by omega), h2 _ (by omega), h1 _ (by omega)]
  · intro a ha
    rw [hcopy.outside _ (by omega), h3 _ (by omega), h2 _ (by omega), h1 _ (by omega)]

end

/-! ## Sending -/

/-- The minimum of the MTUs is at most each of them, and is one of them unless there is no device. -/
theorem minMtu_least (rest : List Interface) : ∀ (devices : List Device) (min m : ℤ),
    minMtu (devices.map Device.interface ++ noInterface :: rest) min = some m →
    m ≤ min ∧ (∀ dev ∈ devices, m ≤ dev.frameSize.toNat) ∧ (m = min ∨ ∃ dev ∈ devices, m = dev.frameSize.toNat)
  | [], min, m, h => by
    cases h
    exact ⟨le_refl _, fun dev hdev => absurd hdev List.not_mem_nil, Or.inl rfl⟩
  | dev :: devices, min, m, h => by
    obtain ⟨hle, hall, hone⟩ := minMtu_least rest devices (if (dev.frameSize.toNat : ℤ) < min then dev.frameSize.toNat
      else min) m h
    refine ⟨?_, ?_, ?_⟩
    · split_ifs at hle <;> omega
    · intro dev' hdev'
      rcases List.mem_cons.1 hdev' with rfl | hdev'
      · split_ifs at hle <;> omega
      · exact hall dev' hdev'
    · rcases hone with hmin | ⟨dev', hdev', hm⟩
      · split_ifs at hmin
        · exact Or.inr ⟨dev, List.mem_cons_self, hmin⟩
        · exact Or.inl hmin
      · exact Or.inr ⟨dev', List.mem_cons_of_mem _ hdev', hm⟩

/-- The interfaces that a frame from the broadcast address is sent through. -/
theorem takeWhile_interfaces {devices : List Device} {k : ℕ} :
    ((devices.map Device.interface ++ List.replicate k noInterface).takeWhile fun n => n.gnd).length =
      devices.length := by
  induction devices with
  | nil => cases k <;> rfl
  | cons dev devices ih =>
    rw [List.map_cons, List.cons_append, List.takeWhile_cons_of_pos rfl, List.length_cons, ih, List.length_cons]

/-- How many of `size` bytes fit into a frame for all of the devices, and into a page. -/
def Fits (devices : List Device) (size : ℤ) : Prop :=
  size + POP_HEADER_SIZE ≤ PAYLOAD_SIZE ∧
    ∀ dev ∈ devices, size + (FRAME_HEADER_SIZE + POP_HEADER_SIZE) ≤ dev.frameSize.toNat

section

variable {τ : Type} {sockets : Sock → Socket τ} {s : Sock} {dport : UInt16} {size : ℤ} {devices : List Device}

/-- **The size of the datagram**: as many of the bytes as fit. -/
theorem socketSendto_sends (hdev : Accepted devices) (hfull : devices.length < CONFIG_MAX_GNDS)
    (hroom : devices ≠ [] ∨ Fits [] size) (hpop : (sockets s).protocol = PROTOCOL_POP) (hport : dport ≠ 0)
    (hsize : 1 ≤ size) (hint : size < 2 ^ 31) :
    ∃ n : ℕ,
      socketSendto (devices.map Device.interface ++ List.replicate (CONFIG_MAX_GNDS - devices.length) noInterface)
        sockets s dport size = .sends (sockets s).port dport n (n + POP_HEADER_SIZE : ℕ) ∧
      0 < n ∧ n ≤ size ∧ Fits devices n ∧ (Fits devices size → (n : ℤ) = size) := by
  have hpayload : PAYLOAD_SIZE = 4084 := rfl
  have hheader : POP_HEADER_SIZE = 8 := rfl
  have hframe : FRAME_HEADER_SIZE = 12 := rfl
  obtain ⟨k, hk⟩ : ∃ k, CONFIG_MAX_GNDS - devices.length = k + 1 := ⟨CONFIG_MAX_GNDS - devices.length - 1, by omega⟩
  rw [hk, List.replicate_succ]
  obtain ⟨m, hm, hlow, hhigh, hdevices⟩ :=
    minMtu_spec (List.replicate k noInterface) devices (NETWORK_MAX_MTU + 1) (by decide) hdev.2
  obtain ⟨-, hall, hone⟩ := minMtu_least _ _ _ _ hm
  have hmax : m ≤ 4097 := hhigh
  -- without a device, the page is the limit
  have hsmall : min size (m - 20) + 8 ≤ 4084 := by
    rcases hroom with hne | hfits
    · have := hdevices hne
      omega
    · have := hfits.1
      omega
  have hsend : Sendable (min size (m - 20) + 8) := ⟨by omega, by omega⟩
  have hn : ((min size (m - 20)).toNat : ℤ) = min size (m - 20) := Int.toNat_of_nonneg (by omega)
  refine ⟨(min size (m - 20)).toNat, ?_, by omega, by omega, ⟨by omega, fun dev hdev' => ?_⟩, fun hfits => ?_⟩
  · rw [socketSendto_eq hpop hport hsize hint hm hlow hmax, if_pos hsend, Nat.cast_add, hn]
    rfl
  · have := hall dev hdev'
    omega
  · have hpage := hfits.1
    rcases hone with hmin | ⟨dev, hdev', hmin⟩
    · have : m = 4097 := hmin
      omega
    · have := hfits.2 dev hdev'
      omega

variable {mem : Memory} {popSendBuffer frame buf n : ℕ} {sport : UInt16} {data : List UInt8}

/-- The frame around a packet in the send buffer, with whatever its source field is afterwards. -/
theorem FrameBuilt.receives {mem1 mem2 mem3 : Memory} {frame' length : ℕ} {source : UInt32}
    (hbuilt : FrameBuilt mem1 mem2 frame source (UInt32.ofNat PROTOCOL_POP.toNat) length popSendBuffer)
    (hpacket : HoldsPacket mem1 popSendBuffer sport dport data) (hlen : length = POP_HEADER_SIZE + data.length)
    (hle : length ≤ PAYLOAD_SIZE)
    (hcopy : ∀ i, 8 ≤ i → i < FRAME_HEADER_SIZE + length → mem3 (frame' + i) = mem2 (frame + i)) :
    Receives mem3 frame' (UInt32.ofNat (loadWord mem3 (frame' + 4))) sport dport data := by
  have hheader : POP_HEADER_SIZE = 8 := rfl
  have hframe : FRAME_HEADER_SIZE = 12 := rfl
  have hsource : loadWord mem3 (frame' + 4) = (UInt32.ofNat (loadWord mem3 (frame' + 4))).toNat :=
    (frameSize_toNat mem3 frame').symm
  apply HoldsPacket.receives _ _ hsource (by omega)
  · apply hpacket.copy
    intro i hi
    rw [← hbuilt.payload i (by omega), Nat.add_assoc, hcopy _ (by omega) (by omega), ← Nat.add_assoc]
  · have hprotocol : loadWord mem3 (frame' + 8) = loadWord mem2 (frame + 8) := by
      have h8 := hcopy 8 (by omega) (by omega)
      have h9 := hcopy 9 (by omega) (by omega)
      have h10 := hcopy 10 (by omega) (by omega)
      have h11 := hcopy 11 (by omega) (by omega)
      rw [loadWord, loadWord]
      simp only [Nat.add_assoc, h8, h9, h10, h11, Nat.reduceAdd]
    rw [hprotocol, hbuilt.protocol]
    rfl

/-- **A datagram is received as it was sent.**  `socket_sendto` sends as many of the bytes as fit into a frame of
every device, and writes to its send buffer and the page of the frame only.  To the loopback address, the frame is
received with these bytes, the port of the socket and the loopback address; otherwise it goes through every
interface, and is received with these bytes and the port wherever it arrives with all but its addresses. -/
theorem datagram_received (mem : Memory) (popSendBuffer frame buf : ℕ) {interfaces : List Interface}
    (hdev : Accepted devices) (hfull : devices.length < CONFIG_MAX_GNDS)
    (hinit : networkInit devices = some interfaces)
    (hroom : devices ≠ [] ∨ Fits [] size) (hpop : (sockets s).protocol = PROTOCOL_POP) (hport : dport ≠ 0)
    (hsize : 1 ≤ size) (hint : size < 2 ^ 31)
    (hbuf : buf + size ≤ popSendBuffer ∨ popSendBuffer + PAGE_SIZE ≤ buf)
    (hpage : popSendBuffer + PAGE_SIZE ≤ frame ∨ frame + PAGE_SIZE ≤ popSendBuffer) (addr : UInt32) :
    ∃ (n : ℕ) (mem' : Memory),
      socketSendto interfaces sockets s dport size = .sends (sockets s).port dport n (n + POP_HEADER_SIZE : ℕ) ∧
      0 < n ∧ n ≤ size ∧ Fits devices n ∧ (Fits devices size → (n : ℤ) = size) ∧
      (∀ a, (a < popSendBuffer ∨ popSendBuffer + PAGE_SIZE ≤ a) → (a < frame ∨ frame + PAGE_SIZE ≤ a) →
        mem' a = mem a) ∧
      let sent := socketSendtoFrame mem interfaces sockets popSendBuffer (some frame) s addr dport buf size
      if addr = NETWORK_LOOPBACK_ADDRESS then
        sent = some (.loopback mem') ∧
          Receives mem' frame NETWORK_LOOPBACK_ADDRESS (sockets s).port dport (bytesAt mem buf n)
      else sent = some (.through mem' (List.range devices.length)) ∧
        ∀ (mem'' : Memory) (frame' : ℕ),
          (∀ i, 8 ≤ i → i < FRAME_HEADER_SIZE + POP_HEADER_SIZE + n → mem'' (frame' + i) = mem' (frame + i)) →
          Receives mem'' frame' (UInt32.ofNat (loadWord mem'' (frame' + 4))) (sockets s).port dport
            (bytesAt mem buf n) := by
  have hheader : POP_HEADER_SIZE = 8 := rfl
  have hframe : FRAME_HEADER_SIZE = 12 := rfl
  have hpayload : PAYLOAD_SIZE = 4084 := rfl
  have hpagesize : PAGE_SIZE = 4096 := rfl
  rw [networkInit_eq hdev] at hinit
  cases hinit
  obtain ⟨n, hsends, hpos, hle, hfits, hall⟩ := socketSendto_sends hdev hfull hroom hpop hport hsize hint
  have hn := hfits.1
  have hlen : (bytesAt mem buf n).length = n := by simp [bytesAt]
  let mem1 := buildPacket mem popSendBuffer (sockets s).port dport n buf
  let mem2 := buildFrame mem1 frame NETWORK_BROADCAST_ADDRESS addr (UInt32.ofNat PROTOCOL_POP.toNat)
    (n + POP_HEADER_SIZE : ℕ) popSendBuffer
  obtain ⟨hpacket, hother⟩ : HoldsPacket mem1 popSendBuffer (sockets s).port dport (bytesAt mem buf n) ∧
      ∀ a, a < popSendBuffer ∨ popSendBuffer + PAGE_SIZE ≤ a → mem1 a = mem a :=
    buildPacket_holds _ _ (by omega) (by omega)
  have hbuilt : FrameBuilt mem1 mem2 frame NETWORK_BROADCAST_ADDRESS (UInt32.ofNat PROTOCOL_POP.toNat)
      (n + POP_HEADER_SIZE) popSendBuffer := buildFrame_built _ _ _ (by omega) (by omega)
  have hsendable : Sendable (n + POP_HEADER_SIZE : ℕ) := ⟨by omega, by omega⟩
  by_cases haddr : addr = NETWORK_LOOPBACK_ADDRESS
  · -- the source field is set to the loopback address
    let mem' := storeWord mem2 (frame + 4) NETWORK_LOOPBACK_ADDRESS.toNat
    refine ⟨n, mem', hsends, hpos, hle, hfits, hall, fun a ha hb => ?_, ?_⟩
    · have hframe' : mem' a = mem2 a := storeWord_outside (by omega)
      rw [hframe', hbuilt.outside a hb, hother a ha]
    · have hself : Receives mem' frame (UInt32.ofNat (loadWord mem' (frame + 4))) (sockets s).port dport
          (bytesAt mem buf n) :=
        hbuilt.receives hpacket (by omega) (by omega) fun i h8 _ => storeWord_outside (by omega)
      have hsource : loadWord mem' (frame + 4) = NETWORK_LOOPBACK_ADDRESS.toNat := loadWord_storeWord ..
      rw [hsource, UInt32.ofNat_toNat] at hself
      simp only [if_pos haddr, socketSendtoFrame, hsends, networkSend, if_pos hsendable, if_true]
      exact ⟨rfl, hself⟩
  · refine ⟨n, mem2, hsends, hpos, hle, hfits, hall, fun a ha hb => ?_, ?_⟩
    · rw [hbuilt.outside a hb, hother a ha]
    · simp only [if_neg haddr, socketSendtoFrame, hsends, networkSend, if_pos hsendable, ne_eq, not_true_eq_false,
        if_false, takeWhile_interfaces]
      refine ⟨rfl, fun mem'' frame' hcopy => ?_⟩
      exact hbuilt.receives hpacket (by omega) (by omega) fun i h8 hi => hcopy i h8 (by omega)

end

/-- Five bytes to port 9 of the machine itself. -/
theorem datagram_received_loopback :
    ∃ mem', socketSendtoFrame (fun a => UInt8.ofNat a) [⟨1, 1500, true⟩, noInterface, noInterface, noInterface]
        popSockets 0 (some 4096) 0 NETWORK_LOOPBACK_ADDRESS 9 8192 5 = some (.loopback mem') ∧
      Receives mem' 4096 NETWORK_LOOPBACK_ADDRESS 7 9 [0, 1, 2, 3, 4] := by
  have hdev : Accepted [⟨1500, 1⟩] := by decide
  have hfits : Fits [⟨1500, 1⟩] 5 := ⟨by decide, by decide⟩
  obtain ⟨n, mem', -, -, -, -, hn, -, hsent⟩ := datagram_received (fun a => UInt8.ofNat a) 0 4096 8192 hdev
    (by decide) rfl (Or.inl (by decide)) (show (popSockets 0).protocol = PROTOCOL_POP from rfl)
    (show (9 : UInt16) ≠ 0 by decide) (show (1 : ℤ) ≤ 5 by decide) (by decide) (Or.inr (by decide))
    (Or.inl (by decide)) NETWORK_LOOPBACK_ADDRESS
  rw [if_pos rfl] at hsent
  have h5 : n = 5 := by exact_mod_cast hn hfits
  rw [h5] at hsent
  exact ⟨mem', hsent⟩

end Buenos.Pop

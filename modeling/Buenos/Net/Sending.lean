import Buenos.Lib.Words
import Buenos.Net.Reception

/-!
# Sending POP packets

`socket_sendto` with the part of `network.c` that decides how long a frame may be.

* `networkInit` — the table of the interfaces.
* `networkGetMtu` — its scans stop at an entry without a GND.
* `socketSendto` — up to `network_send`, whose assertion decides.
* `SendsRight` — the property: no panic, no read behind the table, at most a page in the send buffer.

Principal result: `socketSendto_sendsRight`, for which numbers of interfaces and sizes the property holds.
-/

namespace Buenos.Pop

open Buenos.Vm (PAGE_SIZE)

/-! ## Interfaces -/

abbrev CONFIG_MAX_GNDS : ℕ := 4
def NETWORK_MAX_MTU : ℤ := 4096
def NETWORK_BROADCAST_ADDRESS : UInt32 := 0xffffffff
def NETWORK_LOOPBACK_ADDRESS : UInt32 := 0

/-- A network device: what `gnd->frame_size` and `gnd->hwaddr` return. -/
structure Device where
  frameSize : UInt32
  hwaddr : UInt32

/-- `network_interface_info_t`; of `gnd` only whether it is `NULL`. -/
structure Interface where
  address : UInt32
  mtu : ℤ
  gnd : Bool

/-- One round of the first loop of `network_init`; the assertion is on the MTU. -/
def initInterface : Option Device → Option Interface
  | none => some ⟨0, 0, false⟩
  | some dev => if int dev.frameSize ≤ PAGE_SIZE then some ⟨dev.hwaddr, int dev.frameSize, true⟩ else none

/-- The table of the interfaces after `network_init`. -/
def networkInit (devices : List Device) : Option (List Interface) :=
  (List.range CONFIG_MAX_GNDS).mapM fun i => initInterface devices[i]?

/-- `x - sizeof(network_frame_header_t)`, which is unsigned, as an `int`. -/
def withoutHeader (x : ℤ) : ℤ := int (UInt32.ofInt x - UInt32.ofNat FRAME_HEADER_SIZE)

/-- The loop for the minimum; `none` when it reads behind the table. -/
def minMtu : List Interface → ℤ → Option ℤ
  | [], _ => none
  | n :: ns, min => if n.gnd = false then some min else minMtu ns (if n.mtu < min then n.mtu else min)

/-- The loop for the interface with an address. -/
def mtuOf (localAddress : UInt32) : List Interface → Option ℤ
  | [] => none
  | n :: ns =>
    if n.gnd = false then some 0
    else if n.address = localAddress then some (withoutHeader n.mtu)
    else mtuOf localAddress ns

def networkGetMtu (interfaces : List Interface) (localAddress : UInt32) : Option ℤ :=
  if localAddress = NETWORK_BROADCAST_ADDRESS then (minMtu interfaces (NETWORK_MAX_MTU + 1)).map withoutHeader
  else if localAddress = NETWORK_LOOPBACK_ADDRESS then some (withoutHeader PAGE_SIZE)
  else mtuOf localAddress interfaces

/-! ## Sending -/

/-- The assertion of `network_send`. -/
def Sendable (length : ℤ) : Prop := 0 < length ∧ length ≤ PAYLOAD_SIZE

instance (length : ℤ) : Decidable (Sendable length) := inferInstanceAs (Decidable (_ ∧ _))

/-- What becomes of a call of `socket_sendto`. -/
inductive Sendto where
  | readsPast
  | panics
  | fails
  /-- `network_send` is called with a frame that has this header, and `size` bytes behind it -/
  | sends (sport dport : UInt16) (size length : ℤ)
  deriving DecidableEq

/-- The size of the payload. -/
def payloadSize (size mtu : ℤ) : ℤ :=
  int (MIN (MIN (UInt32.ofInt size) (UInt32.ofInt mtu - UInt32.ofNat POP_HEADER_SIZE))
    (UInt32.ofNat (PAGE_SIZE - POP_HEADER_SIZE)))

variable {τ : Type}

def socketSendto (interfaces : List Interface) (sockets : Sock → Socket τ) (s : Sock) (dport : UInt16) (size : ℤ) :
    Sendto :=
  if dport = 0 then .fails
  else if size < 1 then .panics
  else match networkGetMtu interfaces NETWORK_BROADCAST_ADDRESS with
    | none => .readsPast
    | some mtu =>
      let size := payloadSize size mtu
      if (sockets s).protocol ≠ PROTOCOL_POP then .fails
      else
        let length := int (UInt32.ofInt size + UInt32.ofNat POP_HEADER_SIZE)
        if Sendable length then .sends (sockets s).port dport size length else .panics

/-- The call does not panic or read behind the table, and the payload fits into the send buffer. -/
def SendsRight : Sendto → Prop
  | .readsPast => False
  | .panics => False
  | .fails => True
  | .sends _ _ size length => Sendable length ∧ 0 ≤ size ∧ POP_HEADER_SIZE + size ≤ PAGE_SIZE

/-! ## The limits -/

/-- The interfaces are as `network_init` accepts them. -/
def Accepted (devices : List Device) : Prop :=
  devices.length ≤ CONFIG_MAX_GNDS ∧ ∀ dev ∈ devices, 21 ≤ dev.frameSize.toNat ∧ dev.frameSize.toNat ≤ 4096

instance (devices : List Device) : Decidable (Accepted devices) := inferInstanceAs (Decidable (_ ∧ _))

def Device.interface (dev : Device) : Interface := ⟨dev.hwaddr, dev.frameSize.toNat, true⟩

/-- The entry of `network_init` where there is no device. -/
def noInterface : Interface := ⟨0, 0, false⟩

theorem initInterface_some {dev : Device} (h : dev.frameSize.toNat ≤ 4096) :
    initInterface (some dev) = some dev.interface := by
  have hint : int dev.frameSize = dev.frameSize.toNat := int_eq (by omega)
  have hpage : (dev.frameSize.toNat : ℤ) ≤ PAGE_SIZE := by exact_mod_cast h
  rw [initInterface, hint, if_pos hpage, Device.interface]

/-- **The table** holds the devices and then entries without a GND. -/
theorem networkInit_eq {devices : List Device} (h : Accepted devices) :
    networkInit devices =
      some (devices.map Device.interface ++ List.replicate (CONFIG_MAX_GNDS - devices.length) noInterface) := by
  obtain ⟨hlen, hmtu⟩ := h
  have hsome : ∀ dev ∈ devices, initInterface (some dev) = some dev.interface := fun dev hdev =>
    initInterface_some (hmtu dev hdev).2
  have hnone : initInterface none = some noInterface := rfl
  rcases devices with _ | ⟨a, _ | ⟨b, _ | ⟨c, _ | ⟨d, _ | ⟨e, rest⟩⟩⟩⟩⟩
  · simp [networkInit, List.range_succ, hnone, List.replicate]
  · simp [networkInit, List.range_succ, hnone, hsome, List.replicate]
  · simp [networkInit, List.range_succ, hnone, hsome]
    rfl
  · simp [networkInit, List.range_succ, hnone, hsome]
    rfl
  · simp [networkInit, List.range_succ, hsome]
  · simp only [List.length_cons, CONFIG_MAX_GNDS] at hlen
    omega

/-- **A full table** has no end. -/
theorem minMtu_full : ∀ (devices : List Device) (min : ℤ), minMtu (devices.map Device.interface) min = none
  | [], _ => rfl
  | _ :: devices, _ => minMtu_full devices _

/-- **The minimum of the MTUs**, which is at most that of any device. -/
theorem minMtu_spec (rest : List Interface) : ∀ (devices : List Device) (min : ℤ), 21 ≤ min →
    (∀ dev ∈ devices, 21 ≤ dev.frameSize.toNat ∧ dev.frameSize.toNat ≤ 4096) →
    ∃ m, minMtu (devices.map Device.interface ++ noInterface :: rest) min = some m ∧ 21 ≤ m ∧ m ≤ min ∧
      (devices ≠ [] → m ≤ 4096)
  | [], min, hmin, _ => ⟨min, rfl, hmin, le_refl _, fun h => absurd rfl h⟩
  | dev :: devices, min, hmin, hmtu => by
    obtain ⟨hlow, hhigh⟩ := hmtu dev List.mem_cons_self
    obtain ⟨m, hm, hm21, hmle, -⟩ := minMtu_spec rest devices
      (if (dev.frameSize.toNat : ℤ) < min then dev.frameSize.toNat else min) (by split_ifs <;> omega)
      fun dev' hdev' => hmtu dev' (List.mem_cons_of_mem _ hdev')
    refine ⟨m, hm, hm21, ?_, fun _ => ?_⟩
    · split_ifs at hmle <;> omega
    · split_ifs at hmle <;> omega

theorem withoutHeader_eq {x : ℤ} (h12 : 12 ≤ x) (hx : x < 2 ^ 31) : withoutHeader x = x - 12 := by
  have hof : (UInt32.ofInt x).toNat = x.toNat := ofInt_toNat (by omega) (by omega)
  have hheader : (UInt32.ofNat FRAME_HEADER_SIZE).toNat = 12 := by decide
  have hsub : (UInt32.ofInt x - UInt32.ofNat FRAME_HEADER_SIZE).toNat = x.toNat - 12 := by
    rw [sub_toNat (by omega), hof, hheader]
  rw [withoutHeader, int_eq (by omega), hsub]
  omega

/-- The payload fits into the MTU and into the page. -/
theorem payloadSize_eq {size mtu : ℤ} (hsize : 1 ≤ size) (hint : size < 2 ^ 31) (hmtu : 9 ≤ mtu) (hmax : mtu ≤ 4096) :
    payloadSize size mtu = min size (mtu - 8) := by
  have hheader : (UInt32.ofNat POP_HEADER_SIZE).toNat = 8 := by decide
  have hpage : (UInt32.ofNat (PAGE_SIZE - POP_HEADER_SIZE)).toNat = 4088 := by decide
  have hmtu' : (UInt32.ofInt mtu).toNat = mtu.toNat := ofInt_toNat (by omega) (by omega)
  have hsize' : (UInt32.ofInt size).toNat = size.toNat := ofInt_toNat (by omega) (by omega)
  have hmin : (MIN (MIN (UInt32.ofInt size) (UInt32.ofInt mtu - UInt32.ofNat POP_HEADER_SIZE))
      (UInt32.ofNat (PAGE_SIZE - POP_HEADER_SIZE))).toNat = min (min size.toNat (mtu.toNat - 8)) 4088 := by
    rw [MIN_toNat, MIN_toNat, sub_toNat (by omega), hheader, hpage, hmtu', hsize']
  rw [payloadSize, int_eq (by omega), hmin]
  omega

/-- The length of the frame's payload area that is used. -/
theorem length_eq {size : ℤ} (h0 : 0 ≤ size) (h : size ≤ 4088) :
    int (UInt32.ofInt size + UInt32.ofNat POP_HEADER_SIZE) = size + 8 := by
  have hheader : (UInt32.ofNat POP_HEADER_SIZE).toNat = 8 := by decide
  have hof : (UInt32.ofInt size).toNat = size.toNat := ofInt_toNat h0 (by omega)
  have hadd : (UInt32.ofInt size + UInt32.ofNat POP_HEADER_SIZE).toNat = size.toNat + 8 := by
    rw [UInt32.toNat_add, hof, hheader]
    omega
  rw [int_eq (by omega), hadd]
  omega

section

variable {sockets : Sock → Socket τ} {s : Sock} {dport : UInt16} {interfaces : List Interface} {size : ℤ}

/-- The call of `network_send`, with the MTU that the scan has found. -/
theorem socketSendto_eq {m : ℤ} (hpop : (sockets s).protocol = PROTOCOL_POP) (hport : dport ≠ 0) (hsize : 1 ≤ size)
    (hint : size < 2 ^ 31) (hm : minMtu interfaces (NETWORK_MAX_MTU + 1) = some m) (hlow : 21 ≤ m) (hhigh : m ≤ 4097) :
    socketSendto interfaces sockets s dport size =
      if Sendable (min size (m - 20) + 8) then .sends (sockets s).port dport (min size (m - 20)) (min size (m - 20) + 8)
      else .panics := by
  have hmtu : networkGetMtu interfaces NETWORK_BROADCAST_ADDRESS = some (m - 12) := by
    rw [networkGetMtu, if_pos rfl, hm, Option.map_some, withoutHeader_eq (by omega) (by omega)]
  have hpay : payloadSize size (m - 12) = min size (m - 20) := by
    rw [payloadSize_eq hsize hint (by omega) (by omega)]
    omega
  have hlength := @length_eq (min size (m - 20)) (by omega) (by omega)
  rw [socketSendto, if_neg hport, if_neg (by omega), hmtu]
  simp only [hpay, hlength, hpop, ne_eq, not_true_eq_false, if_false]

theorem sendsRight_iff {m : ℤ} (hpop : (sockets s).protocol = PROTOCOL_POP) (hport : dport ≠ 0) (hsize : 1 ≤ size)
    (hint : size < 2 ^ 31) (hm : minMtu interfaces (NETWORK_MAX_MTU + 1) = some m) (hlow : 21 ≤ m) (hhigh : m ≤ 4097) :
    SendsRight (socketSendto interfaces sockets s dport size) ↔ size ≤ 4076 ∨ m ≤ 4096 := by
  have hpayload : PAYLOAD_SIZE = 4084 := rfl
  have hheader : POP_HEADER_SIZE = 8 := rfl
  have hpage : PAGE_SIZE = 4096 := rfl
  rw [socketSendto_eq hpop hport hsize hint hm hlow hhigh]
  by_cases hsend : Sendable (min size (m - 20) + 8)
  · rw [if_pos hsend]
    obtain ⟨h0, h1⟩ := hsend
    refine ⟨fun _ => by omega, fun _ => ⟨⟨h0, h1⟩, by omega, by omega⟩⟩
  · rw [if_neg hsend]
    refine ⟨False.elim, fun hle => hsend ⟨by omega, by omega⟩⟩

/-- **`socket_sendto` does not panic** just when the port is 0, or the table of interfaces is neither empty nor full,
or it is empty and the size leaves room for both headers in a page. -/
theorem socketSendto_sendsRight {devices : List Device} (hdev : Accepted devices)
    (hpop : (sockets s).protocol = PROTOCOL_POP) (hsize : 1 ≤ size) (hint : size < 2 ^ 31) :
    ∃ interfaces, networkInit devices = some interfaces ∧
      (SendsRight (socketSendto interfaces sockets s dport size) ↔
        dport = 0 ∨ 1 ≤ devices.length ∧ devices.length < CONFIG_MAX_GNDS ∨ devices.length = 0 ∧ size ≤ 4076) := by
  refine ⟨_, networkInit_eq hdev, ?_⟩
  by_cases hport : dport = 0
  · rw [socketSendto, if_pos hport]
    exact ⟨fun _ => Or.inl hport, fun _ => trivial⟩
  by_cases hfull : devices.length = CONFIG_MAX_GNDS
  · have hpast : networkGetMtu (devices.map Device.interface ++
        List.replicate (CONFIG_MAX_GNDS - devices.length) noInterface) NETWORK_BROADCAST_ADDRESS = none := by
      rw [hfull, Nat.sub_self, List.replicate_zero, List.append_nil, networkGetMtu, if_pos rfl, minMtu_full,
        Option.map_none]
    rw [socketSendto, if_neg hport, if_neg (by omega), hpast]
    refine ⟨False.elim, ?_⟩
    rintro (h | ⟨-, h⟩ | ⟨h, -⟩)
    · exact hport h
    · omega
    · rw [h] at hfull
      cases hfull
  · obtain ⟨k, hk⟩ : ∃ k, CONFIG_MAX_GNDS - devices.length = k + 1 := by
      have hle := hdev.1
      exact ⟨CONFIG_MAX_GNDS - devices.length - 1, by omega⟩
    rw [hk, List.replicate_succ]
    obtain ⟨m, hm, hlow, hhigh, hdevices⟩ :=
      minMtu_spec (List.replicate k noInterface) devices (NETWORK_MAX_MTU + 1) (by decide) hdev.2
    rw [sendsRight_iff hpop hport hsize hint hm hlow hhigh]
    cases devices with
    | nil =>
      have hmax : m = 4097 := (Option.some.inj (show some (4097 : ℤ) = some m from hm)).symm
      rw [hmax]
      simp [hport]
    | cons dev devices =>
      have hmax := hdevices (List.cons_ne_nil dev devices)
      simp only [hmax, or_true, true_iff]
      refine Or.inr (Or.inl ⟨by simp, ?_⟩)
      have hle := hdev.1
      omega

end

/-- A table with a POP socket on port 7. -/
def popSockets (_ : Sock) : Socket Unit := ⟨7, PROTOCOL_POP, none, 0, none, none, none, none⟩

theorem socketSendto_sendsRight_one :
    ∃ interfaces, networkInit [⟨1500, 1⟩] = some interfaces ∧
      (SendsRight (socketSendto interfaces popSockets 0 9 5000) ↔
        (9 : UInt16) = 0 ∨ 1 ≤ 1 ∧ 1 < CONFIG_MAX_GNDS ∨ 1 = 0 ∧ (5000 : ℤ) ≤ 4076) := by
  have hdev : Accepted [⟨1500, 1⟩] := by decide
  exact socketSendto_sendsRight hdev rfl (by decide) (by decide)

/-- **A full table is read behind its end, and without an interface a frame is one byte too long.** -/
theorem socketSendto_fails :
    (∃ interfaces, networkInit [⟨1500, 1⟩, ⟨1500, 2⟩, ⟨1500, 3⟩, ⟨1500, 4⟩] = some interfaces ∧
      socketSendto interfaces popSockets 0 9 1 = .readsPast ∧
      ¬ SendsRight (socketSendto interfaces popSockets 0 9 1)) ∧
    ∃ interfaces, networkInit [] = some interfaces ∧ socketSendto interfaces popSockets 0 9 5000 = .panics ∧
      ¬ SendsRight (socketSendto interfaces popSockets 0 9 5000) := by
  constructor
  · refine ⟨_, rfl, by decide, ?_⟩
    exact fun h : SendsRight .readsPast => h
  · refine ⟨_, rfl, by decide, ?_⟩
    exact fun h : SendsRight .panics => h

end Buenos.Pop

import Buenos.Net.Delivery
import Mathlib.Data.Finset.Card
import Mathlib.Data.Fintype.Card
import Mathlib.Order.Interval.Finset.Nat

/-!
# The ports of the sockets

Which ports `socket_open` binds, in every state that the sockets and the POP service reach.

* `PortsOk` — the invariant of the socket table: the ports of the open sockets are distinct and not zero.
* `Free` — a port that no open socket has.
* `Opened` — what a successful `socket_open` does to the table.

Principal result: `socket_ports`.
-/

namespace Buenos.Pop

open Transition

variable {τ : Type}

/-- A socket is open when its entry has a protocol. -/
def Socket.IsOpen (e : Socket τ) : Prop := e.protocol ≠ 0

instance (e : Socket τ) : Decidable e.IsOpen := inferInstanceAs (Decidable (_ ≠ _))

/-- No open socket has the port. -/
def Free (sockets : Sock → Socket τ) (port : ℕ) : Prop := ∀ i, (sockets i).IsOpen → (sockets i).port.toNat ≠ port

/-- The open sockets have distinct ports other than 0, and just they have a semaphore. -/
structure PortsOk (sockets : Sock → Socket τ) : Prop where
  bound : ∀ {i}, (sockets i).IsOpen → (sockets i).port ≠ 0
  distinct : ∀ {i j}, (sockets i).IsOpen → (sockets j).IsOpen → (sockets i).port = (sockets j).port → i = j
  closed : ∀ {i}, ¬ (sockets i).IsOpen → (sockets i).receiveComplete = none

section Search

variable {sockets : Sock → Socket τ}

theorem portUsed_iff {port : UInt16} :
    portUsed sockets port = true ↔ ∃ i, (sockets i).IsOpen ∧ (sockets i).port = port := by
  simp [portUsed, Socket.IsOpen]

theorem portUsed_free {port : UInt16} : ¬ portUsed sockets port = true ↔ Free sockets port.toNat := by
  rw [portUsed_iff]
  constructor
  · intro hno i hi hport
    exact hno ⟨i, hi, UInt16.toNat_inj.1 hport⟩
  · rintro hfree ⟨i, hi, hport⟩
    exact hfree i hi (by rw [hport])

/-- **The search for a port** stops at the first free one, when there is one within the rounds. -/
theorem findPort_spec {rounds : ℕ} {port : UInt16} {q : ℕ} (hfree : Free sockets q) (hlow : port.toNat < q)
    (hhigh : q ≤ port.toNat + rounds) (hq : q < 2 ^ 16) :
    ∃ p, findPort sockets rounds port = some p ∧ port.toNat < p.toNat ∧ Free sockets p.toNat ∧
      ∀ r, port.toNat < r → r < p.toNat → ¬ Free sockets r := by
  induction rounds generalizing port with
  | zero => omega
  | succ rounds ih =>
    have hnext : (port + 1).toNat = port.toNat + 1 := by
      rw [UInt16.toNat_add]
      exact Nat.mod_eq_of_lt (by simpa using by omega)
    rw [findPort]
    by_cases hused : portUsed sockets (port + 1) = true
    · rw [if_pos hused]
      have hno : ¬ Free sockets (port.toNat + 1) := by
        rw [← hnext]
        exact fun hf => portUsed_free.2 hf hused
      have hne : q ≠ port.toNat + 1 := by
        rintro rfl
        exact hno hfree
      obtain ⟨p, hp, hgt, hpfree, hmin⟩ := @ih (port + 1) (by omega) (by omega)
      refine ⟨p, hp, by omega, hpfree, fun r hr hrp => ?_⟩
      by_cases hr1 : r = port.toNat + 1
      · rw [hr1]
        exact hno
      · exact hmin r (by omega) hrp
    · rw [if_neg hused]
      exact ⟨port + 1, rfl, by omega, portUsed_free.1 hused, fun r hr hrp => by omega⟩

/-- **One of the first ports is free**, when an entry of the table is. -/
theorem exists_free {i : Sock} (hi : ¬ (sockets i).IsOpen) : ∃ q, 0 < q ∧ q ≤ 64 ∧ Free sockets q := by
  by_contra hall
  have hused : ∀ q ∈ Finset.Icc 1 64, ∃ j, (sockets j).IsOpen ∧ (sockets j).port.toNat = q := by
    intro q hq
    obtain ⟨hlow, hhigh⟩ := Finset.mem_Icc.1 hq
    by_contra hno
    exact hall ⟨q, hlow, hhigh, fun j hj hport => hno ⟨j, hj, hport⟩⟩
  -- the 64 ports belong to sockets other than `i`, of which there are 63
  have hle : (Finset.Icc 1 64).card ≤ ((Finset.univ.erase i).image fun j => (sockets j).port.toNat).card := by
    refine Finset.card_le_card fun q hq => ?_
    obtain ⟨j, hj, hport⟩ := hused q hq
    refine Finset.mem_image.2 ⟨j, Finset.mem_erase.2 ⟨?_, Finset.mem_univ j⟩, hport⟩
    rintro rfl
    exact hi hj
  have hcard := hle.trans Finset.card_image_le
  rw [Finset.card_erase_of_mem (Finset.mem_univ i), Finset.card_univ, Fintype.card_fin, Nat.card_Icc] at hcard
  simp [MAX_OPEN_SOCKETS] at hcard

end Search

/-! ## Opening and closing -/

/-- `socket_open` has opened entry `i` with the port: nothing else of the table has changed. -/
structure Opened (sockets sockets' : Sock → Socket τ) (i : Sock) (protocol : UInt8) (port : UInt16) : Prop where
  was : ¬ (sockets i).IsOpen
  others : ∀ j, j ≠ i → sockets' j = sockets j
  isOpen : (sockets' i).IsOpen
  protocol : (sockets' i).protocol = protocol
  port : (sockets' i).port = port
  complete : (sockets' i).receiveComplete ≠ none

/-- `socket_open` has done nothing, or it has opened a closed entry with the port that was asked for, which was
free, or, asked for port 0, with the smallest positive free port. -/
def OpensRight (s s' : State τ) (protocol : UInt8) (port : UInt16) : Prop :=
  s' = s ∨ ∃ i p, Opened s.sockets s'.sockets i protocol p ∧ p ≠ 0 ∧ Free s.sockets p.toNat ∧
    (port ≠ 0 → p = port) ∧ (port = 0 → ∀ r, 0 < r → r < p.toNat → ¬ Free s.sockets r)

section Steps

variable {s s' : State τ} {protocol : UInt8} {port : UInt16}

/-- **What `socket_open` decides**: it fails, or it takes a closed entry with the port that was asked for, if it is
free, or else with the first free one. -/
theorem opening_cases (sockets : Sock → Socket τ) (protocol : UInt8) (port : UInt16) :
    opening sockets protocol port = some .fails ∨
    ∃ i p, opening sockets protocol port = some (.entry i p) ∧ ¬ (sockets i).IsOpen ∧ protocol ≠ 0 ∧ p ≠ 0 ∧
      Free sockets p.toNat ∧ (port ≠ 0 → p = port) ∧
      (port = 0 → ∀ r, 0 < r → r < p.toNat → ¬ Free sockets r) := by
  unfold opening
  by_cases hproto : protocol ≠ PROTOCOL_POP ∧ protocol ≠ PROTOCOL_SOP
  · exact Or.inl (if_pos hproto)
  rw [if_neg hproto]
  have hne : protocol ≠ 0 := by
    rintro rfl
    exact hproto ⟨by decide, by decide⟩
  cases hslot : freeSocket sockets with
  | none => exact Or.inl rfl
  | some i =>
    have hclosed : ¬ (sockets i).IsOpen := by
      have hfound := List.find?_some hslot
      simp only [decide_eq_true_eq] at hfound
      exact not_not.2 hfound
    simp only
    by_cases hport : port = 0
    · obtain ⟨q, hpos, hle, hfree⟩ := exists_free hclosed
      obtain ⟨p, hp, hgt, hpfree, hmin⟩ :=
        @findPort_spec _ _ (2 ^ 16) 0 _ hfree hpos (by simpa using by omega) (by omega)
      have hpne : p ≠ 0 := by
        rintro rfl
        exact absurd hgt (lt_irrefl _)
      rw [if_pos hport, hp]
      simp only [if_neg hpne]
      exact Or.inr ⟨i, p, rfl, hclosed, hne, hpne, hpfree, fun h => absurd hport h, fun _ => hmin⟩
    · rw [if_neg hport]
      by_cases hused : portUsed sockets port = true
      · exact Or.inl (if_pos hused)
      · rw [if_neg hused]
        exact Or.inr ⟨i, port, rfl, hclosed, hne, hport, portUsed_free.1 hused, fun _ => rfl, fun h => absurd h hport⟩

/-- **`socket_open` ends**, and leaves the table as it is or opens an entry. -/
theorem socketOpen_cases (h : PortsOk s.sockets) (protocol : UInt8) (port : UInt16) (x : Option Sem) :
    ∃ s', socketOpen s protocol port x = some s' ∧ OpensRight s s' protocol port := by
  unfold socketOpen
  rcases opening_cases s.sockets protocol port with hfails | ⟨i, p, hentry, hclosed, hne, hpne, hfree, hsame, hmin⟩
  · rw [hfails]
    exact ⟨s, rfl, Or.inl rfl⟩
  · rw [hentry]
    cases x with
    | none =>
      refine ⟨_, rfl, Or.inl ?_⟩
      have hrow : ({ s.sockets i with receiveComplete := none } : Socket τ) = s.sockets i := by
        rw [← h.closed hclosed]
      show s.setSocket i _ = s
      rw [hrow, State.setSocket, Function.update_eq_self]
    | some x =>
      refine ⟨_, rfl, Or.inr ⟨i, p, ⟨hclosed, fun j hj => ?_, ?_, ?_, ?_, ?_⟩, hpne, hfree, hsame, hmin⟩⟩
      · simp [State.setSocket, hj]
      · simpa [State.setSocket, Socket.IsOpen] using hne
      · simp [State.setSocket]
      · simp [State.setSocket]
      · simp [State.setSocket]

/-- Opening a free port keeps the table in order. -/
theorem PortsOk.opened {sockets sockets' : Sock → Socket τ} (h : PortsOk sockets) {i : Sock} {p : UInt16}
    (ho : Opened sockets sockets' i protocol p) (hp : p ≠ 0) (hfree : Free sockets p.toNat) : PortsOk sockets' := by
  have hclash : ∀ {j}, j ≠ i → (sockets' j).IsOpen → (sockets' j).port ≠ p := by
    intro j hj hopen hport
    rw [ho.others j hj] at hopen hport
    exact hfree j hopen (by rw [hport])
  refine ⟨fun {j} hopen => ?_, fun {j k} hj hk hport => ?_, fun {j} hclosed => ?_⟩
  · by_cases hj : j = i
    · rw [hj, ho.port]
      exact hp
    · rw [ho.others j hj] at hopen ⊢
      exact h.bound hopen
  · by_cases hji : j = i
    · by_cases hki : k = i
      · rw [hji, hki]
      · rw [hji, ho.port] at hport
        exact absurd hport.symm (hclash hki hk)
    · by_cases hki : k = i
      · rw [hki, ho.port] at hport
        exact absurd hport (hclash hji hj)
      · rw [ho.others j hji] at hj hport
        rw [ho.others k hki] at hk hport
        exact h.distinct hj hk hport
  · by_cases hj : j = i
    · rw [hj] at hclosed
      exact absurd ho.isOpen hclosed
    · rw [ho.others j hj] at hclosed ⊢
      exact h.closed hclosed

theorem setSocket_self (s : State τ) (i : Sock) (e : Socket τ) : (s.setSocket i e).sockets i = e :=
  Function.update_self ..

theorem setSocket_of_ne (s : State τ) {i j : Sock} (e : Socket τ) (hj : j ≠ i) :
    (s.setSocket i e).sockets j = s.sockets j := Function.update_of_ne hj ..

theorem PortsOk.socketClose (h : PortsOk s.sockets) (i : Sock) : PortsOk (socketClose s i).sockets := by
  unfold Pop.socketClose
  by_cases hcomplete : (s.sockets i).receiveComplete = none
  · rw [if_pos hcomplete]
    exact h
  · rw [if_neg hcomplete]
    refine ⟨fun {j} hopen => ?_, fun {j k} hj hk hport => ?_, fun {j} hclosed => ?_⟩
    · by_cases hj : j = i
      · rw [hj, setSocket_self] at hopen
        exact absurd rfl hopen
      · rw [setSocket_of_ne s _ hj] at hopen ⊢
        exact h.bound hopen
    · have hji : j ≠ i := by
        rintro rfl
        rw [setSocket_self] at hj
        exact hj rfl
      have hki : k ≠ i := by
        rintro rfl
        rw [setSocket_self] at hk
        exact hk rfl
      rw [setSocket_of_ne s _ hji] at hj hport
      rw [setSocket_of_ne s _ hki] at hk hport
      exact h.distinct hj hk hport
    · by_cases hj : j = i
      · rw [hj, setSocket_self]
      · rw [setSocket_of_ne s _ hj] at hclosed ⊢
        exact h.closed hclosed

/-- Only the protocols, the ports and the semaphores matter. -/
theorem PortsOk.congr {sockets sockets' : Sock → Socket τ} (h : PortsOk sockets)
    (hsame : ∀ i, (sockets' i).protocol = (sockets i).protocol ∧ (sockets' i).port = (sockets i).port ∧
      (sockets' i).receiveComplete = (sockets i).receiveComplete) : PortsOk sockets' := by
  have hopen : ∀ i, (sockets' i).IsOpen ↔ (sockets i).IsOpen := fun i => by
    rw [Socket.IsOpen, Socket.IsOpen, (hsame i).1]
  refine ⟨fun {i} hi => ?_, fun {i j} hi hj hport => ?_, fun {i} hi => ?_⟩
  · rw [(hsame i).2.1]
    exact h.bound ((hopen i).1 hi)
  · rw [(hsame i).2.1, (hsame j).2.1] at hport
    exact h.distinct ((hopen i).1 hi) ((hopen j).1 hj) hport
  · rw [(hsame i).2.2]
    exact h.closed fun hi' => hi ((hopen i).2 hi')

/-- An entry that keeps its protocol, its port and its semaphore. -/
theorem PortsOk.setSocket (h : PortsOk s.sockets) {i : Sock} {e : Socket τ}
    (hproto : e.protocol = (s.sockets i).protocol) (hport : e.port = (s.sockets i).port)
    (hcomplete : e.receiveComplete = (s.sockets i).receiveComplete) : PortsOk (s.setSocket i e).sockets := by
  refine h.congr fun j => ?_
  by_cases hj : j = i
  · rw [hj, setSocket_self]
    exact ⟨hproto, hport, hcomplete⟩
  · rw [setSocket_of_ne s e hj]
    exact ⟨rfl, rfl, rfl⟩

end Steps

/-! ## Runs -/

section Runs

variable [DecidableEq τ]

theorem semaphoreP_sockets (s : State τ) (x : Sem) (t : τ) (r : Request) :
    (semaphoreP s x t r).sockets = s.sockets := by
  rw [semaphoreP]
  dsimp only
  split_ifs <;> rfl

theorem wake_sockets (s : State τ) (t : τ) : (wake s t).sockets = s.sockets := by
  rw [wake]
  split <;> rfl

theorem semaphoreV_sockets (s : State τ) (x : Sem) : (semaphoreV s x).sockets = s.sockets := by
  rw [semaphoreV]
  dsimp only
  split_ifs
  · split
    · rfl
    · exact wake_sockets _ _
  · rfl

/-- The transfer only takes the receiver from its socket. -/
theorem PortsOk.transfer {s s' : State τ} {k : Slot} {f : Page} (h : PortsOk s.sockets)
    (ht : transfer s k f = some s') : PortsOk s'.sockets := by
  rw [Pop.transfer] at ht
  obtain ⟨j, -, ht⟩ := Option.bind_eq_some_iff.1 ht
  obtain ⟨vars, -, ht⟩ := Option.bind_eq_some_iff.1 ht
  obtain ⟨s1, h1, ht⟩ := Option.bind_eq_some_iff.1 ht
  obtain ⟨x, -, ht⟩ := Option.bind_eq_some_iff.1 ht
  cases ht
  rw [networkFreeFrame_some h1]
  show PortsOk (semaphoreV _ x).sockets
  rw [semaphoreV_sockets]
  exact h.setSocket rfl rfl rfl

/-- **Every step keeps the table in order.** -/
theorem PortsOk.step {s s' : State τ} {a : Action τ} (h : PortsOk s.sockets) (hs : Pop.step s a = some s') :
    PortsOk s'.sockets := by
  cases a with
  | socketOpen protocol port x =>
    rw [Pop.step] at hs
    split_ifs at hs
    obtain ⟨s1, h1, hcases⟩ := socketOpen_cases h protocol port x
    rw [h1] at hs
    cases hs
    rcases hcases with rfl | ⟨i, p, hopened, hp, hfree, -⟩
    · exact h
    · exact h.opened hopened hp hfree
  | socketClose i =>
    cases hs
    exact h.socketClose i
  | socketRecvfrom t i buflength =>
    rw [Pop.step] at hs
    split_ifs at hs
    cases hs
    rw [socketRecvfrom]
    split_ifs
    · exact h
    · exact h.setSocket rfl rfl rfl
  | awaitComplete t =>
    rw [Pop.step] at hs
    split at hs
    · obtain ⟨x, -, hs⟩ := Option.bind_eq_some_iff.1 hs
      cases hs
      rw [semaphoreP_sockets]
      exact h
    · cases hs
  | finish t =>
    rw [Pop.step] at hs
    split at hs
    · cases hs
      exact h
    · cases hs
  | receive p f =>
    rw [Pop.step] at hs
    split_ifs at hs
    cases hs
    exact h
  | giveBack p =>
    rw [Pop.step] at hs
    split_ifs at hs
    obtain ⟨s1, h1, hs⟩ := Option.bind_eq_some_iff.1 hs
    cases hs
    rw [networkFreeFrame_some h1]
    exact h
  | pushFrame p fromAddr now now' =>
    rw [Pop.step] at hs
    split_ifs at hs
    rcases popPushFrame_cases hs with ⟨-, rfl⟩ | ⟨k, reserved, -, -, rfl⟩
    · exact h
    · exact h
  | serviceScan =>
    rw [Pop.step] at hs
    split_ifs at hs
    cases hs
    exact h
  | serviceAct =>
    rw [Pop.step] at hs
    split at hs
    · cases hs
    · obtain ⟨s1, h1, hs⟩ := Option.bind_eq_some_iff.1 hs
      cases hs
      rw [networkFreeFrame_some h1]
      exact h
    · exact h.transfer hs

omit [DecidableEq τ] in
theorem portsOk_init : PortsOk (State.init τ).sockets where
  bound hopen := absurd rfl hopen
  distinct hopen := absurd rfl hopen
  closed _ := rfl

/-- **Socket ports are unique**: in every state reached the open sockets have distinct ports other than 0, and every
`socket_open` in it ends without tripping its assertion, with a port that is free. -/
theorem socket_ports {as : List (Action τ)} {s : State τ} (hr : run Pop.step (State.init τ) as = some s) :
    (∀ i, (s.sockets i).IsOpen → (s.sockets i).port ≠ 0) ∧
    (∀ i j, (s.sockets i).IsOpen → (s.sockets j).IsOpen → (s.sockets i).port = (s.sockets j).port → i = j) ∧
    ∀ protocol port x, ∃ s', socketOpen s protocol port x = some s' ∧ OpensRight s s' protocol port := by
  have h : PortsOk s.sockets := run_always (I := fun s => PortsOk s.sockets) PortsOk.step portsOk_init hr
  exact ⟨fun i => h.bound, fun i j => h.distinct, socketOpen_cases h⟩

/-- Ports 1 and 2 are taken, port 1 is given back and taken again. -/
def portsRun : List (Action Unit) :=
  [.socketOpen PROTOCOL_POP 0 (some 0), .socketOpen PROTOCOL_SOP 2 (some 1), .socketClose 0,
    .socketOpen PROTOCOL_POP 0 (some 0), .socketOpen PROTOCOL_POP 0 (some 2), .socketOpen PROTOCOL_POP 2 (some 3)]

theorem socket_ports_taken :
    ∃ s, run Pop.step (State.init Unit) portsRun = some s ∧ (s.sockets 0).port = 1 ∧ (s.sockets 1).port = 2 ∧
      (s.sockets 2).port = 3 ∧ ¬ (s.sockets 3).IsOpen ∧
      ∃ s', socketOpen s PROTOCOL_POP 0 (some 3) = some s' ∧ OpensRight s s' PROTOCOL_POP 0 := by
  have hrun : ∃ s, run Pop.step (State.init Unit) portsRun = some s ∧ (s.sockets 0).port = 1 ∧
      (s.sockets 1).port = 2 ∧ (s.sockets 2).port = 3 ∧ ¬ (s.sockets 3).IsOpen := by decide +kernel
  obtain ⟨s, hr, h0, h1, h2, h3⟩ := hrun
  exact ⟨s, hr, h0, h1, h2, h3, (socket_ports hr).2.2 PROTOCOL_POP 0 (some 3)⟩

end Runs

end Buenos.Pop

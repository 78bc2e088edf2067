import Buenos.Base.Transition
import Mathlib.Data.Fintype.Basic
import Mathlib.Data.List.FinRange

/-!
# Sockets and the POP service

The socket table of `socket.c` and the packet queue of `pop.c`, with any number of threads that open,
close and receive, the network threads that push frames, and the service thread between them.  A step is
one section under the table's or the queue's semaphore, one semaphore operation, or one action of the
service thread.

* `socketOpen`, `socketClose`, `socketRecvfrom`, `popPushFrame` — the sections.
* `scan`, `discard`, `transfer` — the two halves of a round of `pop_service_thread`.
* `State` — also the pages that hold the frames, where each `socket_recvfrom` is, and what it returned.

A frame is the contents of a page of the page pool: a page that has been freed may be given out again and
overwritten.  The variables that a call of `socket_recvfrom` points the socket at are named by its thread.
-/

namespace Buenos.Pop

/-! ## Data -/

abbrev MAX_OPEN_SOCKETS : ℕ := 64
abbrev POP_QUEUE_SIZE : ℕ := 32
def POP_QUEUE_MIN_AGE : UInt32 := 250
def PROTOCOL_POP : UInt8 := 1
def PROTOCOL_SOP : UInt8 := 2

/-- An index of `open_sockets`. -/
abbrev Sock := Fin MAX_OPEN_SOCKETS

instance : NeZero MAX_OPEN_SOCKETS := ⟨by decide⟩

/-- An index of `pop_queue`. -/
abbrev Slot := Fin POP_QUEUE_SIZE

abbrev Page := ℕ

/-- An index of the semaphore table. -/
abbrev Sem := ℕ

/-- A frame: `pop_header_t` and the bytes behind it. -/
structure Frame where
  sourcePort : UInt16
  destPort : UInt16
  size : UInt32
  payload : List UInt8
  deriving DecidableEq

/-- `socket_descriptor_t`.  The pointers are the threads whose variables they point to. -/
structure Socket (τ : Type) where
  port : UInt16
  protocol : UInt8
  rbuf : Option τ
  bufsize : ℕ
  sender : Option τ
  copied : Option τ
  sport : Option τ
  receiveComplete : Option Sem

/-- `pop_queue_t`; no socket is -1. -/
structure QueueSlot where
  frame : Option Page
  socket : Option Sock
  timestamp : UInt32
  fromAddr : UInt32
  busy : Bool

/-- The return variables of one `socket_recvfrom`: what has been written to them. -/
structure Vars where
  buf : Option (List UInt8)
  addr : Option UInt32
  sport : Option UInt16
  length : Option ℕ
  deriving DecidableEq

/-- A call of `socket_recvfrom`, with the port of its socket. -/
structure Request where
  socket : Sock
  port : UInt16
  buflength : ℕ
  deriving DecidableEq

/-- Where in `socket_recvfrom` a thread is. -/
inductive Pc where
  | outside
  /-- before the `semaphore_P` on `receive_complete` -/
  | entered (r : Request)
  /-- in that `semaphore_P` -/
  | sleeping (r : Request) (x : Sem)
  /-- behind it -/
  | woken (r : Request)
  deriving DecidableEq

/-- Where the service thread is: before a scan, or with an action to do for a slot and its frame. -/
inductive Service where
  | scanning
  | discarding (k : Slot) (f : Page)
  | transferring (k : Slot) (f : Page)
  deriving DecidableEq

/-- The whole system.  `reserved` is the bitmap of the page pool, `held` the pages that network threads
have got from it.  `accepted` are the frames `pop_push_frame` accepted, with their senders. -/
structure State (τ : Type) where
  sockets : Sock → Socket τ
  queue : Slot → QueueSlot
  pages : Page → Frame
  reserved : Page → Bool
  held : Page → Bool
  value : Sem → ℤ
  sleepers : Sem → List τ
  service : Service
  pc : τ → Pc
  vars : τ → Vars
  accepted : List (UInt32 × Frame)
  returned : List (Request × Vars)

variable {τ : Type}

def State.setSocket (s : State τ) (i : Sock) (e : Socket τ) : State τ :=
  { s with sockets := Function.update s.sockets i e }

def State.setSlot (s : State τ) (k : Slot) (e : QueueSlot) : State τ :=
  { s with queue := Function.update s.queue k e }

/-! ## Searches -/

/-- The loop of `socket_open` for an empty slot. -/
def freeSocket (sockets : Sock → Socket τ) : Option Sock :=
  (List.finRange MAX_OPEN_SOCKETS).find? fun i => (sockets i).protocol = 0

/-- The loops of `socket_open` over the ports in use. -/
def portUsed (sockets : Sock → Socket τ) (port : UInt16) : Bool :=
  (List.finRange MAX_OPEN_SOCKETS).any fun i => (sockets i).protocol ≠ 0 ∧ (sockets i).port = port

/-- The search of `socket_open` for a free port above `port`. -/
def findPort (sockets : Sock → Socket τ) : ℕ → UInt16 → Option UInt16
  | 0, _ => none
  | rounds + 1, port =>
    if portUsed sockets (port + 1) = true then findPort sockets rounds (port + 1) else some (port + 1)

/-- What `socket_open` decides before it creates the semaphore: the entry and its port. -/
inductive Opening where
  | fails
  | entry (i : Sock) (port : UInt16)
  deriving DecidableEq

/-- `none` if the search for a port does not end or ends with port 0, which an assertion excludes. -/
def opening (sockets : Sock → Socket τ) (protocol : UInt8) (port : UInt16) : Option Opening :=
  if protocol ≠ PROTOCOL_POP ∧ protocol ≠ PROTOCOL_SOP then some .fails
  else match freeSocket sockets with
    | none => some .fails
    | some i =>
      if port = 0 then
        match findPort sockets (2 ^ 16) 0 with
        | none => none
        | some port => if port = 0 then none else some (.entry i port)
      else if portUsed sockets port = true then some .fails
      else some (.entry i port)

/-- The loop of `pop_push_frame`: the first free slot and the oldest one that is not busy. -/
def chooseSlots (queue : Slot → QueueSlot) :
    List Slot → Option Slot × Option Slot → Option Slot × Option Slot
  | [], acc => acc
  | i :: is, (free, oldest) =>
    let free := if free = none ∧ (queue i).frame = none then some i else free
    let older : Bool := match oldest with
      | none => true
      | some o => decide ((queue i).timestamp < (queue o).timestamp)
    let oldest := if (queue i).busy = false ∧ older = true then some i else oldest
    chooseSlots queue is (free, oldest)

/-- The slot that `pop_push_frame` uses, if it accepts the frame. -/
def pushSlot (queue : Slot → QueueSlot) (now : UInt32) : Option Slot :=
  match chooseSlots queue (List.finRange POP_QUEUE_SIZE) (none, none) with
  | (some i, _) => some i
  | (none, none) => none
  | (none, some o) => if now - (queue o).timestamp < POP_QUEUE_MIN_AGE then none else some o

/-- The inner loop of the service thread. -/
def findSocket (sockets : Sock → Socket τ) (port : UInt16) : Option Sock :=
  (List.finRange MAX_OPEN_SOCKETS).find? fun j =>
    (sockets j).protocol = PROTOCOL_POP ∧ (sockets j).port = port

/-- The socket of a slot after the inner loop. -/
def matchSocket (sockets : Sock → Socket τ) (e : QueueSlot) (f : Frame) : Option Sock :=
  match e.socket with
  | none => findSocket sockets f.destPort
  | some j => some j

/-- The loop of the service thread over the queue. -/
def scan (sockets : Sock → Socket τ) (pages : Page → Frame) :
    List Slot → (Slot → QueueSlot) → (Slot → QueueSlot) × Service
  | [], queue => (queue, .scanning)
  | k :: ks, queue =>
    match (queue k).frame with
    | none => scan sockets pages ks queue
    | some f =>
      let socket := matchSocket sockets (queue k) (pages f)
      let matched := Function.update queue k { queue k with socket := socket }
      match socket with
      | none => (matched, .discarding k f)
      | some j =>
        if (sockets j).protocol ≠ PROTOCOL_POP then (matched, .discarding k f)
        else if (sockets j).rbuf.isSome then
          (Function.update queue k { queue k with socket := socket, busy := true }, .transferring k f)
        else scan sockets pages ks matched

/-! ## Semaphores -/

variable [DecidableEq τ]

/-- `semaphore_P` on `receive_complete`, by a thread in `socket_recvfrom`. -/
def semaphoreP (s : State τ) (x : Sem) (t : τ) (r : Request) : State τ :=
  let s := { s with value := Function.update s.value x (s.value x - 1) }
  if s.value x < 0 then
    { s with sleepers := Function.update s.sleepers x (s.sleepers x ++ [t])
             pc := Function.update s.pc t (.sleeping r x) }
  else { s with pc := Function.update s.pc t (.woken r) }

/-- The thread goes on behind its `semaphore_P`. -/
def wake (s : State τ) (t : τ) : State τ :=
  match s.pc t with
  | .sleeping r _ => { s with pc := Function.update s.pc t (.woken r) }
  | _ => s

/-- `semaphore_V`. -/
def semaphoreV (s : State τ) (x : Sem) : State τ :=
  let s := { s with value := Function.update s.value x (s.value x + 1) }
  if s.value x ≤ 0 then
    match s.sleepers x with
    | [] => s
    | t :: ts => wake { s with sleepers := Function.update s.sleepers x ts } t
  else s

/-! ## Sockets -/

/-- `socket_open`; `x` is what `semaphore_create` returns. -/
def socketOpen (s : State τ) (protocol : UInt8) (port : UInt16) (x : Option Sem) : Option (State τ) :=
  match opening s.sockets protocol port with
  | none => none
  | some .fails => some s
  | some (.entry i port) =>
    match x with
    | none => some (s.setSocket i { s.sockets i with receiveComplete := none })
    | some x =>
      some { s.setSocket i { s.sockets i with
                port := port
                protocol := protocol
                rbuf := none
                bufsize := 0
                sender := none
                copied := none
                receiveComplete := some x } with
        value := Function.update s.value x 0 }

def socketClose (s : State τ) (i : Sock) : State τ :=
  if (s.sockets i).receiveComplete = none then s
  else s.setSocket i { s.sockets i with
    port := 0
    protocol := 0
    rbuf := none
    bufsize := 0
    sender := none
    copied := none
    receiveComplete := none }

/-- `socket_recvfrom` up to its `semaphore_P`; the variables of a new call are unwritten. -/
def socketRecvfrom (s : State τ) (t : τ) (i : Sock) (buflength : ℕ) : State τ :=
  if (s.sockets i).protocol ≠ PROTOCOL_POP ∨ (s.sockets i).rbuf ≠ none then s
  else { s.setSocket i { s.sockets i with
            rbuf := some t
            bufsize := buflength
            sender := some t
            copied := some t
            sport := some t } with
    pc := Function.update s.pc t (.entered ⟨i, (s.sockets i).port, buflength⟩)
    vars := Function.update s.vars t ⟨none, none, none, none⟩ }

/-! ## The queue -/

/-- `network_free_frame`; the page pool asserts that the page is reserved. -/
def networkFreeFrame (s : State τ) (f : Page) : Option (State τ) :=
  if s.reserved f = true then some { s with reserved := Function.update s.reserved f false } else none

/-- `pop_push_frame` for a frame from `fromAddr`; the clock is read twice. -/
def popPushFrame (s : State τ) (f : Page) (fromAddr now now' : UInt32) : Option (State τ) :=
  match pushSlot s.queue now with
  | none => some s
  | some k => do
    let s ← match (s.queue k).frame with
      | none => some s
      | some old => networkFreeFrame s old
    some { s.setSlot k ⟨some f, none, now', fromAddr, false⟩ with
      held := Function.update s.held f false
      accepted := (fromAddr, s.pages f) :: s.accepted }

/-- The discarding of a frame. -/
def discard (s : State τ) (k : Slot) (f : Page) : Option (State τ) := do
  let s ← networkFreeFrame s f
  some { s.setSlot k { s.queue k with frame := none } with service := .scanning }

/-- Write the return variables of a call. -/
def deliver (s : State τ) (e : Socket τ) (fromAddr : UInt32) (f : Frame) : Option (τ → Vars) := do
  let buf ← e.rbuf
  let sender ← e.sender
  let copied ← e.copied
  let sport ← e.sport
  let bytes := min f.size.toNat e.bufsize
  let vars := Function.update s.vars buf { s.vars buf with buf := some (f.payload.take bytes) }
  let vars := Function.update vars sender { vars sender with addr := some fromAddr }
  let vars := Function.update vars copied { vars copied with length := some bytes }
  some (Function.update vars sport { vars sport with sport := some f.sourcePort })

/-- The transfer of a frame; `none` where it follows a NULL pointer. -/
def transfer (s : State τ) (k : Slot) (f : Page) : Option (State τ) := do
  let j ← (s.queue k).socket
  let vars ← deliver s (s.sockets j) (s.queue k).fromAddr (s.pages f)
  let s := { s.setSocket j { s.sockets j with
                rbuf := none
                bufsize := 0
                sender := none
                copied := none
                sport := none } with vars := vars }
  let s ← networkFreeFrame s f
  let x ← (s.sockets j).receiveComplete
  let s := semaphoreV s x
  some { s.setSlot k { s.queue k with frame := none } with service := .scanning }

/-! ## Steps -/

inductive Action (τ : Type) where
  | socketOpen (protocol : UInt8) (port : UInt16) (x : Option Sem)
  | socketClose (i : Sock)
  | socketRecvfrom (t : τ) (i : Sock) (buflength : ℕ)
  /-- the `semaphore_P` of `socket_recvfrom` -/
  | awaitComplete (t : τ)
  /-- `socket_recvfrom` returns -/
  | finish (t : τ)
  /-- a network thread gets a page or uses again one that it has, and a frame arrives in it -/
  | receive (p : Page) (f : Frame)
  /-- a network thread gives a page back -/
  | giveBack (p : Page)
  | pushFrame (p : Page) (fromAddr now now' : UInt32)
  | serviceScan
  | serviceAct

/-- `semaphore_create` returns a semaphore that no socket has. -/
def FreshSem (s : State τ) (x : Option Sem) : Prop :=
  ∀ i, (s.sockets i).receiveComplete ≠ none → (s.sockets i).receiveComplete ≠ x

instance (s : State τ) (x : Option Sem) : Decidable (FreshSem s x) :=
  inferInstanceAs (Decidable (∀ _, _ → _))

def step (s : State τ) : Action τ → Option (State τ)
  | .socketOpen protocol port x => if FreshSem s x then socketOpen s protocol port x else none
  | .socketClose i => some (socketClose s i)
  | .socketRecvfrom t i buflength =>
    if s.pc t = .outside ∧ 1 ≤ buflength then some (socketRecvfrom s t i buflength) else none
  | .awaitComplete t => match s.pc t with
    | .entered r => do
      let x ← (s.sockets r.socket).receiveComplete
      some (semaphoreP s x t r)
    | _ => none
  | .finish t => match s.pc t with
    | .woken r => some { s with pc := Function.update s.pc t .outside
                                returned := (r, s.vars t) :: s.returned }
    | _ => none
  | .receive p f =>
    if s.reserved p = false ∨ s.held p = true then
      some { s with pages := Function.update s.pages p f
                    reserved := Function.update s.reserved p true
                    held := Function.update s.held p true }
    else none
  | .giveBack p =>
    if s.held p = true then do
      let s ← networkFreeFrame s p
      some { s with held := Function.update s.held p false }
    else none
  | .pushFrame p fromAddr now now' =>
    if s.held p = true then popPushFrame s p fromAddr now now' else none
  | .serviceScan =>
    if s.service = .scanning then
      let (queue, service) := scan s.sockets s.pages (List.finRange POP_QUEUE_SIZE) s.queue
      some { s with queue := queue, service := service }
    else none
  | .serviceAct => match s.service with
    | .scanning => none
    | .discarding k f => discard s k f
    | .transferring k f => transfer s k f

/-- After `socket_init` and `pop_init`. -/
def State.init (τ : Type) : State τ where
  sockets _ := ⟨0, 0, none, 0, none, none, none, none⟩
  queue _ := ⟨none, none, 0, 0, false⟩
  pages _ := ⟨0, 0, 0, []⟩
  reserved _ := false
  held _ := false
  value _ := 0
  sleepers _ := []
  service := .scanning
  pc _ := .outside
  vars _ := ⟨none, none, none, none⟩
  accepted := []
  returned := []

end Buenos.Pop

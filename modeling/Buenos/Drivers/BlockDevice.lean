import Buenos.Base.AtomicObject
import Buenos.Drivers.Disk
import Buenos.Fs.Sfs.Format
import Buenos.Lib.Libc

/-!
# The disk driver as a block device

The driver of `Buenos.Drivers.Disk` with the memory of the machine and the contents of the disk. While the device is
busy it moves the bytes of a block, in any order and as late as it likes.

* `Machine`, `MachineAction` — the driver, the memory and the disk.
* `careful` — what the callers of `disk_read_block` and `disk_write_block` owe the driver.
* `gbd` — the generic block device that the filesystems work on, as an object.
* `events` — the calls as their callers see them.
* `Serves` — the simulation relation.

Principal result: `disk_linearizable`.
-/

namespace Buenos.Disk

open Linked Transition AtomicObject Bytes
open Buenos.Fs (Gbd Block readVblock writeVblock)

/-! ## Model -/

/-- The size of a block in bytes. -/
abbrev BLOCK_SIZE : ℕ := 512

variable {τ : Type}

/-- The driver, the memory, the disk, and which bytes of the current block have been moved. -/
structure Machine (τ : Type) where
  driver : State τ
  memory : Memory
  disk : Gbd
  moved : Fin BLOCK_SIZE → Bool

inductive MachineAction (τ : Type) where
  | driver (a : Action τ)
  /-- Somebody writes a byte of the memory. -/
  | store (addr : ℕ) (value : UInt8)
  /-- The device moves these bytes between the disk and the memory. -/
  | dma (part : Fin BLOCK_SIZE → Bool)

/-- The bytes of a block in memory. -/
def blockAt (mem : Memory) (a : ℕ) : Block := ⟨fun i => mem (a + i)⟩

/-- The memory after the device has written these bytes of a block. -/
def blockTo (mem : Memory) (a : ℕ) (b : Block) (part : Fin BLOCK_SIZE → Bool) : Memory := fun x =>
  if h : a ≤ x ∧ x - a < BLOCK_SIZE then if part ⟨x - a, h.2⟩ then b.data ⟨x - a, h.2⟩ else mem x else mem x

/-- A block of which these bytes have been written. -/
def overwrite (old new : Block) (part : Fin BLOCK_SIZE → Bool) : Block :=
  ⟨fun i => if part i then new.data i else old.data i⟩

namespace Machine

variable (m : Machine τ)

/-- The request that the device has last been given: its registers. -/
def command : Option Entry := m.driver.given.getLast?

/-- The device moves bytes for a command. -/
def transfer (c : Entry) (part : Fin BLOCK_SIZE → Bool) : Machine τ :=
  { m with
    memory := match c.operation with
      | .read => blockTo m.memory c.buf.toNat (m.disk.blocks c.block.toNat) part
      | .write => m.memory
    disk := match c.operation with
      | .read => m.disk
      | .write => { m.disk with
        blocks := Function.update m.disk.blocks c.block.toNat
          (overwrite (m.disk.blocks c.block.toNat) (blockAt m.memory c.buf.toNat) part) }
    moved := fun i => part i || m.moved i }

/-- One step of the machine. The device completes a command when all bytes have been moved. -/
def step [DecidableEq τ] (m : Machine τ) : MachineAction τ → Option (Machine τ)
  | .driver .complete =>
    if (List.finRange BLOCK_SIZE).all m.moved then
      (Disk.step m.driver .complete).map fun d => { m with driver := d, moved := fun _ => false }
    else none
  | .driver a => (Disk.step m.driver a).map fun d => { m with driver := d }
  | .store addr value => some { m with memory := Function.update m.memory addr value }
  | .dma part =>
    if m.driver.busy then
      match m.command with
      | none => none
      | some c => some (m.transfer c part)
    else none

/-- The buffer of the request in node `a`. -/
def bufferOf (a : Addr) : ℕ := (m.driver.mem a).buf.toNat

/-- Two requests that do not disturb each other. -/
def Compatible (buf : ℕ) (operation : Operation) (b : Addr) : Prop :=
  Apart buf (m.bufferOf b) BLOCK_SIZE ∨ operation = .write ∧ (m.driver.mem b).operation = .write

/-- The callers ask for blocks of the disk, use a buffer that is read into for one request at a time, and leave the
buffers of requests alone. -/
def careful : MachineAction τ → Prop
  | .driver (.submit _ a operation) => (m.driver.mem a).block.toNat < m.disk.totalBlocks ∧
      ∀ b ∈ m.driver.inUse, m.Compatible (m.bufferOf a) operation b
  | .store addr _ => ∀ b ∈ m.driver.inUse, addr < m.bufferOf b ∨ m.bufferOf b + BLOCK_SIZE ≤ addr
  | _ => True

end Machine

/-! ## What the callers see -/

/-- A call of `disk_read_block`, or of `disk_write_block` with the bytes of its buffer. -/
inductive BlockCall where
  | read (block : ℕ)
  | write (block : ℕ) (data : Block)

inductive BlockAnswer where
  /-- The call succeeds, and these bytes are in its buffer. -/
  | data (b : Block)
  | written
  | failed

/-- **The generic block device**, with the functions that the filesystems call. -/
def gbd : Object Gbd BlockCall BlockAnswer where
  apply disk
    | .read block => match readVblock disk block with
      | none => (.failed, disk)
      | some b => (.data b, disk)
    | .write block data => match writeVblock disk block data with
      | none => (.failed, disk)
      | some disk' => (.written, disk')

namespace Machine

variable (m : Machine τ)

/-- What the request in node `a` asks for. -/
def asked (a : Addr) : BlockCall :=
  match (m.driver.mem a).operation with
  | .read => .read (m.driver.mem a).block.toNat
  | .write => .write (m.driver.mem a).block.toNat (blockAt m.memory (m.bufferOf a))

/-- What the caller of a request that has succeeded finds. -/
def answered (a : Addr) : BlockAnswer :=
  match (m.driver.mem a).operation with
  | .read => .data (blockAt m.memory (m.bufferOf a))
  | .write => .written

/-- The calls and answers that are seen of a step, each for the node of its request. An asynchronous request is
answered when its semaphore is raised. -/
def events : MachineAction τ → List (Event Addr BlockCall BlockAnswer)
  | .driver (.submit _ a operation) => [.invoke a
      ({ m with driver := m.driver.setMem a { m.driver.mem a with operation := operation } }.asked a)]
  | .driver (.create t none) => match m.driver.pc t with
    | .creating a => [.fail a]
    | _ => []
  | .driver .interrupt =>
    if m.driver.irq then
      match (m.driver.mem m.driver.served).sem with
      | none => []
      | some x => if x ∈ m.driver.own then [] else [.respond m.driver.served (m.answered m.driver.served)]
    else []
  | .driver (.finish t) => match m.driver.pc t with
    | .waiting a => [.respond a (if (m.driver.mem a).returnValue = 0 then m.answered a else .failed)]
    | _ => []
  | _ => []

/-- Before the first call. -/
def init (memory : Memory) (disk : Gbd) : Machine τ := ⟨.init τ, memory, disk, fun _ => false⟩

end Machine

/-! ## Simulation -/

/-- The semaphore of a synchronous request has been raised. -/
def Raised (s : State τ) (a : Addr) : Prop := ∃ x ∈ s.own, (s.mem a).sem = some x ∧ s.sems x = some 1

/-- What the device is told of a request. -/
def Request.slot (r : Request) : UInt32 × UInt32 × Operation := (r.block, r.buf, r.operation)

/-- The disk and the memory, as the device works on the request in node `a`, has moved some bytes, and the block device
had the contents `disk` before. -/
def Midway (m : Machine τ) (a : Addr) (disk : Gbd) (part : Fin BLOCK_SIZE → Bool) : Prop :=
  match (m.driver.mem a).operation with
  | .read => m.disk = disk ∧ ∀ i, part i = true →
      (blockAt m.memory (m.bufferOf a)).data i = (disk.blocks (m.driver.mem a).block.toNat).data i
  | .write => m.disk = { disk with
      blocks := Function.update disk.blocks (m.driver.mem a).block.toNat
        (overwrite (disk.blocks (m.driver.mem a).block.toNat) (blockAt m.memory (m.bufferOf a)) part) }

/-- How far the call with the node `a` is: its block takes effect when its semaphore is raised. -/
def NodeShown (m : Machine τ) (a : Addr) : Stage BlockCall BlockAnswer → Prop
  | .idle => a ∉ m.driver.inUse
  | .called o => a ∈ m.driver.inUse ∧ ¬ Raised m.driver a ∧ o = m.asked a
  | .done r => a ∈ m.driver.inUse ∧ Raised m.driver a ∧ r = m.answered a

/-- The calls are as far as the object says, and their requests do not disturb each other. -/
structure Shown (m : Machine τ) (stage : Addr → Stage BlockCall BlockAnswer) : Prop where
  nodup : m.driver.inUse.Nodup
  nodes : ∀ a, NodeShown m a (stage a)
  inside : ∀ a ∈ m.driver.inUse, (m.driver.mem a).block.toNat < m.disk.totalBlocks
  apart : ∀ a ∈ m.driver.inUse, ∀ b ∈ m.driver.inUse, a ≠ b →
    m.Compatible (m.bufferOf a) (m.driver.mem a).operation b

/-- The disk holds what the object says, but for the block that is being written. -/
structure Medium (m : Machine τ) (disk : Gbd) : Prop where
  works : m.disk.Works
  still : m.driver.busy = false → m.moved = fun _ => false
  rest : m.driver.busy = false → m.driver.irq = false → m.disk = disk
  busy : m.driver.busy = true → Midway m m.driver.served disk m.moved
  irq : m.driver.irq = true → Midway m m.driver.served disk fun _ => true

/-- **The simulation relation.** -/
structure Serves (m : Machine τ) (x : Atomic Gbd Addr BlockCall BlockAnswer) : Prop where
  inv : Inv m.driver
  shown : Shown m x.stage
  medium : Medium m x.state

section Driver

variable {s : State τ} {q P : List Addr} {a : Addr}

/-- While the device has a command, it is for the request that is served. -/
theorem Queue.working (h : Queue s q) (hw : s.busy = true ∨ s.irq = true) : current s = [s.served] := by
  have hdev := h.device
  have hpos : 0 < s.busy.toNat + s.irq.toNat := by
    obtain hb | hi := hw
    · rw [hb]
      exact Nat.add_pos_left Nat.one_pos _
    · rw [hi]
      exact Nat.add_pos_right _ Nat.one_pos
  unfold current at hdev ⊢
  split
  · rename_i hnone
    rw [if_pos hnone, List.length_nil] at hdev
    omega
  · rfl

/-- A request that is not completed has not been raised. -/
theorem Calls.not_raised (hc : Calls s P) (ha : a ∈ P) : ¬ Raised s a := by
  rintro ⟨x, hown, hsem, hone⟩
  obtain ⟨-, y, hy, hwaits⟩ := hc.pending a ha
  obtain rfl : x = y := Option.some.inj (hsem.symm.trans hy)
  obtain ⟨t, ht⟩ := hwaits hown
  obtain ⟨-, z, hz, -, hdone⟩ : At s P (.waiting a) := ht ▸ hc.places t
  obtain rfl : x = z := Option.some.inj (hsem.symm.trans hz)
  obtain ⟨-, hzero⟩ | ⟨hnot, -⟩ := hdone
  · rw [hone] at hzero
    cases hzero
  · exact hnot ha

/-- What holds of the request that the device works on. -/
theorem Inv.working (hi : Inv s) (hw : s.busy = true ∨ s.irq = true) :
    s.served ∈ s.inUse ∧ ¬ Raised s s.served ∧ s.given.getLast? = some (entry s.mem s.served) := by
  obtain ⟨q, hq, hc⟩ := hi.exists_queue
  have hcur := hq.working hw
  have hmem : s.served ∈ current s ++ q := by simp [hcur]
  refine ⟨(hc.pending _ hmem).1, hc.not_raised hmem, ?_⟩
  rw [hq.given, hcur]
  simp

end Driver

section Frame

variable {m m' : Machine τ} {a : Addr} {st : Stage BlockCall BlockAnswer} {disk : Gbd} {part : Fin BLOCK_SIZE → Bool}
  {stage : Addr → Stage BlockCall BlockAnswer}

/-- A step that does not concern the request in node `a`. -/
structure SameNode (m m' : Machine τ) (a : Addr) : Prop where
  used : a ∈ m'.driver.inUse ↔ a ∈ m.driver.inUse
  slot : a ∈ m.driver.inUse → (m'.driver.mem a).slot = (m.driver.mem a).slot
  raised : a ∈ m.driver.inUse → (Raised m'.driver a ↔ Raised m.driver a)
  bytes : a ∈ m.driver.inUse → blockAt m'.memory (m.bufferOf a) = blockAt m.memory (m.bufferOf a)

theorem slot_eq (h : (m'.driver.mem a).slot = (m.driver.mem a).slot) :
    (m'.driver.mem a).block = (m.driver.mem a).block ∧ m'.bufferOf a = m.bufferOf a ∧
      (m'.driver.mem a).operation = (m.driver.mem a).operation := by
  obtain ⟨hblock, hbuf, hop⟩ : _ = _ ∧ _ = _ ∧ _ = _ := by simpa [Request.slot] using h
  exact ⟨hblock, congrArg UInt32.toNat hbuf, hop⟩

theorem asked_congr (h : (m'.driver.mem a).slot = (m.driver.mem a).slot)
    (hb : blockAt m'.memory (m.bufferOf a) = blockAt m.memory (m.bufferOf a)) :
    m'.asked a = m.asked a ∧ m'.answered a = m.answered a := by
  obtain ⟨hblock, hbuf, hop⟩ := slot_eq h
  unfold Machine.asked Machine.answered
  rw [hop, hblock, hbuf, hb]
  exact ⟨rfl, rfl⟩

theorem NodeShown.frame (h : NodeShown m a st) (hs : SameNode m m' a) : NodeShown m' a st := by
  cases st with
  | idle => exact fun ha => h (hs.used.1 ha)
  | called o =>
    obtain ⟨ha, hr, ho⟩ := h
    obtain ⟨hasked, -⟩ := asked_congr (hs.slot ha) (hs.bytes ha)
    exact ⟨hs.used.2 ha, fun hr' => hr ((hs.raised ha).1 hr'), ho.trans hasked.symm⟩
  | done r =>
    obtain ⟨ha, hr, ho⟩ := h
    obtain ⟨-, hanswered⟩ := asked_congr (hs.slot ha) (hs.bytes ha)
    exact ⟨hs.used.2 ha, (hs.raised ha).2 hr, ho.trans hanswered.symm⟩

/-- What the requests ask for stays, for those that stay in use. -/
theorem Shown.requests (h : Shown m stage) (hsub : ∀ a ∈ m'.driver.inUse, a ∈ m.driver.inUse ∧
    (m'.driver.mem a).slot = (m.driver.mem a).slot) (htotal : m'.disk.totalBlocks = m.disk.totalBlocks) :
    (∀ a ∈ m'.driver.inUse, (m'.driver.mem a).block.toNat < m'.disk.totalBlocks) ∧
      ∀ a ∈ m'.driver.inUse, ∀ b ∈ m'.driver.inUse, a ≠ b →
        m'.Compatible (m'.bufferOf a) (m'.driver.mem a).operation b := by
  constructor
  · intro a ha
    obtain ⟨ha', hslot⟩ := hsub a ha
    rw [(slot_eq hslot).1, htotal]
    exact h.inside a ha'
  · intro a ha b hb hab
    obtain ⟨ha', hslota⟩ := hsub a ha
    obtain ⟨hb', hslotb⟩ := hsub b hb
    obtain ⟨-, hbufa, hopa⟩ := slot_eq hslota
    obtain ⟨-, hbufb, hopb⟩ := slot_eq hslotb
    unfold Machine.Compatible
    rw [hbufa, hopa, hbufb, hopb]
    exact h.apart a ha' b hb' hab

/-- **A step that changes nothing for the callers.** -/
theorem Shown.frame (h : Shown m stage) (hs : ∀ a, SameNode m m' a) (hnd : m'.driver.inUse.Nodup)
    (htotal : m'.disk.totalBlocks = m.disk.totalBlocks) : Shown m' stage := by
  obtain ⟨hinside, hapart⟩ := h.requests (fun a ha => ⟨(hs a).used.1 ha, (hs a).slot ((hs a).used.1 ha)⟩) htotal
  exact ⟨hnd, fun a => (h.nodes a).frame (hs a), hinside, hapart⟩

/-- **A step after which the node `a` is free.** -/
theorem Shown.free (h : Shown m stage) (huse : m'.driver.inUse = m.driver.inUse.erase a)
    (hs : ∀ b ∈ m.driver.inUse, b ≠ a → SameNode m m' b) (htotal : m'.disk.totalBlocks = m.disk.totalBlocks) :
    Shown m' (Function.update stage a .idle) := by
  have hnot : a ∉ m'.driver.inUse := by
    rw [huse]
    exact h.nodup.not_mem_erase
  have hmem : ∀ b ∈ m'.driver.inUse, b ∈ m.driver.inUse ∧ b ≠ a := fun b hb => by
    refine ⟨List.mem_of_mem_erase (huse ▸ hb), ?_⟩
    rintro rfl
    exact hnot hb
  obtain ⟨hinside, hapart⟩ := h.requests (fun b hb => ⟨(hmem b hb).1,
    (hs b (hmem b hb).1 (hmem b hb).2).slot (hmem b hb).1⟩) htotal
  refine ⟨huse ▸ h.nodup.erase a, fun b => ?_, hinside, hapart⟩
  obtain rfl | hb := eq_or_ne b a
  · rw [Function.update_self]
    exact hnot
  · rw [Function.update_of_ne hb]
    by_cases hbu : b ∈ m.driver.inUse
    · exact (h.nodes b).frame (hs b hbu hb)
    · refine (h.nodes b).frame ⟨?_, fun hu => absurd hu hbu, fun hu => absurd hu hbu, fun hu => absurd hu hbu⟩
      exact iff_of_false (fun hu => hbu (hmem b hu).1) hbu

/-- A free node has no call. -/
theorem Shown.idle (h : Shown m stage) (ha : a ∉ m.driver.inUse) : stage a = .idle := by
  have hn := h.nodes a
  cases hst : stage a with
  | idle => rfl
  | called o =>
    rw [hst] at hn
    exact absurd hn.1 ha
  | done r =>
    rw [hst] at hn
    exact absurd hn.1 ha

/-- The call of a request that has not been raised has not taken effect. -/
theorem Shown.called (h : Shown m stage) (ha : a ∈ m.driver.inUse) (hr : ¬ Raised m.driver a) :
    stage a = .called (m.asked a) := by
  have hn := h.nodes a
  cases hst : stage a with
  | idle =>
    rw [hst] at hn
    exact absurd ha hn
  | called o =>
    rw [hst] at hn
    rw [hn.2.2]
  | done r =>
    rw [hst] at hn
    exact absurd hn.2.1 hr

/-- The call of a request that has been raised has its answer. -/
theorem Shown.done (h : Shown m stage) (hr : Raised m.driver a) (ha : a ∈ m.driver.inUse) :
    stage a = .done (m.answered a) := by
  have hn := h.nodes a
  cases hst : stage a with
  | idle =>
    rw [hst] at hn
    exact absurd ha hn
  | called o =>
    rw [hst] at hn
    exact absurd hr hn.2.1
  | done r =>
    rw [hst] at hn
    rw [hn.2.2]

/-- **A step after which the node `a` has a request.** -/
theorem Shown.add (h : Shown m stage) (ha : a ∉ m.driver.inUse) (huse : m'.driver.inUse = a :: m.driver.inUse)
    (hs : ∀ b ∈ m.driver.inUse, SameNode m m' b) (hraised : ¬ Raised m'.driver a)
    (hinside : (m'.driver.mem a).block.toNat < m'.disk.totalBlocks)
    (hcomp : ∀ b ∈ m.driver.inUse, m.Compatible (m'.bufferOf a) (m'.driver.mem a).operation b)
    (htotal : m'.disk.totalBlocks = m.disk.totalBlocks) :
    Shown m' (Function.update stage a (.called (m'.asked a))) := by
  have hmem : ∀ b ∈ m'.driver.inUse, b = a ∨ b ∈ m.driver.inUse := fun b hb => List.mem_cons.1 (huse ▸ hb)
  have hold : ∀ b ∈ m.driver.inUse, (m'.driver.mem b).block = (m.driver.mem b).block ∧ m'.bufferOf b = m.bufferOf b ∧
      (m'.driver.mem b).operation = (m.driver.mem b).operation := fun b hb => slot_eq ((hs b hb).slot hb)
  refine ⟨?_, fun b => ?_, fun b hb => ?_, fun b hb c hc hbc => ?_⟩
  · rw [huse]
    exact List.nodup_cons.2 ⟨ha, h.nodup⟩
  · obtain rfl | hba := eq_or_ne b a
    · rw [Function.update_self]
      refine ⟨?_, hraised, rfl⟩
      rw [huse]
      exact List.mem_cons_self
    · rw [Function.update_of_ne hba]
      by_cases hbu : b ∈ m.driver.inUse
      · exact (h.nodes b).frame (hs b hbu)
      · refine (h.nodes b).frame ⟨?_, fun hu => absurd hu hbu, fun hu => absurd hu hbu, fun hu => absurd hu hbu⟩
        exact iff_of_false (fun hu => (hmem b hu).elim hba hbu) hbu
  · obtain rfl | hb := hmem b hb
    · exact hinside
    · rw [(hold b hb).1, htotal]
      exact h.inside b hb
  · unfold Machine.Compatible
    obtain rfl | hb := hmem b hb
    · obtain rfl | hc := hmem c hc
      · exact absurd rfl hbc
      · rw [(hold c hc).2.1, (hold c hc).2.2]
        exact hcomp c hc
    · rw [(hold b hb).2.1, (hold b hb).2.2]
      obtain rfl | hc := hmem c hc
      · obtain hap | ⟨h1, h2⟩ := hcomp b hb
        · exact .inl (Or.symm hap)
        · exact .inr ⟨h2, h1⟩
      · rw [(hold c hc).2.1, (hold c hc).2.2]
        exact h.apart b hb c hc hbc

theorem Midway.frame (h : Midway m a disk part) (hslot : (m'.driver.mem a).slot = (m.driver.mem a).slot)
    (hb : blockAt m'.memory (m.bufferOf a) = blockAt m.memory (m.bufferOf a)) (hd : m'.disk = m.disk) :
    Midway m' a disk part := by
  obtain ⟨hblock, hbuf, hop⟩ := slot_eq hslot
  unfold Midway at h ⊢
  rwa [hop, hblock, hbuf, hb, hd]

/-- When the device gets a command it has moved nothing. -/
theorem midway_start (h : m.disk = disk) : Midway m a disk fun _ => false := by
  unfold Midway
  split
  · exact ⟨h, fun i hi => by cases hi⟩
  · rw [h]
    have hsame : overwrite (disk.blocks (m.driver.mem a).block.toNat) (blockAt m.memory (m.bufferOf a))
        (fun _ => false) = disk.blocks (m.driver.mem a).block.toNat := rfl
    rw [hsame, Function.update_eq_self]

/-- The device goes on with its command, or it was idle and may get a new one. -/
def DeviceKept (s s' : State τ) : Prop :=
  s'.busy = s.busy ∧ s'.irq = s.irq ∧ (s.busy = true ∨ s.irq = true → s'.served = s.served) ∨
    s.busy = false ∧ s.irq = false ∧ s'.irq = false

/-- **A step of the driver** that the object does not notice. -/
theorem Medium.frame {s' : State τ} (h : Medium m disk) (hd : DeviceKept m.driver s')
    (hslot : m.driver.busy = true ∨ m.driver.irq = true →
      (s'.mem m.driver.served).slot = (m.driver.mem m.driver.served).slot) :
    Medium { m with driver := s' } disk := by
  obtain ⟨hb, hi, hserved⟩ | ⟨hb, hi, hi'⟩ := hd
  · refine ⟨h.works, fun hn => h.still (hb ▸ hn), fun hn hn' => h.rest (hb ▸ hn) (hi ▸ hn'), fun hw => ?_, fun hw => ?_⟩
    · have hw' : m.driver.busy = true := hb ▸ hw
      show Midway _ s'.served disk _
      rw [hserved (.inl hw')]
      exact (h.busy hw').frame (hslot (.inl hw')) rfl rfl
    · have hw' : m.driver.irq = true := hi ▸ hw
      show Midway _ s'.served disk _
      rw [hserved (.inr hw')]
      exact (h.irq hw').frame (hslot (.inr hw')) rfl rfl
  · refine ⟨h.works, fun _ => h.still hb, fun _ _ => h.rest hb hi, fun _ => ?_, fun hw => ?_⟩
    · show Midway { m with driver := s' } s'.served disk m.moved
      rw [h.still hb]
      exact midway_start (h.rest hb hi)
    · exact absurd (hi'.symm.trans hw) (by simp)

end Frame

/-! ## Steps of the driver -/

section Silent

variable {m : Machine τ} {s s' : State τ} {x : Atomic Gbd Addr BlockCall BlockAnswer} {a b : Addr}

/-- Whether a request is raised depends on its own semaphore. -/
theorem raised_congr (hsem : (s'.mem b).sem = (s.mem b).sem)
    (hsems : ∀ {y}, (s.mem b).sem = some y → (y ∈ s'.own ↔ y ∈ s.own) ∧ (y ∈ s.own → s'.sems y = s.sems y)) :
    Raised s' b ↔ Raised s b := by
  constructor
  · rintro ⟨y, hown, hy, hone⟩
    have hy' : (s.mem b).sem = some y := hsem.symm.trans hy
    have hown' := (hsems hy').1.1 hown
    exact ⟨y, hown', hy', ((hsems hy').2 hown').symm.trans hone⟩
  · rintro ⟨y, hown, hy, hone⟩
    exact ⟨y, (hsems hy).1.2 hown, hsem.trans hy, ((hsems hy).2 hown).trans hone⟩

/-- **A step that the object does not notice.** -/
theorem Serves.frame (h : Serves m x) (hi : Inv s') (hs : ∀ a, SameNode m { m with driver := s' } a)
    (hnd : s'.inUse.Nodup) (hd : DeviceKept m.driver s') : Serves { m with driver := s' } x :=
  ⟨hi, h.shown.frame hs hnd rfl, h.medium.frame hd fun hw => (hs _).slot (h.inv.working hw).1⟩

/-- The callers change their own nodes and semaphores. -/
theorem Serves.env (h : Serves m x) {mem : Addr → Request} {sems : Sem → Option ℕ}
    (hi : Inv { m.driver with mem := mem, sems := sems }) (hmem : ∀ a ∈ m.driver.inUse, mem a = m.driver.mem a)
    (hsems : ∀ a ∈ m.driver.inUse, ∀ {y}, (m.driver.mem a).sem = some y → y ∈ m.driver.own →
      sems y = m.driver.sems y) :
    Serves { m with driver := { m.driver with mem := mem, sems := sems } } x := by
  refine h.frame hi (fun a => ⟨Iff.rfl, fun ha => ?_, fun ha => ?_, fun _ => rfl⟩) h.shown.nodup
    (.inl ⟨rfl, rfl, fun _ => rfl⟩)
  · exact congrArg Request.slot (hmem a ha)
  · exact raised_congr (congrArg Request.sem (hmem a ha)) fun hy => ⟨Iff.rfl, hsems a ha hy⟩

/-- Only links between requests and the history are written. -/
structure Untouched (s s' : State τ) : Prop where
  entries : ∀ b, entry s'.mem b = entry s.mem b
  sems : s'.sems = s.sems
  own : s'.own = s.own
  inUse : s'.inUse = s.inUse

theorem Serves.untouched (h : Serves m x) (hi : Inv s') (hu : Untouched m.driver s') (hd : DeviceKept m.driver s') :
    Serves { m with driver := s' } x := by
  refine h.frame hi (fun a => ⟨by rw [hu.inUse], fun _ => ?_, fun _ => ?_, fun _ => rfl⟩)
    (hu.inUse ▸ h.shown.nodup) hd
  · have he := hu.entries a
    simp only [entry, Entry.mk.injEq] at he
    simp [Request.slot, he]
  · refine raised_congr (congrArg Entry.sem (hu.entries a)) fun _ => ?_
    rw [hu.own, hu.sems]
    exact ⟨Iff.rfl, fun _ => rfl⟩

/-- **`disk_next_request`** tells the device of a request and changes nothing for the callers. -/
theorem diskNextRequest_untouched (hb : s.busy = false) (hs : s.served = NULL) :
    Untouched s s.diskNextRequest ∧ s.diskNextRequest.irq = s.irq := by
  by_cases hq : s.queue = NULL
  · rw [diskNextRequest_empty hb hs hq]
    exact ⟨⟨fun _ => rfl, rfl, rfl, rfl⟩, rfl⟩
  · rw [diskNextRequest_taken hb hs hq]
    exact ⟨⟨fun b => entry_setNext s.mem s.queue NULL b, rfl, rfl, rfl⟩, rfl⟩

theorem Untouched.trans {s1 s2 s3 : State τ} (h1 : Untouched s1 s2) (h2 : Untouched s2 s3) : Untouched s1 s3 :=
  ⟨fun b => (h2.entries b).trans (h1.entries b), h2.sems.trans h1.sems, h2.own.trans h1.own, h2.inUse.trans h1.inUse⟩

/-- **The section of `disk_submit_request`.** -/
theorem diskSubmit_untouched {q : List Addr} {sync : Bool} {t : τ} (hq : Queue s q)
    (hc : Calls s (current s ++ q)) (ht : s.pc t = .scheduling a sync) :
    Untouched s (s.diskSubmit a) ∧ DeviceKept s (s.diskSubmit a) := by
  obtain ⟨ha, hP, hnext, -⟩ : At s (current s ++ q) (.scheduling a sync) := ht ▸ hc.places t
  have haq : a ∉ q := fun hm => hP (List.mem_append_right _ hm)
  have hane : a ≠ NULL := fun h0 => hc.ne_null (h0 ▸ ha)
  obtain ⟨mem, queue, hsched, -, hentry, -, -⟩ := schedule_spec hq.chain haq hane hnext
  -- The state before `disk_next_request`.
  let s2 : State τ := { s with mem := mem, queue := queue, submitted := s.submitted ++ [entry mem a] }
  have hsubmit : s.diskSubmit a = if s.served = NULL then s2.diskNextRequest else s2 := by
    unfold State.diskSubmit
    rw [hsched]
  have hu : Untouched s s2 := ⟨hentry, rfl, rfl, rfl⟩
  rw [hsubmit]
  split
  · rename_i h0
    obtain ⟨hbusy, hirq⟩ := hq.device_idle (current_idle h0)
    obtain ⟨hu', hirq'⟩ := diskNextRequest_untouched (s := s2) hbusy h0
    exact ⟨hu.trans hu', .inr ⟨hbusy, hirq, hirq'.trans hirq⟩⟩
  · exact ⟨hu, .inl ⟨rfl, rfl, fun _ => rfl⟩⟩

end Silent

section Moving

variable [DecidableEq τ] {m : Machine τ} {s : State τ} {x : Atomic Gbd Addr BlockCall BlockAnswer} {a : Addr} {t : τ}
  {operation : Operation}

/-- A node that is free gets a request. -/
theorem Serves.submitted (h : Serves m x) (ha : a ∉ m.driver.inUse) {r : Request} {p : Pc}
    (hr : r.slot = ((m.driver.mem a).block, (m.driver.mem a).buf, operation))
    (hsem : ∀ {y}, r.sem = some y → y ∉ m.driver.own) (hc : m.careful (.driver (.submit t a operation)))
    (hi : Inv ({ m.driver.setMem a r with inUse := a :: m.driver.inUse }.setPc t p)) :
    ∃ y, Shows gbd x (m.events (.driver (.submit t a operation))) y ∧
      Serves { m with driver := { m.driver.setMem a r with inUse := a :: m.driver.inUse }.setPc t p } y := by
  obtain ⟨hinside, hcomp⟩ := hc
  let m' : Machine τ := { m with driver := { m.driver.setMem a r with inUse := a :: m.driver.inUse }.setPc t p }
  have hself : m'.driver.mem a = r := Function.update_self _ _ _
  have hold : ∀ {b}, b ∈ m.driver.inUse → m'.driver.mem b = m.driver.mem b := by
    intro b hb
    refine Function.update_of_ne ?_ _ _
    rintro rfl
    exact ha hb
  obtain ⟨hblock, hbuf, hop⟩ : (m'.driver.mem a).block = (m.driver.mem a).block ∧
      (m'.driver.mem a).buf = (m.driver.mem a).buf ∧ (m'.driver.mem a).operation = operation := by
    rw [hself]
    simpa [Request.slot] using hr
  have hbufa : m'.bufferOf a = m.bufferOf a := congrArg UInt32.toNat hbuf
  have hasked : ({ m with driver := m.driver.setMem a { m.driver.mem a with operation := operation } } :
      Machine τ).asked a = m'.asked a := by
    unfold Machine.asked
    rw [hbufa, hblock, hop]
    simp [State.setMem, Machine.bufferOf]
    rfl
  have hsame : ∀ b ∈ m.driver.inUse, SameNode m m' b := fun b hb => by
    refine ⟨iff_of_true (List.mem_cons_of_mem _ hb) hb, fun _ => congrArg Request.slot (hold hb), fun _ => ?_,
      fun _ => rfl⟩
    exact raised_congr (congrArg Request.sem (hold hb)) fun _ => ⟨Iff.rfl, fun _ => rfl⟩
  have hraised : ¬ Raised m'.driver a := by
    rintro ⟨y, hown, hy, -⟩
    rw [hself] at hy
    exact hsem hy hown
  refine ⟨_, .invoke (h.shown.idle ha) (.nil _), hi, ?_, ?_⟩
  · rw [hasked]
    refine h.shown.add ha rfl hsame hraised ?_ (fun b hb => ?_) rfl
    · rwa [hblock]
    · rw [hbufa, hop]
      exact hcomp b hb
  · refine h.medium.frame (.inl ⟨rfl, rfl, fun _ => rfl⟩) fun hw => ?_
    exact congrArg Request.slot (hold (h.inv.working hw).1)

/-- **`semaphore_create` fails**, and so does the call. -/
theorem Serves.createFailed (h : Serves m x) (ht : m.driver.pc t = .creating a)
    (hi : Inv ({ m.driver with inUse := m.driver.inUse.erase a }.setPc t .outside)) :
    ∃ y, Shows gbd x [.fail a] y ∧
      Serves { m with driver := { m.driver with inUse := m.driver.inUse.erase a }.setPc t .outside } y := by
  obtain ⟨q, hq, hc⟩ := h.inv.exists_queue
  obtain ⟨ha, hP, -, -, hsem⟩ : At m.driver (current m.driver ++ q) (.creating a) := ht ▸ hc.places t
  have hnot : ¬ Raised m.driver a := by
    rintro ⟨y, -, hy, -⟩
    rw [hsem] at hy
    cases hy
  refine ⟨_, .fail (h.shown.called ha hnot) (.nil _), hi, ?_, ?_⟩
  · refine h.shown.free rfl (fun b hb hba => ⟨?_, fun _ => rfl, fun _ => Iff.rfl, fun _ => rfl⟩) rfl
    exact iff_of_true ((List.mem_erase_of_ne hba).2 hb) hb
  · exact h.medium.frame (.inl ⟨rfl, rfl, fun _ => rfl⟩) fun _ => rfl

/-- **`semaphore_create` succeeds**; the new semaphore has not been raised. -/
theorem Serves.created (h : Serves m x) (ht : m.driver.pc t = .creating a) {y : Sem} (hy : m.driver.sems y = none)
    (hi : Inv ({ m.driver.setMem a { m.driver.mem a with sem := some y } with
      sems := Function.update m.driver.sems y (some 0), own := y :: m.driver.own }.setPc t (.scheduling a true))) :
    Serves { m with driver := { m.driver.setMem a { m.driver.mem a with sem := some y } with
      sems := Function.update m.driver.sems y (some 0)
      own := y :: m.driver.own }.setPc t (.scheduling a true) } x := by
  obtain ⟨q, hq, hc⟩ := h.inv.exists_queue
  obtain ⟨ha, hP, -, -, hsem⟩ : At m.driver (current m.driver ++ q) (.creating a) := ht ▸ hc.places t
  refine h.frame hi (fun b => ⟨Iff.rfl, fun _ => ?_, fun hb => ?_, fun _ => rfl⟩) h.shown.nodup
    (.inl ⟨rfl, rfl, fun _ => rfl⟩)
  · show (Function.update m.driver.mem a _ b).slot = _
    obtain rfl | hba := eq_or_ne b a
    · rw [Function.update_self]
      rfl
    · rw [Function.update_of_ne hba]
  · obtain rfl | hba := eq_or_ne b a
    · refine iff_of_false ?_ ?_
      · rintro ⟨z, -, hz, hone⟩
        have hz : (Function.update m.driver.mem b { m.driver.mem b with sem := some y } b).sem = some z := hz
        rw [Function.update_self] at hz
        obtain rfl : y = z := Option.some.inj hz
        have hone : Function.update m.driver.sems y (some 0) y = some 1 := hone
        rw [Function.update_self] at hone
        cases hone
      · rintro ⟨z, -, hz, -⟩
        rw [hsem] at hz
        cases hz
    · refine raised_congr ?_ fun {z} hz => ?_
      · show (Function.update m.driver.mem a _ b).sem = _
        rw [Function.update_of_ne hba]
      · have hzy : z ≠ y := by
          rintro rfl
          exact hc.allocated b hb hz hy
        refine ⟨?_, fun _ => Function.update_of_ne hzy _ _⟩
        show z ∈ y :: m.driver.own ↔ _
        rw [List.mem_cons]
        exact or_iff_right hzy

/-- **The end of a synchronous call** whose semaphore was raised. -/
theorem Serves.finished (h : Serves m x) (ht : m.driver.pc t = .waiting a) {y : Sem}
    (hy : (m.driver.mem a).sem = some y) {v : ℕ} (hv : m.driver.sems y = some (v + 1))
    (hi : Inv ((m.driver.diskFinish a y).setPc t .outside)) :
    ∃ z, Shows gbd x (m.events (.driver (.finish t))) z ∧
      Serves { m with driver := (m.driver.diskFinish a y).setPc t .outside } z := by
  obtain ⟨q, hq, hc⟩ := h.inv.exists_queue
  obtain ⟨ha, y', hy', hown, hdone⟩ : At m.driver (current m.driver ++ q) (.waiting a) := ht ▸ hc.places t
  obtain rfl : y = y' := Option.some.inj (hy.symm.trans hy')
  obtain ⟨-, hzero⟩ | ⟨hP, hret, hone⟩ := hdone
  · rw [hzero] at hv
    cases hv
  have hraised : Raised m.driver a := ⟨y, hown, hy, hone⟩
  have hevents : m.events (.driver (.finish t)) = [.respond a (m.answered a)] := by
    unfold Machine.events
    simp only [ht, hret, if_true]
  have hold : ∀ {b}, b ≠ a → ((m.driver.diskFinish a y).setPc t .outside).mem b = m.driver.mem b :=
    fun hba => Function.update_of_ne hba _ _
  rw [hevents]
  refine ⟨_, .respond (h.shown.done hraised ha) (.nil _), hi, ?_, ?_⟩
  · refine h.shown.free rfl (fun b hb hba => ⟨?_, fun _ => ?_, fun _ => ?_, fun _ => rfl⟩) rfl
    · exact iff_of_true ((List.mem_erase_of_ne hba).2 hb) hb
    · exact congrArg Request.slot (hold hba)
    · refine raised_congr (congrArg Request.sem (hold hba)) fun {z} hz => ?_
      have hzy : z ∈ m.driver.own → z ≠ y := by
        rintro hzown rfl
        exact hba (hc.alone b hb a ha hzown hz hy)
      refine ⟨⟨List.mem_of_mem_erase, fun hzown => ?_⟩, fun hzown => ?_⟩
      · exact (List.mem_erase_of_ne (hzy hzown)).2 hzown
      · exact Function.update_of_ne (hzy hzown) _ _
  · refine h.medium.frame (.inl ⟨rfl, rfl, fun _ => rfl⟩) fun hw => ?_
    refine congrArg Request.slot (hold ?_)
    rintro rfl
    exact (h.inv.working hw).2.1 hraised

end Moving

/-! ## Steps of the device -/

section Device

variable {m : Machine τ} {x : Atomic Gbd Addr BlockCall BlockAnswer} {a : Addr} {disk : Gbd} {addr : ℕ}
  {part : Fin BLOCK_SIZE → Bool}

/-- **All bytes of a block have been moved**: disk and memory are as after the call of the block device. -/
theorem midway_end (h : Midway m a disk fun _ => true) (hw : m.disk.Works)
    (ha : (m.driver.mem a).block.toNat < m.disk.totalBlocks) : gbd.apply disk (m.asked a) = (m.answered a, m.disk) := by
  unfold Midway at h
  unfold Machine.asked Machine.answered
  cases hop : (m.driver.mem a).operation with
  | read =>
    rw [hop] at h
    obtain ⟨rfl, hdata⟩ := h
    have hblock : blockAt m.memory (m.bufferOf a) = m.disk.blocks (m.driver.mem a).block.toNat :=
      Buf.ext (funext fun i => hdata i rfl)
    have hread : readVblock m.disk (m.driver.mem a).block.toNat = some (m.disk.blocks (m.driver.mem a).block.toNat) :=
      if_pos ⟨ha, hw _ ha⟩
    simp only [gbd, hread, hblock]
  | write =>
    rw [hop] at h
    simp only at h
    rw [h] at ha hw
    have hwrite : writeVblock disk (m.driver.mem a).block.toNat (blockAt m.memory (m.bufferOf a)) = some m.disk := by
      rw [h]
      exact if_pos ⟨ha, hw _ ha⟩
    simp only [gbd, hwrite]

/-- **The interrupt**: the call takes effect, and an asynchronous one is answered. -/
theorem Serves.interrupt (h : Serves m x) (hh : m.driver.handling = false) (hirq : m.driver.irq = true)
    (hi : Inv m.driver.diskInterrupt) :
    ∃ z, Shows gbd x (m.events (.driver .interrupt)) z ∧ Serves { m with driver := m.driver.diskInterrupt } z := by
  obtain ⟨q, hq, hc⟩ := h.inv.exists_queue
  obtain ⟨hne, hbusy⟩ := hq.device_irq hh hirq
  obtain ⟨ha, hnot, -⟩ := h.inv.working (.inr hirq)
  have hP : m.driver.served ∈ current m.driver ++ q := by simp [hq.working (.inr hirq)]
  obtain ⟨-, y, hy, hwaits⟩ := hc.pending _ hP
  generalize hserved : m.driver.served = a at ha hnot hP hy hwaits
  have hdriver : m.driver.diskInterrupt = raised m.driver y := diskInterrupt_raised hne (hserved ▸ hy)
  have heffect := midway_end (hserved ▸ h.medium.irq hirq) h.medium.works (h.shown.inside a ha)
  rw [hdriver] at hi ⊢
  have hslot : ∀ b, ((raised m.driver y).mem b).slot = (m.driver.mem b).slot := fun b => by
    have he := congrFun (raised_entry (s := m.driver) y).1 b
    simp only [entry, Entry.mk.injEq] at he
    simp [Request.slot, he]
  have hraised : ∀ b ∈ m.driver.inUse, b ≠ a → (Raised (raised m.driver y) b ↔ Raised m.driver b) := fun b hb hba => by
    refine raised_congr (raised_sem y b) fun {z} hz => ⟨Iff.rfl, fun hzown => Function.update_of_ne ?_ _ _⟩
    rintro rfl
    exact hba (hc.alone b hb a ha hzown hz hy)
  have hmedium : ∀ d, m.disk = d → Medium { m with driver := raised m.driver y } d := fun d hd =>
    ⟨h.medium.works, fun _ => h.medium.still hbusy, fun _ _ => hd, fun hb => absurd (hbusy.symm.trans hb) (by simp),
      fun hi => (by cases hi)⟩
  have hst := h.shown.called ha hnot
  by_cases hown : y ∈ m.driver.own
  · -- the thread that waits will return
    have hevents : m.events (.driver .interrupt) = [] := by
      unfold Machine.events
      rw [if_pos hirq, hserved, hy]
      exact if_pos hown
    rw [hevents]
    refine ⟨_, .effect hst (.nil _), hi, ?_, hmedium _ (by rw [heffect])⟩
    have huse : (raised m.driver y).inUse = m.driver.inUse := if_pos hown
    let m1 : Machine τ := { m with driver := raised m.driver y }
    have hkept : ∀ b ∈ m1.driver.inUse, b ∈ m.driver.inUse ∧ (m1.driver.mem b).slot = (m.driver.mem b).slot :=
      fun b hb => ⟨huse ▸ hb, hslot b⟩
    obtain ⟨hinside, hapart⟩ := h.shown.requests hkept rfl
    refine ⟨show (raised m.driver y).inUse.Nodup from huse ▸ h.shown.nodup, fun b => ?_, hinside, hapart⟩
    show NodeShown _ b (Function.update x.stage a _ b)
    obtain rfl | hba := eq_or_ne b a
    · obtain ⟨t, ht⟩ := hwaits hown
      obtain ⟨-, y', hy', -, hdone⟩ : At m.driver (current m.driver ++ q) (.waiting b) := ht ▸ hc.places t
      obtain rfl : y = y' := Option.some.inj (hy.symm.trans hy')
      have hzero : m.driver.sems y = some 0 := by
        obtain ⟨-, hzero⟩ | ⟨hnotP, -⟩ := hdone
        · exact hzero
        · exact absurd hP hnotP
      rw [Function.update_self]
      refine ⟨huse.symm ▸ ha, ⟨y, hown, (raised_sem y b).trans hy, ?_⟩, ?_⟩
      · show Function.update m.driver.sems y ((m.driver.sems y).map (· + 1)) y = some 1
        rw [Function.update_self, hzero]
        rfl
      · have hslot1 : (m1.driver.mem b).slot = (m.driver.mem b).slot := hslot b
        have hsame : m1.answered b = m.answered b := (asked_congr hslot1 rfl).2
        rw [heffect]
        exact hsame.symm
    · rw [Function.update_of_ne hba]
      exact (h.shown.nodes b).frame ⟨by rw [huse], fun _ => hslot b, fun hb => hraised b hb hba, fun _ => rfl⟩
  · have hevents : m.events (.driver .interrupt) = [.respond a (m.answered a)] := by
      unfold Machine.events
      rw [if_pos hirq, hserved, hy]
      exact if_neg hown
    have hdone : Function.update x.stage a (.done (gbd.apply x.state (m.asked a)).1) a = .done (m.answered a) := by
      rw [Function.update_self, heffect]
    have huse : (raised m.driver y).inUse = m.driver.inUse.erase a := by
      rw [← hserved]
      exact if_neg hown
    rw [hevents]
    refine ⟨_, .effect hst (.respond hdone (.nil _)), hi, ?_, hmedium _ (by rw [heffect])⟩
    show Shown _ (Function.update (Function.update x.stage a _) a .idle)
    rw [Function.update_idem]
    refine h.shown.free huse (fun b hb hba => ⟨?_, fun _ => hslot b, fun _ => hraised b hb hba, fun _ => rfl⟩) rfl
    show b ∈ (raised m.driver y).inUse ↔ _
    rw [huse]
    exact iff_of_true ((List.mem_erase_of_ne hba).2 hb) hb

/-- Writes outside of a buffer. -/
theorem blockAt_congr {mem mem' : Memory} {buf : ℕ} (h : ∀ i < BLOCK_SIZE, mem' (buf + i) = mem (buf + i)) :
    blockAt mem' buf = blockAt mem buf :=
  Buf.ext (funext fun i => h i i.2)

/-- **The memory changes** outside of the buffers of requests. -/
theorem Serves.store (h : Serves m x) {value : UInt8} (hc : m.careful (.store addr value)) :
    Serves { m with memory := Function.update m.memory addr value } x := by
  have hbytes : ∀ b ∈ m.driver.inUse,
      blockAt (Function.update m.memory addr value) (m.bufferOf b) = blockAt m.memory (m.bufferOf b) := by
    intro b hb
    refine blockAt_congr fun i hi => Function.update_of_ne ?_ _ _
    have hout := hc b hb
    omega
  have hserved := fun hw => hbytes _ (h.inv.working hw).1
  refine ⟨h.inv, h.shown.frame (fun b => ⟨Iff.rfl, fun _ => rfl, fun _ => Iff.rfl, hbytes b⟩) h.shown.nodup rfl,
    h.medium.works, h.medium.still, h.medium.rest, fun hb => ?_, fun hi => ?_⟩
  · exact (h.medium.busy hb).frame rfl (hserved (.inl hb)) rfl
  · exact (h.medium.irq hi).frame rfl (hserved (.inr hi)) rfl

/-- A block of which some bytes have been written gets some more. -/
theorem overwrite_overwrite (old new : Block) (p p' : Fin BLOCK_SIZE → Bool) :
    overwrite (overwrite old new p) new p' = overwrite old new fun i => p' i || p i := by
  apply Buf.ext
  funext i
  unfold overwrite
  cases hp' : p' i <;> simp [hp']

theorem blockTo_inside (mem : Memory) (buf : ℕ) (b : Block) (i : Fin BLOCK_SIZE) :
    blockTo mem buf b part (buf + i) = if part i then b.data i else mem (buf + i) := by
  unfold blockTo
  rw [dif_pos ⟨Nat.le_add_right _ _, by simp⟩]
  simp

theorem blockTo_outside {mem : Memory} {buf z : ℕ} {b : Block} (h : z < buf ∨ buf + BLOCK_SIZE ≤ z) :
    blockTo mem buf b part z = mem z := by
  apply dif_neg
  omega

/-- **The device moves some bytes.** -/
theorem Serves.dma (h : Serves m x) (hb : m.driver.busy = true) :
    Serves (m.transfer (entry m.driver.mem m.driver.served) part) x := by
  obtain ⟨q, hq, -⟩ := h.inv.exists_queue
  obtain ⟨ha, hnot, -⟩ := h.inv.working (.inl hb)
  have hmid := h.medium.busy hb
  have hirq : m.driver.irq = false := by
    have hdev := hq.device
    rw [hq.working (.inl hb), hb] at hdev
    cases hi : m.driver.irq with
    | false => rfl
    | true =>
      rw [hi] at hdev
      cases hdev
  have hidle : ∀ P : Prop, m.driver.busy = false → P := fun P hn => absurd (hb.symm.trans hn) (by simp)
  have hquiet : ∀ P : Prop, m.driver.irq = true → P := fun P hn => absurd (hirq.symm.trans hn) (by simp)
  generalize hserved : m.driver.served = a at ha hnot hmid
  unfold Midway at hmid
  cases hop : (m.driver.mem a).operation with
  | read =>
    rw [hop] at hmid
    obtain ⟨hdisk, hdata⟩ := hmid
    have heq : m.transfer (entry m.driver.mem a) part = { m with
        memory := blockTo m.memory (m.bufferOf a) (m.disk.blocks (m.driver.mem a).block.toNat) part
        moved := fun i => part i || m.moved i } := by
      unfold Machine.transfer entry Machine.bufferOf
      simp only [hop]
    rw [heq]
    refine ⟨h.inv, ⟨h.shown.nodup, fun b => ?_, h.shown.inside, h.shown.apart⟩, h.medium.works, fun hn => hidle _ hn,
      fun hn => hidle _ hn, fun _ => ?_, fun hn => hquiet _ hn⟩
    · obtain rfl | hba := eq_or_ne b a
      · -- what this call asks for does not depend on its buffer
        rw [h.shown.called ha hnot]
        refine ⟨ha, hnot, ?_⟩
        unfold Machine.asked
        simp only [hop]
      · refine (h.shown.nodes b).frame ⟨Iff.rfl, fun _ => rfl, fun _ => Iff.rfl, fun hbu => ?_⟩
        refine blockAt_congr fun i hi => blockTo_outside ?_
        obtain hap | ⟨hwrite, -⟩ := h.shown.apart a ha b hbu (Ne.symm hba)
        · unfold Apart at hap
          omega
        · rw [hop] at hwrite
          cases hwrite
    · show Midway _ m.driver.served x.state _
      rw [hserved]
      unfold Midway
      simp only [hop]
      refine ⟨hdisk, fun i hi => ?_⟩
      show blockTo m.memory (m.bufferOf a) (m.disk.blocks (m.driver.mem a).block.toNat) part (m.bufferOf a + i) = _
      rw [blockTo_inside]
      split
      · rw [hdisk]
      · rename_i hp
        exact hdata i (by simpa [hp] using hi)
  | write =>
    rw [hop] at hmid
    simp only at hmid
    have heq : m.transfer (entry m.driver.mem a) part = { m with
        disk := { m.disk with
          blocks := Function.update m.disk.blocks (m.driver.mem a).block.toNat
            (overwrite (m.disk.blocks (m.driver.mem a).block.toNat) (blockAt m.memory (m.bufferOf a)) part) }
        moved := fun i => part i || m.moved i } := by
      unfold Machine.transfer entry Machine.bufferOf
      simp only [hop]
    rw [heq]
    refine ⟨h.inv, h.shown.frame (fun b => ⟨Iff.rfl, fun _ => rfl, fun _ => Iff.rfl, fun _ => rfl⟩) h.shown.nodup rfl,
      h.medium.works, fun hn => hidle _ hn, fun hn => hidle _ hn, fun _ => ?_, fun hn => hquiet _ hn⟩
    show Midway _ m.driver.served x.state _
    rw [hserved]
    unfold Midway
    simp only [hop]
    rw [hmid]
    simp only [Function.update_self, Function.update_idem, overwrite_overwrite]
    rfl

end Device

/-! ## Runs -/

section Runs

variable [DecidableEq τ] {m m' : Machine τ} {x : Atomic Gbd Addr BlockCall BlockAnswer}

/-- **Every step of the driver** but the completion of a command is a step of the block device. -/
theorem Serves.driver {a : Action τ} {s' : State τ} (h : Serves m x) (hc : m.careful (.driver a))
    (ha : a ≠ .complete) (hs : Disk.step m.driver a = some s') :
    ∃ y, Shows gbd x (m.events (.driver a)) y ∧ Serves { m with driver := s' } y := by
  have hi := h.inv.step hs
  obtain ⟨q, hq, hcalls⟩ := h.inv.exists_queue
  rw [step_eq hq.failed] at hs
  cases a with
  | fillIn a r =>
    simp only [act] at hs
    split at hs <;> cases hs
    rename_i hfree
    refine ⟨x, .nil x, h.env hi (fun b hb => Function.update_of_ne ?_ _ _) fun _ _ {_} _ _ => rfl⟩
    rintro rfl
    exact hfree hb
  | semaphoreCreate y value =>
    simp only [act] at hs
    split at hs <;> cases hs
    rename_i hnone
    refine ⟨x, .nil x, h.env hi (fun _ _ => rfl) fun b hb {z} hz _ => Function.update_of_ne ?_ _ _⟩
    rintro rfl
    exact hcalls.allocated b hb hz hnone
  | semaphoreP y =>
    simp only [act] at hs
    split at hs
    · split at hs <;> cases hs
      rename_i hown
      refine ⟨x, .nil x, h.env hi (fun _ _ => rfl) fun b hb {z} _ hz => Function.update_of_ne ?_ _ _⟩
      rintro rfl
      exact hown hz
    · cases hs
  | semaphoreV y =>
    simp only [act] at hs
    split at hs
    · split at hs <;> cases hs
      rename_i hown
      refine ⟨x, .nil x, h.env hi (fun _ _ => rfl) fun b hb {z} _ hz => Function.update_of_ne ?_ _ _⟩
      rintro rfl
      exact hown hz
    · cases hs
  | semaphoreDestroy y =>
    simp only [act] at hs
    split at hs <;> cases hs
    rename_i hfree
    refine ⟨x, .nil x, h.env hi (fun _ _ => rfl) fun b hb {z} _ hz => Function.update_of_ne ?_ _ _⟩
    rintro rfl
    exact hfree (.inl hz)
  | submit t a operation =>
    simp only [act] at hs
    split at hs
    · rename_i hpre
      obtain ⟨-, -, huse⟩ := hpre
      cases hsem : (m.driver.mem a).sem with
      | none =>
        rw [hsem] at hs
        cases hs
        exact h.submitted huse rfl (by simp) hc hi
      | some y =>
        rw [hsem] at hs
        simp only [] at hs
        split at hs <;> cases hs
        rename_i hown
        refine h.submitted huse rfl (fun hy => ?_) hc hi
        cases hy
        exact hown.1
    · cases hs
  | create t y =>
    simp only [act] at hs
    split at hs
    · rename_i a ht
      cases hs
      have hevents : m.events (.driver (.create t none)) = [.fail a] := by
        unfold Machine.events
        simp only [ht]
      rw [hevents]
      exact h.createFailed ht hi
    · rename_i a y ht
      split at hs <;> cases hs
      rename_i hy
      exact ⟨x, .nil x, h.created ht hy hi⟩
    · cases hs
  | schedule t =>
    simp only [act] at hs
    split at hs
    · rename_i a sync ht
      split at hs <;> cases hs
      obtain ⟨hu, hd⟩ := diskSubmit_untouched hq hcalls ht
      exact ⟨x, .nil x, h.untouched hi ⟨hu.entries, hu.sems, hu.own, hu.inUse⟩ hd⟩
    · cases hs
  | finish t =>
    simp only [act] at hs
    split at hs
    · rename_i a ht
      split at hs
      · cases hs
      · rename_i y hy
        split at hs
        · rename_i v hv
          cases hs
          exact h.finished ht hy hv hi
        · cases hs
    · cases hs
  | complete => exact absurd rfl ha
  | interrupt =>
    simp only [act] at hs
    split at hs
    · cases hs
    · rename_i hh
      split at hs <;> cases hs
      · rename_i hirq
        exact h.interrupt (Bool.eq_false_iff.2 hh) hirq hi
      · rename_i hirq
        have hevents : m.events (.driver .interrupt) = [] := if_neg hirq
        rw [hevents]
        exact ⟨x, .nil x, h⟩
  | interruptNext =>
    simp only [act] at hs
    split at hs <;> cases hs
    rename_i hh
    obtain ⟨hbusy, hirq⟩ := hq.device_idle (current_handling hh)
    obtain ⟨hu, hirq'⟩ := diskNextRequest_untouched (s := { m.driver with served := NULL }) hbusy rfl
    exact ⟨x, .nil x, h.untouched hi ⟨hu.entries, hu.sems, hu.own, hu.inUse⟩ (.inr ⟨hbusy, hirq, hirq'.trans hirq⟩)⟩

/-- **The device completes its command**: all bytes have been moved. -/
theorem Serves.complete {s' : State τ} (h : Serves m x) (hall : ∀ i, m.moved i = true)
    (hs : Disk.step m.driver .complete = some s') : Serves { m with driver := s', moved := fun _ => false } x := by
  have hi := h.inv.step hs
  obtain ⟨q, hq, -⟩ := h.inv.exists_queue
  rw [step_eq hq.failed] at hs
  simp only [act] at hs
  split at hs <;> cases hs
  rename_i hbusy
  have hmoved : m.moved = fun _ => true := funext hall
  refine ⟨hi, h.shown.frame (fun b => ⟨Iff.rfl, fun _ => rfl, fun _ => Iff.rfl, fun _ => rfl⟩) h.shown.nodup rfl,
    h.medium.works, fun _ => rfl, fun _ hn => (by cases hn), fun hn => (by cases hn), fun _ => ?_⟩
  exact (hmoved ▸ h.medium.busy hbusy).frame rfl rfl rfl

/-- **Every step of the machine** is shown by the block device. -/
theorem Serves.step {a : MachineAction τ} (hc : m.careful a) (h : Serves m x) (hs : m.step a = some m') :
    ∃ y, Shows gbd x (m.events a) y ∧ Serves m' y := by
  cases a with
  | driver a =>
    by_cases ha : a = .complete
    · subst ha
      simp only [Machine.step] at hs
      split at hs
      · rename_i hall
        obtain ⟨s', hs', rfl⟩ := Option.map_eq_some_iff.1 hs
        exact ⟨x, .nil x, h.complete (fun i => List.all_eq_true.1 hall i (List.mem_finRange i)) hs'⟩
      · cases hs
    · have hstep : m.step (.driver a) = (Disk.step m.driver a).map fun d => { m with driver := d } := by
        cases a with
        | complete => exact absurd rfl ha
        | _ => rfl
      rw [hstep] at hs
      obtain ⟨s', hs', rfl⟩ := Option.map_eq_some_iff.1 hs
      exact h.driver hc ha hs'
  | store addr value =>
    cases hs
    exact ⟨x, .nil x, h.store hc⟩
  | dma part =>
    simp only [Machine.step] at hs
    split at hs
    · rename_i hbusy
      have hcommand : m.command = some (entry m.driver.mem m.driver.served) := (h.inv.working (.inl hbusy)).2.2
      rw [hcommand] at hs
      cases hs
      exact ⟨x, .nil x, h.dma hbusy⟩
    · cases hs

omit [DecidableEq τ] in
theorem serves_init (memory : Memory) {disk : Gbd} (hw : disk.Works) :
    Serves (Machine.init memory disk : Machine τ) (.quiet disk) where
  inv := inv_init
  shown := ⟨List.nodup_nil, fun _ => List.not_mem_nil, fun _ ha => absurd ha List.not_mem_nil,
    fun _ ha => absurd ha List.not_mem_nil⟩
  medium := ⟨hw, fun _ => rfl, fun _ _ => rfl, fun hb => (by cases hb), fun hi => (by cases hi)⟩

/-- **The disk driver is a block device.**  Whatever threads submit, and whenever the device moves its bytes and raises
its interrupts, the calls of `disk_read_block` and `disk_write_block` are linearizable: they do what the block device of
the filesystems does, each at one moment between its call and its return. Calls that do not overlap get its answers. -/
theorem disk_linearizable {memory : Memory} {disk : Gbd} (hw : disk.Works) {as : List (MachineAction τ)}
    (hc : Every Machine.step Machine.careful (Machine.init memory disk) as)
    (hr : run Machine.step (Machine.init memory disk) as = some m) :
    Linearizable gbd disk (history Machine.step Machine.events (Machine.init memory disk) as) ∧
      ∀ cs, history Machine.step Machine.events (Machine.init memory disk) as = cs.flatMap single →
        Answers gbd disk cs := by
  obtain ⟨y, hy, -⟩ := shows_run (fun hc h hs => Serves.step hc h hs) (serves_init memory hw) hc hr
  exact ⟨⟨y, hy⟩, fun cs he => Linearizable.sequential ⟨y, he ▸ hy⟩⟩

end Runs

instance apartDecidable (t s n : ℕ) : Decidable (Apart t s n) := inferInstanceAs (Decidable (_ ∨ _))

instance compatibleDecidable (m : Machine τ) (buf : ℕ) (operation : Operation) (b : Addr) :
    Decidable (m.Compatible buf operation b) := inferInstanceAs (Decidable (_ ∨ _))

instance carefulDecidable (m : Machine τ) : ∀ a, Decidable (m.careful a)
  | .driver (.submit _ a operation) =>
    have := List.decidableBAll (m.Compatible (m.bufferOf a) operation) m.driver.inUse
    inferInstanceAs (Decidable (_ ∧ _))
  | .store addr _ => List.decidableBAll (fun b => addr < m.bufferOf b ∨ m.bufferOf b + BLOCK_SIZE ≤ addr) _
  | .dma _ => isTrue trivial
  | .driver (.fillIn ..) | .driver (.semaphoreCreate ..) | .driver (.semaphoreP _) | .driver (.semaphoreV _)
  | .driver (.semaphoreDestroy _) | .driver (.create ..) | .driver (.schedule _) | .driver (.finish _)
  | .driver .complete | .driver .interrupt | .driver .interruptNext => isTrue trivial

/-- A disk with four blocks. -/
def fourBlocks : Gbd := ⟨4, fun _ => Buf.const 512 7, fun _ => false⟩

/-- One thread writes a block, in two parts, and another one reads it, asking for it while it is being written. -/
def writeAndRead : List (MachineAction Bool) :=
  [.driver (.fillIn 100 ⟨3, 4096, none, .write, NULL, 0⟩), .driver (.fillIn 200 ⟨3, 8192, none, .read, NULL, 0⟩),
    .store 4097 9, .driver (.submit false 100 .write), .driver (.create false (some 8)), .driver (.schedule false),
    .dma fun i => i.val < 256, .driver (.submit true 200 .read), .driver (.create true (some 9)),
    .driver (.schedule true), .dma fun i => 256 ≤ i.val, .driver .complete, .driver .interrupt, .driver .interruptNext,
    .dma fun _ => true, .driver (.finish false), .driver .complete, .driver .interrupt, .driver .interruptNext,
    .driver (.finish true)]

theorem disk_linearizable_writeAndRead :
    ∃ m, run Machine.step (Machine.init (fun _ => 0) fourBlocks) writeAndRead = some m ∧
      Linearizable gbd fourBlocks (history Machine.step Machine.events (Machine.init (fun _ => 0) fourBlocks)
        writeAndRead) ∧
      ∀ cs, history Machine.step Machine.events (Machine.init (fun _ => 0) fourBlocks) writeAndRead =
        cs.flatMap single → Answers gbd fourBlocks cs := by
  obtain ⟨m, hm⟩ : ∃ m, run Machine.step (Machine.init (fun _ => 0) fourBlocks) writeAndRead = some m :=
    Option.isSome_iff_exists.1 (by decide +kernel)
  have hc : Every Machine.step Machine.careful (Machine.init (fun _ => 0) fourBlocks) writeAndRead := by decide +kernel
  exact ⟨m, hm, disk_linearizable (fun _ _ => rfl) hc hm⟩

end Buenos.Disk

import Buenos.Vm.Pagepool

/-!
# Memory while the system boots

`kernel/kmalloc.c`, `vm_init` and the page pool after it, in any order of calls.

* `KernelMemory` — the static variables of `kmalloc.c`; `kmallocInit`, `kmalloc`, `kmallocDisable`, `vmInit`.
* `Boot` — the memory with the blocks that `kmalloc` has handed out, and the page pool once it is there.
* `Boot.InOrder` — what holds between any two calls.

Principal result: `boot_memory`, that no two blocks overlap, no page of the pool overlaps a block or the kernel, and
`kmalloc` is closed once the pool is open.
-/

namespace Buenos.Vm

open Bytes Buenos.Transition

/-- `YAMS_MAX_DEVICES`. -/
def YAMS_MAX_DEVICES : ℕ := 128

/-- An `io_descriptor_t`, as far as `kmalloc.c` reads it; `firstWord` is the word at `io_area_base`. -/
structure IoDescriptor where
  type : UInt32
  firstWord : UInt32

/-- `kmalloc_get_numpages`; `none` is a panic. -/
def kmallocGetNumpages (area : List IoDescriptor) : Option UInt32 :=
  match (area.take YAMS_MAX_DEVICES).find? fun d => d.type == 0x101 with
  | none => none
  | some d => if d.firstWord = 0 then none else some d.firstWord

/-- The static variables of `kmalloc.c`. -/
structure KernelMemory where
  freeAreaStart : UInt32
  memoryEnd : UInt32

/-- The next word boundary, as `kmalloc_init` and `kmalloc` compute it. -/
def alignWord (a : UInt32) : UInt32 := if a &&& 0x03 ≠ 0 then (a + 4) &&& 0xfffffffc else a

/-- `kmalloc_init`, where the linker has put `KERNEL_ENDS_HERE` at `kernelEndsHere`. -/
def kmallocInit (area : List IoDescriptor) (kernelEndsHere : UInt32) : Option KernelMemory :=
  match kmallocGetNumpages area with
  | none => none
  | some numPages =>
    let systemMemorySize := numPages * UInt32.ofNat PAGE_SIZE
    some { freeAreaStart := alignWord kernelEndsHere, memoryEnd := 0x80000000 + systemMemorySize }

/-- `kmalloc`; `none` is a panic. -/
def kmalloc (m : KernelMemory) (bytes : Int32) : Option (UInt32 × KernelMemory) :=
  if m.freeAreaStart = 0xffffffff then none
  else if m.freeAreaStart = 0 then none
  else if bytes < 0 then none
  else if m.memoryEnd < m.freeAreaStart + bytes.toUInt32 then none
  else some (m.freeAreaStart, { m with freeAreaStart := alignWord (m.freeAreaStart + bytes.toUInt32) })

/-- `kmalloc_disable`. -/
def kmallocDisable (m : KernelMemory) : KernelMemory := { m with freeAreaStart := 0xffffffff }

section Model

variable (numPages : ℕ)

/-- The bytes of the bitmap of the page pool. -/
abbrev poolBytes : ℕ := bitmapSizeof numPages

/-- The memory of a machine with so many pages, while it boots: the blocks that `kmalloc` has handed out, the first one
first, and the page pool. -/
structure Boot where
  memory : KernelMemory
  blocks : List (ℕ × ℕ)
  pool : Option (Session (poolBytes numPages))

variable {numPages}

/-- `kmalloc`, with the block that it hands out. -/
def Boot.alloc (s : Boot numPages) (bytes : Int32) : Option (Boot numPages) :=
  match kmalloc s.memory bytes with
  | none => none
  | some (res, memory) =>
    some { s with memory := memory, blocks := s.blocks ++ [(res.toNat, bytes.toNatClampNeg)] }

/-- `vm_init`: `pagepool_init` with the bitmap in a new block, whose bytes are `bitmap` before, and `kmalloc_disable`. -/
def Boot.vmInit (s : Boot numPages) (bitmap : Buf (poolBytes numPages)) : Option (Boot numPages) :=
  match s.alloc (Int32.ofNat (poolBytes numPages)) with
  | none => none
  | some s => some { s with
      memory := kmallocDisable s.memory
      pool := some (Session.init bitmap numPages s.memory.freeAreaStart.toNat) }

/-- A call while the system boots, or later of the page pool. -/
inductive BootCall (numPages : ℕ) where
  | kmalloc (bytes : Int32)
  | vmInit (bitmap : Buf (poolBytes numPages))
  | page (c : PoolCall)

/-- The next call; `none` if it panics. -/
def Boot.step (s : Boot numPages) : BootCall numPages → Option (Boot numPages)
  | .kmalloc bytes => s.alloc bytes
  | .vmInit bitmap => s.vmInit bitmap
  | .page c => match s.pool with
    | none => none
    | some session => (session.step c).map fun session => { s with pool := some session }

/-- After `kmalloc_init`. -/
def Boot.init (m : KernelMemory) : Boot numPages := ⟨m, [], none⟩

/-- No block is asked for that is so large that the sum of addresses overflows, and only pages that are handed out are
freed. -/
def sensible (s : Boot numPages) : BootCall numPages → Prop
  | .kmalloc bytes => s.memory.memoryEnd.toNat + bytes.toNatClampNeg < 2 ^ 32
  | .vmInit _ => True
  | .page c => ∀ session, s.pool = some session → freesOut session c

instance freesOut.decidable {n : ℕ} (t : Session n) : ∀ c, Decidable (freesOut t c)
  | .get => isTrue trivial
  | .free physAddr => decidable_of_iff (physAddr = physAddr / PAGE_SIZE * PAGE_SIZE ∧ t.out (physAddr / PAGE_SIZE) = true)
      ⟨fun h => ⟨_, h⟩, fun ⟨i, h1, h2⟩ => by
        have hdiv : physAddr / PAGE_SIZE = i := by
          rw [h1]
          exact Nat.mul_div_cancel i (by decide)
        rw [hdiv]
        exact ⟨h1, h2⟩⟩

instance sensible.decidable (s : Boot numPages) : ∀ c, Decidable (sensible s c)
  | .kmalloc _ => inferInstanceAs (Decidable (_ < _))
  | .vmInit _ => isTrue trivial
  | .page c => match hp : s.pool with
    | none => isTrue fun session hs => by rw [hp] at hs; cases hs
    | some session => decidable_of_iff (freesOut session c)
        ⟨fun h x hx => by rw [hp] at hx; cases hx; exact h, fun h => h session hp⟩

end Model

/-! ## Word boundaries -/

section Align

variable {a : UInt32}

theorem toNat_and_three : (a &&& 0x03).toNat = a.toNat % 4 := by
  rw [UInt32.toNat_and]
  exact Nat.and_two_pow_sub_one_eq_mod a.toNat 2

theorem toNat_and_word : (a &&& 0xfffffffc).toNat = a.toNat / 4 * 4 := by
  rw [UInt32.toNat_and]
  apply Nat.eq_of_testBit_eq
  intro i
  have hmask : (0xfffffffc : UInt32).toNat = (2 ^ 30 - 1) * 2 ^ 2 := by decide
  rw [hmask, show (4 : ℕ) = 2 ^ 2 by rfl, Nat.testBit_and, Nat.testBit_mul_two_pow, Nat.testBit_mul_two_pow,
    Nat.testBit_two_pow_sub_one, Nat.testBit_div_two_pow]
  by_cases hi : 2 ≤ i
  · have hlt : a.toNat < 2 ^ 32 := a.toNat_lt
    have hhigh : ¬ i - 2 < 30 → a.toNat.testBit i = false := fun h =>
      Nat.testBit_lt_two_pow (lt_of_lt_of_le hlt (Nat.pow_le_pow_right (by decide) (by omega)))
    by_cases h30 : i - 2 < 30
    · simp [hi, h30]
    · simp [hi, h30, hhigh h30]
  · simp [hi]

/-- **The next word boundary** is the least one that is not below. -/
theorem toNat_alignWord (ha : a.toNat + 4 < 2 ^ 32) : (alignWord a).toNat = (a.toNat + 3) / 4 * 4 := by
  have hthree : a &&& 0x03 = 0 ↔ a.toNat % 4 = 0 := by
    rw [← toNat_and_three, ← UInt32.toNat_inj]
    rfl
  unfold alignWord
  by_cases h : a &&& 0x03 = 0
  · rw [if_neg (not_not.2 h)]
    have hmod := hthree.1 h
    omega
  · rw [if_pos h, toNat_and_word, UInt32.toNat_add]
    have hmod : a.toNat % 4 ≠ 0 := fun h0 => h (hthree.2 h0)
    have hfour : (4 : UInt32).toNat = 4 := by rfl
    omega

end Align

/-! ## What holds between the calls -/

section Invariant

variable {numPages kernelEnd : ℕ} {s s' : Boot numPages}

/-- The blocks lie one behind the other, behind the kernel, from word boundaries on and within the memory. -/
structure Blocks (kernelEnd memoryEnd : ℕ) (blocks : List (ℕ × ℕ)) : Prop where
  apart : blocks.Pairwise fun b b' => b.1 + b.2 ≤ b'.1
  inside : ∀ b ∈ blocks, kernelEnd ≤ b.1 ∧ b.1 + b.2 ≤ memoryEnd
  words : ∀ b ∈ blocks, 4 ∣ b.1

/-- Everything that is in use ends at `free`. -/
structure EndsAt (kernelEnd : ℕ) (blocks : List (ℕ × ℕ)) (free : ℕ) : Prop where
  kernel : kernelEnd ≤ free
  blocks : ∀ b ∈ blocks, b.1 + b.2 ≤ free

theorem EndsAt.mono {blocks : List (ℕ × ℕ)} {free free' : ℕ} (h : EndsAt kernelEnd blocks free) (hle : free ≤ free') :
    EndsAt kernelEnd blocks free' :=
  ⟨h.kernel.trans hle, fun b hb => (h.blocks b hb).trans hle⟩

/-- What holds between any two calls on a machine with so many pages whose kernel ends at `kernelEnd`. -/
structure Boot.InOrder (kernelEnd : ℕ) (s : Boot numPages) : Prop where
  memoryEnd : s.memory.memoryEnd.toNat = 0x80000000 + numPages * PAGE_SIZE
  blocks : Blocks kernelEnd (0x80000000 + numPages * PAGE_SIZE) s.blocks
  closed : (∀ session, s.pool = some session → s.memory.freeAreaStart = 0xffffffff ∧ session.Agrees ∧
    session.pool.numPages = numPages ∧
    EndsAt kernelEnd s.blocks (0x80000000 + session.pool.staticEnd * PAGE_SIZE))
  free : s.pool = none → 4 ∣ s.memory.freeAreaStart.toNat ∧
    s.memory.freeAreaStart.toNat ≤ 0x80000000 + numPages * PAGE_SIZE ∧
    EndsAt kernelEnd s.blocks s.memory.freeAreaStart.toNat

/-- The bytes of a block, as `kmalloc` adds them to an address. -/
theorem toNat_bytes {bytes : Int32} (h : ¬ bytes < 0) : bytes.toUInt32.toNat = bytes.toNatClampNeg := by
  have hpos : 0 ≤ bytes.toBitVec.toInt := by
    rw [Int32.not_lt, Int32.le_iff_toInt_le] at h
    exact h
  have hcast : bytes.toBitVec.toInt = bytes.toBitVec.toNat :=
    BitVec.toInt_eq_toNat_of_lt (BitVec.toInt_pos_iff.1 hpos)
  show bytes.toBitVec.toNat = bytes.toBitVec.toInt.toNat
  rw [hcast, Int.toNat_natCast]

/-- **When `kmalloc` hands out a block**, and what it has done then. -/
theorem Boot.InOrder.kmalloc (h : s.InOrder kernelEnd) (hk : 0x80000000 < kernelEnd)
    (hn : numPages ≤ 0x20000) (hp : s.pool = none) {bytes : Int32}
    (hsum : s.memory.memoryEnd.toNat + bytes.toNatClampNeg < 2 ^ 32) :
    (kmalloc s.memory bytes = none ↔
      bytes < 0 ∨ s.memory.memoryEnd.toNat < s.memory.freeAreaStart.toNat + bytes.toNatClampNeg) ∧
    ∀ res memory, kmalloc s.memory bytes = some (res, memory) →
      res = s.memory.freeAreaStart ∧ memory.memoryEnd = s.memory.memoryEnd ∧
      res.toNat + bytes.toNatClampNeg ≤ memory.freeAreaStart.toNat ∧ 4 ∣ memory.freeAreaStart.toNat ∧
      memory.freeAreaStart.toNat ≤ s.memory.memoryEnd.toNat := by
  obtain ⟨hfour, hle, hends⟩ := h.free hp
  have hend := h.memoryEnd
  have hkernel := hends.kernel
  unfold PAGE_SIZE at *
  have hne : s.memory.freeAreaStart ≠ 0xffffffff := by
    intro he
    rw [he, show (0xffffffff : UInt32).toNat = 4294967295 by rfl] at hle
    omega
  have hzero : s.memory.freeAreaStart ≠ 0 := by
    intro he
    rw [he, show (0 : UInt32).toNat = 0 by rfl] at hkernel
    omega
  unfold Vm.kmalloc
  rw [if_neg hne, if_neg hzero]
  by_cases hneg : bytes < 0
  · rw [if_pos hneg]
    simp [hneg]
  have hbytes := toNat_bytes hneg
  have hadd : (s.memory.freeAreaStart + bytes.toUInt32).toNat =
      s.memory.freeAreaStart.toNat + bytes.toNatClampNeg := by
    rw [UInt32.toNat_add, hbytes]
    omega
  have hlt : s.memory.memoryEnd < s.memory.freeAreaStart + bytes.toUInt32 ↔
      s.memory.memoryEnd.toNat < s.memory.freeAreaStart.toNat + bytes.toNatClampNeg := by
    rw [UInt32.lt_iff_toNat_lt, hadd]
  rw [if_neg hneg]
  by_cases hroom : s.memory.memoryEnd.toNat < s.memory.freeAreaStart.toNat + bytes.toNatClampNeg
  · rw [if_pos (hlt.2 hroom)]
    simp [hroom]
  · rw [if_neg (hlt.not.2 hroom)]
    refine ⟨by simp [hneg, hroom], fun res memory he => ?_⟩
    cases he
    have halign := toNat_alignWord (a := s.memory.freeAreaStart + bytes.toUInt32) (by rw [hadd]; omega)
    rw [hadd] at halign
    simp only
    refine ⟨trivial, trivial, by omega, by omega, by omega⟩

theorem Blocks.append {memoryEnd free : ℕ} {blocks : List (ℕ × ℕ)} (h : Blocks kernelEnd memoryEnd blocks)
    (hends : EndsAt kernelEnd blocks free) (hfour : 4 ∣ free) {size : ℕ} (hroom : free + size ≤ memoryEnd) :
    Blocks kernelEnd memoryEnd (blocks ++ [(free, size)]) := by
  refine ⟨?_, fun b hb => ?_, fun b hb => ?_⟩
  · apply List.pairwise_append.2
    refine ⟨h.apart, List.pairwise_singleton _ _, fun b hb b' hb' => ?_⟩
    rw [List.mem_singleton.1 hb']
    exact hends.blocks b hb
  · rcases List.mem_append.1 hb with hb | hb
    · exact h.inside b hb
    · rw [List.mem_singleton.1 hb]
      exact ⟨hends.kernel, hroom⟩
  · rcases List.mem_append.1 hb with hb | hb
    · exact h.words b hb
    · rw [List.mem_singleton.1 hb]
      exact hfour

/-- **`kmalloc`** keeps the order. -/
theorem Boot.InOrder.alloc (h : s.InOrder kernelEnd) (hk : 0x80000000 < kernelEnd) (hn : numPages ≤ 0x20000)
    {bytes : Int32} (hsum : s.memory.memoryEnd.toNat + bytes.toNatClampNeg < 2 ^ 32)
    (hs : s.alloc bytes = some s') : s'.InOrder kernelEnd ∧ s'.pool = none := by
  have hpool : s.pool = none := by
    cases hp : s.pool with
    | none => rfl
    | some session =>
      unfold Boot.alloc Vm.kmalloc at hs
      rw [if_pos (h.closed session hp).1] at hs
      cases hs
  obtain ⟨hfour, hle, hends⟩ := h.free hpool
  unfold Boot.alloc at hs
  rcases hm : Vm.kmalloc s.memory bytes with _ | ⟨res, memory⟩
  · rw [hm] at hs
    cases hs
  rw [hm] at hs
  cases hs
  obtain ⟨rfl, hend, hfree, hword, hroom⟩ := (h.kmalloc hk hn hpool hsum).2 res memory hm
  rw [h.memoryEnd] at hroom
  have hgrow : s.memory.freeAreaStart.toNat ≤ memory.freeAreaStart.toNat := le_trans (Nat.le_add_right _ _) hfree
  refine ⟨⟨hend ▸ h.memoryEnd, h.blocks.append hends hfour (hfree.trans hroom), fun session hp => ?_, fun _ =>
    ⟨hword, hroom, hends.kernel.trans hgrow, fun b hb => ?_⟩⟩, hpool⟩
  · rw [hpool] at hp
    cases hp
  · rcases List.mem_append.1 hb with hb | hb
    · exact (hends.blocks b hb).trans hgrow
    · rw [List.mem_singleton.1 hb]
      exact hfree

/-- All that is in use lies in the pages that `pagepool_init` reserves. -/
theorem EndsAt.reserved {blocks : List (ℕ × ℕ)} {free : ℕ} (h : EndsAt kernelEnd blocks free)
    (hk : 0x80000000 < kernelEnd) :
    EndsAt kernelEnd blocks (0x80000000 + kmallocGetReservedPages free * PAGE_SIZE) := by
  refine h.mono ?_
  have hkernel := h.kernel
  unfold kmallocGetReservedPages PAGE_SIZE
  split
  · omega
  · omega

/-- **`vm_init`** closes `kmalloc` and opens the pool. -/
theorem Boot.InOrder.vmInit (h : s.InOrder kernelEnd) (hk : 0x80000000 < kernelEnd) (hn : numPages ≤ 0x20000)
    {bitmap : Buf (poolBytes numPages)} (hs : s.vmInit bitmap = some s') : s'.InOrder kernelEnd := by
  have hsmall : poolBytes numPages < 2 ^ 31 := by
    unfold poolBytes bitmapSizeof
    omega
  have hclamp : (Int32.ofNat (poolBytes numPages)).toNatClampNeg = poolBytes numPages := by
    rw [Int32.toNatClampNeg_ofNat_of_lt hsmall]
  have hsum : s.memory.memoryEnd.toNat + (Int32.ofNat (poolBytes numPages)).toNatClampNeg < 2 ^ 32 := by
    rw [hclamp, h.memoryEnd]
    unfold poolBytes bitmapSizeof PAGE_SIZE
    omega
  unfold Boot.vmInit at hs
  cases ha : s.alloc (Int32.ofNat (poolBytes numPages)) with
  | none =>
    rw [ha] at hs
    cases hs
  | some s1 =>
    rw [ha] at hs
    cases hs
    obtain ⟨h1, hpool⟩ := h.alloc hk hn hsum ha
    obtain ⟨-, hle, hends⟩ := h1.free hpool
    have hagrees : (Session.init bitmap numPages s1.memory.freeAreaStart.toNat).Agrees :=
      Session.Agrees.init rfl (lt_of_lt_of_le hk hends.kernel) hle
    refine ⟨h1.memoryEnd, h1.blocks, fun session hp => ?_, fun hp => by cases hp⟩
    obtain rfl : Session.init bitmap numPages s1.memory.freeAreaStart.toNat = session := Option.some.inj hp
    have hstatic : (Session.init bitmap numPages s1.memory.freeAreaStart.toNat).pool.staticEnd =
        kmallocGetReservedPages s1.memory.freeAreaStart.toNat := rfl
    refine ⟨rfl, hagrees, rfl, ?_⟩
    rw [hstatic]
    exact hends.reserved hk

/-- A call of the page pool changes no counts of pages. -/
theorem Session.step_same {n : ℕ} {t t' : Session n} {c : PoolCall} (ht : t.step c = some t') :
    t'.pool.numPages = t.pool.numPages ∧ t'.pool.staticEnd = t.pool.staticEnd := by
  cases c with
  | get =>
    obtain ⟨⟨a, p⟩, hp, rfl⟩ := Option.map_eq_some_iff.1 ht
    unfold getPhysPage at hp
    split at hp
    · simp only at hp
      split at hp
      · cases hp
      · split at hp
        · cases hp
          exact ⟨rfl, rfl⟩
        · cases hp
    · cases hp
      exact ⟨rfl, rfl⟩
  | free physAddr =>
    obtain ⟨p, hp, rfl⟩ := Option.map_eq_some_iff.1 ht
    unfold freePhysPage at hp
    simp only at hp
    split at hp
    · cases hp
    · split at hp
      · cases hp
        exact ⟨rfl, rfl⟩
      · cases hp

/-- **Every call** that does not panic keeps the order. -/
theorem Boot.InOrder.step (h : s.InOrder kernelEnd) (hk : 0x80000000 < kernelEnd) (hn : numPages ≤ 0x20000)
    {c : BootCall numPages} (hc : sensible s c) (hs : s.step c = some s') : s'.InOrder kernelEnd := by
  cases c with
  | kmalloc bytes => exact (h.alloc hk hn hc hs).1
  | vmInit bitmap => exact h.vmInit hk hn hs
  | page c =>
    unfold Boot.step at hs
    cases hp : s.pool with
    | none =>
      rw [hp] at hs
      cases hs
    | some session =>
      rw [hp] at hs
      obtain ⟨session', hsession, rfl⟩ := Option.map_eq_some_iff.1 hs
      obtain ⟨hclosed, hagrees, hnum, hends⟩ := h.closed session hp
      obtain ⟨t, ht, hagrees'⟩ := hagrees.step (hc session hp)
      obtain rfl : t = session' := Option.some.inj (ht.symm.trans hsession)
      obtain ⟨hnum', hstatic⟩ := Session.step_same ht
      refine ⟨h.memoryEnd, h.blocks, fun x hx => ?_, fun hx => by cases hx⟩
      cases hx
      exact ⟨hclosed, hagrees', hnum'.trans hnum, hstatic ▸ hends⟩

theorem Boot.InOrder.init {area : List IoDescriptor} {kernelEndsHere w : UInt32} {m : KernelMemory}
    (hw : kmallocGetNumpages area = some w) (hnum : w.toNat = numPages) (hn : numPages ≤ 0x20000)
    (hend : kernelEndsHere.toNat ≤ 0x80000000 + numPages * PAGE_SIZE)
    (hm : kmallocInit area kernelEndsHere = some m) :
    (Boot.init m : Boot numPages).InOrder kernelEndsHere.toNat := by
  unfold kmallocInit at hm
  rw [hw] at hm
  cases hm
  have hmemory : ((0x80000000 : UInt32) + w * UInt32.ofNat PAGE_SIZE).toNat = 0x80000000 + numPages * PAGE_SIZE := by
    have hpage : (UInt32.ofNat PAGE_SIZE).toNat = PAGE_SIZE := by rfl
    have hbase : (0x80000000 : UInt32).toNat = 0x80000000 := by rfl
    rw [UInt32.toNat_add, UInt32.toNat_mul, hpage, hbase, hnum]
    unfold PAGE_SIZE
    omega
  have halign : (alignWord kernelEndsHere).toNat = (kernelEndsHere.toNat + 3) / 4 * 4 := by
    apply toNat_alignWord
    unfold PAGE_SIZE at hend
    omega
  refine ⟨hmemory, ⟨List.Pairwise.nil, by simp [Boot.init], by simp [Boot.init]⟩, fun session hp => (by cases hp), fun _ =>
    ⟨?_, ?_, ?_, by simp [Boot.init]⟩⟩
  · show 4 ∣ (alignWord kernelEndsHere).toNat
    omega
  · show (alignWord kernelEndsHere).toNat ≤ _
    unfold PAGE_SIZE at *
    omega
  · show _ ≤ (alignWord kernelEndsHere).toNat
    omega

/-- `ADDR_PHYS_TO_KERNEL`. -/
def ADDR_PHYS_TO_KERNEL (addr : ℕ) : ℕ := addr ||| 0x80000000

theorem ADDR_PHYS_TO_KERNEL_eq {addr : ℕ} (h : addr < 2 ^ 31) : ADDR_PHYS_TO_KERNEL addr = 0x80000000 + addr := by
  have hor := Nat.two_pow_add_eq_or_of_lt h 1
  rw [ADDR_PHYS_TO_KERNEL, Nat.lor_comm]
  exact hor.symm

/-- What the users of the memory rely on: blocks lie apart, in the memory and behind the kernel; so do the pages that the
pool has handed out; `kmalloc` panics once the pool is there, and before it just when there is no room; and the pool
does not panic. -/
structure Boot.Safe (kernelEnd : ℕ) (s : Boot numPages) : Prop where
  blocks : Blocks kernelEnd (0x80000000 + numPages * PAGE_SIZE) s.blocks
  pages : ∀ session, s.pool = some session → ∀ i, session.out i = true →
    i < numPages ∧ EndsAt kernelEnd s.blocks (ADDR_PHYS_TO_KERNEL (i * PAGE_SIZE))
  closed : s.pool ≠ none → ∀ bytes, Vm.kmalloc s.memory bytes = none
  opened : s.pool = none → ∀ bytes, s.memory.memoryEnd.toNat + bytes.toNatClampNeg < 2 ^ 32 →
    (Vm.kmalloc s.memory bytes = none ↔
      bytes < 0 ∨ s.memory.memoryEnd.toNat < s.memory.freeAreaStart.toNat + bytes.toNatClampNeg)
  calls : ∀ session c, s.pool = some session → freesOut session c → session.step c ≠ none

theorem Boot.InOrder.safe (h : s.InOrder kernelEnd) (hk : 0x80000000 < kernelEnd) (hn : numPages ≤ 0x20000) :
    s.Safe kernelEnd := by
  refine ⟨h.blocks, fun session hp i hi => ?_, fun hp bytes => ?_, fun hp bytes hsum => (h.kmalloc hk hn hp hsum).1,
    fun session c hp hc => ?_⟩
  · obtain ⟨-, hagrees, hnum, hends⟩ := h.closed session hp
    obtain ⟨hstatic, hlt⟩ := hagrees.out i hi
    rw [hnum] at hlt
    have haddr : i * PAGE_SIZE < 2 ^ 31 := by
      unfold PAGE_SIZE
      omega
    rw [ADDR_PHYS_TO_KERNEL_eq haddr]
    exact ⟨hlt, hends.mono (Nat.add_le_add_left (Nat.mul_le_mul_right _ hstatic) _)⟩
  · obtain ⟨session, hsome⟩ := Option.ne_none_iff_exists'.1 hp
    unfold Vm.kmalloc
    rw [if_pos (h.closed session hsome).1]
  · obtain ⟨t, ht, -⟩ := (h.closed session hp).2.1.step hc
    rw [ht]
    exact Option.some_ne_none t

end Invariant

/-! ## From the start -/

/-- **Boot memory is safe**: on a machine whose memory the unmapped segment can show, every run of calls to `kmalloc`,
then `vm_init`, then the page pool keeps all that is handed out apart. -/
theorem boot_memory {area : List IoDescriptor} {kernelEndsHere w : UInt32} {m : KernelMemory}
    (hw : kmallocGetNumpages area = some w) (hn : w.toNat ≤ 0x20000) (hk : 0x80000000 < kernelEndsHere.toNat)
    (hend : kernelEndsHere.toNat ≤ 0x80000000 + w.toNat * PAGE_SIZE) (hm : kmallocInit area kernelEndsHere = some m)
    {cs : List (BootCall w.toNat)} (hcs : Every Boot.step sensible (Boot.init m) cs) {s : Boot w.toNat}
    (hr : run Boot.step (Boot.init m) cs = some s) : s.Safe kernelEndsHere.toNat := by
  have hi : (Boot.init m : Boot w.toNat).InOrder kernelEndsHere.toNat := .init hw rfl hn hend hm
  exact (run_invariant (fun hc h hs => h.step hk hn hc hs) hi hcs hr).safe hk hn

/-- A machine with 40 pages: two blocks are handed out, the second of an odd length, then two pages, and one comes back. -/
def fortyPages : List IoDescriptor := [⟨0x201, 7⟩, ⟨0x101, 40⟩]

def bootCalls : List (BootCall (40 : UInt32).toNat) :=
  [.kmalloc 100, .kmalloc 5, .vmInit (Buf.const 8 0xff), .page .get, .page .get, .page (.free 0x14000)]

theorem boot_memory_fortyPages :
    ∃ m s, kmallocInit fortyPages 0x80012345 = some m ∧ run Boot.step (Boot.init m) bootCalls = some s ∧
      s.Safe (0x80012345 : UInt32).toNat := by
  have hw : kmallocGetNumpages fortyPages = some 40 := by decide +kernel
  have hm : kmallocInit fortyPages 0x80012345 = some ⟨0x80012348, 0x80028000⟩ := by
    rw [kmallocInit, hw]
    rfl
  have hcs : Every Boot.step sensible (Boot.init ⟨0x80012348, 0x80028000⟩) bootCalls := by decide +kernel
  obtain ⟨s, hs⟩ : ∃ s, run Boot.step (Boot.init ⟨0x80012348, 0x80028000⟩) bootCalls = some s :=
    Option.isSome_iff_exists.1 (by decide +kernel)
  have hk : 0x80000000 < (0x80012345 : UInt32).toNat := by decide +kernel
  have hend : (0x80012345 : UInt32).toNat ≤ 0x80000000 + (40 : UInt32).toNat * PAGE_SIZE := by decide +kernel
  exact ⟨_, s, hm, hs, boot_memory hw (by decide) hk hend hm hcs hs⟩

end Buenos.Vm

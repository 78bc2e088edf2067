import Buenos.Lib.Libc
import Buenos.Lib.Words
import Buenos.Net.Delivery
import Buenos.Vm.Pagetable

/-!
# What POP copies out of a frame

The transfer of `pop_service_thread` at the level of memory: a frame's payload area is the rest of its page behind
`network_frame_header_t`, and the size of the data is a field of the POP header in it.

* `popTransfer` — the copying and the return variables.
* `Inside` — the property: only bytes of the payload area are copied, into the receiver's buffer.
* `HoldsFrame` — a frame of the model of the service thread lies in memory.

Principal results: `popTransfer_inside` — the property holds just when the size field or the length of the buffer is
at most 4076, and `popTransfer_deliver`, that the transfer gives what `deliver` gives.
-/

namespace Buenos.Pop

open Buenos.Vm (PAGE_SIZE)

/-! ## The transfer -/

/-- `sizeof(network_frame_header_t)`. -/
def FRAME_HEADER_SIZE : ℕ := 12

/-- `sizeof(pop_header_t)`. -/
def POP_HEADER_SIZE : ℕ := 8

/-- The length of `payload` in `network_frame_t`. -/
def PAYLOAD_SIZE : ℕ := PAGE_SIZE - FRAME_HEADER_SIZE

/-- `f->source_port`. -/
def sourcePort (mem : Memory) (f : ℕ) : UInt16 := UInt16.ofNat (2 ^ 8 * (mem f).toNat + (mem (f + 1)).toNat)

/-- `f->size`. -/
def frameSize (mem : Memory) (f : ℕ) : UInt32 := UInt32.ofNat (loadWord mem (f + 4))

/-- The memory and the return variables after a transfer. -/
structure Reception where
  mem : Memory
  sender : UInt32
  copied : ℤ
  sport : UInt16

/-- The transfer of `pop_service_thread` of a frame whose payload area is at `f`. -/
def popTransfer (mem : Memory) (f : ℕ) (fromAddr : UInt32) (rbuf : ℕ) (bufsize : UInt32) : Reception :=
  let bytes := int (MIN (frameSize mem f) bufsize)
  let mem := memcopy mem bytes rbuf (f + POP_HEADER_SIZE)
  ⟨mem, fromAddr, bytes, sourcePort mem f⟩

/-- All that was copied is from the payload area of the frame at `f`, behind the POP header; at most `buflength`
bytes have been written to the buffer and nothing else, and their number is reported. -/
def Inside (mem : Memory) (f rbuf buflength : ℕ) (r : Reception) : Prop :=
  ∃ n : ℕ, r.copied = n ∧ n ≤ buflength ∧ Copied mem r.mem rbuf (f + POP_HEADER_SIZE) n ∧
    ∀ i < n, POP_HEADER_SIZE + i < PAYLOAD_SIZE

/-- The buffer lies outside the payload area of the frame. -/
def Outside (f rbuf buflength : ℕ) : Prop := rbuf + buflength ≤ f ∨ f + PAYLOAD_SIZE ≤ rbuf

section

variable {mem : Memory} {f rbuf buflength : ℕ} {fromAddr bufsize : UInt32}

theorem frameSize_toNat (mem : Memory) (f : ℕ) : (frameSize mem f).toNat = loadWord mem (f + 4) := by
  have hlt : loadWord mem (f + 4) < 2 ^ 32 := by
    have h0 := (mem (f + 4)).toNat_lt
    have h1 := (mem (f + 4 + 1)).toNat_lt
    have h2 := (mem (f + 4 + 2)).toNat_lt
    have h3 := (mem (f + 4 + 3)).toNat_lt
    unfold loadWord
    omega
  rw [frameSize, UInt32.toNat_ofNat']
  exact Nat.mod_eq_of_lt hlt

/-- The number of bytes is not negative, as the length of the buffer is an `int`. -/
theorem popTransfer_copied (hint : bufsize.toNat < 2 ^ 31) :
    (popTransfer mem f fromAddr rbuf bufsize).copied = (min (loadWord mem (f + 4)) bufsize.toNat : ℕ) := by
  show int (MIN _ _) = _
  have hmin : (MIN (frameSize mem f) bufsize).toNat = min (loadWord mem (f + 4)) bufsize.toNat := by
    rw [MIN_toNat, frameSize_toNat]
  rw [int_eq (by omega), hmin]

/-- A copy that ends in the payload area. -/
theorem popTransfer_mem {n : ℕ} (hn : (popTransfer mem f fromAddr rbuf bufsize).copied = n) (hle : n ≤ buflength)
    (hpage : POP_HEADER_SIZE + n ≤ PAYLOAD_SIZE) (hout : Outside f rbuf buflength) :
    Copied mem (popTransfer mem f fromAddr rbuf bufsize).mem rbuf (f + POP_HEADER_SIZE) n := by
  have hapart : Apart rbuf (f + POP_HEADER_SIZE) n := by
    unfold Outside at hout
    unfold Apart
    omega
  have hmem : (popTransfer mem f fromAddr rbuf bufsize).mem = memcopy mem n rbuf (f + POP_HEADER_SIZE) := by
    rw [← hn]
    rfl
  rw [hmem]
  exact memcopy_copied mem hapart

/-- **POP reception stays inside the frame** just when the size field of the frame or the length of the buffer is at
most the length of the payload area behind the POP header. -/
theorem popTransfer_inside (mem : Memory) (f rbuf buflength : ℕ) (fromAddr : UInt32) (hint : buflength < 2 ^ 31)
    (hout : Outside f rbuf buflength) :
    Inside mem f rbuf buflength (popTransfer mem f fromAddr rbuf (UInt32.ofNat buflength)) ↔
      loadWord mem (f + 4) ≤ PAYLOAD_SIZE - POP_HEADER_SIZE ∨ buflength ≤ PAYLOAD_SIZE - POP_HEADER_SIZE := by
  have hsize : (UInt32.ofNat buflength).toNat = buflength := by
    rw [UInt32.toNat_ofNat']
    omega
  have hcopied : (popTransfer mem f fromAddr rbuf (UInt32.ofNat buflength)).copied =
      (min (loadWord mem (f + 4)) buflength : ℕ) := by
    rw [popTransfer_copied (by omega), hsize]
  have hheader : POP_HEADER_SIZE < PAYLOAD_SIZE := by decide
  constructor
  · rintro ⟨n, hn, -, -, hinside⟩
    have hmin : n = min (loadWord mem (f + 4)) buflength := by
      rw [hcopied] at hn
      exact (Int.ofNat.inj hn).symm
    by_contra hno
    have hlast := hinside (n - 1) (by omega)
    omega
  · intro hle
    refine ⟨_, hcopied, min_le_right _ _, popTransfer_mem hcopied (min_le_right _ _) (by omega) hout, ?_⟩
    intro i hi
    omega

/-- A frame lies in memory: its POP header and, in the rest of the payload area, the bytes behind it. -/
structure HoldsFrame (mem : Memory) (f : ℕ) (fr : Frame) : Prop where
  sourcePort : sourcePort mem f = fr.sourcePort
  size : loadWord mem (f + 4) = fr.size.toNat
  length : POP_HEADER_SIZE + fr.payload.length = PAYLOAD_SIZE
  payload : HoldsBytes mem (f + POP_HEADER_SIZE) fr.payload

/-- **The transfer in memory gives what the service thread delivers**, where it stays inside the frame. -/
theorem popTransfer_deliver {fr : Frame} (hframe : HoldsFrame mem f fr) (hint : buflength < 2 ^ 31)
    (hout : Outside f rbuf buflength) (hinside : min fr.size.toNat buflength ≤ fr.payload.length) :
    ∃ n : ℕ, (popTransfer mem f fromAddr rbuf (UInt32.ofNat buflength)).copied = n ∧
      let r := popTransfer mem f fromAddr rbuf (UInt32.ofNat buflength)
      written fromAddr fr buflength = ⟨some (bytesAt r.mem rbuf n), some r.sender, some r.sport, some n⟩ := by
  have hsize : (UInt32.ofNat buflength).toNat = buflength := by
    rw [UInt32.toNat_ofNat']
    omega
  have hcopied : (popTransfer mem f fromAddr rbuf (UInt32.ofNat buflength)).copied =
      (min fr.size.toNat buflength : ℕ) := by
    rw [popTransfer_copied (by omega), hsize, hframe.size]
  have hlength := hframe.length
  have hmem := popTransfer_mem hcopied (min_le_right _ _) (by omega) hout
  have hholds : HoldsBytes (popTransfer mem f fromAddr rbuf (UInt32.ofNat buflength)).mem rbuf
      (fr.payload.take (min fr.size.toNat buflength)) := by
    intro i hi
    rw [List.length_take] at hi
    rw [hmem.inside i (by omega), hframe.payload i (by omega), List.getD_eq_getElem _ _ (by omega),
      List.getD_eq_getElem _ _ (by rw [List.length_take]; omega), List.getElem_take]
  -- the header of the frame is not written to
  have hheader : ∀ i < 2, (popTransfer mem f fromAddr rbuf (UInt32.ofNat buflength)).mem (f + i) = mem (f + i) := by
    intro i hi
    apply hmem.outside
    unfold Outside at hout
    have : POP_HEADER_SIZE = 8 := rfl
    omega
  have hsport : (popTransfer mem f fromAddr rbuf (UInt32.ofNat buflength)).sport = fr.sourcePort := by
    rw [← hframe.sourcePort]
    show Pop.sourcePort (popTransfer mem f fromAddr rbuf (UInt32.ofNat buflength)).mem f = Pop.sourcePort mem f
    have hfirst := hheader 0 (by omega)
    rw [Nat.add_zero] at hfirst
    rw [Pop.sourcePort, Pop.sourcePort, hheader 1 (by omega), hfirst]
  refine ⟨_, hcopied, ?_⟩
  have hbytes := hholds.bytesAt
  rw [List.length_take, min_eq_left hinside] at hbytes
  simp only [written, hbytes, hsport]
  rfl

end

/-- A frame at address 12 with nothing but its size field, 5 or 5000. -/
def sizedFrame (size : ℕ) : Memory := storeWord (fun _ => 0) 16 size

theorem popTransfer_inside_small :
    Inside (sizedFrame 5) 12 8192 100 (popTransfer (sizedFrame 5) 12 7 8192 (UInt32.ofNat 100)) :=
  (popTransfer_inside (sizedFrame 5) 12 8192 100 7 (by decide) (Or.inr (by decide))).2 (Or.inr (by decide))

/-- **A frame that claims 5000 bytes**: 924 bytes behind its page are copied to a receiver with as much room. -/
theorem popTransfer_outside :
    ¬ Inside (sizedFrame 5000) 12 8192 5000 (popTransfer (sizedFrame 5000) 12 7 8192 (UInt32.ofNat 5000)) := by
  intro h
  have hle := (popTransfer_inside (sizedFrame 5000) 12 8192 5000 7 (by decide) (Or.inr (by decide))).1 h
  revert hle
  decide

end Buenos.Pop

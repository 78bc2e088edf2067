import Buenos.Base.Ring
import Buenos.Base.Transition
import Mathlib.Data.List.ModifyLast

/-!
# The terminal driver

The functions `tty_write`, `tty_read` and `tty_interrupt_handle` of `drivers/tty.c` with the two rings of a
`tty_real_device_t`, run by any number of contexts (threads and interrupts) at once.

* `Pc` — where a context is; a step is one turn of a loop or one acquisition of the spinlock.
* `Action` — a call, a step, or a read of the status or data port; what the device answers is part of
  the action, so it may be busy or idle at any point.
* `State` — the rings and the spinlock, with the history of the data port and of the callers' buffers.

Principal results: `Places.step`, where the contexts are and who holds the spinlock, and `tty_output`, what
is given to the device.
-/

namespace Buenos.Tty

open Transition

/-- `TTY_BUF_SIZE`. -/
def TTY_BUF_SIZE : ℕ := 2048

/-- Where a context is: outside, in `tty_write`, in `tty_read` or in `tty_interrupt_handle`. -/
inductive Pc where
  | outside
  /-- Before the first `spinlock_acquire`. -/
  | writeEnter
  /-- At `while (i < len)`. -/
  | writeLoop
  /-- At `while (write_count > 0)`. -/
  | writeWait
  /-- In the `thread_switch`, on the sleep queue of `write_buf`. -/
  | writeAsleep
  /-- Before the `spinlock_acquire` after it. -/
  | writeReenter
  /-- At `while (write_count < TTY_BUF_SIZE && i < len)`. -/
  | writeFill
  /-- At the test of `WBUSY`. -/
  | writeStart
  /-- Before a `spinlock_acquire`. -/
  | readEnter (len : ℤ)
  /-- At `while (read_count == 0)`. -/
  | readWait (len : ℤ)
  /-- In the `thread_switch`, on the sleep queue of `read_buf`. -/
  | readAsleep (len : ℤ)
  /-- At `while (read_count > 0 && i < len)`. -/
  | readCopy (len i : ℤ)
  /-- At the test of `WIRQ`. -/
  | handler
  | handlerWriteEnter
  /-- At `while (!WBUSY && write_count > 0)`. -/
  | handlerWrite
  /-- At the test of `RIRQ`. -/
  | handlerReadTest
  | handlerReadEnter
  /-- At the test of `ERROR`. -/
  | handlerReadCheck
  /-- At `while (RAVAIL)`. -/
  | handlerRead
  /-- Before `sleepq_wake_all(read_buf)`. -/
  | handlerWake
  /-- In `KERNEL_PANIC`. -/
  | panicked
  deriving DecidableEq

/-- The spinlock is held there. -/
def Pc.holds : Pc → Bool
  | .writeLoop | .writeWait | .writeFill | .writeStart | .readWait _ | .readCopy _ _ | .handlerWrite
  | .handlerReadCheck | .handlerRead => true
  | _ => false

/-- Inside `tty_write`. -/
def Pc.writing : Pc → Bool
  | .writeEnter | .writeLoop | .writeWait | .writeAsleep | .writeReenter | .writeFill | .writeStart => true
  | _ => false

/-- `sleepq_wake_all(write_buf)` for one context. -/
def Pc.wakeWrite : Pc → Pc
  | .writeAsleep => .writeReenter
  | p => p

/-- `sleepq_wake_all(read_buf)` for one context. -/
def Pc.wakeRead : Pc → Pc
  | .readAsleep len => .readEnter len
  | p => p

/-- One call of `tty_write`: its arguments and its local variable. -/
structure WriteCall where
  buf : ℕ → UInt8
  len : ℤ
  i : ℕ

/-- Characters that one owner has put into a ring or taken out of it in one go. -/
structure Chunk (κ : Type) where
  owner : κ
  data : List UInt8

/-- All characters, oldest chunk first. -/
def flow {κ : Type} (cs : List (Chunk κ)) : List UInt8 := (cs.map Chunk.data).flatten

/-- One more character in the newest chunk. -/
def extend {κ : Type} (cs : List (Chunk κ)) (x : UInt8) : List (Chunk κ) :=
  cs.modifyLast fun c => ⟨c.owner, c.data ++ [x]⟩

/-- A `tty_real_device_t` and its users. The call number `n` of context `t` is `calls (t, n)`. -/
structure State (τ : Type) where
  slock : Option τ
  read : Ring UInt8
  write : Ring UInt8
  pc : τ → Pc
  /-- The characters read from the data port, each with the `read_count` at that time. -/
  received : List (UInt8 × ℤ)
  /-- The characters copied by `tty_read`, one chunk for each call. -/
  reads : List (Chunk τ)
  /-- The characters written to the data port. -/
  sent : List UInt8
  /-- The characters put into the ring by `tty_write`, one chunk for each run of its filling loop. -/
  chunks : List (Chunk (τ × ℕ))
  calls : τ × ℕ → WriteCall
  /-- The number of calls of `tty_write` that have returned. -/
  made : τ → ℕ

inductive Action (τ : Type) where
  | ttyWrite (t : τ) (buf : ℕ → UInt8) (len : ℤ)
  | ttyRead (t : τ) (len : ℤ)
  | interrupt (t : τ)
  | acquire (t : τ)
  | go (t : τ)
  /-- Test one bit of the status port. -/
  | poll (t : τ) (bit : Bool)
  /-- Test `RAVAIL`, and read the data port if it is set. -/
  | take (t : τ) (data : Option UInt8)

namespace State

variable {τ : Type} [DecidableEq τ] (s : State τ) (t : τ)

/-- `tty_init`. -/
def init (τ : Type) : State τ where
  slock := none
  read := ⟨fun _ => 0, 0, 0⟩
  write := ⟨fun _ => 0, 0, 0⟩
  pc := fun _ => .outside
  received := []
  reads := []
  sent := []
  chunks := []
  calls := fun _ => ⟨fun _ => 0, 0, 0⟩
  made := fun _ => 0

def setPc (p : Pc) : State τ := { s with pc := Function.update s.pc t p }

/-- `spinlock_acquire`. -/
def lock (p : Pc) : Option (State τ) :=
  match s.slock with
  | none => some { s.setPc t p with slock := some t }
  | some _ => none

/-- `spinlock_release`. -/
def unlock (p : Pc) : State τ := { s.setPc t p with slock := none }

/-- The call of `tty_write` that the context is in, or will make next. -/
def call : WriteCall := s.calls (t, s.made t)

/-- The chunk that a filling loop begins with. -/
def beginChunk : State τ := { s with chunks := s.chunks ++ [⟨(t, s.made t), []⟩] }

/-- `write_buf[(write_head + write_count) % TTY_BUF_SIZE] = buf[i++]; write_count++`. -/
def fill : State τ :=
  { s with
    write := s.write.push TTY_BUF_SIZE ((s.call t).buf (s.call t).i)
    chunks := extend s.chunks ((s.call t).buf (s.call t).i)
    calls := Function.update s.calls (t, s.made t) { s.call t with i := (s.call t).i + 1 } }

/-- `data = write_buf[write_head]; write_head = (write_head + 1) % TTY_BUF_SIZE; write_count--`. -/
def transmit : State τ :=
  { s with write := s.write.pop TTY_BUF_SIZE, sent := s.sent ++ [s.write.front] }

/-- The body of the loop over `RAVAIL`. -/
def receive (data : UInt8) : State τ :=
  { s with
    received := s.received ++ [(data, s.read.count)]
    -- A full ring: `continue`.
    read := if s.read.count > TTY_BUF_SIZE then s.read else s.read.push TTY_BUF_SIZE data }

/-- The buffer that the copying loop of `tty_read` begins with. -/
def beginRead : State τ := { s with reads := s.reads ++ [⟨t, []⟩] }

/-- `buf[i++] = read_buf[read_head]; read_head = (read_head + 1) % TTY_BUF_SIZE; read_count--`. -/
def deliver : State τ :=
  { s with read := s.read.pop TTY_BUF_SIZE, reads := extend s.reads s.read.front }

/-- The steps that read no port. -/
def go : Option (State τ) :=
  match s.pc t with
  | .writeLoop =>
    if (s.call t).i < (s.call t).len then some (s.setPc t .writeWait)
    else some { s.unlock t .outside with made := Function.update s.made t (s.made t + 1) }
  | .writeWait =>
    if s.write.count > 0 then some (s.unlock t .writeAsleep)
    else some ((s.beginChunk t).setPc t .writeFill)
  | .writeFill =>
    if s.write.count < TTY_BUF_SIZE ∧ (s.call t).i < (s.call t).len then some (s.fill t)
    else some (s.setPc t .writeStart)
  | .readWait len =>
    if s.read.count = 0 then some (s.unlock t (.readAsleep len))
    else some ((s.beginRead t).setPc t (.readCopy len 0))
  | .readCopy len i =>
    if s.read.count > 0 ∧ i < len then some (s.deliver.setPc t (.readCopy len (i + 1)))
    else some (s.unlock t .outside)
  | .handlerWake =>
    some ({ s with pc := fun u => (s.pc u).wakeRead }.setPc t .outside)
  | _ => none

/-- The steps that test a bit of the status port. -/
def poll (bit : Bool) : Option (State τ) :=
  match s.pc t with
  | .writeStart =>
    -- `WBUSY`
    if bit then some (s.setPc t .writeLoop) else some (s.transmit.setPc t .writeLoop)
  | .handler =>
    -- `WIRQ`
    if bit then some (s.setPc t .handlerWriteEnter) else some (s.setPc t .handlerReadTest)
  | .handlerWrite =>
    -- `WBUSY`
    if ¬ bit ∧ s.write.count > 0 then some s.transmit
    else if s.write.count = 0 then
      some ({ s with pc := fun u => (s.pc u).wakeWrite }.unlock t .handlerReadTest)
    else some (s.unlock t .handlerReadTest)
  | .handlerReadTest =>
    -- `RIRQ`
    if bit then some (s.setPc t .handlerReadEnter) else some (s.setPc t .outside)
  | .handlerReadCheck =>
    -- `ERROR`
    if bit then some (s.setPc t .panicked) else some (s.setPc t .handlerRead)
  | _ => none

end State

variable {τ : Type}

/-- One step of the driver. -/
def step [DecidableEq τ] (s : State τ) : Action τ → Option (State τ)
  | .ttyWrite t buf len =>
    if s.pc t = .outside then
      some ({ s with calls := Function.update s.calls (t, s.made t) ⟨buf, len, 0⟩ }.setPc t .writeEnter)
    else none
  | .ttyRead t len => if s.pc t = .outside then some (s.setPc t (.readEnter len)) else none
  | .interrupt t => if s.pc t = .outside then some (s.setPc t .handler) else none
  | .acquire t =>
    match s.pc t with
    | .writeEnter => s.lock t .writeLoop
    | .writeReenter => s.lock t .writeWait
    | .readEnter len => s.lock t (.readWait len)
    | .handlerWriteEnter => s.lock t .handlerWrite
    | .handlerReadEnter => s.lock t .handlerReadCheck
    | _ => none
  | .go t => s.go t
  | .poll t bit => s.poll t bit
  | .take t data =>
    if s.pc t = .handlerRead then
      match data with
      | none => some (s.unlock t .handlerWake)
      | some c => some (s.receive c)
    else none

/-! ## Where the contexts are -/

/-- What holds of the call of `tty_write` at a place: before the filling loop there is something left,
and outside of `tty_write` the next call has not begun. -/
def Own (c : WriteCall) : Pc → Prop
  | .writeWait | .writeAsleep | .writeReenter => (c.i : ℤ) < c.len
  | .writeEnter | .writeLoop | .writeFill | .writeStart => True
  | _ => c.i = 0

/-- What holds of the rings at a place inside the spinlock. -/
def Held (s : State τ) (t : τ) : Pc → Prop
  | .writeFill => (∃ cs d, s.chunks = cs ++ [⟨(t, s.made t), d⟩]) ∧
      (0 < s.write.count ∨ ((s.call t).i : ℤ) < (s.call t).len)
  | .writeStart => 0 < s.write.count
  | .readCopy _ i => ∃ cs d, s.reads = cs ++ [⟨t, d⟩] ∧ i = d.length
  | _ => True

/-- **Who holds the spinlock, and where the contexts are.** -/
structure Places (s : State τ) : Prop where
  lock : ∀ t, (s.pc t).holds = true → s.slock = some t
  own : ∀ t, Own (s.call t) (s.pc t)
  held : ∀ t, Held s t (s.pc t)
  fresh : ∀ t n, s.made t < n → (s.calls (t, n)).i = 0
  ring : s.write.Valid TTY_BUF_SIZE

/-- The ring of `tty_init`. -/
theorem valid_empty : Ring.Valid TTY_BUF_SIZE (⟨fun _ => 0, 0, 0⟩ : Ring UInt8) := by
  constructor <;> decide

theorem places_init : Places (State.init τ) where
  lock := fun _ h => Bool.noConfusion h
  own := fun _ => rfl
  held := fun _ => trivial
  fresh := fun _ _ _ => rfl
  ring := valid_empty

/-- A wake-up does not change what a place means. -/
def Woken (p q : Pc) : Prop := q = p ∨ q = p.wakeWrite ∨ q = p.wakeRead

theorem Woken.holds {p q : Pc} (h : Woken p q) : q.holds = p.holds := by
  obtain rfl | rfl | rfl := h
  · rfl
  · cases p <;> rfl
  · cases p <;> rfl

theorem Woken.own {p q : Pc} {c : WriteCall} (h : Woken p q) (ho : Own c p) : Own c q := by
  obtain rfl | rfl | rfl := h
  · exact ho
  · cases p <;> exact ho
  · cases p <;> exact ho

theorem held_of_free {s : State τ} {t : τ} {p : Pc} (h : p.holds = false) : Held s t p := by
  cases p <;> trivial

/-- **The frame rule**: a step of `t` leaves the other contexts where they are. Either `t` holds the
spinlock, and then no other one relies on the rings, or the rings do not change. -/
theorem Places.frame {s s' : State τ} {t : τ} (hp : Places s)
    (hpc : ∀ u, u ≠ t → Woken (s.pc u) (s'.pc u)) (hmade : ∀ u, u ≠ t → s'.made u = s.made u)
    (hcalls : ∀ u, u ≠ t → ∀ n, s'.calls (u, n) = s.calls (u, n))
    (hlock : s.slock = some t ∨ ((s.slock = none ∨ s'.slock = s.slock) ∧ s'.chunks = s.chunks ∧
      s'.reads = s.reads ∧ s'.write = s.write))
    (hl : (s'.pc t).holds = true → s'.slock = some t) (ho : Own (s'.call t) (s'.pc t))
    (hh : Held s' t (s'.pc t)) (hf : ∀ n, s'.made t < n → (s'.calls (t, n)).i = 0)
    (hr : s'.write.Valid TTY_BUF_SIZE) : Places s' := by
  have hcall : ∀ u, u ≠ t → s'.call u = s.call u := by
    intro u hu
    unfold State.call
    rw [hmade u hu, hcalls u hu]
  -- Another context inside the spinlock: nothing has changed for it.
  have hother : ∀ u, u ≠ t → (s.pc u).holds = true → s'.slock = some u ∧ s'.pc u = s.pc u ∧
      s'.chunks = s.chunks ∧ s'.reads = s.reads ∧ s'.write = s.write := by
    intro u hu hholds
    have hu' := hp.lock u hholds
    obtain ht | ⟨hsame, hrest⟩ := hlock
    · rw [hu'] at ht
      exact absurd (Option.some.inj ht) hu
    · have hl' : s'.slock = some u := by
        obtain hnone | hsame := hsame
        · rw [hu'] at hnone
          cases hnone
        · rw [hsame, hu']
      refine ⟨hl', ?_, hrest⟩
      obtain h | h | h := hpc u hu
      · exact h
      · rw [h]
        cases hq : s.pc u <;> first | rfl | (rw [hq] at hholds; cases hholds)
      · rw [h]
        cases hq : s.pc u <;> first | rfl | (rw [hq] at hholds; cases hholds)
  refine ⟨fun u hu => ?_, fun u => ?_, fun u => ?_, fun u n hn => ?_, hr⟩
  · obtain rfl | hne := eq_or_ne u t
    · exact hl hu
    · rw [(hpc u hne).holds] at hu
      exact (hother u hne hu).1
  · obtain rfl | hne := eq_or_ne u t
    · exact ho
    · rw [hcall u hne]
      exact (hpc u hne).own (hp.own u)
  · obtain rfl | hne := eq_or_ne u t
    · exact hh
    · cases hholds : (s.pc u).holds with
      | false =>
        apply held_of_free
        rw [(hpc u hne).holds, hholds]
      | true =>
        obtain ⟨-, hpcu, hch, hre, hwr⟩ := hother u hne hholds
        have hsame : Held s' u (s.pc u) = Held s u (s.pc u) := by
          cases s.pc u <;> simp only [Held, hch, hre, hwr, hcall u hne, hmade u hne]
        rw [hpcu, hsame]
        exact hp.held u
  · obtain rfl | hne := eq_or_ne u t
    · exact hf n hn
    · rw [hmade u hne] at hn
      rw [hcalls u hne]
      exact hp.fresh u n hn

section Steps

variable [DecidableEq τ] {s s' : State τ} {t : τ} {p : Pc}

theorem State.setPc_pc_self : (s.setPc t p).pc t = p := by
  simp [State.setPc]

theorem State.setPc_pc_ne {u : τ} (hu : u ≠ t) : (s.setPc t p).pc u = s.pc u := by
  simp [State.setPc, Function.update_of_ne hu]

/-- A context moves, and nothing else changes. -/
theorem Places.setPc (hp : Places s) (hl : p.holds = true → s.slock = some t) (ho : Own (s.call t) p)
    (hh : Held s t p) : Places (s.setPc t p) := by
  have hself : (s.setPc t p).pc t = p := State.setPc_pc_self
  refine hp.frame (t := t) (fun u hu => .inl (State.setPc_pc_ne hu)) (fun _ _ => rfl)
    (fun _ _ _ => rfl) (.inr ⟨.inr rfl, rfl, rfl, rfl⟩) ?_ ?_ ?_ (hp.fresh t) hp.ring
  · rw [hself]
    exact hl
  · rw [hself]
    exact ho
  · rw [hself]
    cases p <;> exact hh

/-- The holder of the spinlock changes the rings and moves. -/
theorem Places.update {s1 : State τ} (hp : Places s) (ht : s.slock = some t) (hpc : s1.pc = s.pc)
    (hsl : s1.slock = s.slock) (hmade : s1.made = s.made)
    (hcalls : ∀ u n, (u, n) ≠ (t, s.made t) → s1.calls (u, n) = s.calls (u, n))
    (ho : Own (s1.call t) p) (hh : Held s1 t p) (hr : s1.write.Valid TTY_BUF_SIZE) : Places (s1.setPc t p) := by
  have hself : (s1.setPc t p).pc t = p := State.setPc_pc_self
  refine hp.frame (t := t) (fun u hu => .inl ?_) (fun u _ => congrFun hmade u) (fun u hu n => ?_)
    (.inl ht) ?_ ?_ ?_ (fun n hn => ?_) hr
  · rw [State.setPc_pc_ne hu, hpc]
  · exact hcalls u n fun h => hu (congrArg Prod.fst h)
  · intro _
    exact hsl.trans ht
  · rw [hself]
    exact ho
  · rw [hself]
    cases p <;> exact hh
  · have hn : s.made t < n := hmade ▸ hn
    refine (congrArg WriteCall.i (hcalls t n fun h => ?_)).trans (hp.fresh t n hn)
    exact hn.ne' (congrArg Prod.snd h)

/-- `spinlock_acquire`. -/
theorem Places.acquire (hp : Places s) (h : s.lock t p = some s') (ho : Own (s.call t) p)
    (hh : Held s t p) : Places s' := by
  unfold State.lock at h
  cases hs : s.slock with
  | some u =>
    rw [hs] at h
    cases h
  | none =>
    rw [hs] at h
    cases h
    have hself : (s.setPc t p).pc t = p := State.setPc_pc_self
    refine hp.frame (t := t) (fun u hu => .inl (State.setPc_pc_ne hu)) (fun _ _ => rfl)
      (fun _ _ _ => rfl) (.inr ⟨.inl hs, rfl, rfl, rfl⟩) (fun _ => rfl) ?_ ?_ (hp.fresh t) hp.ring
    · show Own (s.call t) ((s.setPc t p).pc t)
      rw [hself]
      exact ho
    · show Held _ t ((s.setPc t p).pc t)
      rw [hself]
      cases p <;> exact hh

/-- `spinlock_release`, perhaps after a wake-up. -/
theorem Places.release {pc : τ → Pc} (hp : Places s) (ht : s.slock = some t)
    (hw : ∀ u, Woken (s.pc u) (pc u)) (hf : p.holds = false) (ho : Own (s.call t) p) :
    Places ({ s with pc := pc }.unlock t p) := by
  have hself : ({ s with pc := pc }.unlock t p).pc t = p := State.setPc_pc_self
  refine hp.frame (t := t) (fun u hu => ?_) (fun _ _ => rfl) (fun _ _ _ => rfl) (.inl ht)
    ?_ ?_ ?_ (hp.fresh t) hp.ring
  · have : ({ s with pc := pc }.unlock t p).pc u = pc u := State.setPc_pc_ne hu
    rw [this]
    exact hw u
  · rw [hself, hf]
    exact fun h => Bool.noConfusion h
  · rw [hself]
    exact ho
  · rw [hself]
    exact held_of_free hf

theorem Places.unlock (hp : Places s) (ht : s.slock = some t) (hf : p.holds = false)
    (ho : Own (s.call t) p) : Places (s.unlock t p) :=
  hp.release ht (fun _ => .inl rfl) hf ho

/-- The context is where it is. -/
theorem State.setPc_self (s1 : State τ) (h : s1.pc t = p) : s1.setPc t p = s1 := by
  unfold State.setPc
  rw [← h, Function.update_eq_self]

theorem extend_concat {κ : Type} (cs : List (Chunk κ)) (c : Chunk κ) (x : UInt8) :
    extend (cs ++ [c]) x = cs ++ [⟨c.owner, c.data ++ [x]⟩] :=
  List.modifyLast_concat _ _ _

theorem flow_concat {κ : Type} (cs : List (Chunk κ)) (c : Chunk κ) :
    flow (cs ++ [c]) = flow cs ++ c.data := by
  simp [flow]

theorem State.fill_calls_ne {k : τ × ℕ} (hk : k ≠ (t, s.made t)) : (s.fill t).calls k = s.calls k :=
  Function.update_of_ne hk _ _

/-- `tty_write` returns. -/
theorem Places.returned (hp : Places s) (ht : s.slock = some t) :
    Places { s.unlock t .outside with made := Function.update s.made t (s.made t + 1) } := by
  have hself : Function.update s.made t (s.made t + 1) t = s.made t + 1 := Function.update_self _ _ _
  have hnext : ∀ n, s.made t + 1 ≤ n → (s.calls (t, n)).i = 0 := fun n hn => hp.fresh t n hn
  refine hp.frame (t := t) (fun u hu => .inl (State.setPc_pc_ne hu))
    (fun u hu => Function.update_of_ne hu _ _) (fun _ _ _ => rfl) (.inl ht) ?_ ?_ ?_ (fun n hn => ?_) hp.ring
  · show ((s.setPc t .outside).pc t).holds = true → _
    rw [State.setPc_pc_self]
    exact fun h => Bool.noConfusion h
  · show Own (s.calls (t, Function.update s.made t (s.made t + 1) t)) ((s.setPc t .outside).pc t)
    rw [State.setPc_pc_self, hself]
    exact hnext _ le_rfl
  · show Held _ t ((s.setPc t .outside).pc t)
    rw [State.setPc_pc_self]
    trivial
  · apply hnext
    have hn : Function.update s.made t (s.made t + 1) t < n := hn
    rw [hself] at hn
    exact hn.le

theorem Places.goStep (hp : Places s) (h : s.go t = some s') : Places s' := by
  have ho := hp.own t
  have hh := hp.held t
  unfold State.go at h
  split at h
  · rename_i hpc
    have ht := hp.lock t (by rw [hpc]; rfl)
    split at h <;> cases h
    · rename_i hlt
      exact hp.setPc (fun _ => ht) hlt trivial
    · exact hp.returned ht
  · rename_i hpc
    rw [hpc] at ho
    have ht := hp.lock t (by rw [hpc]; rfl)
    split at h <;> cases h
    · exact hp.unlock ht rfl ho
    · exact hp.update ht rfl rfl rfl (fun _ _ _ => rfl) trivial ⟨⟨_, _, rfl⟩, .inr ho⟩ hp.ring
  · rename_i hpc
    rw [hpc] at hh
    have ht := hp.lock t (by rw [hpc]; rfl)
    obtain ⟨⟨cs, d, hcs⟩, hcount⟩ := hh
    split at h <;> cases h
    · rename_i hroom
      have hr := hp.ring.push hroom.1 ((s.call t).buf (s.call t).i)
      have h0 := hp.ring.count_nonneg
      rw [← State.setPc_self (s.fill t) (t := t) hpc]
      refine hp.update ht rfl rfl rfl (fun _ _ hk => State.fill_calls_ne hk) trivial
        ⟨⟨cs, d ++ [(s.call t).buf (s.call t).i], ?_⟩, .inl ?_⟩ hr
      · show extend s.chunks _ = _
        rw [hcs]
        exact extend_concat cs _ _
      · show 0 < s.write.count + 1
        omega
    · rename_i hnot
      refine hp.setPc (fun _ => ht) trivial ?_
      show 0 < s.write.count
      unfold TTY_BUF_SIZE at hnot
      omega
  · rename_i hpc
    rw [hpc] at ho
    have ht := hp.lock t (by rw [hpc]; rfl)
    split at h <;> cases h
    · exact hp.unlock ht rfl ho
    · exact hp.update ht rfl rfl rfl (fun _ _ _ => rfl) ho ⟨_, _, rfl, rfl⟩ hp.ring
  · rename_i hpc
    rw [hpc] at ho hh
    have ht := hp.lock t (by rw [hpc]; rfl)
    split at h <;> cases h
    · obtain ⟨cs, d, hcs, hi⟩ := hh
      refine hp.update ht rfl rfl rfl (fun _ _ _ => rfl) ho ⟨cs, d ++ [s.read.front], ?_, ?_⟩ hp.ring
      · show extend s.reads _ = _
        rw [hcs]
        exact extend_concat cs _ _
      · rw [List.length_append, hi]
        rfl
    · exact hp.unlock ht rfl ho
  · rename_i hpc
    rw [hpc] at ho
    cases h
    refine hp.frame (t := t) (fun u hu => .inr (.inr (State.setPc_pc_ne hu))) (fun _ _ => rfl)
      (fun _ _ _ => rfl) (.inr ⟨.inr rfl, rfl, rfl, rfl⟩) ?_ ?_ ?_ (hp.fresh t) hp.ring
    · rw [State.setPc_pc_self]
      exact fun h => Bool.noConfusion h
    · rw [State.setPc_pc_self]
      exact ho
    · rw [State.setPc_pc_self]
      trivial
  · cases h

/-- The holder of the spinlock gives the first character to the device. -/
theorem Places.transmit (hp : Places s) (ht : s.slock = some t) (hc : 0 < s.write.count)
    (ho : Own (s.call t) p) (hh : Held s.transmit t p) : Places (s.transmit.setPc t p) :=
  hp.update ht rfl rfl rfl (fun _ _ _ => rfl) ho hh (hp.ring.pop hc)

theorem Places.pollStep {bit : Bool} (hp : Places s) (h : s.poll t bit = some s') : Places s' := by
  have ho := hp.own t
  have hh := hp.held t
  unfold State.poll at h
  split at h
  · rename_i hpc
    rw [hpc] at hh
    have ht := hp.lock t (by rw [hpc]; rfl)
    split at h <;> cases h
    · exact hp.setPc (fun _ => ht) trivial trivial
    · exact hp.transmit ht hh trivial trivial
  · rename_i hpc
    rw [hpc] at ho
    split at h <;> cases h
    · exact hp.setPc (fun h => Bool.noConfusion h) ho trivial
    · exact hp.setPc (fun h => Bool.noConfusion h) ho trivial
  · rename_i hpc
    rw [hpc] at ho
    have ht := hp.lock t (by rw [hpc]; rfl)
    split at h
    · rename_i hc
      cases h
      rw [← State.setPc_self s.transmit (t := t) hpc]
      exact hp.transmit ht hc.2 ho trivial
    · split at h <;> cases h
      · exact hp.release ht (fun _ => .inr (.inl rfl)) rfl ho
      · exact hp.unlock ht rfl ho
  · rename_i hpc
    rw [hpc] at ho
    split at h <;> cases h
    · exact hp.setPc (fun h => Bool.noConfusion h) ho trivial
    · exact hp.setPc (fun h => Bool.noConfusion h) ho trivial
  · rename_i hpc
    rw [hpc] at ho
    have ht := hp.lock t (by rw [hpc]; rfl)
    split at h <;> cases h
    · exact hp.setPc (fun h => Bool.noConfusion h) ho trivial
    · exact hp.setPc (fun _ => ht) ho trivial
  · cases h

/-- **Every step keeps the places.** -/
theorem Places.step {a : Action τ} (hp : Places s) (h : step s a = some s') :
    Places s' := by
  cases a with
  | ttyWrite t buf len =>
    simp only [Tty.step] at h
    split at h <;> cases h
    have hother : ∀ k : τ × ℕ, k ≠ (t, s.made t) →
        Function.update s.calls (t, s.made t) ⟨buf, len, 0⟩ k = s.calls k :=
      fun k hk => Function.update_of_ne hk _ _
    refine hp.frame (t := t) (fun u hu => .inl (State.setPc_pc_ne hu)) (fun _ _ => rfl)
      (fun u hu n => hother _ fun h => hu (congrArg Prod.fst h)) (.inr ⟨.inr rfl, rfl, rfl, rfl⟩)
      ?_ ?_ ?_ (fun n hn => ?_) hp.ring
    · rw [State.setPc_pc_self]
      exact fun h => Bool.noConfusion h
    · rw [State.setPc_pc_self]
      trivial
    · rw [State.setPc_pc_self]
      trivial
    · have hn : s.made t < n := hn
      refine (congrArg WriteCall.i (hother (t, n) fun h => ?_)).trans (hp.fresh t n hn)
      exact hn.ne' (congrArg Prod.snd h)
  | ttyRead t len =>
    simp only [Tty.step] at h
    split at h <;> cases h
    rename_i hpc
    have ho := hp.own t
    rw [hpc] at ho
    exact hp.setPc (fun h => Bool.noConfusion h) ho trivial
  | interrupt t =>
    simp only [Tty.step] at h
    split at h <;> cases h
    rename_i hpc
    have ho := hp.own t
    rw [hpc] at ho
    exact hp.setPc (fun h => Bool.noConfusion h) ho trivial
  | acquire t =>
    have ho := hp.own t
    simp only [Tty.step] at h
    split at h
    all_goals first
      | (rename_i hpc; rw [hpc] at ho; exact hp.acquire h ho trivial)
      | cases h
  | go t => exact hp.goStep h
  | poll t bit => exact hp.pollStep h
  | take t data =>
    simp only [Tty.step] at h
    split at h
    · rename_i hpc
      have ho := hp.own t
      rw [hpc] at ho
      have ht := hp.lock t (by rw [hpc]; rfl)
      cases data with
      | none =>
        cases h
        exact hp.unlock ht rfl ho
      | some c =>
        cases h
        rw [← State.setPc_self (s.receive c) (t := t) hpc]
        exact hp.update ht rfl rfl rfl (fun _ _ _ => rfl) ho trivial hp.ring
    · cases h

end Steps

/-! ## Output -/

/-- The chunks of one call. -/
def chunksOf [DecidableEq τ] (s : State τ) (k : τ × ℕ) : List (Chunk (τ × ℕ)) :=
  s.chunks.filter fun c => c.owner = k

/-- What was given to the device and what is in the ring are the chunks taken from the callers, in order;
the chunks of one call are the pieces of its buffer up to `i`, and a call that has returned is at its
end. -/
structure OutputOk [DecidableEq τ] (s : State τ) : Prop where
  count_nonneg : 0 ≤ s.write.count
  count_le : s.write.count ≤ TTY_BUF_SIZE
  flow_eq : s.sent ++ s.write.contents TTY_BUF_SIZE = flow s.chunks
  pieces : ∀ k, flow (chunksOf s k) = (List.range (s.calls k).i).map (s.calls k).buf
  within : ∀ k, (s.calls k).i ≤ (s.calls k).len.toNat
  complete : ∀ t n, n < s.made t → (s.calls (t, n)).i = (s.calls (t, n)).len.toNat

section Output

variable [DecidableEq τ] {s s' : State τ} {t : τ}

theorem output_init : OutputOk (State.init τ) where
  count_nonneg := le_rfl
  count_le := Int.natCast_nonneg _
  flow_eq := rfl
  pieces := fun _ => rfl
  within := fun _ => le_rfl
  complete := fun _ _ h => absurd h (Nat.not_lt_zero _)

theorem filter_concat {κ : Type} [DecidableEq κ] (cs : List (Chunk κ)) (c : Chunk κ) (k : κ) :
    (cs ++ [c]).filter (fun c => c.owner = k) =
      cs.filter (fun c => c.owner = k) ++ if c.owner = k then [c] else [] := by
  rw [List.filter_append]
  split <;> simp [*]

/-- Only these fields matter. -/
theorem OutputOk.same (h : OutputOk s) (hw : s'.write = s.write) (hs : s'.sent = s.sent)
    (hc : s'.chunks = s.chunks) (hcalls : s'.calls = s.calls) (hm : s'.made = s.made) : OutputOk s' where
  count_nonneg := hw ▸ h.count_nonneg
  count_le := hw ▸ h.count_le
  flow_eq := by
    rw [hw, hs, hc]
    exact h.flow_eq
  pieces := by
    intro k
    unfold chunksOf
    rw [hc, hcalls]
    exact h.pieces k
  within := hcalls ▸ h.within
  complete := by
    rw [hcalls, hm]
    exact h.complete

/-- A filling loop begins. -/
theorem OutputOk.beginChunk (h : OutputOk s) : OutputOk (s.beginChunk t) where
  count_nonneg := h.count_nonneg
  count_le := h.count_le
  flow_eq := by
    show s.sent ++ s.write.contents TTY_BUF_SIZE = flow (s.chunks ++ [⟨(t, s.made t), []⟩])
    rw [flow_concat, List.append_nil]
    exact h.flow_eq
  pieces := by
    intro k
    have hflow : flow (chunksOf (s.beginChunk t) k) = flow (chunksOf s k) := by
      unfold chunksOf
      show flow (List.filter (fun c => c.owner = k) (s.chunks ++ [⟨(t, s.made t), []⟩])) = _
      rw [filter_concat]
      split
      · rw [flow_concat, List.append_nil]
      · rw [List.append_nil]
    rw [hflow]
    exact h.pieces k
  within := h.within
  complete := h.complete

/-- One more character from the caller's buffer. -/
theorem OutputOk.fill (h : OutputOk s) (hr : s.write.Valid TTY_BUF_SIZE)
    (hchunk : ∃ cs d, s.chunks = cs ++ [⟨(t, s.made t), d⟩]) (hroom : s.write.count < TTY_BUF_SIZE)
    (hi : ((s.call t).i : ℤ) < (s.call t).len) : OutputOk (s.fill t) := by
  obtain ⟨cs, d, hcs⟩ := hchunk
  have hval := hr.push hroom ((s.call t).buf (s.call t).i)
  have hext : (s.fill t).chunks = cs ++ [⟨(t, s.made t), d ++ [(s.call t).buf (s.call t).i]⟩] := by
    show extend s.chunks _ = _
    rw [hcs]
    exact extend_concat cs _ _
  have hself : (s.fill t).calls (t, s.made t) = { s.call t with i := (s.call t).i + 1 } :=
    Function.update_self _ _ _
  refine ⟨hval.count_nonneg, hval.count_le, ?_, fun k => ?_, fun k => ?_, fun u n hn => ?_⟩
  · show s.sent ++ (s.write.push TTY_BUF_SIZE _).contents TTY_BUF_SIZE = _
    have hflow := h.flow_eq
    rw [hcs, flow_concat] at hflow
    rw [hext, flow_concat, Ring.contents_push hr hroom, ← List.append_assoc, hflow, List.append_assoc]
  · have hpieces := h.pieces k
    unfold chunksOf at hpieces ⊢
    rw [hcs, filter_concat] at hpieces
    rw [hext, filter_concat]
    obtain rfl | hk := eq_or_ne k (t, s.made t)
    · have hcall : s.calls (t, s.made t) = s.call t := rfl
      rw [if_pos rfl, flow_concat, hcall] at hpieces
      rw [if_pos rfl, flow_concat, hself, ← List.append_assoc, hpieces]
      rw [List.range_succ, List.map_append, List.map_singleton]
    · rw [if_neg hk.symm] at hpieces
      rw [if_neg hk.symm, State.fill_calls_ne hk]
      exact hpieces
  · obtain rfl | hk := eq_or_ne k (t, s.made t)
    · rw [hself]
      show (s.call t).i + 1 ≤ (s.call t).len.toNat
      omega
    · rw [State.fill_calls_ne hk]
      exact h.within k
  · have hn : n < s.made u := hn
    have hk : (u, n) ≠ (t, s.made t) := by
      intro he
      cases he
      exact lt_irrefl _ hn
    rw [State.fill_calls_ne hk]
    exact h.complete u n hn

/-- A character goes to the device. -/
theorem OutputOk.transmit (h : OutputOk s) (hr : s.write.Valid TTY_BUF_SIZE) (hc : 0 < s.write.count) :
    OutputOk s.transmit where
  count_nonneg := (hr.pop hc).count_nonneg
  count_le := (hr.pop hc).count_le
  flow_eq := by
    have hflow := h.flow_eq
    rw [Ring.contents_pop hr hc] at hflow
    show (s.sent ++ [s.write.front]) ++ (s.write.pop TTY_BUF_SIZE).contents TTY_BUF_SIZE = flow s.chunks
    rw [← hflow, List.append_assoc]
    rfl
  pieces := h.pieces
  within := h.within
  complete := h.complete

/-- `tty_write` is called. -/
theorem OutputOk.called (h : OutputOk s) (h0 : (s.call t).i = 0) (buf : ℕ → UInt8) (len : ℤ) :
    OutputOk { s with calls := Function.update s.calls (t, s.made t) ⟨buf, len, 0⟩ } where
  count_nonneg := h.count_nonneg
  count_le := h.count_le
  flow_eq := h.flow_eq
  pieces := by
    intro k
    have hold := h.pieces k
    show flow (chunksOf s k) = (List.range (Function.update s.calls (t, s.made t) ⟨buf, len, 0⟩ k).i).map
      (Function.update s.calls (t, s.made t) ⟨buf, len, 0⟩ k).buf
    obtain rfl | hk := eq_or_ne k (t, s.made t)
    · have h0 : (s.calls (t, s.made t)).i = 0 := h0
      rw [h0] at hold
      rw [Function.update_self, hold]
      rfl
    · rw [Function.update_of_ne hk]
      exact hold
  within := by
    intro k
    show (Function.update s.calls (t, s.made t) ⟨buf, len, 0⟩ k).i ≤
      (Function.update s.calls (t, s.made t) ⟨buf, len, 0⟩ k).len.toNat
    obtain rfl | hk := eq_or_ne k (t, s.made t)
    · rw [Function.update_self]
      exact Nat.zero_le _
    · rw [Function.update_of_ne hk]
      exact h.within k
  complete := by
    intro u n hn
    have hk : (u, n) ≠ (t, s.made t) := by
      intro he
      cases he
      exact lt_irrefl _ hn
    show (Function.update s.calls (t, s.made t) ⟨buf, len, 0⟩ (u, n)).i =
      (Function.update s.calls (t, s.made t) ⟨buf, len, 0⟩ (u, n)).len.toNat
    rw [Function.update_of_ne hk]
    exact h.complete u n hn

/-- `tty_write` returns: the loop is over. -/
theorem OutputOk.returned (h : OutputOk s) (hdone : ¬ ((s.call t).i : ℤ) < (s.call t).len) :
    OutputOk { s with made := Function.update s.made t (s.made t + 1) } where
  count_nonneg := h.count_nonneg
  count_le := h.count_le
  flow_eq := h.flow_eq
  pieces := h.pieces
  within := h.within
  complete := by
    intro u n hn
    have hn : n < Function.update s.made t (s.made t + 1) u := hn
    show (s.calls (u, n)).i = (s.calls (u, n)).len.toNat
    obtain rfl | hu := eq_or_ne u t
    · rw [Function.update_self] at hn
      obtain rfl | hlt := eq_or_lt_of_le (Nat.lt_succ_iff.1 hn)
      · have hw := h.within (u, s.made u)
        have hcall : s.calls (u, s.made u) = s.call u := rfl
        rw [hcall] at hw ⊢
        omega
      · exact h.complete u n hlt
    · rw [Function.update_of_ne hu] at hn
      exact h.complete u n hn

theorem OutputOk.goStep (h : OutputOk s) (hp : Places s) (hs : s.go t = some s') : OutputOk s' := by
  have hh := hp.held t
  unfold State.go at hs
  split at hs
  · split at hs <;> cases hs
    · exact h.same rfl rfl rfl rfl rfl
    · rename_i hdone
      exact (h.returned hdone).same rfl rfl rfl rfl rfl
  · split at hs <;> cases hs
    · exact h.same rfl rfl rfl rfl rfl
    · exact (h.beginChunk (t := t)).same rfl rfl rfl rfl rfl
  · rename_i hpc
    rw [hpc] at hh
    split at hs <;> cases hs
    · rename_i hroom
      exact h.fill hp.ring hh.1 hroom.1 hroom.2
    · exact h.same rfl rfl rfl rfl rfl
  · split at hs <;> cases hs <;> exact h.same rfl rfl rfl rfl rfl
  · split at hs <;> cases hs <;> exact h.same rfl rfl rfl rfl rfl
  · cases hs
    exact h.same rfl rfl rfl rfl rfl
  · cases hs

theorem OutputOk.pollStep {bit : Bool} (h : OutputOk s) (hp : Places s) (hs : s.poll t bit = some s') :
    OutputOk s' := by
  have hh := hp.held t
  unfold State.poll at hs
  split at hs
  · rename_i hpc
    rw [hpc] at hh
    split at hs <;> cases hs
    · exact h.same rfl rfl rfl rfl rfl
    · exact (h.transmit hp.ring hh).same rfl rfl rfl rfl rfl
  · split at hs <;> cases hs <;> exact h.same rfl rfl rfl rfl rfl
  · split at hs
    · rename_i hc
      cases hs
      exact h.transmit hp.ring hc.2
    · split at hs <;> cases hs <;> exact h.same rfl rfl rfl rfl rfl
  · split at hs <;> cases hs <;> exact h.same rfl rfl rfl rfl rfl
  · split at hs <;> cases hs <;> exact h.same rfl rfl rfl rfl rfl
  · cases hs

/-- A step keeps the output in order. -/
theorem OutputOk.step {a : Action τ} (h : OutputOk s) (hp : Places s) (hs : step s a = some s') :
    OutputOk s' := by
  cases a with
  | ttyWrite t buf len =>
    simp only [Tty.step] at hs
    split at hs <;> cases hs
    rename_i hpc
    have ho := hp.own t
    rw [hpc] at ho
    exact (h.called ho buf len).same rfl rfl rfl rfl rfl
  | ttyRead t len =>
    simp only [Tty.step] at hs
    split at hs <;> cases hs
    exact h.same rfl rfl rfl rfl rfl
  | interrupt t =>
    simp only [Tty.step] at hs
    split at hs <;> cases hs
    exact h.same rfl rfl rfl rfl rfl
  | acquire t =>
    have hlock : ∀ {p}, s.lock t p = some s' → OutputOk s' := by
      intro p hl
      unfold State.lock at hl
      split at hl <;> cases hl
      exact h.same rfl rfl rfl rfl rfl
    simp only [Tty.step] at hs
    split at hs
    all_goals first | exact hlock hs | cases hs
  | go t => exact h.goStep hp hs
  | poll t bit => exact h.pollStep hp hs
  | take t data =>
    simp only [Tty.step] at hs
    split at hs
    · cases data <;> cases hs <;> exact h.same rfl rfl rfl rfl rfl
    · cases hs

/-- **Terminal output**: in every state that any calls of `tty_write` and runs of the interrupt handler
can reach, the characters given to the device and those in the ring are the chunks taken from the callers
in the order in which they were taken, the chunks of one call are consecutive pieces of its buffer, and
those of a call that has returned are the whole buffer. -/
theorem tty_output {as : List (Action τ)} (hr : run step (State.init τ) as = some s) : OutputOk s := by
  have hinv : Places s ∧ OutputOk s :=
    run_always (I := fun s => Places s ∧ OutputOk s) (fun hi h => ⟨hi.1.step h, hi.2.step hi.1 h⟩)
      ⟨places_init, output_init⟩ hr
  exact hinv.2

end Output

/-- Three characters: the caller sends the first one, an interrupt the second one, and then the device is
busy. -/
def threeCharacters : List (Action Bool) :=
  [.ttyWrite false (fun k => 97 + UInt8.ofNat k) 3, .acquire false, .go false, .go false, .go false, .go false,
    .go false, .go false, .poll false false, .go false,
    .interrupt true, .poll true true, .acquire true, .poll true false, .poll true true]

theorem tty_output_threeCharacters :
    ∃ s, run step (State.init Bool) threeCharacters = some s ∧ s.sent = [97, 98] ∧ s.made false = 1 ∧
      s.write.contents TTY_BUF_SIZE = [99] ∧ OutputOk s := by
  have hrun : ∃ s, run step (State.init Bool) threeCharacters = some s ∧ s.sent = [97, 98] ∧
      s.made false = 1 ∧ s.write.contents TTY_BUF_SIZE = [99] := by decide +kernel
  obtain ⟨s, hr, hsent, hmade, hring⟩ := hrun
  exact ⟨s, hr, hsent, hmade, hring, tty_output hr⟩

end Buenos.Tty

import Buenos.Base.Chain
import Mathlib.Data.Int.Interval

/-!
# The thread table, the scheduler and the sleep queue

`kernel/thread.c`, `kernel/scheduler.c` and `kernel/sleepq.c` on one CPU, with the options
`CHANGED_1` (timed sleeping) and `CHANGED_ADDITIONAL_1` (priorities) the kernel is built with.

* `KernelState` — the thread table, one function for each field of its rows, with the ready list, the
  hash table of the sleep queue, the list of timed sleepers and the running thread.  A `TID_t` is the
  number of a row; negative is no thread.
* `schedulerAddToReadyList`, `schedulerRemoveFirstReady`, `schedulerSchedule` — the scheduler.
* `sleepqAdd`, `sleepqWake`, `sleepqWakeAll` — the sleep queue.
* `threadCreate`, `threadRun`, `threadSleep`, `threadFinish` — the thread library.

Each function runs with interrupts disabled and the spinlocks held, so a call is one step.  `none` is
a failed `KERNEL_ASSERT`, or a loop over links that does not end.
-/

namespace Buenos.Kernel

open Buenos.Linked

def CONFIG_MAX_THREADS : ℕ := 32
def IDLE_THREAD_TID : ℤ := 0
def SLEEPQ_HASHTABLE_SIZE : ℕ := 127

/-- `thread_state_t`. -/
inductive ThreadState where
  | free
  | running
  | ready
  | sleeping
  | nonready
  | dying
  deriving DecidableEq, Repr

/-- `priority_t`, with the two values that `thread_create_with_priority` lets through. -/
inductive Priority where
  | high
  | normal
  deriving DecidableEq, Repr

/-- The thread table and the lists threaded through it.  `createNextTid` and
`createWithPriorityNextTid` are the `static` `next_tid` of the two create functions. -/
structure KernelState where
  state : ℤ → ThreadState
  sleepsOn : ℤ → UInt32
  next : ℤ → ℤ
  nextSleeperId : ℤ → ℤ
  wakeupTime : ℤ → UInt32
  priority : ℤ → Priority
  threadNextSleeperId : ℤ
  currentThread : ℤ
  head : ℤ
  tail : ℤ
  sleepqHashtable : ℕ → ℤ
  createNextTid : ℤ
  createWithPriorityNextTid : ℤ

/-- `thread_table_init`, `scheduler_init` and `sleepq_init`. -/
def KernelState.init : KernelState where
  state := Function.update (fun _ => .free) IDLE_THREAD_TID .ready
  sleepsOn := fun _ => 0
  next := fun _ => -1
  nextSleeperId := fun _ => -1
  wakeupTime := fun _ => 0
  priority := fun _ => .normal
  threadNextSleeperId := -1
  currentThread := IDLE_THREAD_TID
  head := -1
  tail := -1
  sleepqHashtable := fun _ => -1
  createNextTid := 0
  createWithPriorityNextTid := 0

/-- A loop along links inside the table that takes more rounds than the table has rows has come to
a row for the second time, and never ends. -/
def ROUNDS : ℕ := CONFIG_MAX_THREADS + 1

/-! ## The scheduler -/

/-- `scheduler_add_to_ready_list`. -/
def schedulerAddToReadyList (k : KernelState) (t : ℤ) : Option KernelState :=
  if t = IDLE_THREAD_TID then none
  else if ¬ (0 ≤ t ∧ t < CONFIG_MAX_THREADS) then none
  else if k.tail < 0 then
    some { k with head := t, tail := t, next := Function.update k.next t (-1) }
  else match k.priority t with
    | .high =>
      match k.priority k.head with
      | .high =>
        -- behind the last high priority thread
        match walk k.next (fun next : ℤ => next != -1 && k.priority next == .high) ROUNDS k.head
            (k.next k.head) with
        | none => none
        | some (curr, next) =>
          some { k with next := Function.update (Function.update k.next curr t) t next
                        tail := if next = -1 then t else k.tail }
      | .normal => some { k with next := Function.update k.next t k.head, head := t }
    | .normal =>
      some { k with next := Function.update (Function.update k.next k.tail t) t (-1), tail := t }

/-- `scheduler_remove_first_ready`. -/
def schedulerRemoveFirstReady (k : KernelState) : Option (ℤ × KernelState) :=
  let t := k.head
  if t = IDLE_THREAD_TID then none
  else if 0 ≤ t then
    if k.state t ≠ .ready then none
    else some (t, { k with tail := if k.tail = t then -1 else k.tail, head := k.next k.head })
  else some (IDLE_THREAD_TID, k)

/-- `scheduler_add_ready`. -/
def schedulerAddReady (k : KernelState) (t : ℤ) : Option KernelState :=
  match schedulerAddToReadyList k t with
  | none => none
  | some k => some { k with state := Function.update k.state t .ready }

/-- One sleeper whose time has come, as the body of the loop in
`scheduler_wakeup_expired_sleepers` wakes it. -/
def wakeSleeper (k : KernelState) (t : ℤ) : Option KernelState :=
  let nextTid := k.nextSleeperId t
  match schedulerAddToReadyList
      { k with nextSleeperId := Function.update k.nextSleeperId t (-1)
               wakeupTime := Function.update k.wakeupTime t 0 } t with
  | none => none
  | some k => some { k with state := Function.update k.state t .ready, threadNextSleeperId := nextTid }

/-- The loop of `scheduler_wakeup_expired_sleepers`. -/
def wakeupLoop (curTime : UInt32) : ℕ → KernelState → Option KernelState
  | 0, _ => none
  | n + 1, k =>
    if k.threadNextSleeperId = -1 then some k
    else if k.wakeupTime k.threadNextSleeperId < curTime then
      match wakeSleeper k k.threadNextSleeperId with
      | none => none
      | some k => wakeupLoop curTime n k
    else some k

/-- `scheduler_wakeup_expired_sleepers`; `curTime` is what `rtc_get_msec` returns. -/
def schedulerWakeupExpiredSleepers (k : KernelState) (curTime : UInt32) : Option KernelState :=
  wakeupLoop curTime ROUNDS k

/-- The first half of `scheduler_schedule`: what becomes of the current thread. -/
def retireCurrent (k : KernelState) (curTime : UInt32) : Option KernelState :=
  let current := k.currentThread
  if k.state current = .dying then
    some { k with state := Function.update k.state current .free }
  else if k.sleepsOn current ≠ 0 then
    some { k with state := Function.update k.state current .sleeping }
  else if k.wakeupTime current ≠ 0 then
    some { k with state := Function.update k.state current .sleeping }
  else
    match (if current ≠ IDLE_THREAD_TID then schedulerAddToReadyList k current
      else schedulerWakeupExpiredSleepers k curTime) with
    | none => none
    | some k => some { k with state := Function.update k.state current .ready }

/-- The second half of `scheduler_schedule`: the next thread to run. -/
def runFirstReady (k : KernelState) : Option KernelState :=
  match schedulerRemoveFirstReady k with
  | none => none
  | some (t, k) => some { k with state := Function.update k.state t .running, currentThread := t }

/-- `scheduler_schedule`; `curTime` is what `rtc_get_msec` returns in
`scheduler_wakeup_expired_sleepers`. -/
def schedulerSchedule (k : KernelState) (curTime : UInt32) : Option KernelState :=
  match retireCurrent k curTime with
  | none => none
  | some k => runFirstReady k

/-! ## The sleep queue -/

/-- `SLEEPQ_HASH`. -/
def SLEEPQ_HASH (resource : UInt32) : ℕ := resource.toNat % SLEEPQ_HASHTABLE_SIZE

/-- The part of `sleepq_add` that puts a thread at the end of a chain. -/
def appendToQueue (k : KernelState) (hash : ℕ) (myTid : ℤ) : Option KernelState :=
  if k.sleepqHashtable hash ≤ 0 then
    some { k with sleepqHashtable := Function.update k.sleepqHashtable hash myTid }
  else
    match walk k.next (fun next : ℤ => decide (0 < next)) ROUNDS (k.sleepqHashtable hash)
        (k.next (k.sleepqHashtable hash)) with
    | none => none
    | some (prev, _) => some { k with next := Function.update k.next prev myTid }

/-- `sleepq_add`. -/
def sleepqAdd (k : KernelState) (resource : UInt32) : Option KernelState :=
  let myTid := k.currentThread
  let k : KernelState := { k with next := Function.update k.next myTid (-1)
                                  sleepsOn := Function.update k.sleepsOn myTid resource }
  if myTid = IDLE_THREAD_TID then none
  else appendToQueue k (SLEEPQ_HASH resource) myTid

/-- Taking the thread `first` with predecessor `prev` out of its queue: the part of `sleepq_wake` and
`sleepq_wake_all` that unlinks a thread and makes it ready. -/
def unlinkAndWake (k : KernelState) (hash : ℕ) (prev first : ℤ) : Option KernelState :=
  let k : KernelState := if prev ≤ 0 then
      { k with sleepqHashtable := Function.update k.sleepqHashtable hash (k.next first) }
    else { k with next := Function.update k.next prev (k.next first) }
  let k : KernelState := { k with sleepsOn := Function.update k.sleepsOn first 0
                                  next := Function.update k.next first (-1) }
  if k.state first = .sleeping then
    schedulerAddToReadyList { k with state := Function.update k.state first .ready } first
  else some k

/-- The loop that looks for the next thread waiting for `resource`. -/
def findWaiting (k : KernelState) (resource : UInt32) (prev first : ℤ) : Option (ℤ × ℤ) :=
  walk k.next (fun t : ℤ => decide (0 < t) && k.sleepsOn t != resource) ROUNDS prev first

/-- `sleepq_wake`. -/
def sleepqWake (k : KernelState) (resource : UInt32) : Option KernelState :=
  let hash := SLEEPQ_HASH resource
  match findWaiting k resource (-1) (k.sleepqHashtable hash) with
  | none => none
  | some (prev, first) => if 0 < first then unlinkAndWake k hash prev first else some k

/-- The outer loop of `sleepq_wake_all`. -/
def wakeAllLoop (resource : UInt32) : ℕ → KernelState → ℤ → ℤ → Option KernelState
  | 0, _, _, _ => none
  | n + 1, k, prev, first =>
    if 0 < first then
      match findWaiting k resource prev first with
      | none => none
      | some (prev, first) =>
        if 0 < first then
          match unlinkAndWake k (SLEEPQ_HASH resource) prev first with
          | none => none
          -- `first` moves on to what followed the thread before it was taken out
          | some k' => wakeAllLoop resource n k' prev (k.next first)
        else wakeAllLoop resource n k prev first
    else some k

/-- `sleepq_wake_all`. -/
def sleepqWakeAll (k : KernelState) (resource : UInt32) : Option KernelState :=
  wakeAllLoop resource ROUNDS k (-1) (k.sleepqHashtable (SLEEPQ_HASH resource))

/-! ## The thread library -/

/-- The first free row from `nextTid` on, as both create functions look for it. -/
def findFreeThread (k : KernelState) (nextTid : ℤ) : Option ℤ :=
  ((List.range CONFIG_MAX_THREADS).map fun i : ℕ => ((i : ℤ) + nextTid) % CONFIG_MAX_THREADS).find?
    fun t => t != IDLE_THREAD_TID && k.state t == .free

/-- The fields that both create functions set in a row they take. -/
def initThread (k : KernelState) (tid : ℤ) (p : Priority) : KernelState :=
  { k with state := Function.update k.state tid .nonready
           sleepsOn := Function.update k.sleepsOn tid 0
           next := Function.update k.next tid (-1)
           priority := Function.update k.priority tid p }

/-- `thread_create_with_priority`. -/
def threadCreateWithPriority (k : KernelState) (p : Priority) : ℤ × KernelState :=
  match findFreeThread k k.createWithPriorityNextTid with
  | none => (-1, k)
  | some tid =>
    (tid, { initThread k tid p with createWithPriorityNextTid := (tid + 1) % CONFIG_MAX_THREADS })

/-- `thread_create`. -/
def threadCreate (k : KernelState) : ℤ × KernelState :=
  match findFreeThread k k.createNextTid with
  | none => (-1, k)
  | some tid => (tid, { initThread k tid .normal with createNextTid := (tid + 1) % CONFIG_MAX_THREADS })

/-- `thread_run`. -/
def threadRun (k : KernelState) (t : ℤ) : Option KernelState := schedulerAddReady k t

/-- `thread_finish`, up to the interrupt that lets the scheduler free the row. -/
def threadFinish (k : KernelState) : KernelState :=
  { k with state := Function.update k.state k.currentThread .dying }

/-- Where a sleeper belongs in the list ordered by wake-up time. -/
structure Position where
  prev : ℤ
  it : ℤ
  isTail : Bool
  isTop : Bool

/-- The loop of `thread_sleep` that looks for the position. -/
def positionLoop (k : KernelState) (wakeupTime : UInt32) : ℕ → ℤ → ℤ → Bool → Option Position
  | 0, _, _, _ => none
  | n + 1, prev, it, isTop =>
    if wakeupTime < k.wakeupTime it then some ⟨prev, it, false, isTop⟩
    else if k.nextSleeperId it = -1 then some ⟨prev, it, true, isTop⟩
    else positionLoop k wakeupTime n it (k.nextSleeperId it) false

/-- `thread_sleep`, up to its `thread_switch`; `now` is what `rtc_get_msec` returns. -/
def threadSleep (k : KernelState) (now sleepTime : UInt32) : Option KernelState :=
  let wakeupTime := now + sleepTime
  let myTid := k.currentThread
  let k : KernelState := { k with wakeupTime := Function.update k.wakeupTime myTid wakeupTime }
  if k.threadNextSleeperId = -1 then
    some { k with threadNextSleeperId := myTid
                  nextSleeperId := Function.update k.nextSleeperId myTid (-1) }
  else
    match positionLoop k wakeupTime ROUNDS (-1) k.threadNextSleeperId true with
    | none => none
    | some pos =>
      if pos.isTail then
        some { k with nextSleeperId :=
                 Function.update (Function.update k.nextSleeperId pos.it myTid) myTid (-1) }
      else if pos.isTop then
        some { k with nextSleeperId := Function.update k.nextSleeperId myTid k.threadNextSleeperId
                      threadNextSleeperId := myTid }
      else if pos.prev = -1 then none
      else
        some { k with nextSleeperId :=
                 Function.update (Function.update k.nextSleeperId myTid pos.it) pos.prev myTid }

end Buenos.Kernel

import Buenos.Userland.Malloc

/-!
# NULL pointers in `free`

* `LastFreeVisits`, `FreesSafely` — the headers that `last_free` looks at, and that `free` follows no NULL
  pointer.
* `HandsOutNone` — no segment is handed out.  Unlike `HandsOutNothing` it does not ask for the room of the first
  header.
* `Defined` — `init_malloc` gets the room for its header, and the size can be rounded up to an `int`.

The header of `init_malloc` is free and has no successor, and the first segment that `malloc` hands out becomes its
successor.  `merge_around` merges that segment with its predecessor and follows its `next`, which is NULL.

Principal results: `freesSafely_iff_fields` (one call), `free_total_iff` (runs) and `free_follows_null`.
-/

namespace Buenos.Malloc

open Transition

/-! ## Following pointers -/

/-- The headers that the loop of `last_free` looks at. -/
inductive LastFreeVisits (s : State) (header : Word) : Word → Prop
  | header : LastFreeVisits s header header
  | next {p n f : Word} (hp : LastFreeVisits s header p) (hn : s.get p .next = some n) (h0 : n ≠ 0)
      (hf : s.get n .free = some f) (hfree : f ≠ 0) : LastFreeVisits s header n

/-- `free(ptr)` follows no NULL pointer: to its header, in `merge_around` and in `last_free`. -/
def FreesSafely (s : State) (ptr : Word) : Prop :=
  ∃ s1 s2, s.set (findHeader ptr) .free 1 = some s1 ∧ mergeAround s1 (findHeader ptr) = some s2 ∧
    ∀ p, LastFreeVisits s2 (findHeader ptr) p → p ≠ 0

/-- Every live pointer can be freed. -/
def FreeTotal (s : State) : Prop := ∀ x ∈ s.live, FreesSafely s x.1

/-- The action leads to a state in which every live pointer can be freed. -/
def KeepsFreeTotal (s : State) (a : Action) : Prop := ∀ s', step s a = some s' → FreeTotal s'

/-- The call is not a `malloc` that gets a segment. -/
def HandsOutNone (s : State) : Action → Prop
  | .malloc size g => size.toInt ≤ 0 ∨ size.toInt ≤ 2 ^ 31 - 4 ∧
      ∀ s' ∈ initMalloc s g, ∀ n ∈ adjustSize size, GrowthRefused s' n g.grow
  | _ => True

theorem HandsOutNothing.none {s : State} {a : Action} (h : HandsOutNothing s a) : HandsOutNone s a := by
  cases a with
  | malloc size g => exact h.2
  | free ptr grant => trivial
  | write a b => trivial

/-- `init_malloc` gets the room for its header, and the size can be rounded up to an `int`. -/
def Defined (s : State) : Action → Prop
  | .malloc size g => HeaderGranted s g ∧ size.toInt ≤ 2 ^ 31 - 4
  | _ => True

theorem set_some {s s' : State} {p w : Word} {f : Field} (h : s.set p f w = some s') :
    p ≠ 0 ∧ s' = { s with mem := store s.mem (p + f.offset) w } := by
  rw [State.set] at h
  split_ifs at h with h0
  cases h
  exact ⟨h0, rfl⟩

theorem LastFreeVisits.ne_zero {s : State} {header p : Word} (h : LastFreeVisits s header p) (h0 : header ≠ 0) :
    p ≠ 0 := by
  induction h with
  | header => exact h0
  | next _ _ hne _ _ _ => exact hne

/-- Only `merge_around` can follow a NULL pointer that is not the header. -/
theorem freesSafely_iff {s : State} {ptr : Word} : FreesSafely s ptr ↔
    ∃ s1 s2, s.set (findHeader ptr) .free 1 = some s1 ∧ mergeAround s1 (findHeader ptr) = some s2 := by
  constructor
  · rintro ⟨s1, s2, h1, h2, -⟩
    exact ⟨s1, s2, h1, h2⟩
  · rintro ⟨s1, s2, h1, h2⟩
    exact ⟨s1, s2, h1, h2, fun p hp => hp.ne_zero (set_some h1).1⟩

/-! ## Headers that do not overlap -/

/-- The headers at `p` and at `q` have no byte in common. -/
def HeadersApart (p q : Word) : Prop := 16 ≤ (q - p).toNat ∧ (q - p).toNat ≤ 2 ^ 32 - 16

theorem HeadersApart.symm {p q : Word} (h : HeadersApart p q) : HeadersApart q p := by
  unfold HeadersApart at *
  constructor <;> bv_omega

theorem offset_toNat (f : Field) : f.offset.toNat ≤ 12 := by
  cases f <;> decide

/-- A field that is written leaves the other header alone. -/
theorem load_store_header (mem : Word → BitVec 8) {p q : Word} (w : Word) (h : HeadersApart p q) (f f' : Field) :
    load (store mem (p + f.offset) w) (q + f'.offset) = load mem (q + f'.offset) := by
  unfold HeadersApart at h
  have hf := offset_toNat f
  have hf' := offset_toNat f'
  apply load_store_of_far
  · bv_omega
  · bv_omega

/-- Merging with the next segment follows NULL when that one is free and the last one. -/
theorem mergeNext_none_iff {s : State} {p n : Word} (hp : p ≠ 0) (hapart : n ≠ 0 → HeadersApart p n) :
    mergeNext s p n = none ↔
      n ≠ 0 ∧ load s.mem (n + Field.offset .free) ≠ 0 ∧ load s.mem (n + Field.offset .next) = 0 := by
  rw [mergeNext]
  by_cases hn : n = 0
  · rw [if_pos hn]
    exact iff_of_false (Option.some_ne_none _) fun h => h.1 hn
  · rw [if_neg hn, get_ne hn, Option.bind_eq_bind, Option.bind_some]
    by_cases hfree : load s.mem (n + Field.offset .free) = 0
    · rw [if_pos hfree]
      exact iff_of_false (Option.some_ne_none _) fun h => h.2.1 hfree
    · have hkeep := fun mem w f f' => load_store_header mem w (hapart hn) f f'
      simp only [if_neg hfree, get_ne hp, get_ne hn, set_ne hp, Option.bind_eq_bind, Option.bind_some, hkeep]
      by_cases hlast : load s.mem (n + Field.offset .next) = 0
      · rw [hlast]
        exact iff_of_true rfl ⟨hn, hfree, rfl⟩
      · rw [set_ne hlast]
        exact iff_of_false (Option.some_ne_none _) fun h => hlast h.2.2

/-- Merging with the previous segment follows NULL when that one is free and there is no next one. -/
theorem mergePrev_cases {s : State} {p n q : Word} (hp : p ≠ 0) (hapart : n ≠ 0 → q ≠ 0 → HeadersApart q n) :
    (mergePrev s p n q = none ∧ q ≠ 0 ∧ load s.mem (q + Field.offset .free) ≠ 0 ∧ n = 0) ∨
      ∃ s' between, mergePrev s p n q = some (s', between) ∧ between ≠ 0 ∧ (between = p ∨ between = q) ∧
        (n ≠ 0 → load s'.mem (n + Field.offset .free) = load s.mem (n + Field.offset .free) ∧
          load s'.mem (n + Field.offset .next) = load s.mem (n + Field.offset .next)) ∧
        ¬(q ≠ 0 ∧ load s.mem (q + Field.offset .free) ≠ 0 ∧ n = 0) := by
  rw [mergePrev]
  by_cases hq : q = 0
  · exact .inr ⟨s, p, if_pos hq, hp, .inl rfl, fun _ => ⟨rfl, rfl⟩, fun h => h.1 hq⟩
  · rw [if_neg hq, get_ne hq, Option.bind_eq_bind, Option.bind_some]
    by_cases hfree : load s.mem (q + Field.offset .free) = 0
    · exact .inr ⟨s, p, if_pos hfree, hp, .inl rfl, fun _ => ⟨rfl, rfl⟩, fun h => h.2.1 hfree⟩
    · rw [if_neg hfree]
      by_cases hn : n = 0
      · rw [hn]
        exact .inl ⟨rfl, hq, hfree, rfl⟩
      · right
        have hkeep := fun mem w f f' => load_store_header mem w (hapart hn hq) f f'
        simp only [set_ne hn, set_ne hq, get_ne hp, get_ne hq, Option.bind_eq_bind, Option.bind_some]
        refine ⟨_, q, rfl, hq, .inr rfl, fun _ => ⟨?_, ?_⟩, fun h => hn h.2.2⟩
        · rw [hkeep, hkeep, load_store_field _ _ _ (by decide)]
        · rw [hkeep, hkeep, load_store_field _ _ _ (by decide)]

/-- **When `free` follows NULL**: the segment is the last one and the one in front of it is free, or the one behind it
is free and the last one. -/
theorem freesSafely_iff_fields {s : State} {ptr p n q : Word} (hptr : findHeader ptr = p) (hp : p ≠ 0)
    (hnext : load s.mem (p + Field.offset .next) = n) (hprev : load s.mem (p + Field.offset .prev) = q)
    (hpn : n ≠ 0 → HeadersApart p n) (hpq : q ≠ 0 → HeadersApart p q) (hqn : n ≠ 0 → q ≠ 0 → HeadersApart q n) :
    FreesSafely s ptr ↔ ¬(q ≠ 0 ∧ load s.mem (q + Field.offset .free) ≠ 0 ∧ n = 0) ∧
      ¬(n ≠ 0 ∧ load s.mem (n + Field.offset .free) ≠ 0 ∧ load s.mem (n + Field.offset .next) = 0) := by
  -- the state in which `merge_around` starts
  obtain ⟨s1, hs1⟩ : ∃ s1, s1 = { s with mem := store s.mem (p + Field.offset .free) 1 } := ⟨_, rfl⟩
  have hn1 : s1.get p .next = some n := by rw [get_ne hp, hs1, load_store_field _ _ _ (by decide), hnext]
  have hq1 : s1.get p .prev = some q := by rw [get_ne hp, hs1, load_store_field _ _ _ (by decide), hprev]
  have hsafe : FreesSafely s ptr ↔ ∃ s2, mergeAround s1 p = some s2 := by
    rw [freesSafely_iff, hptr, set_ne hp, ← hs1]
    simp
  have hnkeep : n ≠ 0 → ∀ f : Field, load s1.mem (n + f.offset) = load s.mem (n + f.offset) := fun hn f => by
    rw [hs1, load_store_header _ _ (hpn hn)]
  have hqkeep : q ≠ 0 → load s1.mem (q + Field.offset .free) = load s.mem (q + Field.offset .free) := fun hq => by
    rw [hs1, load_store_header _ _ (hpq hq)]
  rw [hsafe, mergeAround, hn1, hq1]
  simp only [Option.bind_eq_bind, Option.bind_some]
  rcases mergePrev_cases (s := s1) (n := n) (q := q) hp hqn with
    ⟨hnone, hq, hfree, hn⟩ | ⟨s2, between, hsome, hb, hbetween, hkeep, hno⟩
  · rw [hnone]
    refine iff_of_false (by simp) fun h => h.1 ⟨hq, ?_, hn⟩
    rwa [← hqkeep hq]
  · rw [hsome, Option.bind_some]
    have hapart : n ≠ 0 → HeadersApart between n := fun hn => by
      rcases hbetween with rfl | rfl
      · exact hpn hn
      · exact hqn hn hb
    rw [← Option.isSome_iff_exists, ← Option.ne_none_iff_isSome, ne_eq, mergeNext_none_iff hb hapart]
    constructor
    · refine fun h => ⟨fun h' => hno ⟨h'.1, ?_, h'.2.2⟩, fun h' => h ⟨h'.1, ?_, ?_⟩⟩
      · rw [hqkeep h'.1]
        exact h'.2.1
      · rw [(hkeep h'.1).1, hnkeep h'.1]
        exact h'.2.1
      · rw [(hkeep h'.1).2, hnkeep h'.1]
        exact h'.2.2
    · refine fun h h' => h.2 ⟨h'.1, ?_, ?_⟩
      · rw [← hnkeep h'.1, ← (hkeep h'.1).1]
        exact h'.2.1
      · rw [← hnkeep h'.1, ← (hkeep h'.1).2]
        exact h'.2.2


/-! ## The first segment -/

/-- The memory of a grown heap: the headers `p` and `q` behind it are linked, and `q` is the last one. -/
def linkLast (mem : Word → BitVec 8) (p q : Word) : Word → BitVec 8 :=
  store (store (store mem (p + Field.offset .next) q) (q + Field.offset .prev) p) (q + Field.offset .next) 0

theorem Fresh.nextFree_mem {s s' : State} (hs : Fresh s) {n : Word} (hn : 0 < n.toInt) {grow : Bool}
    (h : ¬GrowthRefused s n grow) {seg : Word} (hr : nextFree s s.start n grow = some (seg, s')) :
    s'.mem = linkLast s.mem s.start (s.heapEnd + 1) := by
  have hend : (memlimit s 0 grow).1 = s.heapEnd := by rw [memlimit, if_pos rfl]
  obtain ⟨rfl, hne⟩ := hs.nextFree_grown hn h hr
  have hmem : (memlimit s (s.heapEnd + 1 + n + SEG_HEADER_SIZE) grow).2.mem = s.mem := by
    rw [memlimit_same]
  rw [GrowthRefused] at h
  rw [nextFree, hs.findSegment] at hr
  simp only [Option.bind_eq_bind, Option.bind_some, hs.get_free, hs.get_size, hend] at hr
  rw [if_pos (.inr (by simpa using hn)), if_neg h] at hr
  simp only [set_ne hs.start_ne, set_ne hne, Option.bind_some, hmem] at hr
  cases hr
  rfl

/-- **The first segment that is handed out** is the last one, behind the free first header. -/
theorem Fresh.grown_fields {s s' : State} (hs : Fresh s) {size n : Word} (hn : 0 < n.toInt)
    (ha : adjustSize size = some n) {g : Grants} (hg : ¬GrowthRefused s n g.grow)
    (hapart : HeadersApart s.start (s.heapEnd + 1)) {p : Word} (hm : malloc s size g = some (p, s')) :
    load s'.mem (s.heapEnd + 1 + Field.offset .next) = 0 ∧
      load s'.mem (s.heapEnd + 1 + Field.offset .prev) = s.start ∧
      load s'.mem (s.start + Field.offset .free) = 1 := by
  rw [malloc, hs.initMalloc, ha] at hm
  simp only [Option.bind_eq_bind, Option.bind_some] at hm
  obtain ⟨⟨seg, s1⟩, h1, hm⟩ := Option.bind_eq_some_iff.1 hm
  obtain ⟨rfl, hne⟩ := hs.nextFree_grown hn hg h1
  have hmem := hs.nextFree_mem hn hg h1
  have hnext : load (store s1.mem (s.heapEnd + 1 + Field.offset .free) 0) (s.heapEnd + 1 + Field.offset .next) = 0 := by
    rw [load_store_field _ _ _ (by decide), hmem, linkLast, load_store_self]
  rw [if_neg hne, set_ne hne, Option.bind_some, divideSegment, get_ne hne, Option.bind_eq_bind, Option.bind_some] at hm
  simp only [hnext, ne_eq, not_true_eq_false, if_false, set_ne hne, Option.bind_some, Option.some.injEq,
    Prod.mk.injEq] at hm
  obtain ⟨-, rfl⟩ := hm
  refine ⟨?_, ?_, ?_⟩
  · rw [load_store_field _ _ _ (by decide), hnext]
  · rw [load_store_field _ _ _ (by decide), load_store_field _ _ _ (by decide), hmem, linkLast,
      load_store_field _ _ _ (by decide), load_store_self]
  · rw [load_store_header _ _ hapart.symm, load_store_header _ _ hapart.symm, hmem, linkLast,
      load_store_header _ _ hapart.symm, load_store_header _ _ hapart.symm, load_store_field _ _ _ (by decide), hs.free]

/-- **The last segment behind a free first header** cannot be freed. -/
theorem unsafe_of_fields {s : State} {p q : Word} (hp : p ≠ 0) (hapart : HeadersApart p q)
    (hnext : load s.mem (q + Field.offset .next) = 0) (hprev : load s.mem (q + Field.offset .prev) = p)
    (hfree : load s.mem (p + Field.offset .free) = 1) : ¬FreesSafely s (dataVaddr q) := by
  have hheader : findHeader (dataVaddr q) = q := by
    rw [findHeader, dataVaddr, BitVec.add_sub_cancel]
  by_cases hq : q = 0
  · rw [freesSafely_iff, hheader]
    rintro ⟨s1, -, h1, -⟩
    exact (set_some h1).1 hq
  · rw [freesSafely_iff_fields hheader hq hnext hprev (fun h => absurd rfl h) (fun _ => hapart.symm)
      fun h => absurd rfl h]
    refine fun h => h.1 ⟨hp, ?_, rfl⟩
    rw [hfree]
    decide

/-! ## Runs -/

/-- Nothing has been handed out, with or without room for the first header. -/
def Idle (s : State) : Prop := Initial s ∨ Fresh s

theorem Idle.live {s : State} (hs : Idle s) : s.live = [] := by
  rcases hs with hs | hs
  · exact hs.live
  · exact hs.live

theorem Idle.free_total {s : State} (hs : Idle s) : FreeTotal s := by
  rw [FreeTotal, hs.live]
  exact fun x hx => absurd hx List.not_mem_nil

theorem Idle.initMalloc {s s1 : State} (hs : Idle s) {g : Grants} (h : initMalloc s g = some s1) : Fresh s1 := by
  rcases hs with hs | hs
  · exact (hs.initMalloc h).1
  · rw [hs.initMalloc] at h
    cases h
    exact hs

theorem Idle.step {s s' : State} {a : Action} (hs : Idle s) (hc : HandsOutNone s a) (h : step s a = some s') :
    Idle s' := by
  cases a with
  | malloc size g =>
    cases hi : Malloc.initMalloc s g with
    | none =>
      rw [Malloc.step, Malloc.malloc, hi] at h
      cases h
    | some s1 =>
      have hf := hs.initMalloc hi
      have h1 : Malloc.step s1 (.malloc size g) = some s' := by
        rw [Malloc.step, ← malloc_init hi hf.done]
        exact h
      right
      rcases hf.step_malloc h1 with ⟨-, rfl⟩ | ⟨hgt, -⟩ | ⟨hpos, -, n, ha, -, ⟨-, rfl⟩ | ⟨hg, -⟩⟩
      · exact hf
      · rcases hc with hle | ⟨hle, -⟩
        · omega
        · omega
      · exact hf
      · rcases hc with hle | ⟨-, hrefused⟩
        · omega
        · exact absurd (hrefused s1 hi n ha) hg
  | free ptr grant =>
    rw [step_free_idle hs.live h]
    exact hs
  | write a b =>
    rw [Malloc.step, State.writable, hs.live] at h
    cases h

theorem Roomy.headers_apart {s : State} (hs : Roomy s) : HeadersApart s.start (s.heapEnd + 1) := by
  have hend := hs.heapEnd
  have h1 := s.heapEnd.isLt
  have hal := hs.end_aligned
  unfold HeadersApart
  constructor <;> bv_omega

/-- After a call that hands out a segment, this segment is live and cannot be freed. -/
theorem Roomy.not_free_total {s s' : State} (hs : Roomy s) (hf : Fresh s) {size n : Word} (hn : 0 < n.toInt)
    (ha : adjustSize size = some n) {g : Grants} (hg : ¬GrowthRefused s n g.grow)
    (h : step s (.malloc size g) = some s') : ¬FreeTotal s' := by
  rw [Malloc.step] at h
  obtain ⟨⟨p, s1⟩, hm, h⟩ := Option.bind_eq_some_iff.1 h
  have hp : p = dataVaddr (s.heapEnd + 1) := by
    rw [hf.malloc_grown hn ha hg hm, dataVaddr, SEG_HEADER_SIZE_eq, BitVec.add_assoc]
    rfl
  obtain ⟨hnext, hprev, hfree⟩ := hf.grown_fields hn ha hg hs.headers_apart hm
  have hne : p ≠ 0 := by
    rw [hf.malloc_grown hn ha hg hm]
    exact add_twentyone_ne hs.end_aligned
  simp only [if_neg hne, Option.some.injEq] at h
  subst h
  intro htotal
  refine unsafe_of_fields (s := { s1 with live := (p, size) :: s1.live }) hf.start_ne hs.headers_apart hnext hprev hfree ?_
  rw [← hp]
  exact htotal _ List.mem_cons_self

/-- A call that leaves nothing that cannot be freed has handed out nothing. -/
theorem Unused.handsOutNone {s s' : State} {a : Action} (hs : Unused s) (hd : Defined s a)
    (h : Malloc.step s a = some s') (hfree : FreeTotal s') : HandsOutNone s a := by
  cases a with
  | malloc size g =>
    cases hi : Malloc.initMalloc s g with
    | none =>
      rw [Malloc.step, Malloc.malloc, hi] at h
      cases h
    | some s1 =>
      obtain ⟨hf, ⟨-, hroom⟩ | ⟨hg, -⟩⟩ := hs.initMalloc hi
      · have h1 : Malloc.step s1 (.malloc size g) = some s' := by
          rw [Malloc.step, ← malloc_init hi hf.done]
          exact h
        by_cases hsize : size.toInt ≤ 0
        · exact .inl hsize
        · refine .inr ⟨hd.2, fun s2 h2 n ha => ?_⟩
          rw [hi] at h2
          cases h2
          obtain ⟨n', ha', ⟨-, hn, -⟩ | ⟨hgt, -⟩⟩ := adjustSize_cases (not_le.1 hsize)
          · rw [ha'] at ha
            cases ha
            by_contra hg
            exact hroom.not_free_total hf hn ha' hg h1 hfree
          · exact absurd hd.2 (not_le.2 hgt)
      · exact absurd hd.1 hg
  | free ptr grant => trivial
  | write a b => trivial

/-- And leaves nothing handed out. -/
theorem Unused.idle {s s' : State} {a : Action} (hs : Unused s) (hd : Defined s a)
    (h : Malloc.step s a = some s') (hc : HandsOutNone s a) : Unused s' := by
  refine (Unused.step hs h).2 ?_
  cases a with
  | malloc size g => exact ⟨hd.1, hc⟩
  | free ptr grant => trivial
  | write a b => trivial

/-- **`free` is total exactly while nothing has been handed out**: in a run of `malloc`, `free` and writes to
payloads in which no `malloc` gets a segment, every live pointer can be freed in every state, and in a run in which
`init_malloc` gets the room for its header and all sizes can be rounded up there is no other way. -/
theorem free_total_iff (heapStart : Word) (mem : Word → BitVec 8) {as : List Action} {s : State}
    (hr : run step (State.init heapStart mem) as = some s) :
    (Every step HandsOutNone (State.init heapStart mem) as → Every step KeepsFreeTotal (State.init heapStart mem) as) ∧
      (Every step Defined (State.init heapStart mem) as → (Every step KeepsFreeTotal (State.init heapStart mem) as ↔
        Every step HandsOutNone (State.init heapStart mem) as)) := by
  have hinit := initial_init heapStart mem
  have hgood : Every step HandsOutNone (State.init heapStart mem) as →
      Every step KeepsFreeTotal (State.init heapStart mem) as :=
    Every.of_invariant (I := Idle) (fun hc hs h => hs.step hc h) (fun hc hs _ h => (hs.step hc h).free_total) (.inl hinit)
  refine ⟨hgood, fun hd => ⟨fun hfree => ?_, hgood⟩⟩
  have hiff : Every step (fun s a => Defined s a ∧ KeepsFreeTotal s a) (State.init heapStart mem) as ↔
      Every step (fun s a => Defined s a ∧ HandsOutNone s a) (State.init heapStart mem) as := by
    refine every_iff (I := Unused) (fun hs h => ?_) (.inl hinit) hr
    have hidle : Idle _ := hs.imp_right And.left
    refine ⟨⟨fun hc => ⟨hc.1, hs.handsOutNone hc.1 h (hc.2 _ h)⟩, fun hc => ⟨hc.1, fun _ h' => ?_⟩⟩, fun hc => ?_⟩
    · exact (hidle.step hc.2 h').free_total
    · exact hs.idle hc.1 h hc.2
  exact (hiff.1 (hd.and hfree)).mono And.right

/-- A process that is refused its first segment. -/
theorem free_total_headerOnly : Every step KeepsFreeTotal (State.init 4097 fun _ => 0)
    [.malloc 0 headerOnly, .malloc 5 headerOnly, .free 0 true] := by
  have hrun : ∃ s, run step (State.init 4097 fun _ => 0)
      [.malloc 0 headerOnly, .malloc 5 headerOnly, .free 0 true] = some s ∧ s.heapEnd = 4120 := by
    decide +kernel
  obtain ⟨s, hr, -⟩ := hrun
  have hnothing : Every step HandsOutNothing (State.init 4097 fun _ => 0)
      [.malloc 0 headerOnly, .malloc 5 headerOnly, .free 0 true] := by
    decide +kernel
  exact (free_total_iff 4097 (fun _ => 0) hr).1 (hnothing.mono HandsOutNothing.none)

/-- **The first allocation of a process** cannot be freed: `merge_around` follows the `next` of the last segment. -/
theorem free_follows_null :
    ∃ s, run step (State.init 4096 fun _ => 0) [.malloc 1 granted] = some s ∧ ¬FreeTotal s := by
  have hrun : ∃ s, run step (State.init 4096 fun _ => 0) [.malloc 1 granted] = some s ∧
      s.live = [(4137, 1)] ∧ (((s.set 4117 .free 1).bind fun s1 => mergeAround s1 4117).isNone = true) := by
    decide +kernel
  obtain ⟨s, hr, hlive, hnone⟩ := hrun
  refine ⟨s, hr, fun htotal => ?_⟩
  have hsafe : FreesSafely s 4137 := htotal (4137, 1) (by rw [hlive]; exact List.mem_cons_self)
  obtain ⟨s1, s2, h1, h2⟩ := freesSafely_iff.1 hsafe
  rw [show findHeader 4137 = 4117 by decide] at h1 h2
  rw [h1, Option.bind_some, h2] at hnone
  cases hnone

end Buenos.Malloc

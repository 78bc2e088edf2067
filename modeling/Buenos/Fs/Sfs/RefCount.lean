import Buenos.Fs.Sfs.Threads
import Buenos.Fs.Sfs.Volume
import Mathlib.Algebra.Order.BigOperators.Group.Finset

/-!
# Reference counts of open files

The table of open files of the SFS, over all runs of calls by any number of threads.

* `uses` — the opens of a file that have not been closed, and the calls of `sfs_open` and `sfs_remove` that
  are between entering and leaving it.
* `TableRight` — each file has at most one entry, whose `times_opened` is this number, and the other entries
  are reset.
* `FailsWhenFull` — with a full table `sfs_open` and `sfs_remove` fail and change nothing.
* `Counted` — the invariant: also every thread inside a call is at the entry of its file.

Principal result: `sfs_open_files`.
-/

namespace Buenos.Fs.Threads

open BlockProgram Transition

/-! ## Uses -/

/-- The thread is between entering and leaving file `f` in `sfs_open` or `sfs_remove`. -/
def Pc.inside (f : ℤ) : Pc → ℕ
  | .opened _ g => if g = f then 1 else 0
  | .checked _ g _ => if g = f then 1 else 0
  | .removed _ g => if g = f then 1 else 0
  | _ => 0

/-- The entry at which the thread is, and its file. -/
def Pc.entry : Pc → Option (Slot × ℤ)
  | .opened e f => some (e, f)
  | .checked e f _ => some (e, f)
  | .closing e f => some (e, f)
  | .removed e f => some (e, f)
  | .awaitRead e f _ _ => some (e, f)
  | .reading e f _ => some (e, f)
  | .awaitWrite e f _ _ _ => some (e, f)
  | .draining e f _ _ => some (e, f)
  | .writing e f _ => some (e, f)
  | .leaving e f _ => some (e, f)
  | _ => none

/-- The file that the thread closes, reads or writes. -/
def Pc.onHandle : Pc → Option ℤ
  | .closing _ f => some f
  | .awaitRead _ f _ _ => some f
  | .reading _ f _ => some f
  | .awaitWrite _ f _ _ _ => some f
  | .draining _ f _ _ => some f
  | .writing _ f _ => some f
  | .leaving _ f _ => some f
  | _ => none

def Thread.uses (th : Thread) (f : ℤ) : ℕ := th.handles f + th.pc.inside f

variable {τ : Type} [Fintype τ]

/-- Successful opens that are not closed, and calls of `sfs_open` and `sfs_remove` inside. -/
def uses (thread : τ → Thread) (f : ℤ) : ℕ := ∑ t, (thread t).uses f

theorem uses_pos {thread : τ → Thread} {t : τ} {f : ℤ} (h : 0 < (thread t).uses f) : 0 < uses thread f :=
  lt_of_lt_of_le h (Finset.single_le_sum (f := fun t => (thread t).uses f) (fun _ _ => Nat.zero_le _)
    (Finset.mem_univ t))

/-! ## The property -/

structure TableRight (s : State τ) : Prop where
  unique : ∀ e e', (s.sfs.openFiles e).fileid = (s.sfs.openFiles e').fileid →
    (s.sfs.openFiles e).fileid ≠ -1 → e = e'
  counted : ∀ e, (s.sfs.openFiles e).fileid ≠ -1 →
    (s.sfs.openFiles e).timesOpened = uses s.thread (s.sfs.openFiles e).fileid
  used : ∀ f, (f ≠ -1 ∧ ∃ e, (s.sfs.openFiles e).fileid = f) ↔ 0 < uses s.thread f
  free : ∀ e, (s.sfs.openFiles e).fileid = -1 → s.sfs.openFiles e = sfsResetEntry

/-- All entries are in use by other files. -/
def TableFull (files : Slot → OpenFile) (f : ℤ) : Prop := ∀ e, (files e).fileid ≠ -1 ∧ (files e).fileid ≠ f

structure FailsWhenFull [DecidableEq τ] (s : State τ) : Prop where
  openFile : ∀ t path r, (s.thread t).pc = .opening path r → TableFull s.sfs.openFiles r.block →
    proceed s t = some (s.ret t VFS_ERROR)
  remove : ∀ t path r, (s.thread t).pc = .removing path r → TableFull s.sfs.openFiles r.block →
    proceed s t = some (s.ret t VFS_ERROR)
  /-- and what they do before -/
  resolve : ∀ t path s', begin s t (.openFile path) = some s' ∨ begin s t (.remove path) = some s' →
    s'.sfs = s.sfs

/-! ## The invariant -/

/-- **The invariant.** -/
structure Counted (s : State τ) : Prop where
  distinct : ∀ {e e'}, (s.sfs.openFiles e).fileid = (s.sfs.openFiles e').fileid →
    (s.sfs.openFiles e).fileid ≠ -1 → e = e'
  times : ∀ {e f}, (s.sfs.openFiles e).fileid = f → f ≠ -1 →
    0 < uses s.thread f ∧ (s.sfs.openFiles e).timesOpened = uses s.thread f
  free : ∀ {e}, (s.sfs.openFiles e).fileid = -1 → s.sfs.openFiles e = sfsResetEntry
  entered : ∀ {f}, 0 < uses s.thread f → 0 ≤ f ∧ ∃ e, (s.sfs.openFiles e).fileid = f
  holds : ∀ {t e f}, (s.thread t).pc.entry = some (e, f) → (s.sfs.openFiles e).fileid = f ∧ 0 ≤ f
  own : ∀ {t f}, (s.thread t).pc.onHandle = some f → 0 < (s.thread t).handles f

/-- The two entries count the same uses of the same file. -/
structure SameUse (x y : OpenFile) : Prop where
  fileid : y.fileid = x.fileid
  times : y.timesOpened = x.timesOpened
  free : x.fileid = -1 → y = x

theorem SameUse.refl (x : OpenFile) : SameUse x x := ⟨rfl, rfl, fun _ => rfl⟩

/-- What a thread needs at its place. -/
structure Placed (files : Slot → OpenFile) (th : Thread) : Prop where
  holds : ∀ {e f}, th.pc.entry = some (e, f) → (files e).fileid = f ∧ 0 ≤ f
  own : ∀ {f}, th.pc.onHandle = some f → 0 < th.handles f

omit [Fintype τ] in
/-- Who is at an entry is one of its uses. -/
theorem Placed.uses_pos {files : Slot → OpenFile} {th : Thread} (h : Placed files th) {e : Slot} {f : ℤ}
    (he : th.pc.entry = some (e, f)) : 0 < th.uses f := by
  rw [Thread.uses]
  by_cases hh : th.pc.onHandle = some f
  · have := h.own hh
    omega
  · have hin : th.pc.inside f = 1 := by
      cases hpc : th.pc <;> rw [hpc] at he hh <;> simp_all [Pc.entry, Pc.onHandle, Pc.inside]
    omega

theorem Counted.placed {s : State τ} (h : Counted s) (t : τ) : Placed s.sfs.openFiles (s.thread t) :=
  ⟨h.holds, h.own⟩

/-- A file without an entry has no uses. -/
theorem Counted.uses_eq_zero {s : State τ} (h : Counted s) {f : ℤ}
    (hno : ∀ e, (s.sfs.openFiles e).fileid ≠ f) : uses s.thread f = 0 := by
  by_contra h0
  obtain ⟨-, e, he⟩ := h.entered (Nat.pos_of_ne_zero h0)
  exact hno e he

theorem Counted.tableRight {s : State τ} (h : Counted s) : TableRight s where
  unique := fun _ _ => h.distinct
  counted := fun _ he => (h.times rfl he).2
  used := by
    intro f
    constructor
    · rintro ⟨hf, e, he⟩
      exact (h.times he hf).1
    · intro hu
      obtain ⟨h0, he⟩ := h.entered hu
      exact ⟨by omega, he⟩
  free := fun _ => h.free

/-! ## Steps of the table -/

variable [DecidableEq τ]

theorem uses_update (thread : τ → Thread) (t : τ) (th : Thread) (f : ℤ) :
    uses (Function.update thread t th) f + (thread t).uses f = uses thread f + th.uses f :=
  sum_update (fun th => th.uses f) thread t th

/-- **A step that enters and leaves nothing.** -/
theorem Counted.keep {s : State τ} (h : Counted s) {sfs : Sfs} {t : τ} {th : Thread}
    (hsame : ∀ e, SameUse (s.sfs.openFiles e) (sfs.openFiles e))
    (huses : ∀ f, th.uses f = (s.thread t).uses f) (hplaced : Placed s.sfs.openFiles th) :
    Counted ⟨sfs, Function.update s.thread t th⟩ := by
  have hu : ∀ f, uses (Function.update s.thread t th) f = uses s.thread f := by
    intro f
    have := uses_update s.thread t th f
    rw [huses f] at this
    omega
  refine ⟨?_, ?_, ?_, ?_, ?_, ?_⟩
  · intro e e' he hne
    rw [(hsame e).fileid] at he hne
    rw [(hsame e').fileid] at he
    exact h.distinct he hne
  · intro e f he hf
    rw [(hsame e).fileid] at he
    rw [hu, (hsame e).times]
    exact h.times he hf
  · intro e he
    rw [(hsame e).fileid] at he
    rw [(hsame e).free he]
    exact h.free he
  · intro f hf
    rw [hu] at hf
    obtain ⟨h0, e, he⟩ := h.entered hf
    exact ⟨h0, e, (hsame e).fileid.trans he⟩
  · intro t' e f he
    rw [(hsame e).fileid]
    by_cases ht : t' = t
    · subst ht
      simp only [Function.update_self] at he
      exact hplaced.holds he
    · simp only [Function.update_of_ne ht] at he
      exact h.holds he
  · intro t' f hf
    by_cases ht : t' = t
    · subst ht
      simp only [Function.update_self] at hf ⊢
      exact hplaced.own hf
    · simp only [Function.update_of_ne ht] at hf ⊢
      exact h.own hf

/-- What becomes of an entry with `n` uses of file `f`: it counts them, or is reset. -/
def EntryAfter (x : OpenFile) (f : ℤ) (n : ℕ) : Prop :=
  x.fileid = f ∧ x.timesOpened = n ∧ 0 < n ∨ x = sfsResetEntry ∧ n = 0

/-- **A step that enters or leaves** entry `e` for file `f`. -/
theorem Counted.change {s : State τ} (h : Counted s) {sfs : Sfs} {t : τ} {th : Thread} {e : Slot} {f : ℤ}
    (hf : 0 ≤ f) (hrest : ∀ e', e' ≠ e → SameUse (s.sfs.openFiles e') (sfs.openFiles e'))
    (hbefore : (s.sfs.openFiles e).fileid = f ∨
      (s.sfs.openFiles e).fileid = -1 ∧ ∀ e', (s.sfs.openFiles e').fileid ≠ f)
    (hother : ∀ g, g ≠ f → th.uses g = (s.thread t).uses g)
    (hafter : EntryAfter (sfs.openFiles e) f (uses (Function.update s.thread t th) f))
    (hplaced : Placed sfs.openFiles th) : Counted ⟨sfs, Function.update s.thread t th⟩ := by
  have hu : ∀ g, g ≠ f → uses (Function.update s.thread t th) g = uses s.thread g := by
    intro g hg
    have := uses_update s.thread t th g
    rw [hother g hg] at this
    omega
  -- another entry is not the one of `f`
  have hne : ∀ {e'}, e' ≠ e → (s.sfs.openFiles e').fileid ≠ f := by
    rintro e' he' hf'
    obtain hb | ⟨-, hb⟩ := hbefore
    · exact he' (h.distinct (hf'.trans hb.symm) (by omega))
    · exact hb e' hf'
  have hid : (sfs.openFiles e).fileid = f ∨ (sfs.openFiles e).fileid = -1 := by
    obtain ⟨ha, -⟩ | ⟨ha, -⟩ := hafter
    · exact .inl ha
    · rw [ha]
      exact .inr rfl
  refine ⟨?_, ?_, ?_, ?_, ?_, ?_⟩
  · intro e1 e2 he hne1
    by_cases h1 : e1 = e <;> by_cases h2 : e2 = e
    · rw [h1, h2]
    · subst h1
      rw [(hrest e2 h2).fileid] at he
      obtain hid | hid := hid
      · exact absurd (he.symm.trans hid) (hne h2)
      · exact absurd hid hne1
    · subst h2
      rw [(hrest e1 h1).fileid] at he hne1
      obtain hid | hid := hid
      · exact absurd (he.trans hid) (hne h1)
      · exact absurd (he.trans hid) hne1
    · rw [(hrest e1 h1).fileid] at he hne1
      rw [(hrest e2 h2).fileid] at he
      exact h.distinct he hne1
  · intro e' g he hg
    by_cases hee : e' = e
    · subst hee
      obtain ⟨ha, hn, hpos⟩ | ⟨ha, -⟩ := hafter
      · rw [ha] at he
        subst he
        exact ⟨hpos, hn⟩
      · rw [ha] at he
        exact absurd he.symm hg
    · rw [(hrest e' hee).fileid] at he
      rw [(hrest e' hee).times, hu g (he ▸ hne hee)]
      exact h.times he hg
  · intro e' he
    by_cases hee : e' = e
    · subst hee
      obtain ⟨ha, -⟩ | ⟨ha, -⟩ := hafter
      · have hneg : f = -1 := ha.symm.trans he
        omega
      · exact ha
    · rw [(hrest e' hee).fileid] at he
      rw [(hrest e' hee).free he]
      exact h.free he
  · intro g hg
    by_cases hgf : g = f
    · subst hgf
      obtain ⟨ha, -⟩ | ⟨-, ha⟩ := hafter
      · exact ⟨hf, e, ha⟩
      · exact absurd ha (Nat.pos_iff_ne_zero.1 hg)
    · rw [hu g hgf] at hg
      obtain ⟨h0, e', he'⟩ := h.entered hg
      have hee : e' ≠ e := by
        rintro rfl
        obtain hb | ⟨hb, -⟩ := hbefore
        · exact hgf (he'.symm.trans hb)
        · omega
      exact ⟨h0, e', (hrest e' hee).fileid.trans he'⟩
  · intro t' e' g he
    by_cases ht : t' = t
    · subst ht
      simp only [Function.update_self] at he
      exact hplaced.holds he
    · simp only [Function.update_of_ne ht] at he
      obtain ⟨hg, h0⟩ := h.holds he
      refine ⟨?_, h0⟩
      by_cases hee : e' = e
      · subst hee
        have hgf : g = f := by
          obtain hb | ⟨hb, -⟩ := hbefore
          · exact hg.symm.trans hb
          · omega
        subst hgf
        -- this thread is still a use of the file
        have hpos : 0 < uses (Function.update s.thread t th) g := by
          apply uses_pos (t := t')
          rw [Function.update_of_ne ht]
          exact (h.placed t').uses_pos he
        obtain ⟨ha, -⟩ | ⟨-, ha⟩ := hafter
        · exact ha
        · omega
      · rw [(hrest e' hee).fileid]
        exact hg
  · intro t' g hg
    by_cases ht : t' = t
    · subst ht
      simp only [Function.update_self] at hg ⊢
      exact hplaced.own hg
    · simp only [Function.update_of_ne ht] at hg ⊢
      exact h.own hg

/-- `t` enters entry `e` for file `f`, in `sfs_open` or `sfs_remove`. -/
theorem Counted.entering {s : State τ} (h : Counted s) {sfs : Sfs} {t : τ} {pc : Pc} {e : Slot} {f : ℤ}
    (h0 : 0 ≤ f) (hbefore : (s.sfs.openFiles e).fileid = f ∨
      (s.sfs.openFiles e).fileid = -1 ∧ ∀ e', (s.sfs.openFiles e').fileid ≠ f)
    (hrest : ∀ e', e' ≠ e → sfs.openFiles e' = s.sfs.openFiles e')
    (hid : (sfs.openFiles e).fileid = f)
    (htimes : (sfs.openFiles e).timesOpened = (s.sfs.openFiles e).timesOpened + 1)
    (hout : ∀ g, (s.thread t).pc.inside g = 0) (hin : ∀ g, pc.inside g = if f = g then 1 else 0)
    (hentry : pc.entry = some (e, f)) (hno : pc.onHandle = none) :
    Counted ⟨sfs, Function.update s.thread t { s.thread t with pc := pc }⟩ := by
  have hold : (s.sfs.openFiles e).timesOpened = uses s.thread f := by
    obtain hb | ⟨hb, hb'⟩ := hbefore
    · exact (h.times hb (by omega)).2
    · rw [h.free hb, h.uses_eq_zero hb']
      rfl
  have hnew : uses (Function.update s.thread t { s.thread t with pc := pc }) f = uses s.thread f + 1 := by
    have hsum := uses_update s.thread t { s.thread t with pc := pc } f
    have hth : Thread.uses { s.thread t with pc := pc } f = (s.thread t).uses f + 1 := by
      rw [Thread.uses, Thread.uses, hout, hin, if_pos rfl]
    rw [hth] at hsum
    omega
  refine h.change h0 (fun e' he' => ?_) hbefore (fun g hg => ?_) (.inl ⟨hid, ?_, ?_⟩) ⟨?_, ?_⟩
  · rw [hrest e' he']
    exact SameUse.refl _
  · rw [Thread.uses, Thread.uses, hout g, hin g, if_neg hg.symm]
  · rw [htimes, hold, hnew]
    rfl
  · rw [hnew]
    omega
  · intro e' g he
    cases hentry.symm.trans he
    exact ⟨hid, h0⟩
  · intro g hg
    cases hno.symm.trans hg

/-- `t` leaves its entry, and with it the call. -/
theorem Counted.leaving {s : State τ} (h : Counted s) {t : τ} {th : Thread} {e : Slot} {f : ℤ}
    {isCloseOp : Bool} (hentry : (s.thread t).pc.entry = some (e, f))
    (hfewer : th.uses f + isCloseOp.toNat = (s.thread t).uses f)
    (hother : ∀ g, g ≠ f → th.uses g = (s.thread t).uses g) (hidle : th.pc = .idle) :
    Counted ⟨sfsExit s.sfs e isCloseOp, Function.update s.thread t th⟩ := by
  obtain ⟨hid, h0⟩ := h.holds hentry
  obtain ⟨-, htimes⟩ := h.times hid (by omega)
  have hsum := uses_update s.thread t th f
  have hcount : exitCount (s.sfs.openFiles e) isCloseOp =
      uses (Function.update s.thread t th) f := by
    rw [exitCount, htimes]
    cases isCloseOp with
    | false =>
      simp only [Bool.toNat_false, Bool.false_eq_true, if_false] at hfewer ⊢
      omega
    | true =>
      simp only [Bool.toNat_true, if_true] at hfewer ⊢
      omega
  have hplaced : ∀ files, Placed files th := by
    intro files
    constructor
    · intro e' g he
      rw [hidle] at he
      cases he
    · intro g hg
      rw [hidle] at hg
      cases hg
  have hset : ∀ {x e'}, e' ≠ e → SameUse (s.sfs.openFiles e') ((s.sfs.setEntry e x).openFiles e') := by
    intro x e' he'
    rw [setEntry_openFiles, Function.update_of_ne he']
    exact SameUse.refl _
  obtain ⟨hc, hexit⟩ | ⟨hc, -, hexit⟩ | ⟨hc, -, hexit⟩ := sfsExit_cases s.sfs e isCloseOp
  · rw [hexit]
    refine h.change h0 (fun e' he' => hset he') (.inl hid) hother (.inl ?_) (hplaced _)
    rw [setEntry_openFiles, Function.update_self]
    exact ⟨hid, hcount, by omega⟩
  · rw [hexit]
    refine h.change h0 (fun e' he' => hset he') (.inl hid) hother (.inr ⟨?_, by omega⟩) (hplaced _)
    rw [setEntry_openFiles, Function.update_self]
  · rw [hexit]
    refine h.change h0 (fun e' he' => ?_) (.inl hid) hother (.inr ⟨?_, by omega⟩) (hplaced _)
    · rw [setEntry_openFiles, Function.update_of_ne he']
      obtain hd | hd := deleteBlocks_parentid
          (s.sfs.setEntry e { s.sfs.openFiles e with timesOpened := 0 }) (s.sfs.openFiles e).fileid
          (s.sfs.openFiles e).isFolder e'
      · rw [hd]
        exact hset he'
      · rw [hd, setEntry_openFiles, Function.update_of_ne he']
        refine ⟨rfl, rfl, fun hfree => ?_⟩
        rw [h.free hfree]
        rfl
    · rw [setEntry_openFiles, Function.update_self]

omit [Fintype τ] [DecidableEq τ] in
/-- `sfs_create` does not look at the table. -/
theorem sfsCreateIn_openFiles (s : Sfs) (parent : ℕ) (path : List UInt8) (isFolder : Bool) (size num : ℕ) :
    (sfsCreateIn s parent path isFolder size num).2.openFiles = s.openFiles := by
  unfold sfsCreateIn
  split
  · rfl
  split
  · rfl
  split
  · rfl
  split
  · rfl
  dsimp only
  split
  · split <;> rfl
  split
  · rfl
  split <;> rfl

/-! ## Steps of the calls -/

/-- `t` goes on to a place that is as far inside as its old one. -/
theorem Counted.move {s : State τ} (h : Counted s) {sfs : Sfs} {t : τ} {pc : Pc} {r : ℤ}
    (hsame : ∀ e, SameUse (s.sfs.openFiles e) (sfs.openFiles e))
    (hin : ∀ f, pc.inside f = (s.thread t).pc.inside f)
    (hplaced : Placed s.sfs.openFiles ⟨pc, (s.thread t).handles, r⟩) :
    Counted ⟨sfs, Function.update s.thread t ⟨pc, (s.thread t).handles, r⟩⟩ :=
  h.keep hsame (fun f => by rw [Thread.uses, Thread.uses, hin f]) hplaced

omit [Fintype τ] [DecidableEq τ] in
/-- A place outside of the table. -/
theorem Placed.outside {files : Slot → OpenFile} {th : Thread} (h : th.pc.entry = none)
    (h' : th.pc.onHandle = none) : Placed files th where
  holds := by
    intro e f he
    rw [h] at he
    cases he
  own := by
    intro f hf
    rw [h'] at hf
    cases hf

/-- A call returns that has entered nothing. -/
theorem Counted.ret {s : State τ} (h : Counted s) {t : τ} (hin : ∀ f, (s.thread t).pc.inside f = 0)
    (r : ℤ) : Counted (s.ret t r) :=
  h.move (fun _ => SameUse.refl _) (fun f => (hin f).symm) (Placed.outside rfl rfl)

/-- A call that begins on an open file enters its entry. -/
theorem Counted.enter {s : State τ} (h : Counted s) {t : τ} (hidle : (s.thread t).pc = .idle) {f : ℤ}
    (hf : (s.thread t).handles f ≠ 0) {pc : Slot → Pc} (hentry : ∀ e, (pc e).entry = some (e, f))
    (hon : ∀ e, (pc e).onHandle = some f) (hin : ∀ e g, (pc e).inside g = 0) :
    Counted (s.enter t f pc) := by
  have hidle' : ∀ g, (s.thread t).pc.inside g = 0 := by
    intro g
    rw [hidle]
    rfl
  have huses : 0 < (s.thread t).uses f := by
    rw [Thread.uses]
    omega
  obtain ⟨h0, -⟩ := h.entered (uses_pos huses)
  rw [State.enter]
  obtain ⟨he, -⟩ | ⟨e, he, hid⟩ := sfsEnter_spec s.sfs h0
  · rw [he]
    exact h.ret hidle' _
  · rw [he]
    refine h.move (fun _ => SameUse.refl _) (fun g => (hin e g).trans (hidle' g).symm) ⟨?_, ?_⟩
    · intro e' g hg
      cases (hentry e).symm.trans hg
      exact ⟨hid, h0⟩
    · intro g hg
      cases (hon e).symm.trans hg
      exact Nat.pos_of_ne_zero hf

/-- **The first step of a call.** -/
theorem Counted.begin {s s' : State τ} (h : Counted s) {t : τ} {c : Call}
    (hidle : (s.thread t).pc = .idle) (hs : begin s t c = some s') : Counted s' := by
  have hin : ∀ f, (s.thread t).pc.inside f = 0 := by
    intro f
    rw [hidle]
    rfl
  have hgoto : ∀ pc : Pc, (∀ f, pc.inside f = 0) → pc.entry = none → pc.onHandle = none →
      Counted (s.goto t pc) := fun pc h1 h2 h3 =>
    h.move (fun _ => SameUse.refl _) (fun f => (h1 f).trans (hin f).symm) (Placed.outside h2 h3)
  cases c with
  | openFile path =>
    rw [Threads.begin] at hs
    split_ifs at hs <;> cases hs
    · exact h.ret hin _
    · exact hgoto _ (fun _ => rfl) rfl rfl
  | closeFile f =>
    rw [Threads.begin] at hs
    split_ifs at hs with hf
    cases hs
    exact h.enter hidle hf (fun _ => rfl) (fun _ => rfl) fun _ _ => rfl
  | create path size =>
    simp only [Threads.begin] at hs
    generalize (if sfsIsFolder path = true then (0 : ℤ) else size.toInt) = size' at hs
    split_ifs at hs <;> cases hs
    · exact h.ret hin _
    · exact h.ret hin _
    · exact h.ret hin _
    · exact h.ret hin _
    · exact hgoto _ (fun _ => rfl) rfl rfl
  | remove path =>
    rw [Threads.begin] at hs
    split_ifs at hs <;> cases hs
    · exact h.ret hin _
    · exact hgoto _ (fun _ => rfl) rfl rfl
  | read f bufsize offset =>
    rw [Threads.begin] at hs
    split_ifs at hs with hf <;> cases hs
    · exact h.ret hin _
    · exact h.enter hidle hf (fun _ => rfl) (fun _ => rfl) fun _ _ => rfl
  | write tid f data offset =>
    rw [Threads.begin] at hs
    split_ifs at hs with hf
    · cases hs
      exact h.ret hin _
    · have huses : 0 < (s.thread t).uses f := by
        rw [Thread.uses]
        omega
      obtain ⟨h0, -⟩ := h.entered (uses_pos huses)
      obtain ⟨he, -⟩ | ⟨e, he, hid⟩ := sfsEnter_spec s.sfs h0
      · rw [he] at hs
        cases hs
        exact h.ret hin _
      · rw [he] at hs
        dsimp only at hs
        split_ifs at hs <;> cases hs
        · exact h.ret hin _
        · refine h.move (fun _ => SameUse.refl _) (fun g => (hin g).symm) ⟨?_, ?_⟩
          · rintro e' g ⟨⟩
            exact ⟨hid, h0⟩
          · rintro g ⟨⟩
            exact Nat.pos_of_ne_zero hf

omit [Fintype τ] [DecidableEq τ] in
/-- The counters of readers and writers of an open entry do not count its uses. -/
theorem sameUse_setEntry {sfs : Sfs} {e : Slot} {x : OpenFile} (hid : x.fileid = (sfs.openFiles e).fileid)
    (htimes : x.timesOpened = (sfs.openFiles e).timesOpened) (h0 : 0 ≤ (sfs.openFiles e).fileid)
    (e' : Slot) : SameUse (sfs.openFiles e') ((sfs.setEntry e x).openFiles e') := by
  rw [setEntry_openFiles]
  by_cases he : e' = e
  · subst he
    rw [Function.update_self]
    exact ⟨hid, htimes, fun h => by omega⟩
  · rw [Function.update_of_ne he]
    exact SameUse.refl _

/-- A reader or writer goes on at its entry. -/
theorem Counted.transfer {s : State τ} (h : Counted s) {sfs : Sfs} {t : τ} {pc : Pc} {e : Slot} {f : ℤ}
    (hentry : (s.thread t).pc.entry = some (e, f)) (hon : (s.thread t).pc.onHandle = some f)
    (hentry' : pc.entry = some (e, f)) (hon' : pc.onHandle = some f)
    (hin : ∀ g, pc.inside g = (s.thread t).pc.inside g)
    (hsame : 0 ≤ (s.sfs.openFiles e).fileid → ∀ e', SameUse (s.sfs.openFiles e') (sfs.openFiles e')) :
    Counted (State.goto { s with sfs := sfs } t pc) := by
  obtain ⟨hid, h0⟩ := h.holds hentry
  refine h.move (hsame (by omega)) hin ⟨?_, ?_⟩
  · intro e' g hg
    cases hentry'.symm.trans hg
    exact ⟨hid, h0⟩
  · intro g hg
    cases hon'.symm.trans hg
    exact h.own hon

omit [Fintype τ] [DecidableEq τ] in
theorem openedEntry_fileid {x : OpenFile} {f q : ℤ} {isFolder : Bool} (h : x.fileid = f ∨ x.fileid = -1) :
    (openedEntry x f q isFolder).fileid = f := by
  unfold openedEntry
  split_ifs with hfree
  · rfl
  · exact h.resolve_right hfree

/-- `sfs_open` enters. -/
theorem Counted.opening {s s' : State τ} (h : Counted s) {t : τ} {path : List UInt8} {r : Resolved}
    (hpc : (s.thread t).pc = .opening path r) (hs : proceed s t = some s') : Counted s' := by
  have hin : ∀ f, (s.thread t).pc.inside f = 0 := fun f => by rw [hpc]; rfl
  simp only [Threads.proceed, hpc] at hs
  by_cases h0 : 0 ≤ r.block
  · obtain he | ⟨e, he, hbefore⟩ := sfsEnterExt_open s.sfs r.parentInode (sfsIsFolder path) h0
    · rw [he] at hs
      cases hs
      exact h.ret hin _
    · rw [he] at hs
      cases hs
      refine h.entering h0 hbefore (fun e' he' => Function.update_of_ne he' _ _) ?_ ?_ hin (fun _ => rfl)
        rfl rfl
      · rw [setEntry_openFiles, Function.update_self]
        exact openedEntry_fileid (hbefore.imp_right And.left)
      · rw [setEntry_openFiles, Function.update_self, openedEntry_timesOpened]
  · have he : sfsEnterExt s.sfs r.block r.parentInode true (sfsIsFolder path) false = (none, s.sfs) := by
      rw [sfsEnterExt, if_pos (by omega)]
    rw [he] at hs
    cases hs
    exact h.ret hin _

/-- `sfs_remove` enters. -/
theorem Counted.removing {s s' : State τ} (h : Counted s) {t : τ} {path : List UInt8} {r : Resolved}
    (hpc : (s.thread t).pc = .removing path r) (hs : proceed s t = some s') : Counted s' := by
  have hin : ∀ f, (s.thread t).pc.inside f = 0 := fun f => by rw [hpc]; rfl
  simp only [Threads.proceed, hpc] at hs
  by_cases h0 : 0 ≤ r.block
  · obtain he | ⟨e, he, hbefore⟩ := sfsEnterExt_delete s.sfs r.parentInode (sfsIsFolder path) h0
    · rw [he] at hs
      cases hs
      exact h.ret hin _
    · rw [he] at hs
      cases hs
      refine h.entering h0 hbefore (fun e' he' => Function.update_of_ne he' _ _) ?_ ?_ hin (fun _ => rfl)
        rfl rfl
      · rw [setEntry_openFiles, Function.update_self]
        exact openedEntry_fileid (hbefore.imp_right And.left)
      · rw [setEntry_openFiles, Function.update_self]
        exact openedEntry_timesOpened
  · have he : sfsEnterExt s.sfs r.block r.parentInode true (sfsIsFolder path) true = (none, s.sfs) := by
      rw [sfsEnterExt, if_pos (by omega)]
    rw [he] at hs
    cases hs
    exact h.ret hin _

/-- `sfs_open` leaves, with a handle or without. -/
theorem Counted.checked {s s' : State τ} (h : Counted s) {t : τ} {e : Slot} {f : ℤ} {isDeleted : Bool}
    (hpc : (s.thread t).pc = .checked e f isDeleted) (hs : proceed s t = some s') : Counted s' := by
  have hentry : (s.thread t).pc.entry = some (e, f) := by rw [hpc]; rfl
  have huses : ∀ g, (s.thread t).uses g = (s.thread t).handles g + if f = g then 1 else 0 := by
    intro g
    rw [Thread.uses, hpc]
    rfl
  simp only [Threads.proceed, hpc] at hs
  cases isDeleted with
  | true =>
    simp only [if_true] at hs
    cases hs
    refine h.leaving hentry ?_ ?_ rfl
    · rw [huses, if_pos rfl]
      rfl
    · intro g hg
      rw [huses, if_neg hg.symm]
      rfl
  | false =>
    simp only [Bool.false_eq_true, if_false] at hs
    cases hs
    refine h.leaving hentry ?_ ?_ rfl
    · rw [huses, if_pos rfl, Thread.uses]
      simp only [Function.update_self, Pc.inside, Bool.toNat_false]
    · intro g hg
      rw [huses, if_neg hg.symm, Thread.uses]
      simp only [Function.update_of_ne hg, Pc.inside]

/-- `sfs_close` leaves. -/
theorem Counted.closing {s s' : State τ} (h : Counted s) {t : τ} {e : Slot} {f : ℤ}
    (hpc : (s.thread t).pc = .closing e f) (hs : proceed s t = some s') : Counted s' := by
  have hentry : (s.thread t).pc.entry = some (e, f) := by rw [hpc]; rfl
  have hpos : 0 < (s.thread t).handles f := h.own (by rw [hpc]; rfl)
  have huses : ∀ g, (s.thread t).uses g = (s.thread t).handles g := by
    intro g
    rw [Thread.uses, hpc]
    rfl
  simp only [Threads.proceed, hpc] at hs
  cases hs
  refine h.leaving hentry ?_ ?_ rfl
  · rw [huses, Thread.uses]
    simp only [Function.update_self, Pc.inside, Bool.toNat_true]
    omega
  · intro g hg
    rw [huses, Thread.uses]
    simp only [Function.update_of_ne hg, Pc.inside, Nat.add_zero]

/-- **A step inside a call.** -/
theorem Counted.proceed {s s' : State τ} (h : Counted s) {t : τ} (hs : proceed s t = some s') :
    Counted s' := by
  cases hpc : (s.thread t).pc with
  | idle =>
    simp only [Threads.proceed, hpc] at hs
    cases hs
  | opening path r => exact h.opening hpc hs
  | opened e f =>
    simp only [Threads.proceed, hpc] at hs
    cases hs
    refine h.move (fun _ => SameUse.refl _) (fun g => by rw [hpc]; rfl) ⟨?_, fun hf => by cases hf⟩
    rintro e' g ⟨⟩
    exact h.holds (by rw [hpc]; rfl)
  | checked e f isDeleted => exact h.checked hpc hs
  | closing e f => exact h.closing hpc hs
  | creating path size r =>
    simp only [Threads.proceed, hpc] at hs
    cases hs
    refine h.move (fun e => ?_) (fun g => by rw [hpc]; rfl) (Placed.outside rfl rfl)
    rw [sfsCreateIn_openFiles]
    exact SameUse.refl _
  | removing path r => exact h.removing hpc hs
  | removed e f =>
    simp only [Threads.proceed, hpc] at hs
    cases hs
    refine h.leaving (f := f) (by rw [hpc]; rfl) ?_ ?_ rfl
    · rw [Thread.uses, Thread.uses, hpc]
      simp only [Pc.inside, if_true, Bool.toNat_true, Nat.add_zero]
    · intro g hg
      rw [Thread.uses, Thread.uses, hpc]
      simp only [Pc.inside, if_neg hg.symm]
  | awaitRead e f bufsize offset =>
    simp only [Threads.proceed, hpc, readEntry] at hs
    split_ifs at hs
    cases hs
    exact h.transfer (by rw [hpc]; rfl) (by rw [hpc]; rfl) rfl rfl (fun g => by rw [hpc]; rfl)
      (sameUse_setEntry rfl rfl)
  | reading e f p =>
    cases p with
    | ret r =>
      simp only [Threads.proceed, hpc] at hs
      cases hs
      exact h.transfer (by rw [hpc]; rfl) (by rw [hpc]; rfl) rfl rfl (fun g => by rw [hpc]; rfl)
        (sameUse_setEntry rfl rfl)
    | read b k =>
      simp only [Threads.proceed, hpc] at hs
      cases hs
      exact h.transfer (by rw [hpc]; rfl) (by rw [hpc]; rfl) rfl rfl (fun g => by rw [hpc]; rfl)
        fun _ _ => SameUse.refl _
    | write b x k =>
      simp only [Threads.proceed, hpc] at hs
      cases hs
      exact h.transfer (by rw [hpc]; rfl) (by rw [hpc]; rfl) rfl rfl (fun g => by rw [hpc]; rfl)
        fun _ _ => SameUse.refl _
  | awaitWrite e f tid data offset =>
    simp only [Threads.proceed, hpc, writeReserve] at hs
    split_ifs at hs
    cases hs
    exact h.transfer (by rw [hpc]; rfl) (by rw [hpc]; rfl) rfl rfl (fun g => by rw [hpc]; rfl)
      (sameUse_setEntry rfl rfl)
  | draining e f data offset =>
    simp only [Threads.proceed, hpc] at hs
    split_ifs at hs
    cases hs
    exact h.transfer (by rw [hpc]; rfl) (by rw [hpc]; rfl) rfl rfl (fun g => by rw [hpc]; rfl)
      fun _ _ => SameUse.refl _
  | writing e f p =>
    cases p with
    | ret r =>
      simp only [Threads.proceed, hpc] at hs
      cases hs
      exact h.transfer (by rw [hpc]; rfl) (by rw [hpc]; rfl) rfl rfl (fun g => by rw [hpc]; rfl)
        (sameUse_setEntry rfl rfl)
    | read b k =>
      simp only [Threads.proceed, hpc] at hs
      cases hs
      exact h.transfer (by rw [hpc]; rfl) (by rw [hpc]; rfl) rfl rfl (fun g => by rw [hpc]; rfl)
        fun _ _ => SameUse.refl _
    | write b x k =>
      simp only [Threads.proceed, hpc] at hs
      cases hs
      exact h.transfer (by rw [hpc]; rfl) (by rw [hpc]; rfl) rfl rfl (fun g => by rw [hpc]; rfl)
        fun _ _ => SameUse.refl _
  | leaving e f r =>
    simp only [Threads.proceed, hpc] at hs
    cases hs
    refine h.leaving (f := f) (by rw [hpc]; rfl) ?_ ?_ rfl
    · rw [Thread.uses, Thread.uses, hpc]
      rfl
    · intro g hg
      rw [Thread.uses, Thread.uses, hpc]
      rfl

/-! ## The full table -/

omit [Fintype τ] [DecidableEq τ] in
theorem findEntry_full {files : Slot → OpenFile} {f : ℤ} (h : TableFull files f) :
    ∀ l : List Slot, findEntry files f l none = none
  | [] => rfl
  | i :: l => by
    rw [findEntry, if_neg (h i).2, if_neg fun hi => (h i).1 hi.1]
    exact findEntry_full h l

omit [Fintype τ] [DecidableEq τ] in
theorem sfsEnterExt_full {s : Sfs} {f : ℤ} (h : TableFull s.openFiles f) (q : ℤ)
    (isOpenOp isFolder markAsDeleted : Bool) :
    sfsEnterExt s f q isOpenOp isFolder markAsDeleted = (none, s) := by
  unfold sfsEnterExt
  rw [findEntry_full h]
  by_cases h0 : f < 0
  · rw [if_pos h0]
  · rw [if_neg h0]

omit [Fintype τ] in
theorem failsWhenFull (s : State τ) : FailsWhenFull s where
  openFile := by
    intro t path r hpc hfull
    simp only [proceed, hpc, sfsEnterExt_full hfull]
  remove := by
    intro t path r hpc hfull
    simp only [proceed, hpc, sfsEnterExt_full hfull]
  resolve := by
    rintro t path s' (hs | hs)
    · rw [Threads.begin] at hs
      split_ifs at hs <;> cases hs <;> rfl
    · rw [Threads.begin] at hs
      split_ifs at hs <;> cases hs <;> rfl

/-! ## Runs -/

omit [DecidableEq τ] in
theorem counted_init (disk : Gbd) : Counted (State.init τ disk) where
  distinct := fun _ hne => absurd rfl hne
  times := fun he hf => absurd he.symm hf
  free := fun _ => rfl
  entered := by
    intro f hf
    have h0 : uses (State.init τ disk).thread f = 0 := Finset.sum_eq_zero fun _ _ => rfl
    omega
  holds := fun he => by cases he
  own := fun hf => by cases hf

theorem Counted.step {s s' : State τ} {a : Action τ} (h : Counted s) (hs : step s a = some s') :
    Counted s' := by
  cases a with
  | call t c =>
    rw [Threads.step] at hs
    split at hs
    · exact h.begin ‹_› hs
    · cases hs
  | proceed t => exact h.proceed hs

/-- **The table of open files counts its uses**: after every run of calls by any number of threads, which
close, read and write only what they have open, each file has at most one entry, `times_opened` is the
number of successful opens not yet closed and of calls of `sfs_open` and `sfs_remove` inside, and the
entries of files without any are reset; and with a full table these calls fail and change nothing. -/
theorem sfs_open_files {disk : Gbd} {as : List (Action τ)} {s : State τ}
    (h : Transition.run step (State.init τ disk) as = some s) : TableRight s ∧ FailsWhenFull s :=
  ⟨(run_always Counted.step (counted_init disk) h).tableRight, failsWhenFull s⟩

/-- Two threads open the root at the same time, and one of them begins to close it. -/
def rootRun : List (Action Bool) :=
  [.call false (.openFile [SLASH]), .call true (.openFile [SLASH]), .proceed false, .proceed true, .proceed true,
    .proceed false, .proceed false, .proceed true, .call false (.closeFile 2)]

theorem sfs_open_files_root :
    ∃ s, Transition.run step (State.init Bool emptyVolume) rootRun = some s ∧
      (s.sfs.openFiles 0).timesOpened = 2 ∧ TableRight s ∧ FailsWhenFull s := by
  have hrun : ∃ s, Transition.run step (State.init Bool emptyVolume) rootRun = some s ∧
      (s.sfs.openFiles 0).timesOpened = 2 := by decide +kernel
  obtain ⟨s, hr, h2⟩ := hrun
  exact ⟨s, hr, h2, sfs_open_files hr⟩

end Buenos.Fs.Threads

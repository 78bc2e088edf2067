import Buenos.Base.Transition
import Buenos.Fs.Sfs.FileSystem
import Buenos.Fs.Vfs.Model
import Mathlib.Tactic.Tauto

/-!
# What the virtual filesystem is for

Mounted volumes and open files with their positions, without semaphores and without the tables of a driver.

* `Request` — a call of a function of the VFS.
* `FileStore` — the volumes, each a `FileSystem`, with the names they are mounted under, and the handles.
* `FileStore.Step` — what each request may answer and do, by what the volume may answer and do.
* `FileStore.Counted` — a file is open as often as handles say.

Principal result: `FileStore.Step.counted`, so that a handle stays with its file until it is closed.
-/

namespace Buenos.Fs

/-! ## How often a node is open -/

namespace FileSystem

/-- How often a node is open; a node that is not there is not. -/
def handlesOf (fs : FileSystem) (f : ℕ) : ℕ := ((fs.node f).map Node.handles).getD 0

variable {fs fs' : FileSystem} {f g d : ℕ} {nd : Node} {c : Call} {r : Reply}

theorem handlesOf_some (hn : fs.node f = some nd) : fs.handlesOf f = nd.handles := by
  rw [handlesOf, hn]
  rfl

theorem handlesOf_set : (fs.set f nd).handlesOf = Function.update fs.handlesOf f nd.handles := by
  funext g
  by_cases hg : g = f
  · simp [handlesOf, hg]
  · simp [handlesOf, hg]

theorem handlesOf_drop : (fs.drop f nd).handlesOf = Function.update fs.handlesOf f 0 := by
  funext g
  by_cases hg : g = f
  · simp [handlesOf, hg]
  · simp [handlesOf, hg]

/-- Another entry in a folder opens and closes nothing. -/
theorem handlesOf_modify (change : Entries → Entries) : (fs.modify d change).handlesOf = fs.handlesOf := by
  unfold modify
  split
  · rename_i entries blocks handles removed hn
    rw [handlesOf_set, Function.update_eq_self_iff, handlesOf_some hn]
  · rfl

theorem mem_opened_iff : f ∈ fs.opened ↔ 0 < fs.handlesOf f := by
  constructor
  · rintro ⟨nd, hn, hpos⟩
    rwa [handlesOf_some hn]
  · intro hpos
    cases hn : fs.node f with
    | none =>
      rw [handlesOf, hn] at hpos
      exact absurd hpos (lt_irrefl 0)
    | some nd =>
      rw [handlesOf_some hn] at hpos
      exact ⟨nd, hn, hpos⟩

theorem handlesOf_create {name path : List UInt8} {size : Int32} (hf : fs.node f = none) :
    (fs.create d name f path size).handlesOf = fs.handlesOf := by
  have hnew : (fs.create d name f path size).handlesOf =
      ((fs.modify d (Finmap.insert name f)).set f (newNode path size)).handlesOf := rfl
  rw [hnew, handlesOf_set, handlesOf_modify, Function.update_eq_self_iff, handlesOf, hf]
  rfl

/-- What a call does to the counts of handles. -/
def Opens (fs fs' : FileSystem) (r : Reply) : Call → Prop
  | .openFile _ => (∃ f : ℕ, r.value = f ∧ fs'.handlesOf = Function.update fs.handlesOf f (fs.handlesOf f + 1)) ∨
      (r.value < 0 ∧ fs'.handlesOf = fs.handlesOf)
  | .closeFile fileid => (∃ f : ℕ, fileid = f ∧ fs'.handlesOf = Function.update fs.handlesOf f (fs.handlesOf f - 1)) ∨
      ((∀ f ∈ fs.opened, (f : ℤ) ≠ fileid) ∧ fs'.handlesOf = fs.handlesOf)
  | _ => fs'.handlesOf = fs.handlesOf

/-- **Only opening and closing change the counts**, each at the file that it names. -/
theorem Step.opens (h : fs.Step c r fs') : Opens fs fs' r c := by
  cases h with
  | opened hp hn hr =>
    refine Or.inl ⟨_, rfl, ?_⟩
    rw [handlesOf_set, handlesOf_some hn]
  | notFound hp => exact Or.inr ⟨by decide, rfl⟩
  | tableFull hp hr => exact Or.inr ⟨by decide, rfl⟩
  | notOpen hc hno =>
    cases c with
    | closeFile fileid =>
      cases hc
      exact Or.inr ⟨hno, rfl⟩
    | openFile path => cases hc
    | create path size => cases hc
    | remove path => cases hc
    | read fileid n offset => rfl
    | write tid fileid buf offset => rfl
  | closed hn hh hd =>
    refine Or.inl ⟨_, rfl, ?_⟩
    rw [handlesOf_set, handlesOf_some hn]
  | dropped hn hh hd =>
    refine Or.inl ⟨_, rfl, ?_⟩
    rw [handlesOf_drop, handlesOf_some hn, hh]
  | created ha hf => exact handlesOf_create hf
  | refused ha => rfl
  | missing hp => rfl
  | noRoom hp hs hr => rfl
  | unlinked hd hc hn hh =>
    show FileSystem.handlesOf _ = _
    rw [handlesOf_set, handlesOf_modify, Function.update_eq_self_iff, handlesOf_some hn]
  | removed hd hc hn hh hr =>
    show FileSystem.handlesOf _ = _
    rw [handlesOf_drop, handlesOf_modify, Function.update_eq_self_iff, handlesOf_some hn, hh]
  | read hn hh hr => rfl
  | written hn hh hb =>
    show FileSystem.handlesOf _ = _
    rw [handlesOf_set, Function.update_eq_self_iff, handlesOf_some hn]
  | folder hf hb => rfl

end FileSystem

end Buenos.Fs

namespace Buenos.Vfs

open Buenos.Fs (Reply VFS_OK VFS_ERROR)
open Buenos.Transition

/-! ## Requests -/

/-- A call of a function of the VFS on files and volumes. -/
inductive Request where
  | openFile (pathname : Str)
  | close (file : ℤ)
  | seek (file position : ℤ)
  | read (file : ℤ) (bufsize : ℕ)
  | write (tid file : ℤ) (buffer : List UInt8)
  | create (pathname : Str) (size : Int32)
  | remove (pathname : Str)
  | getfree (volume : Str)

/-- The open file that a request names. -/
def Request.file? : Request → Option ℤ
  | .close file => some file
  | .seek file _ => some file
  | .read file _ => some file
  | .write _ file _ => some file
  | _ => none

/-- The path that a request names, with what the volume is asked then. -/
def Request.path? : Request → Option (Str × (Str → Fs.Call))
  | .openFile pathname => some (pathname, .openFile)
  | .create pathname size => if size.toInt < 0 then none else some (pathname, fun name => .create name size)
  | .remove pathname => some (pathname, .remove)
  | _ => none

/-- What the volume is asked when a request reads or writes an open file at its position. -/
def Request.transfer? : Request → Option (ℤ × (ℕ → ℤ → Fs.Call))
  | .read file bufsize => some (file, fun f position => .read f bufsize position)
  | .write tid file buffer => some (file, fun f position => .write tid f buffer position)
  | _ => none

/-- The request opens a file. -/
def Request.Opening (q : Request) : Prop := ∃ pathname, q = .openFile pathname

/-! ## The store -/

/-- What a row of open files stands for: a standard stream, or a node of a volume with a position. -/
inductive Handle where
  | stream
  | file (volume node : ℕ) (position : ℤ)
  deriving DecidableEq

/-- The volumes by their names, their files, and the open files. -/
structure FileStore where
  mounted : Str → Option ℕ
  volume : ℕ → Fs.FileSystem
  handle : Row → Option Handle

namespace FileStore

variable (st : FileStore)

def setVolume (d : ℕ) (fs : Fs.FileSystem) : FileStore := { st with volume := Function.update st.volume d fs }

def setHandle (row : Row) (h : Option Handle) : FileStore := { st with handle := Function.update st.handle row h }

/-- No file is open as `file`. -/
def NoFile (file : ℤ) : Prop := ∀ row : Row, (row.val : ℤ) = file → st.handle row = none

/-- The first row that is free. -/
def FirstFree (row : Row) : Prop := st.handle row = none ∧ ∀ row' < row, st.handle row' ≠ none

/-- A transfer moves the position on by what it has transferred. -/
def moved (position value : ℤ) : ℤ := if 0 < value then position + value else position

/-- **What a request may answer and do.** -/
inductive Step (st : FileStore) : Request → Reply → FileStore → Prop
  | badName {q : Request} {p : Str} {c : Str → Fs.Call} (hq : q.path? = some (p, c))
      (hp : vfsParsePathname p = none) : st.Step q ⟨VFS_ERROR, []⟩ st
  | limit {p volume name : Str} (hp : vfsParsePathname p = some (volume, name))
      (hfull : ∀ row, st.handle row ≠ none) : st.Step (.openFile p) ⟨VFS_LIMIT, []⟩ st
  | noVolume {q : Request} {p volume name : Str} {c : Str → Fs.Call} (hq : q.path? = some (p, c))
      (hp : vfsParsePathname p = some (volume, name)) (hm : st.mounted volume = none)
      (hroom : q.Opening → ∃ row, st.handle row = none) : st.Step q ⟨VFS_NO_SUCH_FS, []⟩ st
  | opened {p volume name : Str} {d f : ℕ} {row : Row} {fs : Fs.FileSystem}
      (hp : vfsParsePathname p = some (volume, name)) (hm : st.mounted volume = some d) (hrow : st.FirstFree row)
      (hs : (st.volume d).Step (.openFile name) ⟨f, []⟩ fs) :
      st.Step (.openFile p) ⟨row.val, []⟩ ((st.setVolume d fs).setHandle row (some (.file d f 0)))
  | notOpened {p volume name : Str} {d : ℕ} {r : Reply} {fs : Fs.FileSystem}
      (hp : vfsParsePathname p = some (volume, name)) (hm : st.mounted volume = some d)
      (hroom : ∃ row, st.handle row = none) (hs : (st.volume d).Step (.openFile name) r fs) (hr : r.value < 0) :
      st.Step (.openFile p) r (st.setVolume d fs)
  | asked {q : Request} {p volume name : Str} {c : Str → Fs.Call} {d : ℕ} {r : Reply} {fs : Fs.FileSystem}
      (hq : q.path? = some (p, c)) (hno : ¬ q.Opening) (hp : vfsParsePathname p = some (volume, name))
      (hm : st.mounted volume = some d) (hs : (st.volume d).Step (c name) r fs) : st.Step q r (st.setVolume d fs)
  | nothing {p : Str} {size : Int32} (hneg : size.toInt < 0) : st.Step (.create p size) ⟨VFS_OK, []⟩ st
  | noFile {q : Request} {file : ℤ} (hq : q.file? = some file) (hno : st.NoFile file) : st.Step q ⟨VFS_ERROR, []⟩ st
  | closed {row : Row} {d f : ℕ} {position : ℤ} {r : Reply} {fs : Fs.FileSystem}
      (hh : st.handle row = some (.file d f position)) (hs : (st.volume d).Step (.closeFile f) r fs) :
      st.Step (.close row.val) r ((st.setVolume d fs).setHandle row none)
  | sought {row : Row} {d f : ℕ} {position position' : ℤ} (hh : st.handle row = some (.file d f position))
      (hnonneg : 0 ≤ position') :
      st.Step (.seek row.val position') ⟨VFS_OK, []⟩ (st.setHandle row (some (.file d f position')))
  | notSought {file position' : ℤ} (hneg : position' < 0) : st.Step (.seek file position') ⟨VFS_ERROR, []⟩ st
  | transferred {q : Request} {row : Row} {c : ℕ → ℤ → Fs.Call} {d f : ℕ} {position : ℤ} {r : Reply}
      {fs : Fs.FileSystem} (hq : q.transfer? = some ((row.val : ℤ), c)) (hh : st.handle row = some (.file d f position))
      (hs : (st.volume d).Step (c f position) r fs) :
      st.Step q r ((st.setVolume d fs).setHandle row (some (.file d f (moved position r.value))))
  | free {volume : Str} {d : ℕ} (hm : st.mounted volume = some d) :
      st.Step (.getfree volume) ⟨512 * (st.volume d).free, []⟩ st
  | noFree {volume : Str} (hm : st.mounted volume = none) : st.Step (.getfree volume) ⟨VFS_NO_SUCH_FS, []⟩ st

/-- A sequence of requests with its replies. -/
inductive Steps : FileStore → List (Request × Reply) → FileStore → Prop
  | nil (st : FileStore) : Steps st [] st
  | cons {st st1 st2 : FileStore} {q : Request} {r : Reply} {trace : List (Request × Reply)} (h : st.Step q r st1)
      (ht : Steps st1 trace st2) : Steps st ((q, r) :: trace) st2

/-! ## Handles and their files -/

/-- The row is open on file `f` of volume `d`. -/
def onFile (d f : ℕ) : Option Handle → Bool
  | some (.file d' f' _) => d' == d && f' == f
  | _ => false

/-- **Every file is open as often as there are handles of it.** -/
def Counted : Prop := ∀ d f, (st.volume d).handlesOf f = count (onFile d f) st.handle

variable {st} {st' : FileStore} {q : Request} {r : Reply} {row : Row} {d f : ℕ} {position : ℤ} {fs : Fs.FileSystem}
  {x : Option Handle}

/-- A handle has its file. -/
theorem Counted.node (h : st.Counted) (hh : st.handle row = some (.file d f position)) :
    ∃ nd, (st.volume d).node f = some nd ∧ 0 < nd.handles := by
  have hpos : 0 < (st.volume d).handlesOf f := by
    rw [h d f, Nat.pos_iff_ne_zero]
    intro hzero
    have hrow := count_eq_zero.1 hzero row
    simp [hh, onFile] at hrow
  exact Fs.FileSystem.mem_opened_iff.2 hpos

/-- A step of a volume that changes no count. -/
theorem Counted.same (h : st.Counted) (hs : fs.handlesOf = (st.volume d).handlesOf) : (st.setVolume d fs).Counted := by
  intro d' f'
  have hvolume : ((st.setVolume d fs).volume d').handlesOf = (st.volume d').handlesOf := by
    show (Function.update st.volume d fs d').handlesOf = _
    by_cases hd : d' = d
    · rw [hd, Function.update_self, hs]
    · rw [Function.update_of_ne hd]
  rw [hvolume]
  exact h d' f'

/-- Handles of other files. -/
theorem onFile_other {d' f' : ℕ} (hne : ¬ (d' = d ∧ f' = f)) : onFile d' f' (some (.file d f position)) = false := by
  simp only [onFile, Bool.and_eq_false_iff, beq_eq_false_iff_ne, ne_eq]
  tauto

theorem onFile_self : onFile d f (some (.file d f position)) = true := by simp [onFile]

/-- **A row and the file it stands for change together.** -/
theorem Counted.change (h : st.Counted) {n : ℕ}
    (hs : fs.handlesOf = Function.update (st.volume d).handlesOf f n)
    (hn : n + (onFile d f (st.handle row)).toNat = (st.volume d).handlesOf f + (onFile d f x).toNat)
    (hother : ∀ d' f', ¬ (d' = d ∧ f' = f) → onFile d' f' (st.handle row) = onFile d' f' x) :
    ((st.setVolume d fs).setHandle row x).Counted := by
  intro d' f'
  have hcount := count_update (onFile d' f') st.handle row x
  have hold := h d' f'
  show (Function.update st.volume d fs d').handlesOf f' = count (onFile d' f') (Function.update st.handle row x)
  by_cases hsame : d' = d ∧ f' = f
  · obtain ⟨rfl, rfl⟩ := hsame
    rw [Function.update_self, hs, Function.update_self]
    omega
  · have hvolume : (Function.update st.volume d fs d').handlesOf f' = (st.volume d').handlesOf f' := by
      by_cases hd : d' = d
      · subst hd
        have hf : f' ≠ f := fun hf => hsame ⟨rfl, hf⟩
        rw [Function.update_self, hs, Function.update_of_ne hf]
      · rw [Function.update_of_ne hd]
    rw [hother d' f' hsame] at hcount
    omega

/-- A free row takes a handle of a file that has been opened once more. -/
theorem Counted.opened (h : st.Counted) (hrow : st.handle row = none) (position : ℤ)
    (hs : fs.handlesOf = Function.update (st.volume d).handlesOf f ((st.volume d).handlesOf f + 1)) :
    ((st.setVolume d fs).setHandle row (some (.file d f position))).Counted := by
  refine h.change hs ?_ fun d' f' hne => ?_
  · rw [hrow, onFile_self]
    rfl
  · rw [hrow, onFile_other hne]
    rfl

/-- A row gives up its handle of a file that has been closed once. -/
theorem Counted.closed (h : st.Counted) (hh : st.handle row = some (.file d f position))
    (hs : fs.handlesOf = Function.update (st.volume d).handlesOf f ((st.volume d).handlesOf f - 1)) :
    ((st.setVolume d fs).setHandle row none).Counted := by
  obtain ⟨nd, hn, hpos⟩ := h.node hh
  refine h.change hs ?_ fun d' f' hne => ?_
  · rw [hh, onFile_self, Fs.FileSystem.handlesOf_some hn]
    exact Nat.sub_add_cancel hpos
  · rw [hh, onFile_other hne]
    rfl

/-- The position does not count. -/
theorem Counted.setPosition (h : st.Counted) (hh : st.handle row = some (.file d f position)) (position' : ℤ) :
    (st.setHandle row (some (.file d f position'))).Counted := by
  intro d' f'
  have hcount := count_update (onFile d' f') st.handle row (some (.file d f position'))
  have hsame : onFile d' f' (st.handle row) = onFile d' f' (some (.file d f position')) := by
    rw [hh]
    rfl
  rw [hsame] at hcount
  show (st.volume d').handlesOf f' = count (onFile d' f') (Function.update st.handle row _)
  rw [h d' f']
  omega

/-- **Every request** keeps the counts. -/
theorem Step.counted (hs : st.Step q r st') (h : st.Counted) : st'.Counted := by
  cases hs with
  | badName hq hp => exact h
  | limit hp hfull => exact h
  | noVolume hq hp hm hroom => exact h
  | opened hp hm hrow hs =>
    rcases hs.opens with ⟨f', hf', hcount⟩ | ⟨hneg, -⟩
    · obtain rfl : _ = f' := Int.ofNat_inj.1 hf'
      exact h.opened hrow.1 0 hcount
    · exact absurd hneg (not_lt.2 (Int.natCast_nonneg _))
  | notOpened hp hm hroom hs hr =>
    rcases hs.opens with ⟨f', hf', -⟩ | ⟨-, hsame⟩
    · rw [hf'] at hr
      exact absurd hr (not_lt.2 (Int.natCast_nonneg _))
    · exact h.same hsame
  | asked hq hno hp hm hs =>
    refine h.same ?_
    cases q with
    | create p size =>
      simp only [Request.path?] at hq
      split at hq
      · cases hq
      · cases hq
        exact hs.opens
    | remove p =>
      cases hq
      exact hs.opens
    | openFile p => exact absurd ⟨p, rfl⟩ hno
    | _ => cases hq
  | nothing hneg => exact h
  | noFile hq hno => exact h
  | closed hh hs =>
    obtain ⟨nd, hn, hpos⟩ := h.node hh
    rcases hs.opens with ⟨f', hf', hcount⟩ | ⟨hno, -⟩
    · obtain rfl : _ = f' := Int.ofNat_inj.1 hf'
      exact h.closed hh hcount
    · exact absurd rfl (hno _ ⟨nd, hn, hpos⟩)
  | sought hh hnonneg => exact h.setPosition hh _
  | notSought hneg => exact h
  | transferred hq hh hs =>
    refine Counted.setPosition (h.same ?_) hh _
    cases q with
    | read file bufsize =>
      cases hq
      exact hs.opens
    | write tid file buffer =>
      cases hq
      exact hs.opens
    | _ => cases hq
  | free hm => exact h
  | noFree hm => exact h

end FileStore

end Buenos.Vfs

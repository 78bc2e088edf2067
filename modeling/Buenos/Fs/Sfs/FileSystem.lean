import Buenos.Fs.Sfs.CreateExact
import Buenos.Fs.Sfs.Listing
import Mathlib.Data.Finmap
import Mathlib.Data.Set.Card

/-!
# What the filesystem is for

An SFS volume as its users see it, without blocks, bitmap and table of open files.

* `FileSystem` — nodes with their contents, and the number of free blocks; a folder is a finite map
  from names to nodes.
* `FileSystem.lookup` — a path names a node by walking from the root.
* `FileSystem.Step` — what each call may answer and do; the number of a new node and the order of a
  listing are left open.
* `FileSystem.Steps` — a sequence of calls with its replies.

A removed node that is open keeps its contents until its last handle is closed.  What a removed folder
still named stays a node without a name, and keeps its blocks.
-/

namespace Buenos.Fs

/-- What a folder names. -/
abbrev Entries := Finmap fun _ : List UInt8 => ℕ

/-- The bytes of a file, or the entries of a folder. -/
inductive Content where
  | file (bytes : List UInt8)
  | folder (entries : Entries)

/-- A file or folder: its contents, the blocks it uses, how often it is open, and whether it has been
removed since. -/
structure Node where
  content : Content
  blocks : ℕ
  handles : ℕ
  removed : Bool

/-- The nodes of a volume and its free blocks. -/
structure FileSystem where
  node : ℕ → Option Node
  free : ℕ

namespace FileSystem

variable (fs : FileSystem)

/-- The entries of a folder. -/
def entries (d : ℕ) : Option Entries :=
  match fs.node d with
  | some ⟨.folder entries, _, _, _⟩ => some entries
  | _ => none

/-- The node that folder `d` calls `name`. -/
def child (d : ℕ) (name : List UInt8) : Option ℕ := (fs.entries d).bind (Finmap.lookup name)

/-- The node that a path names. -/
def lookup (path : List UInt8) : Option ℕ :=
  if sfsIsValidPath path then (pathElems path.tail).foldlM fs.child SFS_DIRECTORY_BLOCK else none

/-- The nodes that are open. -/
def opened : Set ℕ := { f | ∃ nd, fs.node f = some nd ∧ 0 < nd.handles }

/-- The table of open files has room for `f`. -/
def HasRoom (f : ℕ) : Prop := f ∈ fs.opened ∨ fs.opened.ncard < SFS_MAX_OPEN_FILES

/-- Replace a node. -/
def set (f : ℕ) (nd : Node) : FileSystem := { fs with node := Function.update fs.node f (some nd) }

/-- Take a node away and give its blocks back. -/
def drop (f : ℕ) (nd : Node) : FileSystem :=
  { node := Function.update fs.node f none, free := fs.free + nd.blocks }

/-- Change the entries of a folder. -/
def modify (d : ℕ) (change : Entries → Entries) : FileSystem :=
  match fs.node d with
  | some ⟨.folder entries, blocks, handles, removed⟩ =>
    fs.set d ⟨.folder (change entries), blocks, handles, removed⟩
  | _ => fs

section

variable {fs} {f g d : ℕ} {nd : Node} {name : List UInt8} {change : Entries → Entries}

@[simp] theorem node_set : (fs.set f nd).node g = if g = f then some nd else fs.node g :=
  Function.update_apply ..

@[simp] theorem free_set : (fs.set f nd).free = fs.free := rfl

@[simp] theorem node_drop : (fs.drop f nd).node g = if g = f then none else fs.node g :=
  Function.update_apply ..

@[simp] theorem free_drop : (fs.drop f nd).free = fs.free + nd.blocks := rfl

theorem entries_some {es : Entries} :
    fs.entries d = some es ↔ ∃ nd, fs.node d = some nd ∧ nd.content = .folder es := by
  unfold entries
  split
  · rename_i es' blocks handles removed h
    simp [h]
  · rename_i h
    constructor
    · intro he
      cases he
    · rintro ⟨⟨content, blocks, handles, removed⟩, h1, rfl⟩
      exact absurd h1 (h es blocks handles removed)

/-- The entries of a node depend on its contents only. -/
theorem entries_congr {fs' : FileSystem} (h : (fs'.node d).map Node.content = (fs.node d).map Node.content) :
    fs'.entries d = fs.entries d := by
  ext es
  simp only [entries_some, ← Option.map_eq_some_iff, h]

theorem child_congr {fs' : FileSystem} (h : fs'.entries d = fs.entries d) :
    fs'.child d name = fs.child d name := by
  simp only [child, h]

/-- A changed folder. -/
theorem node_modify {es : Entries} (hn : fs.node d = some nd) (hc : nd.content = .folder es)
    (change : Entries → Entries) (g : ℕ) : (fs.modify d change).node g =
      if g = d then some { nd with content := .folder (change es) } else fs.node g := by
  obtain ⟨content, blocks, handles, removed⟩ := nd
  cases hc
  simp [modify, hn]

theorem node_modify_ne (hne : g ≠ d) (change : Entries → Entries) : (fs.modify d change).node g = fs.node g := by
  unfold modify
  split
  · rw [node_set, if_neg hne]
  · rfl

/-- The nodes of a changed folder and all others stay as open and as removed as they were. -/
theorem of_node_modify (h : (fs.modify d change).node g = some nd) :
    ∃ nd0, fs.node g = some nd0 ∧ nd0.handles = nd.handles ∧ nd0.removed = nd.removed := by
  unfold modify at h
  split at h
  · rename_i es blocks handles removed hn
    rw [node_set] at h
    split at h
    · rename_i hgd
      subst hgd
      cases h
      exact ⟨_, hn, rfl, rfl⟩
    · exact ⟨nd, h, rfl, rfl⟩
  · exact ⟨nd, h, rfl, rfl⟩

theorem drop_set (fs : FileSystem) (f : ℕ) (nd nd' : Node) : (fs.set f nd').drop f nd = fs.drop f nd := by
  simp [drop, set]

@[simp] theorem free_modify : (fs.modify d change).free = fs.free := by
  unfold modify
  split
  · rfl
  · rfl

end

/-- A new file of zeros, or an empty folder. -/
def newNode (path : List UInt8) (size : Int32) : Node :=
  ⟨if sfsIsFolder path then .folder ∅ else .file (List.replicate size.toInt.toNat 0),
    blocksFor path size, 0, false⟩

/-- Add node `f` under a new name. -/
def create (d : ℕ) (name : List UInt8) (f : ℕ) (path : List UInt8) (size : Int32) : FileSystem :=
  { (fs.modify d (Finmap.insert name f)).set f (newNode path size) with
    free := fs.free - blocksFor path size }

/-- The folder and the name that a path ends with. -/
def Place (path : List UInt8) (d : ℕ) (name : List UInt8) : Prop :=
  sfsIsValidPath path = true ∧ ∃ init, pathElems path.tail = init ++ [name] ∧
    init.foldlM fs.child SFS_DIRECTORY_BLOCK = some d

/-- A file or folder may be created under `name` in folder `d`. -/
structure Accepts (path : List UInt8) (size : Int32) (d : ℕ) (name : List UInt8) : Prop where
  place : fs.Place path d name
  entries : ∃ entries, fs.entries d = some entries ∧ name ∉ entries ∧ entries.keys.card < SFS_MAX_FILES
  range : sfsIsFolder path = false → 0 ≤ size.toInt ∧ size.toInt ≤ SFS_MAX_FILESIZE
  room : blocksFor path size ≤ fs.free

/-- What a read of `n` bytes may answer; a folder answers with its names in some order. -/
def ReadReply (content : Content) (n : ℕ) (offset : ℤ) (r : Reply) : Prop :=
  match content with
  | .file bytes => r = ⟨(readAt bytes n offset).1, (readAt bytes n offset).2⟩
  | .folder entries =>
    if offset ≠ 0 ∨ n < SFS_VBLOCK_SIZE then r = ⟨VFS_ERROR, []⟩
    else ∃ names : List (List UInt8), names.Nodup ∧ names.toFinset = entries.keys ∧
      r = ⟨(packed names).length + 4, Bytes.be32 names.length ++ packed names⟩

end FileSystem

/-- The file that a call on an open file names. -/
def Call.fileid? : Call → Option ℤ
  | .closeFile fileid => some fileid
  | .read fileid _ _ => some fileid
  | .write _ fileid _ _ => some fileid
  | _ => none

/-- **What a call may answer and do.** -/
inductive FileSystem.Step (fs : FileSystem) : Call → Reply → FileSystem → Prop
  | opened {path : List UInt8} {f : ℕ} {nd : Node} (hp : fs.lookup path = some f)
      (hn : fs.node f = some nd) (hr : fs.HasRoom f) :
      fs.Step (.openFile path) ⟨f, []⟩ (fs.set f { nd with handles := nd.handles + 1 })
  | notFound {path : List UInt8} (hp : fs.lookup path = none) :
      fs.Step (.openFile path) ⟨VFS_NOT_FOUND, []⟩ fs
  | tableFull {path : List UInt8} {f : ℕ} (hp : fs.lookup path = some f) (hr : ¬ fs.HasRoom f) :
      fs.Step (.openFile path) ⟨VFS_ERROR, []⟩ fs
  | notOpen {c : Call} {fileid : ℤ} (hc : c.fileid? = some fileid) (hno : ∀ f ∈ fs.opened, (f : ℤ) ≠ fileid) :
      fs.Step c ⟨VFS_ERROR, []⟩ fs
  | closed {f : ℕ} {nd : Node} (hn : fs.node f = some nd) (hh : 0 < nd.handles)
      (hd : nd.removed = true → 1 < nd.handles) :
      fs.Step (.closeFile f) ⟨VFS_OK, []⟩ (fs.set f { nd with handles := nd.handles - 1 })
  | dropped {f : ℕ} {nd : Node} (hn : fs.node f = some nd) (hh : nd.handles = 1)
      (hd : nd.removed = true) : fs.Step (.closeFile f) ⟨VFS_OK, []⟩ (fs.drop f nd)
  | created {path : List UInt8} {size : Int32} {d f : ℕ} {name : List UInt8}
      (ha : fs.Accepts path size d name) (hf : fs.node f = none) :
      fs.Step (.create path size) ⟨VFS_OK, []⟩ (fs.create d name f path size)
  | refused {path : List UInt8} {size : Int32} (ha : ∀ d name, ¬ fs.Accepts path size d name) :
      fs.Step (.create path size) ⟨VFS_ERROR, []⟩ fs
  | missing {path : List UInt8} (hp : fs.lookup path = none ∨ path = [SLASH]) :
      fs.Step (.remove path) ⟨VFS_NOT_FOUND, []⟩ fs
  | noRoom {path : List UInt8} {f : ℕ} (hp : fs.lookup path = some f) (hs : path ≠ [SLASH])
      (hr : ¬ fs.HasRoom f) : fs.Step (.remove path) ⟨VFS_ERROR, []⟩ fs
  | unlinked {path : List UInt8} {d f : ℕ} {name : List UInt8} {nd : Node} (hd : fs.Place path d name)
      (hc : fs.child d name = some f) (hn : fs.node f = some nd) (hh : 0 < nd.handles) :
      fs.Step (.remove path) ⟨VFS_OK, []⟩
        ((fs.modify d (Finmap.erase name)).set f { nd with removed := true })
  | removed {path : List UInt8} {d f : ℕ} {name : List UInt8} {nd : Node} (hd : fs.Place path d name)
      (hc : fs.child d name = some f) (hn : fs.node f = some nd) (hh : nd.handles = 0)
      (hr : fs.HasRoom f) :
      fs.Step (.remove path) ⟨VFS_OK, []⟩ ((fs.modify d (Finmap.erase name)).drop f nd)
  | read {f n : ℕ} {offset : ℤ} {nd : Node} {r : Reply} (hn : fs.node f = some nd) (hh : 0 < nd.handles)
      (hr : ReadReply nd.content n offset r) : fs.Step (.read f n offset) r fs
  | written {f : ℕ} {tid offset : ℤ} {buf bytes : List UInt8} {nd : Node} (hn : fs.node f = some nd)
      (hh : 0 < nd.handles) (hb : nd.content = .file bytes) :
      fs.Step (.write tid f buf offset) ⟨(writeAt bytes buf offset).1, []⟩
        (fs.set f { nd with content := .file (writeAt bytes buf offset).2 })
  | folder {f : ℕ} {tid offset : ℤ} {buf : List UInt8} {entries : Entries} (hf : f ∈ fs.opened)
      (hb : fs.entries f = some entries) : fs.Step (.write tid f buf offset) ⟨VFS_ERROR, []⟩ fs

/-- A sequence of calls with its replies. -/
inductive FileSystem.Steps : FileSystem → List (Call × Reply) → FileSystem → Prop
  | nil (fs : FileSystem) : Steps fs [] fs
  | cons {fs fs1 fs2 : FileSystem} {c : Call} {r : Reply} {trace : List (Call × Reply)}
      (h : fs.Step c r fs1) (ht : Steps fs1 trace fs2) : Steps fs ((c, r) :: trace) fs2

end Buenos.Fs

import Buenos.Util.Images
import Buenos.Fs.Sfs.Create
import Buenos.Fs.Sfs.Leak

/-!
# Every run of `tfstool_write`

The same function as `tfstoolWrite`, with the image that a failing run leaves and with the accesses to the
allocation block.

* `findnsetIn` — `bitmap_findnset` on the allocation block; `none` is an access outside of it.
* `copyLoopIn`, `tfstoolWriteRun` — the run; `taken` lists the blocks that have been allocated.
* `Untouched` — only blocks that are free in the bitmap have changed.
* `AllocatesInside`, `EnoughBits` — the searches stay inside of the allocation block, and when they do.

Principal results: `tfstoolWriteRun_image` (the run has the result of `tfstoolWrite`),
`tfstool_write_failure` (a failing run leaves all files as they are), `tfstool_allocates_iff` (the runs
that stay inside of the allocation block), `tfstool_allocates_flat` (without directories all of them) and
`tfstool_allocates_full`.
-/

namespace Buenos.Tfstool

open Bytes Buenos.Fs Ownership

/-! ## The run -/

/-- The loop of `bitmap_findnset` over the bits `i, i + 1, …` (`k` of them). -/
def findLoopIn (e : Endian) (bat : Block) : ℕ → ℕ → Option (Option ℕ × Block)
  | 0, _ => some (none, bat)
  | k + 1, i =>
    if 4 * (i / 32) + 4 ≤ TFS_BLOCK_SIZE then
      if hostBitmapGet e bat i = 0 then some (some i, hostBitmapSet e bat i true)
      else findLoopIn e bat k (i + 1)
    else none

/-- `bitmap_findnset(bat, num_blocks)`; the length is an `int`. -/
def findnsetIn (e : Endian) (bat : Block) (numBlocks : ℕ) : Option (Option ℕ × Block) :=
  findLoopIn e bat (sint numBlocks).toNat 0

/-- The copy loop of `tfstool_write`, as in `copyLoop`. -/
def copyLoopIn (e : Endian) (numBlocks : ℕ) :
    ℕ → ℕ → Image → Block → Block → Block → ℕ → List UInt8 → List ℕ → Option (Copied × List ℕ)
  | 0, _, img, bat, inode, _, filesize, _, taken => some (⟨img, bat, inode, filesize, true⟩, taken)
  | k + 1, i, img, bat, inode, data, filesize, rest, taken =>
    if filesize < TFS_MAX_FILESIZE then
      match findnsetIn e bat numBlocks with
      | none => none
      | some (none, bat) => some (⟨img, bat, inode, filesize, false⟩, taken)
      | some (some bnum, bat) =>
        let taken := bnum :: taken
        if bnum > 2 ∧ bnum < numBlocks then
          let data := data.store 0 (rest.take TFS_BLOCK_SIZE)
          let filesize := filesize + (rest.take TFS_BLOCK_SIZE).length
          let img := writeBlock img data bnum
          let inode := hostStore e inode (4 * (i + 1)) (htonl e bnum)
          if rest.length < TFS_BLOCK_SIZE then some (⟨img, bat, inode, filesize, true⟩, taken)
          else copyLoopIn e numBlocks k (i + 1) img bat inode data filesize (rest.drop TFS_BLOCK_SIZE) taken
        else some (⟨img, bat, inode, filesize, false⟩, taken)
    else some (⟨img, bat, inode, filesize, true⟩, taken)

/-- The messages before `exit(EXIT_FAILURE)`. -/
inductive WriteError where
  | alreadyExists
  | tfsFull
  | noInode
  | onlyBytesFit
  | diskFull
  deriving DecidableEq, Repr

/-- How a run ends. -/
inductive WriteRun where
  | written (img : Image) (taken : List ℕ)
  | failed (error : WriteError) (img : Image) (taken : List ℕ)
  | outside

/-- `num_blocks`, an `unsigned int`. -/
def Image.numBlocks32 (img : Image) : ℕ := img.numBlocks % 2 ^ 32

/-- `tfstool_write`. -/
def tfstoolWriteRun (e : Endian) (img : Image) (junk : Block) (source target : List UInt8) : WriteRun :=
  let md := readBlock img junk TFS_DIRECTORY_BLOCK
  match findFirstSlot e md target TFS_MAX_FILES 0 none with
  | none => .failed .alreadyExists img []
  | some none => .failed .tfsFull img []
  | some (some index) =>
    let bat := readBlock img junk TFS_ALLOCATION_BLOCK
    match findnsetIn e bat img.numBlocks32 with
    | none => .outside
    | some (none, _) => .failed .noInode img []
    | some (some inodeBnum, bat) =>
      if inodeBnum > 2 ∧ inodeBnum < img.numBlocks32 then
        match copyLoopIn e img.numBlocks32 img.numBlocks32 0 img bat (Buf.const 512 0) junk 0 source [inodeBnum] with
        | none => .outside
        | some (c, taken) =>
          if c.filesize ≠ source.length then .failed .onlyBytesFit c.img taken
          else if c.writeok then
            let inode := hostStore e c.inode 0 (htonl e c.filesize)
            let img := writeBlock c.img inode inodeBnum
            let md := (hostStore e md (20 * index) (htonl e inodeBnum)).store (20 * index + 4)
              (strncpyName target)
            let img := writeBlock img md TFS_DIRECTORY_BLOCK
            .written (writeBlock img c.bat TFS_ALLOCATION_BLOCK) taken
          else .failed .diskFull c.img taken
      else .failed .noInode img [inodeBnum]

/-- The image of a run that succeeds. -/
def WriteRun.image : WriteRun → Option Image
  | .written img _ => some img
  | _ => none

/-- The blocks that have been allocated. -/
def WriteRun.taken : WriteRun → List ℕ
  | .written _ taken => taken
  | .failed _ _ taken => taken
  | .outside => []

/-- The error of a run that fails. -/
def WriteRun.error : WriteRun → Option WriteError
  | .failed error _ _ => some error
  | _ => none

section

variable {e : Endian} {bat bat' inode data : Block} {img img' : Image} {num k i p filesize : ℕ}
  {rest source target : List UInt8} {taken : List ℕ}

/-! ## Images of at most 4096 blocks -/

theorem findLoopIn_small (h : i + k ≤ 4096) : findLoopIn e bat k i = some (hostFindLoop e bat k i) := by
  induction k generalizing i with
  | zero => rfl
  | succ k ih =>
    have hin : 4 * (i / 32) + 4 ≤ TFS_BLOCK_SIZE := by
      simp only [TFS_BLOCK_SIZE]
      omega
    rw [findLoopIn, if_pos hin, hostFindLoop, ih (by omega)]
    split
    · rfl
    · rfl

theorem findnsetIn_small (h : num ≤ 4096) : findnsetIn e bat num = some (hostFindnset e bat num) := by
  have hint : (sint num).toNat = num := by
    rw [sint_of_lt (by omega), Int.toNat_natCast]
  rw [findnsetIn, hint, hostFindnset]
  exact findLoopIn_small (by omega)

theorem copyLoopIn_small (h : num ≤ 4096) : ∃ taken', copyLoopIn e num k i img bat inode data filesize rest taken =
    some (copyLoop e num k i img bat inode data filesize rest, taken') := by
  induction k generalizing i img bat inode data filesize rest taken with
  | zero => exact ⟨taken, rfl⟩
  | succ k ih =>
    rw [copyLoopIn, copyLoop, findnsetIn_small h]
    by_cases hmax : filesize < TFS_MAX_FILESIZE
    · rw [if_pos hmax, if_pos hmax]
      rcases hostFindnset e bat num with ⟨_ | bnum, bat1⟩
      · exact ⟨_, rfl⟩
      · simp only
        by_cases hb : bnum > 2 ∧ bnum < num
        · rw [if_pos hb, if_pos hb]
          by_cases hshort : rest.length < TFS_BLOCK_SIZE
          · rw [if_pos hshort, if_pos hshort]
            exact ⟨_, rfl⟩
          · rw [if_neg hshort, if_neg hshort]
            exact ih
        · rw [if_neg hb, if_neg hb]
          exact ⟨_, rfl⟩
    · rw [if_neg hmax, if_neg hmax]
      exact ⟨_, rfl⟩

/-- **The run has the result of `tfstoolWrite`**, and stays inside of the allocation block. -/
theorem tfstoolWriteRun_image (e : Endian) (junk : Block) (source target : List UInt8) (h : img.numBlocks ≤ 4096) :
    tfstoolWriteRun e img junk source target ≠ .outside ∧
      (tfstoolWriteRun e img junk source target).image = tfstoolWrite e img junk source target := by
  have h32 : img.numBlocks32 = img.numBlocks := Nat.mod_eq_of_lt (by omega)
  unfold tfstoolWriteRun tfstoolWrite
  simp only [h32, findnsetIn_small h]
  rcases findFirstSlot e (readBlock img junk TFS_DIRECTORY_BLOCK) target TFS_MAX_FILES 0 none with _ | _ | index
  · exact ⟨WriteRun.noConfusion, rfl⟩
  · exact ⟨WriteRun.noConfusion, rfl⟩
  · rcases hostFindnset e (readBlock img junk TFS_ALLOCATION_BLOCK) img.numBlocks with ⟨_ | f, bat⟩
    · exact ⟨WriteRun.noConfusion, rfl⟩
    · obtain ⟨taken, hcopy⟩ : ∃ taken,
          copyLoopIn e img.numBlocks img.numBlocks 0 img bat (Buf.const 512 0) junk 0 source [f] =
            some (copyLoop e img.numBlocks img.numBlocks 0 img bat (Buf.const 512 0) junk 0 source, taken) :=
        copyLoopIn_small h
      simp only [hcopy]
      by_cases hf : f > 2 ∧ f < img.numBlocks
      · rw [if_pos hf, if_pos hf]
        split
        · exact ⟨WriteRun.noConfusion, rfl⟩
        · split
          · exact ⟨WriteRun.noConfusion, rfl⟩
          · exact ⟨WriteRun.noConfusion, rfl⟩
      · rw [if_neg hf, if_neg hf]
        exact ⟨WriteRun.noConfusion, rfl⟩

/-! ## Failing runs -/

/-- Only blocks that are free in the bitmap have changed. -/
structure Untouched (num : ℕ) (bat : Block) (img img' : Image) : Prop where
  numBlocks : img'.numBlocks = img.numBlocks
  changed : ∀ b, img'.blocks b ≠ img.blocks b → 2 < b ∧ b < num ∧ bitmapGet bat b = 0

theorem Untouched.refl (num : ℕ) (bat : Block) (img : Image) : Untouched num bat img img :=
  ⟨rfl, fun _ hb => absurd rfl hb⟩

/-- A block that has been allocated is not free any more. -/
theorem bitmapGet_taken (hp : p < 4096) {b : ℕ} (h : bitmapGet (bitmapSet bat p true) b = 0) : bitmapGet bat b = 0 := by
  rw [bitmapGet_bitmapSet bat b true (by omega)] at h
  split at h
  · cases h
  · exact h

theorem Untouched.take (hp : p < 4096) (h : Untouched num (bitmapSet bat p true) img img') : Untouched num bat img img' :=
  ⟨h.numBlocks, fun b hb => ⟨(h.changed b hb).1, (h.changed b hb).2.1, bitmapGet_taken hp (h.changed b hb).2.2⟩⟩

theorem Untouched.write (hnum : num ≤ img.numBlocks) (hp : 2 < p ∧ p < num) (hclear : bitmapGet bat p = 0)
    (h : Untouched num bat (writeBlock img data p) img') : Untouched num bat img img' := by
  refine ⟨by rw [h.numBlocks, writeBlock_numBlocks (by omega)], fun b hb => ?_⟩
  by_cases hbp : b = p
  · rw [hbp]
    exact ⟨hp.1, hp.2, hclear⟩
  · refine h.changed b fun hsame => hb ?_
    rw [hsame]
    exact Function.update_of_ne hbp ..

theorem findLoopIn_some (h : findLoopIn e bat k i = some (some p, bat')) :
    p < 4096 ∧ p < i + k ∧ bitmapGet bat p = 0 ∧ bat' = bitmapSet bat p true := by
  induction k generalizing i with
  | zero => cases h
  | succ k ih =>
    rw [findLoopIn] at h
    by_cases hin : 4 * (i / 32) + 4 ≤ TFS_BLOCK_SIZE
    · rw [if_pos hin] at h
      by_cases h0 : hostBitmapGet e bat i = 0
      · rw [if_pos h0] at h
        cases h
        simp only [TFS_BLOCK_SIZE] at hin
        rw [hostBitmapGet_eq] at h0
        exact ⟨by omega, by omega, h0, hostBitmapSet_eq e bat _ true⟩
      · rw [if_neg h0] at h
        obtain ⟨h1, h2, h3⟩ := ih h
        exact ⟨h1, by omega, h3⟩
    · rw [if_neg hin] at h
      cases h

/-- The copy loop writes free blocks only. -/
theorem copyLoopIn_untouched {c : Copied} {taken' : List ℕ} (hnum : num ≤ img.numBlocks)
    (h : copyLoopIn e num k i img bat inode data filesize rest taken = some (c, taken')) :
    Untouched num bat img c.img := by
  induction k generalizing i img bat inode data filesize rest taken with
  | zero =>
    cases h
    exact .refl num bat img
  | succ k ih =>
    rw [copyLoopIn] at h
    split at h
    · rcases hf : findnsetIn e bat num with _ | ⟨_ | p, bat1⟩
      · rw [hf] at h
        cases h
      · rw [hf] at h
        cases h
        exact .refl num bat img
      · rw [hf] at h
        obtain ⟨hp, -, hclear, rfl⟩ := findLoopIn_some hf
        simp only at h
        split at h
        · next hb =>
          split at h
          · cases h
            exact .write hnum hb hclear (.refl num bat _)
          · have hrest := ih (by rw [writeBlock_numBlocks (by omega)]; exact hnum) h
            exact .write hnum hb hclear (hrest.take hp)
        · cases h
          exact .refl num bat img
    · cases h
      exact .refl num bat img

theorem numBlocks32_le (img : Image) : img.numBlocks32 ≤ img.numBlocks := Nat.mod_le ..

theorem readBlock_system {junk : Block} {b : ℕ} (h3 : 3 ≤ img.numBlocks) (hb : b < 3) :
    readBlock img junk b = img.blocks b := if_pos (by omega)

theorem tfstoolWriteRun_untouched {junk : Block} {error : WriteError} (h3 : 3 ≤ img.numBlocks)
    (h : tfstoolWriteRun e img junk source target = .failed error img' taken) :
    Untouched img.numBlocks32 (img.blocks 1) img img' := by
  have hbat : readBlock img junk TFS_ALLOCATION_BLOCK = img.blocks 1 := readBlock_system h3 (by decide)
  unfold tfstoolWriteRun at h
  simp only [hbat] at h
  split at h
  · cases h
    exact .refl ..
  · cases h
    exact .refl ..
  · split at h
    · cases h
    · cases h
      exact .refl ..
    · next f bat hf =>
      obtain ⟨hf4096, -, -, rfl⟩ := findLoopIn_some hf
      split at h
      · split at h
        · cases h
        · next c taken' hcopy =>
          have hloop := (copyLoopIn_untouched (numBlocks32_le img) hcopy).take hf4096
          split at h
          · cases h
            exact hloop
          · split at h
            · cases h
            · cases h
              exact hloop
      · cases h
        exact .refl ..

/-- **A failing run** leaves the header, the allocation block, the directory and all blocks of all files as they
are: what has changed is free in the bitmap. -/
theorem tfstool_write_failure {junk : Block} {error : WriteError} (h3 : 3 ≤ img.numBlocks)
    (hw : WellFormed img.gbd) (h : tfstoolWriteRun e img junk source target = .failed error img' taken) :
    img'.numBlocks = img.numBlocks ∧ (∀ b < 3, img'.blocks b = img.blocks b) ∧
      (∀ site b, refers img.blocks site b → img'.blocks b = img.blocks b) ∧
      ∀ b, img'.blocks b ≠ img.blocks b → 2 < b ∧ b < img.numBlocks ∧ bitmapGet (img.blocks 1) b = 0 := by
  obtain ⟨hnum, hchanged⟩ := tfstoolWriteRun_untouched h3 h
  have hrefers : ∀ site b, refers img.blocks site b → img'.blocks b = img.blocks b := by
    intro site b hb
    by_contra hne
    have hmark : bitmapGet (img.blocks 1) b = 1 := hw.marked hb
    rw [(hchanged b hne).2.2] at hmark
    cases hmark
  refine ⟨hnum, fun b hb => hrefers (.system b) b ⟨hb, rfl⟩, hrefers, fun b hb => ?_⟩
  obtain ⟨h2, hlt, hclear⟩ := hchanged b hb
  exact ⟨h2, hlt.trans_le (numBlocks32_le img), hclear⟩


theorem WriteRun.error_eq {r : WriteRun} {error : WriteError} (h : r.error = some error) :
    ∃ img taken, r = .failed error img taken := by
  cases r with
  | written img taken => cases h
  | failed error' img taken =>
    cases h
    exact ⟨img, taken, rfl⟩
  | outside => cases h

/-- Of 600 bytes, 512 fit on an image of five blocks. -/
theorem tfstool_write_failure_short : ∃ img img' taken, tfstoolCreatevol .little 5 [118] = some img ∧
    tfstoolWriteRun .little img (Buf.const 512 7) (List.replicate 600 1) [97] = .failed .onlyBytesFit img' taken ∧
      (∀ site b, refers img.blocks site b → img'.blocks b = img.blocks b) := by
  have hall : ((tfstoolCreatevol .little 5 [118]).bind fun img =>
      (tfstoolWriteRun .little img (Buf.const 512 7) (List.replicate 600 1) [97]).error) = some .onlyBytesFit := by
    decide +kernel
  obtain ⟨img, himg, herror⟩ := Option.bind_eq_some_iff.1 hall
  obtain ⟨img', taken, hrun⟩ := WriteRun.error_eq herror
  have h := Holds.createvol (by decide) (by decide) himg
  exact ⟨img, img', taken, himg, hrun, (tfstool_write_failure h.big h.wellFormed hrun).2.2.1⟩

/-! ## Runs that stay inside of the allocation block -/

/-- `tfstool_write` looks up all bits in the allocation block, and allocates only blocks that the kernel can
use. -/
def AllocatesInside (e : Endian) (img : Image) (junk : Block) (source target : List UInt8) : Prop :=
  tfstoolWriteRun e img junk source target ≠ .outside ∧
    ∀ b ∈ (tfstoolWriteRun e img junk source target).taken, b < min img.numBlocks (8 * 512)

/-- The blocks that `tfstool_write` looks for: the inode and the data blocks. -/
def neededBlocks (size : ℕ) : ℕ := 1 + min 127 (size / 512 + 1)

/-- The number of blocks fits into the bitmap, or no block is looked for, or enough of the bits are clear. -/
def EnoughBits (img : Image) (source target : List UInt8) : Prop :=
  sint img.numBlocks32 ≤ 4096 ∨ (∃ i < 25, sameName (img.blocks 2) i target = true) ∨
    (∀ i < 25, direntInode (img.blocks 2) i ≠ 0) ∨
    neededBlocks source.length ≤ (freeBits (img.blocks 1) 4096).card

theorem sint_toNat_le (v : ℕ) : (sint v).toNat ≤ v := by
  unfold sint
  split
  · rw [Int.toNat_natCast]
    exact Nat.mod_le ..
  · omega

variable (e bat) in
/-- How a search ends: outside of the block, without a bit, or at a clear bit. -/
theorem findLoopIn_cases (hbelow : ∀ q < i, bitmapGet bat q = 1) (hi : i ≤ 4096) :
    (findLoopIn e bat k i = none ∧ 4096 < i + k ∧ (freeBits bat 4096).card = 0) ∨
      (findLoopIn e bat k i = some (none, bat) ∧ i + k ≤ 4096) ∨
      ∃ p < 4096, bitmapGet bat p = 0 ∧ findLoopIn e bat k i = some (some p, bitmapSet bat p true) := by
  induction k generalizing i with
  | zero => exact .inr (.inl ⟨rfl, hi⟩)
  | succ k ih =>
    rw [findLoopIn, TFS_BLOCK_SIZE, hostBitmapGet_eq, hostBitmapSet_eq]
    rcases Nat.lt_or_eq_of_le hi with hlt | rfl
    · rw [if_pos (by omega)]
      by_cases h0 : bitmapGet bat i = 0
      · rw [if_pos h0]
        exact .inr (.inr ⟨i, hlt, h0, rfl⟩)
      · rw [if_neg h0, show i + (k + 1) = i + 1 + k by omega]
        apply ih _ hlt
        intro q hq
        rcases Nat.lt_succ_iff_lt_or_eq.1 hq with hqi | rfl
        · exact hbelow q hqi
        · exact bitmapGet_ne_zero.1 h0
    · rw [if_neg (by omega)]
      refine .inl ⟨rfl, by omega, ?_⟩
      rw [Finset.card_eq_zero, Finset.eq_empty_iff_forall_notMem]
      intro b hb
      obtain ⟨hlt, h0⟩ := mem_freeBits.1 hb
      rw [hbelow b hlt] at h0
      cases h0

variable (e bat num) in
theorem findnsetIn_cases :
    (findnsetIn e bat num = none ∧ 4096 < sint num ∧ (freeBits bat 4096).card = 0) ∨
      (findnsetIn e bat num = some (none, bat) ∧ sint num ≤ 4096) ∨
      ∃ p < 4096, bitmapGet bat p = 0 ∧ findnsetIn e bat num = some (some p, bitmapSet bat p true) := by
  rcases findLoopIn_cases e bat (k := (sint num).toNat) (i := 0)
    (fun q hq => absurd hq (Nat.not_lt_zero q)) (Nat.zero_le _) with ⟨h, hlong, hcard⟩ | ⟨h, hshort⟩ | h
  · exact .inl ⟨h, by omega, hcard⟩
  · exact .inr (.inl ⟨h, by omega⟩)
  · exact .inr (.inr h)

/-- The copy loop with a long bitmap leaves the block when there are fewer clear bits than it looks for. -/
theorem copyLoopIn_long (hlong : 4096 < sint num) (hsys : ∀ b < 3, bitmapGet bat b = 1)
    (hi : i ≤ 127) (hfs : filesize = 512 * i) (hk : 127 ≤ i + k) :
    copyLoopIn e num k i img bat inode data filesize rest taken = none ↔
      (freeBits bat 4096).card < min (127 - i) (rest.length / 512 + 1) := by
  induction k generalizing i img bat inode data filesize rest taken with
  | zero => exact iff_of_false (fun h => by cases h) (by omega)
  | succ k ih =>
    rw [copyLoopIn]
    rcases Nat.lt_or_eq_of_le hi with hlt | rfl
    · rw [if_pos (by rw [TFS_MAX_FILESIZE]; omega)]
      rcases findnsetIn_cases e bat num with ⟨h, -, hcard⟩ | ⟨-, hshort⟩ | ⟨p, hp, h0, h⟩
      · rw [h]
        exact iff_of_true rfl (by omega)
      · omega
      · have hcard := freeBits_set (le_refl 4096) hp h0
        have hp3 : 2 < p := by
          by_contra hle
          rw [hsys p (by omega)] at h0
          cases h0
        have hpnum : p < num := by
          have hle := sint_toNat_le num
          omega
        rw [h]
        simp only
        rw [if_pos ⟨hp3, hpnum⟩, TFS_BLOCK_SIZE]
        by_cases hshort : rest.length < 512
        · rw [if_pos hshort]
          refine iff_of_false (fun h => by cases h) ?_
          rw [Nat.div_eq_of_lt hshort]
          omega
        · have hsys' : ∀ b < 3, bitmapGet (bitmapSet bat p true) b = 1 := fun b hb => by
            rw [bitmapGet_bitmapSet bat b true (by omega), if_neg (by omega), hsys b hb]
          have hfs' : filesize + (rest.take 512).length = 512 * (i + 1) := by
            rw [List.length_take]
            omega
          rw [if_neg hshort, ih hsys' hlt hfs' (by omega), List.length_drop]
          omega
    · rw [if_neg (by rw [TFS_MAX_FILESIZE]; omega)]
      exact iff_of_false (fun h => by cases h) (by omega)

/-- All searches in a short bitmap stay inside of the block. -/
theorem copyLoopIn_short (hshort : sint num ≤ 4096) :
    copyLoopIn e num k i img bat inode data filesize rest taken ≠ none := by
  induction k generalizing i img bat inode data filesize rest taken with
  | zero => exact Option.some_ne_none _
  | succ k ih =>
    rw [copyLoopIn]
    split
    · rcases findnsetIn_cases e bat num with ⟨-, hlong, -⟩ | ⟨h, -⟩ | ⟨p, -, -, h⟩
      · omega
      · rw [h]
        exact Option.some_ne_none _
      · rw [h]
        simp only
        split
        · split
          · exact Option.some_ne_none _
          · exact ih
        · exact Option.some_ne_none _
    · exact Option.some_ne_none _

theorem findnsetIn_some (h : findnsetIn e bat num = some (some p, bat')) : p < 4096 ∧ p < num := by
  obtain ⟨hp, hlt, -⟩ := findLoopIn_some h
  have hle := sint_toNat_le num
  exact ⟨hp, by omega⟩

/-- What the copy loop allocates. -/
theorem copyLoopIn_taken {c : Copied} {taken' : List ℕ} (htaken : ∀ b ∈ taken, b < 4096 ∧ b < num)
    (h : copyLoopIn e num k i img bat inode data filesize rest taken = some (c, taken')) :
    ∀ b ∈ taken', b < 4096 ∧ b < num := by
  induction k generalizing i img bat inode data filesize rest taken with
  | zero =>
    cases h
    exact htaken
  | succ k ih =>
    rw [copyLoopIn] at h
    split at h
    · rcases hf : findnsetIn e bat num with _ | ⟨_ | p, bat1⟩
      · rw [hf] at h
        cases h
      · rw [hf] at h
        cases h
        exact htaken
      · rw [hf] at h
        have hmore : ∀ b ∈ p :: taken, b < 4096 ∧ b < num :=
          List.forall_mem_cons.2 ⟨findnsetIn_some hf, htaken⟩
        simp only at h
        split at h
        · split at h
          · cases h
            exact hmore
          · exact ih hmore h
        · cases h
          exact hmore
    · cases h
      exact htaken

theorem tfstoolWriteRun_taken {junk : Block} :
    ∀ b ∈ (tfstoolWriteRun e img junk source target).taken, b < 4096 ∧ b < img.numBlocks32 := by
  unfold tfstoolWriteRun
  simp only
  split
  · exact fun b hb => absurd hb List.not_mem_nil
  · exact fun b hb => absurd hb List.not_mem_nil
  · split
    · exact fun b hb => absurd hb List.not_mem_nil
    · exact fun b hb => absurd hb List.not_mem_nil
    · next f bat hf =>
      have hfirst : ∀ b ∈ [f], b < 4096 ∧ b < img.numBlocks32 := List.forall_mem_singleton.2 (findnsetIn_some hf)
      split
      · split
        · exact fun b hb => absurd hb List.not_mem_nil
        · next c taken hcopy =>
          have htaken := copyLoopIn_taken hfirst hcopy
          split
          · exact htaken
          · split
            · exact htaken
            · exact htaken
      · exact hfirst

/-- The blocks that are allocated are blocks for the kernel as long as the run stays inside. -/
theorem allocatesInside_iff {junk : Block} :
    AllocatesInside e img junk source target ↔ tfstoolWriteRun e img junk source target ≠ .outside := by
  refine and_iff_left fun b hb => ?_
  obtain ⟨h1, h2⟩ := tfstoolWriteRun_taken b hb
  have hle := numBlocks32_le img
  omega

section Directory

variable {md : Block} {index : Option ℕ}

/-- The search of `tfstool_write` in the directory fails on a name that is there. -/
theorem findFirstSlot_eq_none : findFirstSlot e md target k i index = none ↔
    ∃ j, i ≤ j ∧ j < i + k ∧ sameName md j target = true := by
  induction k generalizing i index with
  | zero =>
    refine iff_of_false (fun h => by cases h) ?_
    rintro ⟨j, h1, h2, -⟩
    omega
  | succ k ih =>
    rw [findFirstSlot]
    by_cases hs : sameName md i target = true
    · exact iff_of_true (if_pos hs) ⟨i, le_refl i, by omega, hs⟩
    · simp only [if_neg hs]
      rw [ih]
      constructor
      · rintro ⟨j, h1, h2, h⟩
        exact ⟨j, by omega, by omega, h⟩
      · rintro ⟨j, h1, h2, h⟩
        rcases Nat.lt_or_eq_of_le h1 with hlt | rfl
        · exact ⟨j, hlt, by omega, h⟩
        · exact absurd h hs

/-- It does not find a slot in a full directory. -/
theorem findFirstSlot_full (h : ∀ j, i ≤ j → j < i + k → direntInode md j ≠ 0) :
    findFirstSlot e md target k i index = none ∨ findFirstSlot e md target k i index = some index := by
  induction k generalizing i with
  | zero => exact .inr rfl
  | succ k ih =>
    have hused : ¬(hostLoad e md (20 * i) = 0 ∧ index = none) := fun hc =>
      h i (le_refl i) (by omega) ((hostLoad_eq_zero e md _).1 hc.1)
    rw [findFirstSlot, if_neg hused]
    split
    · exact .inl rfl
    · exact ih fun j h1 h2 => h j (by omega) (by omega)

theorem findFirstSlot_none (h : findFirstSlot e md target k i index = some none) :
    index = none ∧ ∀ j, i ≤ j → j < i + k → direntInode md j ≠ 0 := by
  induction k generalizing i index with
  | zero =>
    cases h
    exact ⟨rfl, fun j h1 h2 => by omega⟩
  | succ k ih =>
    rw [findFirstSlot] at h
    split at h
    · cases h
    · obtain ⟨hindex, hused⟩ := ih h
      by_cases hc : hostLoad e md (20 * i) = 0 ∧ index = none
      · rw [if_pos hc] at hindex
        cases hindex
      · rw [if_neg hc] at hindex
        refine ⟨hindex, fun j h1 h2 => ?_⟩
        rcases Nat.lt_or_eq_of_le h1 with hlt | rfl
        · exact hused j hlt (by omega)
        · exact fun h0 => hc ⟨(hostLoad_eq_zero e md _).2 h0, hindex⟩

variable (e md target) in
/-- The search over the whole directory: the name is there, all entries are in use, or neither. -/
theorem findFirstSlot_cases :
    (findFirstSlot e md target TFS_MAX_FILES 0 none = none ∧ ∃ j < 25, sameName md j target = true) ∨
      (findFirstSlot e md target TFS_MAX_FILES 0 none = some none ∧ ∀ j < 25, direntInode md j ≠ 0) ∨
      ∃ r, findFirstSlot e md target TFS_MAX_FILES 0 none = some (some r) ∧
        (¬∃ j < 25, sameName md j target = true) ∧ ¬∀ j < 25, direntInode md j ≠ 0 := by
  have hall (j : ℕ) : j < 0 + TFS_MAX_FILES ↔ j < 25 := by rw [TFS_MAX_FILES, Nat.zero_add]
  rcases hslot : findFirstSlot e md target TFS_MAX_FILES 0 none with _ | _ | r
  · obtain ⟨j, -, hj, hsame⟩ := findFirstSlot_eq_none.1 hslot
    exact .inl ⟨rfl, j, (hall j).1 hj, hsame⟩
  · exact .inr (.inl ⟨rfl, fun j hj => (findFirstSlot_none hslot).2 j (Nat.zero_le j) ((hall j).2 hj)⟩)
  · refine .inr (.inr ⟨r, rfl, ?_, fun hused => ?_⟩)
    · rintro ⟨j, hj, hsame⟩
      rw [findFirstSlot_eq_none.2 ⟨j, Nat.zero_le j, (hall j).2 hj, hsame⟩] at hslot
      cases hslot
    · have hfull : findFirstSlot e md target TFS_MAX_FILES 0 none = none ∨
          findFirstSlot e md target TFS_MAX_FILES 0 none = some none :=
        findFirstSlot_full fun j _ hj => hused j ((hall j).1 hj)
      rw [hslot] at hfull
      rcases hfull with h | h
      · cases h
      · cases h

end Directory

/-- A clear bit is behind the system blocks. -/
theorem two_lt_of_clear (hsys : ∀ b < 3, bitmapGet bat b = 1) (h0 : bitmapGet bat f = 0) : 2 < f := by
  by_contra hle
  rw [hsys f (by omega)] at h0
  cases h0

/-- The copy loop behind the inode `f` leaves the block when it is long and has not enough clear bits. -/
theorem copyLoopIn_none_iff (hsys : ∀ b < 3, bitmapGet bat b = 1) (hf : f < 4096) (hnum : f < num)
    (h0 : bitmapGet bat f = 0) :
    copyLoopIn e num num 0 img (bitmapSet bat f true) inode data 0 rest taken = none ↔
      ¬(sint num ≤ 4096 ∨ neededBlocks rest.length ≤ (freeBits bat 4096).card) := by
  rcases le_or_gt (sint num) 4096 with hshort | hlong
  · exact iff_of_false (copyLoopIn_short hshort) fun hno => hno (.inl hshort)
  · have hf3 := two_lt_of_clear hsys h0
    have hsys' : ∀ b < 3, bitmapGet (bitmapSet bat f true) b = 1 := fun b hb => by
      rw [bitmapGet_bitmapSet _ b true (by omega), if_neg (by omega), hsys b hb]
    have hle := sint_toNat_le num
    have hcard := freeBits_set (le_refl 4096) hf h0
    rw [copyLoopIn_long hlong hsys' (by omega) (by omega) (by omega), neededBlocks]
    omega

/-- **The runs that stay inside** of the allocation block. -/
theorem tfstool_allocates_iff {junk : Block} (h3 : 3 ≤ img.numBlocks) (hw : WellFormed img.gbd) :
    AllocatesInside e img junk source target ↔ EnoughBits img source target := by
  have hbat : readBlock img junk TFS_ALLOCATION_BLOCK = img.blocks 1 := readBlock_system h3 (by decide)
  have hmd : readBlock img junk TFS_DIRECTORY_BLOCK = img.blocks 2 := readBlock_system h3 (by decide)
  have hsys : ∀ b < 3, bitmapGet (img.blocks 1) b = 1 := fun b hb =>
    hw.marked (show refers img.gbd.blocks (.system b) b from ⟨hb, rfl⟩)
  rw [allocatesInside_iff, tfstoolWriteRun]
  simp only [hbat, hmd]
  rcases findFirstSlot_cases e target (img.blocks 2) with ⟨hslot, hname⟩ | ⟨hslot, hfull⟩ | ⟨index, hslot, hnew, hroom⟩
  · rw [hslot]
    exact iff_of_true WriteRun.noConfusion (.inr (.inl hname))
  · rw [hslot]
    exact iff_of_true WriteRun.noConfusion (.inr (.inr (.inl hfull)))
  · have henough : EnoughBits img source target ↔
        sint img.numBlocks32 ≤ 4096 ∨ neededBlocks source.length ≤ (freeBits (img.blocks 1) 4096).card := by
      rw [EnoughBits, or_iff_right hnew, or_iff_right hroom]
    rw [henough, hslot]
    simp only
    rcases findnsetIn_cases e (img.blocks 1) img.numBlocks32 with
      ⟨h, hlong, hcard⟩ | ⟨h, hshort⟩ | ⟨f, hf, h0, h⟩
    · rw [h]
      exact iff_of_false (fun h => h rfl) (by rw [neededBlocks]; omega)
    · rw [h]
      exact iff_of_true WriteRun.noConfusion (.inl hshort)
    · have hf3 := two_lt_of_clear hsys h0
      have hnum := (findnsetIn_some h).2
      rw [h]
      simp only [if_pos (⟨hf3, hnum⟩ : f > 2 ∧ f < img.numBlocks32)]
      rw [← not_iff_not, ← copyLoopIn_none_iff hsys hf hnum h0, not_not]
      -- a loop that comes to its end is followed by no further search
      rcases copyLoopIn e img.numBlocks32 img.numBlocks32 0 img (bitmapSet (img.blocks 1) f true)
        (Buf.const 512 0) junk 0 source [f] with _ | ⟨c, taken⟩
      · exact iff_of_true rfl rfl
      · refine iff_of_false ?_ (Option.some_ne_none _)
        simp only
        split
        · exact WriteRun.noConfusion
        · split
          · exact WriteRun.noConfusion
          · exact WriteRun.noConfusion

/-- An image of five blocks. -/
theorem tfstool_allocates_five : ∃ img, tfstoolCreatevol .little 5 [118] = some img ∧
    AllocatesInside .little img (Buf.const 512 7) (List.replicate 600 1) [97] := by
  obtain ⟨img, himg, hnum⟩ : ∃ img, tfstoolCreatevol .little 5 [118] = some img ∧ img.numBlocks = 5 := ⟨_, rfl, rfl⟩
  have h := Holds.createvol (by decide) (by decide) himg
  refine ⟨img, himg, (tfstool_allocates_iff h.big h.wellFormed).2 (.inl ?_)⟩
  rw [Image.numBlocks32, hnum]
  decide

/-- The block with number `n` in the order: system blocks, then each file with its inode in front. -/
def flatBlock (blocks : ℕ → Block) (n : ℕ) : ℕ :=
  if n < 3 then n
  else
    let f := direntInode (blocks 2) ((n - 3) / 128)
    if (n - 3) % 128 = 0 then f else inodeBlock (blocks f) ((n - 3) % 128 - 1)

/-- A reachable block of a volume without directories is one of 3203. -/
theorem flat_reachable {blocks : ℕ → Block} (hflat : Flat (blocks 2)) {b : ℕ} (h : ReachableBlock blocks b) :
    ∃ n < 3203, flatBlock blocks n = b := by
  rcases h with hlt | ⟨f, k, ⟨rfl, rfl⟩ | ⟨p, i, hl⟩, ho⟩
  · exact ⟨b, by omega, if_pos hlt⟩
  · rcases ho with rfl | ⟨hk, -⟩
    · exact ⟨2, by decide, rfl⟩
    · cases hk
  · obtain ⟨rfl, rfl, hi, rfl, -⟩ := hflat.link_iff.1 hl
    rcases ho with rfl | ⟨-, -, j, hj, rfl⟩
    · refine ⟨3 + 128 * i, by omega, ?_⟩
      rw [flatBlock, if_neg (by omega), show (3 + 128 * i - 3) / 128 = i by omega]
      exact if_pos (by omega)
    · refine ⟨3 + 128 * i + (j + 1), by omega, ?_⟩
      rw [flatBlock, if_neg (by omega), show (3 + 128 * i + (j + 1) - 3) / 128 = i by omega,
        show (3 + 128 * i + (j + 1) - 3) % 128 = j + 1 by omega]
      exact if_neg (Nat.succ_ne_zero j)

/-- **On images without directories** the runs stay inside, for every number of blocks: at most 3203 bits are set. -/
theorem tfstool_allocates_flat {junk : Block} (h3 : 3 ≤ img.numBlocks) (ht : TightVolume img.gbd)
    (hflat : Flat (img.blocks 2)) : AllocatesInside e img junk source target := by
  rw [tfstool_allocates_iff h3 ht.toWellFormed]
  rcases le_or_gt img.numBlocks 4096 with hle | hgt
  · left
    have hnum : img.numBlocks32 = img.numBlocks := Nat.mod_eq_of_lt (by omega)
    rw [hnum, sint_of_lt (by omega)]
    omega
  · refine .inr (.inr (.inr ?_))
    have hvol : volumeBlocks img.gbd = 4096 := by
      simp only [volumeBlocks, sfsInit, Image.gbd, SFS_BLOCKS_PER_VBLOCK, SFS_VBLOCK_SIZE, Nat.div_one]
      omega
    have hcover : Finset.range 4096 ⊆ freeBits (img.blocks 1) 4096 ∪ (Finset.range 3203).image (flatBlock img.blocks) := by
      intro b hb
      rw [Finset.mem_range] at hb
      rcases bitmapGet_eq_zero_or_one (img.blocks 1) b with h0 | h1
      · exact Finset.mem_union_left _ (mem_freeBits.2 ⟨hb, h0⟩)
      · obtain ⟨n, hn, heq⟩ := flat_reachable hflat (ht.complete b (hvol ▸ hb) h1)
        exact Finset.mem_union_right _ (Finset.mem_image.2 ⟨n, Finset.mem_range.2 hn, heq⟩)
    have hcard : 4096 ≤ (freeBits (img.blocks 1) 4096).card + 3203 :=
      calc 4096 = (Finset.range 4096).card := (Finset.card_range 4096).symm
        _ ≤ _ := Finset.card_le_card hcover
        _ ≤ (freeBits (img.blocks 1) 4096).card + ((Finset.range 3203).image (flatBlock img.blocks)).card :=
          Finset.card_union_le ..
        _ ≤ (freeBits (img.blocks 1) 4096).card + 3203 :=
          Nat.add_le_add_left (Finset.card_image_le.trans_eq (Finset.card_range 3203)) _
    rw [neededBlocks]
    omega

end

/-! ## A full volume of 4097 blocks -/

/-- A block of big-endian words. -/
def wordsBlock (f : ℕ → ℕ) : Block := ⟨fun o => (be32 (f (o / 4))).getD (o % 4) 0⟩

theorem wordsBlock_word {f : ℕ → ℕ} {w : ℕ} (hw : w < 128) (hf : f w < 2 ^ 32) : (wordsBlock f).word (4 * w) = f w := by
  rw [Buf.word_congr (b := (Buf.const 512 0).setWord (4 * w) (f w)) fun k hk => ?_]
  · rw [Buf.word_setWord_self _ _ (by omega), Nat.mod_eq_of_lt hf]
  · rw [Buf.byte_of_lt _ (by omega), Buf.setWord, Buf.byte_store_of_mem _ (by omega) (by simp; omega) (by omega)]
    simp only [wordsBlock]
    rw [show (4 * w + k) / 4 = w by omega, show (4 * w + k) % 4 = k by omega, Nat.add_sub_cancel_left]

/-- The bits below 3972. -/
def fullBitmap : Block := wordsBlock fun w => if w < 124 then 0xffffffff else if w = 124 then 15 else 0

/-- A directory with these inodes; the entry with inode 3 is the directory `a/`, and the others are files. -/
def fullDirectory (inode : ℕ → ℕ) : Block := wordsBlock fun w =>
  if w % 5 = 0 then inode (w / 5)
  else if w % 5 = 1 then if inode (w / 5) = 3 then 0x612f0000 else 0x61610000 + w
  else 0

/-- The inode `f` of a file of 65024 bytes in the blocks behind it. -/
def fullInode (f : ℕ) : Block := wordsBlock fun w => if w = 0 then 65024 else f + w

/-- The inode of file `n`. -/
def fileInode (n : ℕ) : ℕ := 4 + 128 * n

def rootInode (i : ℕ) : ℕ := if i < 23 then fileInode i else if i = 23 then 3 else 0

def folderInode (i : ℕ) : ℕ := if i < 8 then fileInode (23 + i) else 0

/-- 31 files of 128 blocks each, 23 of them in the root directory and eight in the directory in block 3. -/
def fullBlocks (b : ℕ) : Block :=
  if b = 1 then fullBitmap
  else if b = 2 then fullDirectory rootInode
  else if b = 3 then fullDirectory folderInode
  else fullInode b

/-- The image: 124 of its first 4096 blocks are free. -/
def fullImage : Image := ⟨4097, fullBlocks⟩

theorem fullRoot_entries : ∀ i < 25, direntInode (fullBlocks 2) i = rootInode i ∧
    direntKind (fullBlocks 2) i = if i = 23 then .dir else .file := by
  decide +kernel

theorem fullFolder_entries : ∀ i < 25, direntInode (fullBlocks 3) i = folderInode i ∧
    direntKind (fullBlocks 3) i = .file := by
  decide +kernel

theorem fullRoot_names : ∀ i < 25, sameName (fullBlocks 2) i [122] = false := by
  decide +kernel

theorem fullBitmap_get {b : ℕ} (hb : b < 4096) : bitmapGet fullBitmap b = if b < 3972 then 1 else 0 := by
  have hword : (if b / 32 < 124 then 0xffffffff else if b / 32 = 124 then 15 else 0) < 2 ^ 32 := by
    split
    · decide
    · split
      · decide
      · decide
  have hval := wordsBlock_word (f := fun w => if w < 124 then 0xffffffff else if w = 124 then 15 else 0)
    (show b / 32 < 128 by omega) hword
  rw [bitmapGet_eq, fullBitmap, hval]
  have hmod : b % 32 < 32 := Nat.mod_lt b (by decide)
  rcases Nat.lt_trichotomy (b / 32) 124 with hlt | heq | hgt
  · rw [if_pos hlt, if_pos (show b < 3972 by omega), show 0xffffffff = 2 ^ 32 - 1 by rfl, Nat.testBit_two_pow_sub_one]
    simp [hmod]
  · rw [if_neg (show ¬b / 32 < 124 by omega), if_pos heq, show 15 = 2 ^ 4 - 1 by rfl, Nat.testBit_two_pow_sub_one]
    simp only [decide_eq_true_eq]
    exact if_congr (by omega) rfl rfl
  · rw [if_neg (show ¬b / 32 < 124 by omega), if_neg (show ¬b / 32 = 124 by omega),
      if_neg (show ¬b < 3972 by omega), Nat.zero_testBit, if_neg Bool.false_ne_true]

theorem fullInode_block {f j : ℕ} (hf : f < 4096) (hj : j < 127) : inodeBlock (fullInode f) j = f + (j + 1) := by
  rw [inodeBlock, fullInode, wordsBlock_word (by omega) (by rw [if_neg (by omega)]; omega), if_neg (by omega)]

theorem fullInode_filesize (f : ℕ) : inodeFilesize (fullInode f) = 65024 :=
  wordsBlock_word (f := fun w => if w = 0 then 65024 else f + w) (w := 0) (by decide) (by rw [if_pos rfl]; decide)

/-- Where block `b` is referred to. -/
def fullSite (b : ℕ) : Site :=
  if b < 3 then .system b
  else if b = 3 then .entry 2 23
  else if (b - 4) % 128 = 0 then
    if (b - 4) / 128 < 23 then .entry 2 ((b - 4) / 128) else .entry 3 ((b - 4) / 128 - 23)
  else .data (fileInode ((b - 4) / 128)) ((b - 4) % 128 - 1)

theorem fullBlocks_dir {p : ℕ} (h : ReachDir fullBlocks p) : p = 2 ∨ p = 3 := by
  induction h with
  | root => exact .inl rfl
  | @sub q i hq hi h0 hk ih =>
    rcases ih with rfl | rfl
    · obtain ⟨hinode, hkind⟩ := fullRoot_entries i hi
      have hi23 : i = 23 := by
        by_contra hne
        rw [hk, if_neg hne] at hkind
        cases hkind
      rw [hinode, hi23]
      exact .inr rfl
    · obtain ⟨-, hkind⟩ := fullFolder_entries i hi
      rw [hk] at hkind
      cases hkind

/-- The entries of the image. -/
theorem fullBlocks_link {p i f : ℕ} {k : Kind} (h : Link fullBlocks p i f k) :
    (f = 3 ∧ k = .dir ∧ p = 2 ∧ i = 23) ∨
      ∃ n < 31, f = fileInode n ∧ k = .file ∧ (n < 23 ∧ p = 2 ∧ i = n ∨ 23 ≤ n ∧ p = 3 ∧ i = n - 23) := by
  have hlt := h.lt
  have hinode := h.inode
  have hlive := h.live
  have hkind := h.kind
  rcases fullBlocks_dir h.dir with rfl | rfl
  · rw [(fullRoot_entries i hlt).1, rootInode] at hinode
    rw [(fullRoot_entries i hlt).2] at hkind
    by_cases hi : i < 23
    · rw [if_pos hi] at hinode
      rw [if_neg (by omega)] at hkind
      exact .inr ⟨i, by omega, hinode.symm, hkind.symm, .inl ⟨hi, rfl, rfl⟩⟩
    · by_cases hi23 : i = 23
      · rw [if_neg hi, if_pos hi23] at hinode
        rw [if_pos hi23] at hkind
        exact .inl ⟨hinode.symm, hkind.symm, rfl, hi23⟩
      · rw [if_neg hi, if_neg hi23] at hinode
        exact absurd hinode.symm hlive
  · rw [(fullFolder_entries i hlt).1, folderInode] at hinode
    rw [(fullFolder_entries i hlt).2] at hkind
    by_cases hi : i < 8
    · rw [if_pos hi] at hinode
      exact .inr ⟨23 + i, by omega, hinode.symm, hkind.symm, .inr ⟨by omega, rfl, by omega⟩⟩
    · rw [if_neg hi] at hinode
      exact absurd hinode.symm hlive

theorem fullBlocks_file (n : ℕ) : fullBlocks (fileInode n) = fullInode (fileInode n) := by
  rw [fullBlocks, fileInode, if_neg (by omega), if_neg (by omega), if_neg (by omega)]

/-- Every block is referred to from one place only. -/
theorem fullBlocks_refers {site : Site} {b : ℕ} (h : refers fullBlocks site b) : b < 3972 ∧ site = fullSite b := by
  cases site with
  | system b' =>
    obtain ⟨hlt, rfl⟩ := h
    exact ⟨by omega, by rw [fullSite, if_pos hlt]⟩
  | entry p i =>
    obtain ⟨k, hl⟩ := h
    rcases fullBlocks_link hl with ⟨rfl, -, rfl, rfl⟩ | ⟨n, hn, rfl, -, hpi⟩
    · exact ⟨by decide, rfl⟩
    · rw [fileInode, fullSite, if_neg (by omega), if_neg (by omega), if_pos (by omega),
        show (4 + 128 * n - 4) / 128 = n by omega]
      refine ⟨by omega, ?_⟩
      rcases hpi with ⟨hlt, rfl, rfl⟩ | ⟨hge, rfl, rfl⟩
      · rw [if_pos hlt]
      · rw [if_neg (by omega)]
  | data f j =>
    obtain ⟨⟨p, i, hl⟩, hj, hb, -⟩ := h
    rcases fullBlocks_link hl with ⟨-, hk, -⟩ | ⟨n, hn, rfl, -, -⟩
    · cases hk
    · rw [fullBlocks_file, fullInode_block (by rw [fileInode]; omega) hj] at hb
      subst hb
      rw [fileInode, fullSite, if_neg (by omega), if_neg (by omega), if_neg (by omega),
        show (4 + 128 * n + (j + 1) - 4) / 128 = n by omega, show (4 + 128 * n + (j + 1) - 4) % 128 - 1 = j by omega]
      exact ⟨by omega, rfl⟩

theorem fullRoot_file {i : ℕ} (hi : i < 23) : Link fullBlocks 2 i (fileInode i) .file := by
  obtain ⟨hinode, hkind⟩ := fullRoot_entries i (by omega)
  refine ⟨.root, by omega, ?_, by rw [fileInode]; omega, ?_⟩
  · rw [hinode, rootInode, if_pos hi]
  · rw [hkind, if_neg (by omega)]

theorem fullRoot_folder : Link fullBlocks 2 23 3 .dir := by
  obtain ⟨hinode, hkind⟩ := fullRoot_entries 23 (by decide)
  exact ⟨.root, by decide, hinode, by decide, hkind⟩

theorem fullFolder_file {i : ℕ} (hi : i < 8) : Link fullBlocks 3 i (fileInode (23 + i)) .file := by
  obtain ⟨hinode, hkind⟩ := fullFolder_entries i (by omega)
  refine ⟨reachDir_iff.2 fullRoot_folder.inTree, by omega, ?_, by rw [fileInode]; omega, hkind⟩
  rw [hinode, folderInode, if_pos hi]

theorem fullBlocks_inTree {n : ℕ} (hn : n < 31) : InTree fullBlocks (fileInode n) .file := by
  rcases Nat.lt_or_ge n 23 with hlt | hge
  · exact (fullRoot_file hlt).inTree
  · have hfile := (fullFolder_file (show n - 23 < 8 by omega)).inTree
    rwa [show 23 + (n - 23) = n by omega] at hfile

theorem fullBlocks_reachable {b : ℕ} (hb : b < 3972) : ReachableBlock fullBlocks b := by
  rcases Nat.lt_trichotomy b 3 with hlt | rfl | hgt
  · exact .inl hlt
  · exact .inr ⟨3, .dir, fullRoot_folder.inTree, .inl rfl⟩
  · refine .inr ⟨fileInode ((b - 4) / 128), .file, fullBlocks_inTree (by omega), ?_⟩
    rcases Nat.eq_zero_or_pos ((b - 4) % 128) with hzero | hpos
    · exact .inl (by rw [fileInode]; omega)
    · refine .inr ⟨rfl, by omega, (b - 4) % 128 - 1, by omega, ?_⟩
      rw [fullBlocks_file, fullInode_block (by rw [fileInode]; omega) (by omega), fileInode]
      omega

/-- The image is consistent: exactly the reachable blocks are marked. -/
theorem fullImage_tight : TightVolume fullImage.gbd where
  marked h := by
    have hb := (fullBlocks_refers h).1
    exact (fullBitmap_get (by omega)).trans (if_pos hb)
  once h h' := by rw [(fullBlocks_refers h).2, (fullBlocks_refers h').2]
  inside h := (fullBlocks_refers h).1.trans (by decide)
  size h := by
    rcases fullBlocks_link h with ⟨-, hk, -⟩ | ⟨n, -, rfl, -, -⟩
    · cases hk
    · have hsize : inodeFilesize (fullBlocks (fileInode n)) = 65024 := by
        rw [fullBlocks_file, fullInode_filesize]
      exact hsize.trans_le (by decide)
  complete b hb hmark := by
    refine fullBlocks_reachable ?_
    by_contra hge
    have hb4096 : b < 4096 := hb.trans_eq (by decide)
    have hclear : bitmapGet fullBitmap b = 0 := (fullBitmap_get hb4096).trans (if_neg hge)
    exact absurd (hclear.symm.trans hmark) (by decide)
  gapless h j hj h0 := by
    rcases fullBlocks_link h with ⟨-, hk, -⟩ | ⟨n, hn, rfl, -, -⟩
    · cases hk
    · have hblock : inodeBlock (fullBlocks (fileInode n)) j = fileInode n + (j + 1) := by
        rw [fullBlocks_file, fullInode_block (by rw [fileInode]; omega) hj]
      exact absurd (hblock.symm.trans h0) (Nat.succ_ne_zero _)

theorem fullImage_free : (freeBits (fullImage.blocks 1) 4096).card ≤ 124 := by
  have hsub : freeBits (fullImage.blocks 1) 4096 ⊆ (Finset.range 124).image (3972 + ·) := fun b hb => by
    obtain ⟨hlt, hclear⟩ := mem_freeBits.1 hb
    have hlow : 3972 ≤ b := by
      by_contra hlow
      rw [show fullImage.blocks 1 = fullBitmap from rfl, fullBitmap_get hlt, if_pos (by omega)] at hclear
      cases hclear
    exact Finset.mem_image.2 ⟨b - 3972, Finset.mem_range.2 (by omega), Nat.add_sub_of_le hlow⟩
  calc (freeBits (fullImage.blocks 1) 4096).card ≤ ((Finset.range 124).image (3972 + ·)).card := Finset.card_le_card hsub
    _ ≤ (Finset.range 124).card := Finset.card_image_le
    _ = 124 := Finset.card_range 124

/-- **A file of 64512 bytes for the image of 4097 blocks**: its last block is looked for behind the bitmap. -/
theorem tfstool_allocates_full :
    ¬∀ (img : Image) (e : Endian) (junk : Block) (source target : List UInt8), 3 ≤ img.numBlocks →
      TightVolume img.gbd → AllocatesInside e img junk source target := by
  intro h
  have hinside := h fullImage .little (Buf.const 512 0) (List.replicate 64512 0) [122] (by decide) fullImage_tight
  rcases (tfstool_allocates_iff (by decide) fullImage_tight.toWellFormed).1 hinside with hle | ⟨i, hi, hname⟩ | hfull | hroom
  · exact absurd hle (by decide)
  · rw [show fullImage.blocks 2 = fullBlocks 2 from rfl, fullRoot_names i hi] at hname
    cases hname
  · exact hfull 24 (by decide) (fullRoot_entries 24 (by decide)).1
  · rw [List.length_replicate] at hroom
    have hfree := fullImage_free
    have hneeded : neededBlocks 64512 = 128 := rfl
    omega

end Buenos.Tfstool

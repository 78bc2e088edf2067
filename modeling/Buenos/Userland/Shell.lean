import Buenos.Lib.Libc
import Mathlib.Data.List.TakeWhile

/-!
# The command line of the shell (`tests/shell.c`)

* `shellReadline` — reads a line from the console into `arga`, with `shellReadchar` and
  `shellRemoveControlChars`.
* `shellParse` — cuts the line in place; `none` is an access outside of `arga` or of `argv`, or that the
  shell waits for more input.
* `lineOf` — the line that is typed: what is left of the keys when escapes, deletions and control
  characters have been taken out.
* `words` — the maximal runs of characters other than the space.

Output to the console is left out.

Principal results: `shellReadline_line` (the line that has been typed is the string in `arga`),
`scan_words` (the scanner cuts the line into its words or finds too many of them) and
`shell_parse_words`.
-/

namespace Buenos.Shell

def SHELL_LINELEN : ℕ := 512
def SHELL_ARGLEN : ℕ := 16
def SHELL_MAXARGS : ℕ := 32
def SHELL_DEL_CHAR : UInt8 := 127

def SPACE : UInt8 := 32
def AMPERSAND : UInt8 := 38

/-- `error_t`, as far as these functions use it. -/
inductive Error where
  | ok
  | readFail
  | lineLenFail
  | argnFail
  | syntaxFail
  deriving DecidableEq, Repr

/-! ## Reading a line -/

/-- What `syscall_read` of one byte from the console comes to. -/
inductive Read where
  | byte (c : UInt8)
  | endOfFile
  | failure
  deriving DecidableEq, Repr

/-- The byte that was read is at `a`. -/
def Read.store (r : Read) (a : ℕ) (mem : Memory) : Memory :=
  match r with
  | .byte c => Function.update mem a c
  | _ => mem

/-- `shell_readchar` into the byte at `a`: what it returns, the memory and the input that is left. -/
def shellReadchar (a : ℕ) : List Read → Memory → Option (Read × Memory × List Read)
  | .byte c :: input, mem =>
    let mem := Function.update mem a c
    if c = 27 then
      -- the two characters behind an escape are read to the same byte and forgotten
      match input with
      | r1 :: r2 :: input => shellReadchar a input (r2.store a (r1.store a mem))
      | _ => none
    else some (.byte c, mem, input)
  | .endOfFile :: input, mem => some (.endOfFile, mem, input)
  | .failure :: input, mem => some (.failure, mem, input)
  | [], _ => none

/-- The loop of `shell_readline`: the error, `i`, the memory and the input that is left. -/
def readlineLoop (buf size : ℕ) : ℕ → List Read → ℕ → Memory → Option (Error × ℕ × Memory × List Read)
  | 0, _, _, _ => none
  | fuel + 1, input, i, mem =>
    match shellReadchar (buf + i) input mem with
    | none => none
    | some (.endOfFile, mem, input) => some (.ok, i, mem, input)
    | some (.failure, mem, input) => some (.readFail, i, mem, input)
    | some (.byte _, mem, input) =>
      if mem (buf + i) = 10 ∨ mem (buf + i) = 13 then some (.ok, i + 1, mem, input)
      else if mem (buf + i) = SHELL_DEL_CHAR then readlineLoop buf size fuel input (i - 1) mem
      else if i + 1 ≥ size - 1 then some (.lineLenFail, i + 1, mem, input)
      else readlineLoop buf size fuel input (i + 1) mem

/-- `shell_is_ctrl_char`; a character with the highest bit is one, as a negative or as a large number. -/
def shellIsCtrlChar (ch : UInt8) : Bool := ch < 32 || 126 < ch

/-- The loop of `shell_remove_control_chars` over `str[i], str[i + 1], …`, with `k` bytes left in `temp`:
`actual` and the memory. -/
def removeLoop (str temp : ℕ) : ℕ → ℕ → ℕ → Memory → Option (ℕ × Memory)
  | 0, _, _, _ => none
  | k + 1, i, actual, mem =>
    if mem (str + i) = 0 then some (actual, mem)
    else if shellIsCtrlChar (mem (str + i)) then removeLoop str temp k (i + 1) actual mem
    else removeLoop str temp k (i + 1) (actual + 1) (Function.update mem (temp + actual) (mem (str + i)))

/-- `shell_remove_control_chars`. -/
def shellRemoveControlChars (str temp : ℕ) (mem : Memory) : Option Memory :=
  match removeLoop str temp SHELL_LINELEN 0 0 mem with
  | none => none
  | some (actual, mem) =>
    some (memcopy (Function.update mem (temp + actual) 0) (actual + 1 : ℕ) str temp)

/-- `shell_readline`; `temp` is the buffer on the stack of `shell_remove_control_chars`. -/
def shellReadline (buf size temp fuel : ℕ) (input : List Read) (mem : Memory) :
    Option (Error × Memory × List Read) :=
  match readlineLoop buf size fuel input 0 mem with
  | none => none
  | some (.ok, i, mem, input) =>
    match shellRemoveControlChars buf temp (Function.update mem (buf + i) 0) with
    | none => none
    | some mem => some (.ok, mem, input)
  | some (error, _, mem, input) => some (error, mem, input)

/-! ## Cutting the line -/

/-- `shell_cmd` without `arga`, which is in the memory, and `shell_status`. -/
structure Command where
  argc : ℕ
  argv : ℕ → ℕ
  error : Error
  foreground : ℕ

/-- `shell_iswhitespace`. -/
def shellIswhitespace (c : UInt8) : Bool := c = 32 || c = 10 || c = 9 || c = 0

/-- `argv[i] = a`; `none` outside of the array. -/
def setArg (argv : ℕ → ℕ) (i a : ℕ) : Option (ℕ → ℕ) :=
  if i < SHELL_MAXARGS then some (Function.update argv i a) else none

/-- The loop of `shell_init` over `argv[i], argv[i + 1], …` (`k` of them). -/
def initArgv : ℕ → ℕ → (ℕ → ℕ) → Option (ℕ → ℕ)
  | 0, _, argv => some argv
  | k + 1, i, argv =>
    match setArg argv i 0 with
    | none => none
    | some argv => initArgv k (i + 1) argv

/-- `memoryset`. -/
def memoryset (target : ℕ) (value : UInt8) (size : ℕ) (mem : Memory) : Memory := fun a =>
  if target ≤ a ∧ a < target + size then value else mem a

/-- `shell_init`. -/
def shellInit (arga : ℕ) (cmd : Command) (mem : Memory) : Option (Command × Memory) :=
  match initArgv SHELL_ARGLEN 0 cmd.argv with
  | none => none
  | some argv => some ({ cmd with argv := argv, error := .ok }, memoryset arga 0 SHELL_LINELEN mem)

/-- The local variables of `shell_parse`, with the memory and `argv`. -/
structure Scan where
  mem : Memory
  argv : ℕ → ℕ
  argc : ℕ
  nextArg : Option ℕ
  parsingArg : Bool

/-- `argv[argc++] = next_arg`. -/
def Scan.putArg (s : Scan) (nextArg : ℕ) : Option Scan :=
  (setArg s.argv s.argc nextArg).map fun argv => { s with argv := argv, argc := s.argc + 1 }

/-- The loop of `shell_parse` over `arga[i], arga[i + 1], …`, with `k` bytes left in `arga`; `true` is the
return with too many arguments. -/
def parseLoop (arga : ℕ) : ℕ → ℕ → Scan → Option (Bool × Scan)
  | 0, _, _ => none
  | k + 1, i, s =>
    let c := s.mem (arga + i)
    if c = 0 then some (false, s)
    else if s.parsingArg = false then
      if shellIswhitespace c then parseLoop arga k (i + 1) s
      else parseLoop arga k (i + 1) { s with nextArg := some (arga + i), parsingArg := true }
    else if shellIswhitespace c then
      match s.nextArg with
      | none => parseLoop arga k (i + 1) { s with parsingArg := false }
      | some p =>
        match s.putArg p with
        | none => none
        | some s =>
          let s := { s with mem := Function.update s.mem (arga + i) 0 }
          if s.argc ≥ SHELL_MAXARGS then some (true, s)
          else parseLoop arga k (i + 1) { s with nextArg := none, parsingArg := false }
    else parseLoop arga k (i + 1) s

/-- The loop and the last argument. -/
def scan (arga k i : ℕ) (s : Scan) : Option (Bool × Scan) :=
  match parseLoop arga k i s with
  | none => none
  | some (true, s) => some (true, s)
  | some (false, s) =>
    match s.nextArg with
    | none => some (false, s)
    | some p => (s.putArg p).map fun s => (false, s)

/-- `stringcmp`. -/
def stringcmp (mem : Memory) : ℕ → ℕ → ℕ → Option ℤ
  | 0, _, _ => none
  | fuel + 1, p, q =>
    if mem p = 0 ∧ mem q = 0 then some 0
    else if mem p = 0 ∨ mem q = 0 ∨ mem p ≠ mem q then some ((mem p).toInt8.toInt - (mem q).toInt8.toInt)
    else stringcmp mem fuel (p + 1) (q + 1)

/-- `shell_parse` behind the loop: `ampersand` is the address of the literal `"&"`. -/
def finishParse (cmd : Command) (s : Scan) (ampersand fuel : ℕ) : Option (Command × Memory) :=
  let cmd := { cmd with argv := s.argv, foreground := 1 }
  if 0 < s.argc then
    match stringcmp s.mem fuel ampersand (s.argv (s.argc - 1)) with
    | none => none
    | some d =>
      if d = 0 then
        if s.argc = 1 then some ({ cmd with error := .syntaxFail }, s.mem)
        else some ({ cmd with foreground := 0, argc := s.argc - 1, error := .ok }, s.mem)
      else some ({ cmd with argc := s.argc, error := .ok }, s.mem)
  else some ({ cmd with argc := s.argc, error := .ok }, s.mem)

/-- The addresses of `arga`, of the buffer `temp` and of the literal `"&"`, which do not overlap. -/
structure Layout where
  arga : ℕ
  temp : ℕ
  ampersand : ℕ
  buffers : Apart arga temp SHELL_LINELEN
  literal_arga : ampersand + 2 ≤ arga ∨ arga + SHELL_LINELEN ≤ ampersand
  literal_temp : ampersand + 2 ≤ temp ∨ temp + SHELL_LINELEN ≤ ampersand

/-- `shell_parse`. -/
def shellParse (a : Layout) (fuel : ℕ) (input : List Read) (cmd : Command) (mem : Memory) :
    Option (Command × Memory) :=
  match shellInit a.arga cmd mem with
  | none => none
  | some (cmd, mem) =>
    match shellReadline a.arga SHELL_LINELEN a.temp fuel input mem with
    | none => none
    | some (.ok, mem, _) =>
      match scan a.arga SHELL_LINELEN 0 ⟨mem, cmd.argv, 0, none, false⟩ with
      | none => none
      | some (true, s) => some ({ cmd with argv := s.argv, error := .argnFail }, s.mem)
      | some (false, s) => finishParse cmd s a.ampersand SHELL_LINELEN
    | some (error, mem, _) => some ({ cmd with error := error }, mem)

/-! ## The line that is typed, and its words -/

/-- The characters up to the end of the line. An escape and the two reads behind it are no characters. -/
def keys : List Read → List UInt8
  | .byte c :: input =>
    if c = 27 then
      match input with
      | _ :: _ :: input => keys input
      | _ => []
    else if c = 10 ∨ c = 13 then []
    else c :: keys input
  | _ => []

/-- A character is added to the line, or takes the last one away. -/
def edit (line : List UInt8) (c : UInt8) : List UInt8 :=
  if c = SHELL_DEL_CHAR then line.dropLast else line ++ [c]

/-- The printable characters of a string, which ends at the first zero. -/
def printable (chars : List UInt8) : List UInt8 := (chars.takeWhile (· ≠ 0)).filter (! shellIsCtrlChar ·)

/-- The line that is typed. -/
def lineOf (input : List Read) : List UInt8 := printable ((keys input).foldl edit [])

/-- The maximal runs of characters other than the space. -/
def words (line : List UInt8) : List (List UInt8) := (line.splitOn SPACE).filter (· ≠ [])

section Reading

variable {mem mem' : Memory} {buf size temp x : ℕ} {input rest : List Read} {raw kept text : List UInt8}

theorem Read.store_same (r : Read) (hx : x ≠ buf) : r.store buf mem x = mem x := by
  cases r with
  | byte c => exact Function.update_of_ne hx ..
  | endOfFile => rfl
  | failure => rfl

/-- `shell_readchar` writes one byte of the buffer. -/
theorem shellReadchar_same {r : Read} (h : shellReadchar buf input mem = some (r, mem', rest)) (hx : x ≠ buf) :
    mem' x = mem x := by
  induction input, mem using shellReadchar.induct buf with
  | case1 mem r1 r2 input mem1 ih =>
    simp only [shellReadchar, ↓reduceIte] at h
    rw [ih h, Read.store_same r2 hx, Read.store_same r1 hx]
    exact Function.update_of_ne hx ..
  | case2 input mem hshort =>
    simp only [shellReadchar, ↓reduceIte] at h
    cases h
  | case3 c input mem hc =>
    rw [shellReadchar.eq_def] at h
    simp only [if_neg hc, Option.some.injEq, Prod.mk.injEq] at h
    rw [← h.2.1]
    exact Function.update_of_ne hx ..
  | case4 input mem | case5 input mem =>
    simp only [shellReadchar, Option.some.injEq, Prod.mk.injEq] at h
    rw [h.2.1]
  | case6 mem => simp [shellReadchar] at h

/-- `shell_readchar` returns the next of the keys, which is in the buffer. -/
theorem shellReadchar_keys {r : Read} (h : shellReadchar buf input mem = some (r, mem', rest)) :
    (r = .endOfFile → keys input = []) ∧
      ∀ c, r = .byte c → mem' buf = c ∧ keys input = if c = 10 ∨ c = 13 then [] else c :: keys rest := by
  induction input, mem using shellReadchar.induct buf with
  | case1 mem r1 r2 input mem1 ih =>
    simp only [shellReadchar, ↓reduceIte] at h
    simp only [keys, ↓reduceIte]
    exact ih h
  | case2 input mem hshort =>
    simp only [shellReadchar, ↓reduceIte] at h
    cases h
  | case3 c input mem hc =>
    rw [shellReadchar.eq_def] at h
    simp only [if_neg hc, Option.some.injEq, Prod.mk.injEq] at h
    obtain ⟨rfl, rfl, rfl⟩ := h
    refine ⟨fun hr => (by cases hr), fun d hd => ?_⟩
    cases hd
    rw [keys.eq_def]
    exact ⟨Function.update_self .., if_neg hc⟩
  | case4 input mem =>
    simp only [shellReadchar, Option.some.injEq, Prod.mk.injEq] at h
    obtain ⟨rfl, -, -⟩ := h
    exact ⟨fun _ => rfl, fun d hd => by cases hd⟩
  | case5 input mem =>
    simp only [shellReadchar, Option.some.injEq, Prod.mk.injEq] at h
    obtain ⟨rfl, -, -⟩ := h
    exact ⟨fun hr => (by cases hr), fun d hd => by cases hd⟩
  | case6 mem => simp [shellReadchar] at h

/-- **The loop of `shell_readline`** edits the line in the buffer, and may leave the character that ends it. -/
theorem readlineLoop_keys {fuel i j : ℕ} {line : List UInt8} (hline : HoldsBytes mem buf line) (hi : line.length = i)
    (h : readlineLoop buf size fuel input i mem = some (.ok, j, mem', rest)) :
    ∃ last : List UInt8, (∀ c ∈ last, c = 10 ∨ c = 13) ∧ ((keys input).foldl edit line ++ last).length = j ∧
      HoldsBytes mem' buf ((keys input).foldl edit line ++ last) := by
  induction fuel generalizing input i mem line with
  | zero => simp [readlineLoop] at h
  | succ fuel ih =>
    rw [readlineLoop] at h
    split at h
    · simp at h
    · next mem1 input1 hread =>
      simp only [Option.some.injEq, Prod.mk.injEq, true_and] at h
      obtain ⟨rfl, rfl, -⟩ := h
      rw [(shellReadchar_keys hread).1 rfl]
      refine ⟨[], fun c hc => absurd hc List.not_mem_nil, by simpa using hi, ?_⟩
      rw [List.append_nil]
      exact hline.frame fun x hx => shellReadchar_same hread (by omega)
    · simp at h
    · next c mem1 input1 hread =>
      obtain ⟨hc, hkeys⟩ := (shellReadchar_keys hread).2 c rfl
      have hadded : HoldsBytes mem1 buf (line ++ [c]) := by
        refine holdsBytes_append.2 ⟨hline.frame fun x hx => shellReadchar_same hread (by omega), ?_⟩
        rw [hi]
        exact holdsBytes_cons.2 ⟨hc, fun x hx => absurd hx (Nat.not_lt_zero x)⟩
      rw [hc] at h
      split at h
      · next hend =>
        simp only [Option.some.injEq, Prod.mk.injEq, true_and] at h
        obtain ⟨rfl, rfl, -⟩ := h
        rw [hkeys, if_pos hend]
        exact ⟨[c], fun d hd => by rwa [List.mem_singleton.1 hd], by simpa using hi, hadded⟩
      · next hend =>
        rw [hkeys, if_neg hend, List.foldl_cons, edit]
        split at h
        · next hdel =>
          rw [if_pos hdel]
          have hprefix : HoldsBytes mem1 buf (line.dropLast ++ line.drop (line.length - 1)) := by
            rw [List.dropLast_eq_take, List.take_append_drop]
            exact (holdsBytes_append.1 hadded).1
          exact ih (holdsBytes_append.1 hprefix).1 (by rw [List.length_dropLast, hi]) h
        · next hdel =>
          rw [if_neg hdel]
          split at h
          · simp at h
          · exact ih hadded (by simpa using hi) h

/-- The loop of `shell_readline` stays inside the buffer. -/
theorem readlineLoop_inside {fuel i j : ℕ} {error : Error} (hi : i + 1 < size)
    (h : readlineLoop buf size fuel input i mem = some (error, j, mem', rest)) :
    j < size ∧ ∀ x, x < buf ∨ buf + size ≤ x → mem' x = mem x := by
  induction fuel generalizing input i mem with
  | zero => simp [readlineLoop] at h
  | succ fuel ih =>
    rw [readlineLoop] at h
    split at h
    · simp at h
    · next mem1 input1 hread =>
      simp only [Option.some.injEq, Prod.mk.injEq] at h
      obtain ⟨-, rfl, rfl, -⟩ := h
      exact ⟨by omega, fun x hx => shellReadchar_same hread (by omega)⟩
    · next mem1 input1 hread =>
      simp only [Option.some.injEq, Prod.mk.injEq] at h
      obtain ⟨-, rfl, rfl, -⟩ := h
      exact ⟨by omega, fun x hx => shellReadchar_same hread (by omega)⟩
    · next c mem1 input1 hread =>
      have hsame : ∀ x, x < buf ∨ buf + size ≤ x → mem1 x = mem x := fun x hx =>
        shellReadchar_same hread (by omega)
      split at h
      · simp only [Option.some.injEq, Prod.mk.injEq] at h
        obtain ⟨-, rfl, rfl, -⟩ := h
        exact ⟨hi, hsame⟩
      · split at h
        · obtain ⟨hj, hrest⟩ := ih (by omega) h
          exact ⟨hj, fun x hx => (hrest x hx).trans (hsame x hx)⟩
        · split at h
          · simp only [Option.some.injEq, Prod.mk.injEq] at h
            obtain ⟨-, rfl, rfl, -⟩ := h
            exact ⟨hi, hsame⟩
          · obtain ⟨hj, hrest⟩ := ih (by omega) h
            exact ⟨hj, fun x hx => (hrest x hx).trans (hsame x hx)⟩

/-- The loop of `shell_remove_control_chars` appends the printable characters to what is in `temp`. -/
theorem removeLoop_kept {str k i : ℕ} (h : Terminated mem (str + i) text) (hi : i + text.length < SHELL_LINELEN)
    (hk : text.length < k) (hkept : HoldsBytes mem temp kept) (hlen : kept.length ≤ i)
    (hd : Apart str temp SHELL_LINELEN) :
    ∃ mem', removeLoop str temp k i kept.length mem =
        some ((kept ++ text.filter (! shellIsCtrlChar ·)).length, mem') ∧
      HoldsBytes mem' temp (kept ++ text.filter (! shellIsCtrlChar ·)) ∧
      ∀ x, x < temp ∨ temp + SHELL_LINELEN ≤ x → mem' x = mem x := by
  induction text generalizing k i kept mem with
  | nil =>
    obtain ⟨k, rfl⟩ := Nat.exists_eq_succ_of_ne_zero (Nat.ne_of_gt hk)
    refine ⟨mem, ?_, by simpa using hkept, fun x _ => rfl⟩
    have hzero : mem (str + i) = 0 := h.zero
    rw [removeLoop, if_pos hzero, List.filter_nil, List.append_nil]
  | cons c text ih =>
    rw [List.length_cons] at hi hk
    obtain ⟨k, rfl⟩ := Nat.exists_eq_succ_of_ne_zero (Nat.ne_of_gt (Nat.zero_lt_of_lt hk))
    have hc : mem (str + i) = c := (holdsBytes_cons.1 h.bytes).1
    have hc0 : mem (str + i) ≠ 0 := h.char (Nat.zero_lt_succ text.length)
    have htail : Terminated mem (str + (i + 1)) text := h.tail
    rw [removeLoop, if_neg hc0, hc]
    split
    · next hctrl =>
      rw [List.filter_cons_of_neg (by simp [hctrl])]
      exact ih htail (by omega) (by omega) hkept (by omega)
    · next hprint =>
      have htail' : Terminated (Function.update mem (temp + kept.length) c) (str + (i + 1)) text :=
        htail.frame fun b hb hb' => Function.update_of_ne (by unfold Apart at hd; omega) ..
      have hkept' : HoldsBytes (Function.update mem (temp + kept.length) c) temp (kept ++ [c]) := by
        refine holdsBytes_append.2 ⟨hkept.frame fun j hj => Function.update_of_ne (by omega) .., ?_⟩
        exact holdsBytes_cons.2 ⟨Function.update_self .., fun j hj => absurd hj (Nat.not_lt_zero j)⟩
      obtain ⟨mem', hloop, hholds, hsame⟩ := ih (k := k) htail' (by omega) (by omega) hkept' (by simpa using hlen)
      rw [List.length_append, List.length_singleton] at hloop
      rw [List.filter_cons_of_pos (by simpa using hprint), List.append_cons]
      exact ⟨mem', hloop, hholds, fun x hx => (hsame x hx).trans (Function.update_of_ne (by omega) ..)⟩

/-- `shell_remove_control_chars` leaves the printable characters of a string. -/
theorem shellRemoveControlChars_kept {str : ℕ} (h : Terminated mem str raw) (hraw : raw.length < SHELL_LINELEN)
    (hd : Apart str temp SHELL_LINELEN) :
    ∃ mem', shellRemoveControlChars str temp mem = some mem' ∧
      Terminated mem' str (raw.filter (! shellIsCtrlChar ·)) ∧
      ∀ x, (x < str ∨ str + SHELL_LINELEN ≤ x) → (x < temp ∨ temp + SHELL_LINELEN ≤ x) → mem' x = mem x := by
  obtain ⟨mem1, hloop, hholds, hsame⟩ := removeLoop_kept (k := SHELL_LINELEN) (i := 0) h (by omega) hraw
    (show HoldsBytes mem temp [] from fun j hj => absurd hj (Nat.not_lt_zero j)) (le_refl _) hd
  rw [List.nil_append] at hloop hholds
  have hzero : 0 ∉ raw.filter (! shellIsCtrlChar ·) := fun h0 => h.nonzero (List.mem_filter.1 h0).1
  have hshort : (raw.filter (! shellIsCtrlChar ·)).length ≤ raw.length := List.length_filter_le ..
  rw [List.length_nil] at hloop
  rw [shellRemoveControlChars, hloop]
  generalize raw.filter (! shellIsCtrlChar ·) = line at *
  have hterm := hholds.terminate hzero
  have hcopy := memcopy_copied (t := str) (s := temp) (n := line.length + 1)
    (Function.update mem1 (temp + line.length) 0) (by unfold Apart at hd ⊢; omega)
  refine ⟨_, rfl, ⟨hcopy.holds hterm.bytes (by simp), hzero⟩, fun x hx hx' => ?_⟩
  rw [hcopy.outside x (by omega), Function.update_of_ne (by omega), hsame x hx']

/-- Characters that end a line are not printed. -/
theorem printable_append {chars last : List UInt8} (hlast : ∀ c ∈ last, c = 10 ∨ c = 13) :
    printable (chars ++ last) = printable chars := by
  have hctrl : ∀ c ∈ last, c ≠ 0 ∧ shellIsCtrlChar c = true := by
    intro c hc
    rcases hlast c hc with rfl | rfl <;> decide
  have hwhole : last.takeWhile (· ≠ 0) = last := List.takeWhile_eq_self_iff.2 fun c hc => by simpa using (hctrl c hc).1
  have hnone : last.filter (! shellIsCtrlChar ·) = [] := List.filter_eq_nil_iff.2 fun c hc => by simp [(hctrl c hc).2]
  unfold printable
  rw [List.takeWhile_append]
  split
  · next hall =>
    rw [hwhole, List.filter_append, hnone, List.append_nil, (List.takeWhile_prefix _).eq_of_length hall]
  · rfl

/-- **The line that has been read** is the one that is typed, as a string inside `arga`. -/
theorem shellReadline_line {fuel : ℕ} (hd : Apart buf temp SHELL_LINELEN)
    (h : shellReadline buf SHELL_LINELEN temp fuel input mem = some (.ok, mem', rest)) :
    Terminated mem' buf (lineOf input) ∧ (lineOf input).length < SHELL_LINELEN ∧
      ∀ x, (x < buf ∨ buf + SHELL_LINELEN ≤ x) → (x < temp ∨ temp + SHELL_LINELEN ≤ x) → mem' x = mem x := by
  rw [shellReadline] at h
  split at h
  · simp at h
  · next i mem1 rest1 hloop =>
    obtain ⟨hi, hsame⟩ := readlineLoop_inside (by decide) hloop
    obtain ⟨last, hlast, rfl, hholds⟩ :=
      readlineLoop_keys (show HoldsBytes mem buf [] from fun x hx => absurd hx (Nat.not_lt_zero x)) rfl hloop
    rw [lineOf, ← printable_append hlast]
    generalize (keys input).foldl edit [] ++ last = raw at *
    have hraw : Terminated (Function.update mem1 (buf + raw.length) 0) buf (raw.takeWhile (· ≠ 0)) :=
      (hholds.frame fun x hx => Function.update_of_ne (by omega) ..).takeWhile (Function.update_self ..)
    have hlen : (raw.takeWhile (· ≠ 0)).length ≤ raw.length := (List.takeWhile_prefix _).length_le
    obtain ⟨mem2, hremove, hline, hsame'⟩ := shellRemoveControlChars_kept hraw (hlen.trans_lt hi) hd
    rw [hremove] at h
    simp only [Option.some.injEq, Prod.mk.injEq, true_and] at h
    obtain ⟨rfl, -⟩ := h
    refine ⟨hline, (List.length_filter_le ..).trans_lt (hlen.trans_lt hi), fun x hx hx' => ?_⟩
    rw [hsame' x hx hx', Function.update_of_ne (by omega), hsame x hx]
  · next error i mem1 rest1 hno hloop =>
    simp only [Option.some.injEq, Prod.mk.injEq] at h
    exact absurd h.1 hno

theorem lineOf_printable {c : UInt8} (hc : c ∈ lineOf input) : shellIsCtrlChar c = false := by
  simpa using (List.mem_filter.1 hc).2

end Reading

section Cutting

variable {mem mem' : Memory} {arga i k : ℕ} {s s' : Scan} {c : UInt8} {xs ys line word rest text : List UInt8}

theorem shellIswhitespace_iff (hc : shellIsCtrlChar c = false) : shellIswhitespace c = true ↔ c = SPACE := by
  refine ⟨fun h => ?_, fun h => by rw [h]; rfl⟩
  simp only [shellIswhitespace, Bool.or_eq_true, decide_eq_true_eq] at h
  rcases h with ((h | rfl) | rfl) | rfl
  · exact h
  · exact absurd hc (by decide)
  · exact absurd hc (by decide)
  · exact absurd hc (by decide)

/-- Words are cut at a space. -/
theorem words_append (xs ys : List UInt8) : words (xs ++ SPACE :: ys) = words xs ++ words ys := by
  rw [words, List.splitOn_append_cons_self, List.filter_append]
  rfl

theorem words_space (xs : List UInt8) : words (SPACE :: xs) = words xs := words_append [] xs

theorem words_single (hword : word ≠ []) (h : SPACE ∉ word) : words word = [word] := by
  rw [words, List.splitOn_eq_singleton h]
  simp [hword]

/-- What a text begins with: nothing, a space, or a word. -/
theorem text_cases (text : List UInt8) :
    text = [] ∨ (∃ rest, text = SPACE :: rest) ∨ (text ≠ [] ∧ SPACE ∉ text) ∨
      ∃ word rest, word ≠ [] ∧ SPACE ∉ word ∧ text = word ++ SPACE :: rest := by
  by_cases hmem : SPACE ∈ text
  · obtain ⟨word, rest, rfl, hword⟩ := List.eq_append_cons_of_mem hmem
    rcases eq_or_ne word [] with rfl | hne
    · exact .inr (.inl ⟨rest, rfl⟩)
    · exact .inr (.inr (.inr ⟨word, rest, hne, hword, rfl⟩))
  · rcases eq_or_ne text [] with rfl | hne
    · exact .inl rfl
    · exact .inr (.inr (.inl ⟨hne, hmem⟩))

/-- Characters inside of an argument are passed. -/
theorem parseLoop_inside (h : HoldsBytes s.mem (arga + i) xs) (hp : s.parsingArg = true)
    (hxs : ∀ c ∈ xs, shellIswhitespace c = false) :
    parseLoop arga (xs.length + k) i s = parseLoop arga k (i + xs.length) s := by
  induction xs generalizing i with
  | nil => rw [List.length_nil, Nat.zero_add, Nat.add_zero]
  | cons c xs ih =>
    obtain ⟨hc, hrest⟩ := holdsBytes_cons.1 h
    have hblack := hxs c List.mem_cons_self
    have hc0 : c ≠ 0 := fun h0 => by simp [h0, shellIswhitespace] at hblack
    rw [List.length_cons, Nat.add_right_comm, parseLoop]
    simp only [hc, if_neg hc0, hp, hblack, Bool.true_eq_false, Bool.false_eq_true, ↓reduceIte]
    rw [ih hrest fun d hd => hxs d (List.mem_cons_of_mem c hd), Nat.add_assoc i, Nat.add_comm 1]

/-- A word begins an argument. -/
theorem parseLoop_word (h : HoldsBytes s.mem (arga + i) word) (hword : word ≠ []) (hp : s.parsingArg = false)
    (hblack : ∀ c ∈ word, shellIswhitespace c = false) :
    parseLoop arga (word.length + k) i s =
      parseLoop arga k (i + word.length) { s with nextArg := some (arga + i), parsingArg := true } := by
  obtain ⟨c, xs, rfl⟩ := List.exists_cons_of_ne_nil hword
  obtain ⟨hc, hrest⟩ := holdsBytes_cons.1 h
  rw [Nat.add_assoc] at hrest
  have hc1 := hblack c List.mem_cons_self
  have hc0 : c ≠ 0 := fun h0 => by simp [h0, shellIswhitespace] at hc1
  rw [List.length_cons, Nat.add_right_comm, parseLoop]
  simp only [hc, if_neg hc0, hp, hc1, Bool.false_eq_true, ↓reduceIte]
  rw [parseLoop_inside (s := { s with nextArg := some (arga + i), parsingArg := true }) hrest rfl
    fun d hd => hblack d (List.mem_cons_of_mem c hd), Nat.add_assoc i, Nat.add_comm 1]

/-- `text` has been cut into `argv[argc], argv[argc + 1], …`. -/
structure Cut (arga i : ℕ) (s s' : Scan) (text : List UInt8) : Prop where
  argc : s'.argc = s.argc + (words text).length
  entries : ∀ j (hj : j < (words text).length), arga + i ≤ s'.argv (s.argc + j) ∧
    s'.argv (s.argc + j) + (words text)[j].length ≤ arga + i + text.length ∧
    Terminated s'.mem (s'.argv (s.argc + j)) (words text)[j]
  others : ∀ j < s.argc, s'.argv j = s.argv j
  outside : ∀ x, x < arga + i ∨ arga + i + text.length ≤ x → s'.mem x = s.mem x

theorem Cut.space (h : Cut arga (i + 1) s s' rest) : Cut arga i s s' (SPACE :: rest) where
  argc := by rw [h.argc, words_space]
  entries j hj := by
    simp only [words_space] at hj ⊢
    obtain ⟨hlow, hhigh, hterm⟩ := h.entries j hj
    exact ⟨by omega, by rw [List.length_cons]; omega, hterm⟩
  others := h.others
  outside x hx := h.outside x (by rw [List.length_cons] at hx; omega)

/-- The state behind a word and its space. -/
def Scan.next (s : Scan) (arga i n : ℕ) : Scan :=
  ⟨Function.update s.mem (arga + (i + n)) 0, Function.update s.argv s.argc (arga + i), s.argc + 1, none, false⟩

theorem Cut.cons (h : Cut arga (i + word.length + 1) (s.next arga i word.length) s' rest)
    (hbytes : HoldsBytes s.mem (arga + i) word) (hword : word ≠ []) (hspace : SPACE ∉ word) (hzero : 0 ∉ word) :
    Cut arga i s s' (word ++ SPACE :: rest) where
  argc := by
    rw [h.argc, words_append, words_single hword hspace, List.length_append]
    simp only [Scan.next, List.length_singleton]
    omega
  entries j hj := by
    simp only [words_append, words_single hword hspace, List.singleton_append, List.length_append,
      List.length_cons] at hj ⊢
    cases j with
    | zero =>
      have hargv : s'.argv s.argc = arga + i := by
        rw [h.others s.argc (Nat.lt_succ_self _)]
        exact Function.update_self ..
      rw [Nat.add_zero, hargv]
      refine ⟨le_refl _, by simp, ?_⟩
      have hcut := hbytes.terminate hzero
      refine hcut.frame fun b h1 h2 => ?_
      rw [h.outside b (by omega)]
      simp only [Scan.next, Nat.add_assoc]
    | succ j =>
      obtain ⟨hlow, hhigh, hterm⟩ := h.entries j (by simp at hj; omega)
      rw [show (s.next arga i word.length).argc + j = s.argc + (j + 1) by simp [Scan.next]; omega] at *
      exact ⟨by omega, by simp; omega, hterm⟩
  others j hj := by
    rw [h.others j (Nat.lt_succ_of_lt hj)]
    exact Function.update_of_ne (Nat.ne_of_lt hj) ..
  outside x hx := by
    rw [List.length_append, List.length_cons] at hx
    rw [h.outside x (by omega)]
    exact Function.update_of_ne (by omega) ..

/-- A word that a space ends is the next argument, and with the last place of `argv` the scan is over. -/
theorem parseLoop_word_space (h : HoldsBytes s.mem (arga + i) (word ++ SPACE :: ys)) (hword : word ≠ [])
    (hp : s.parsingArg = false) (hblack : ∀ c ∈ word, shellIswhitespace c = false) (hargc : s.argc < SHELL_MAXARGS) :
    (SHELL_MAXARGS ≤ s.argc + 1 → ∃ s', parseLoop arga (word.length + (k + 1)) i s = some (true, s')) ∧
      (s.argc + 1 < SHELL_MAXARGS → parseLoop arga (word.length + (k + 1)) i s =
        parseLoop arga k (i + word.length + 1) (s.next arga i word.length)) := by
  obtain ⟨hbytes, hrest⟩ := holdsBytes_append.1 h
  have hspace : s.mem (arga + (i + word.length)) = SPACE := by
    rw [← Nat.add_assoc]
    exact (holdsBytes_cons.1 hrest).1
  have hput : setArg s.argv s.argc (arga + i) = some (Function.update s.argv s.argc (arga + i)) := if_pos hargc
  rw [parseLoop_word hbytes hword hp hblack, parseLoop]
  simp only [hspace, Scan.putArg, hput, show shellIswhitespace SPACE = true from rfl,
    show ¬(SPACE = 0) by decide, Bool.true_eq_false, ↓reduceIte, Option.map_some, ge_iff_le]
  refine ⟨fun hfull => ?_, fun hroom => ?_⟩
  · rw [if_pos hfull]
    exact ⟨_, rfl⟩
  · rw [if_neg (Nat.not_le_of_lt hroom)]
    rfl

theorem scan_congr {k' i' : ℕ} (h : parseLoop arga k i s = parseLoop arga k' i' s') :
    scan arga k i s = scan arga k' i' s' := by
  rw [scan, scan, h]

/-- A line without characters. -/
theorem scan_nil (h : Terminated s.mem (arga + i) []) (hnext : s.nextArg = none) :
    scan arga (k + 1) i s = some (false, s) := by
  have hzero : s.mem (arga + i) = 0 := h.zero
  rw [scan, parseLoop, if_pos hzero]
  simp only [hnext]

theorem Cut.nil : Cut arga i s s [] where
  argc := rfl
  entries j hj := absurd hj (Nat.not_lt_zero j)
  others _ _ := rfl
  outside _ _ := rfl

/-- A space that ends no word is passed. -/
theorem scan_space (hspace : s.mem (arga + i) = SPACE) (hp : s.parsingArg = false) :
    scan arga (k + 1) i s = scan arga k (i + 1) s := by
  refine scan_congr ?_
  rw [parseLoop]
  simp only [hspace, hp, show shellIswhitespace SPACE = true from rfl, show ¬(SPACE = 0) by decide, ↓reduceIte]

/-- The word that ends the line is the next argument. -/
theorem scan_last (h : Terminated s.mem (arga + i) word) (hword : word ≠ []) (hspace : SPACE ∉ word)
    (hp : s.parsingArg = false) (hblack : ∀ c ∈ word, shellIswhitespace c = false) (hargc : s.argc < SHELL_MAXARGS) :
    ∃ s', scan arga (word.length + (k + 1)) i s = some (false, s') ∧ Cut arga i s s' word := by
  have hzero : s.mem (arga + (i + word.length)) = 0 := by
    rw [← Nat.add_assoc]
    exact h.zero
  have hput : setArg s.argv s.argc (arga + i) = some (Function.update s.argv s.argc (arga + i)) := if_pos hargc
  refine ⟨{ s with
    argv := Function.update s.argv s.argc (arga + i), argc := s.argc + 1, nextArg := some (arga + i),
    parsingArg := true }, ?_, ?_⟩
  · rw [scan, parseLoop_word (holdsBytes_append.1 h.bytes).1 hword hp hblack, parseLoop, if_pos hzero]
    simp only [Scan.putArg, hput, Option.map_some]
  · refine ⟨by rw [words_single hword hspace]; rfl, fun j hj => ?_, fun j hj => ?_, fun _ _ => rfl⟩
    · simp only [words_single hword hspace, List.length_singleton, Nat.lt_one_iff] at hj ⊢
      subst hj
      rw [Nat.add_zero, Function.update_self]
      exact ⟨le_refl _, le_refl _, h⟩
    · exact Function.update_of_ne (Nat.ne_of_lt hj) ..

/-- **The scanner** cuts a line into its words or finds too many of them. -/
theorem scan_words (h : Terminated s.mem (arga + i) text) (hprint : ∀ c ∈ text, shellIsCtrlChar c = false)
    (hk : text.length < k) (hnext : s.nextArg = none) (hp : s.parsingArg = false) (hargc : s.argc < SHELL_MAXARGS) :
    (∃ s', scan arga k i s = some (true, s') ∧ SHELL_MAXARGS ≤ s.argc + (words text).length) ∨
      ∃ s', scan arga k i s = some (false, s') ∧ Cut arga i s s' text := by
  induction hn : text.length using Nat.strong_induction_on generalizing text k i s with
  | _ n ih =>
    subst hn
    have hblack : ∀ w ⊆ text, SPACE ∉ w → ∀ c ∈ w, shellIswhitespace c = false := fun w hw hspace c hc =>
      Bool.eq_false_iff.2 fun hwhite => hspace ((shellIswhitespace_iff (hprint c (hw hc))).1 hwhite ▸ hc)
    rcases text_cases text with rfl | ⟨rest, rfl⟩ | ⟨hne, hspace⟩ | ⟨word, rest, hne, hspace, rfl⟩
    · obtain ⟨k, rfl⟩ := Nat.exists_eq_succ_of_ne_zero (Nat.ne_of_gt hk)
      exact .inr ⟨s, scan_nil h hnext, .nil⟩
    · obtain ⟨k, rfl⟩ := Nat.exists_eq_succ_of_ne_zero (Nat.ne_of_gt (Nat.zero_lt_of_lt hk))
      rw [List.length_cons] at hk ih
      have htail : Terminated s.mem (arga + (i + 1)) rest := h.tail
      rw [scan_space (holdsBytes_cons.1 h.bytes).1 hp, words_space]
      refine (ih _ (Nat.lt_succ_self _) htail (fun c hc => hprint c (List.mem_cons_of_mem _ hc)) (by omega) hnext hp
        hargc rfl).imp_right fun ⟨s', hscan, hcut⟩ => ⟨s', hscan, hcut.space⟩
    · obtain ⟨k, rfl⟩ := Nat.exists_eq_add_of_lt hk
      exact .inr (scan_last h hne hspace hp (hblack text (List.Subset.refl text) hspace) hargc)
    · rw [List.length_append, List.length_cons] at hk
      obtain ⟨k, rfl⟩ := Nat.exists_eq_add_of_le (show word.length + 1 ≤ k by omega)
      have hbytes : HoldsBytes s.mem (arga + i) (word ++ SPACE :: (rest ++ [0])) := by
        simpa using h.bytes
      obtain ⟨hfirst, hlast⟩ := parseLoop_word_space (k := k) hbytes hne hp (hblack word (by simp) hspace) hargc
      rw [show word.length + 1 + k = word.length + (k + 1) by omega]
      rcases Nat.lt_or_ge (s.argc + 1) SHELL_MAXARGS with hroom | hfull
      · have hrest : Terminated (s.next arga i word.length).mem (arga + (i + word.length + 1)) rest := by
          have hafter := (holdsBytes_cons.1 (holdsBytes_append.1 hbytes).2).2
          refine ⟨?_, fun h0 => h.nonzero (by simp [h0])⟩
          rw [Nat.add_assoc arga, Nat.add_assoc arga] at hafter
          exact hafter.frame fun j _ => Function.update_of_ne (by omega) ..
        rw [scan_congr (hlast hroom)]
        have hshort : rest.length < (word ++ SPACE :: rest).length := by
          rw [List.length_append, List.length_cons]
          omega
        rcases ih rest.length hshort hrest (fun c hc => hprint c (by simp [hc])) (k := k) (by omega) rfl rfl hroom
          rfl with ⟨s', hscan, hmany⟩ | ⟨s', hscan, hcut⟩
        · refine .inl ⟨s', hscan, ?_⟩
          simp only [Scan.next] at hmany
          rw [words_append, words_single hne hspace, List.length_append, List.length_singleton]
          omega
        · exact .inr ⟨s', hscan, hcut.cons (holdsBytes_append.1 hbytes).1 hne hspace fun h0 => h.nonzero (by simp [h0])⟩
      · obtain ⟨s', hloop⟩ := hfirst hfull
        refine .inl ⟨s', by rw [scan, hloop], ?_⟩
        rw [words_append, words_single hne hspace, List.length_append, List.length_singleton]
        omega

end Cutting

section Parsing

variable {mem mem' : Memory} {p q fuel : ℕ} {xs ys line : List UInt8} {s s' : Scan}
  {cmd cmd' : Command} {a : Layout}

theorem char_difference (c d : UInt8) : c.toInt8.toInt - d.toInt8.toInt = 0 ↔ c = d := by
  rw [Int.sub_eq_zero, Int8.toInt_inj]
  exact ⟨fun h => congrArg Int8.toUInt8 h, fun h => congrArg UInt8.toInt8 h⟩

/-- **`stringcmp`** is zero on equal strings only. -/
theorem stringcmp_eq (hp : Terminated mem p xs) (hq : Terminated mem q ys) (hfuel : xs.length < fuel) :
    ∃ d, stringcmp mem fuel p q = some d ∧ (d = 0 ↔ xs = ys) := by
  induction fuel generalizing p q xs ys with
  | zero => exact absurd hfuel (Nat.not_lt_zero _)
  | succ fuel ih =>
    cases xs with
    | nil =>
      have hp0 : mem p = 0 := hp.zero
      cases ys with
      | nil =>
        have hq0 : mem q = 0 := hq.zero
        exact ⟨0, by rw [stringcmp, if_pos ⟨hp0, hq0⟩], by simp⟩
      | cons d ys =>
        have hq0 : mem q ≠ 0 := hq.char (Nat.zero_lt_succ ys.length)
        refine ⟨_, by rw [stringcmp, if_neg fun h => hq0 h.2, if_pos (.inl hp0)], ?_⟩
        rw [char_difference, hp0]
        exact ⟨fun h => absurd h.symm hq0, fun h => by cases h⟩
    | cons c xs =>
      have hp0 : mem p ≠ 0 := hp.char (Nat.zero_lt_succ xs.length)
      have hc : mem p = c := (holdsBytes_cons.1 hp.bytes).1
      cases ys with
      | nil =>
        have hq0 : mem q = 0 := hq.zero
        refine ⟨_, by rw [stringcmp, if_neg fun h => hp0 h.1, if_pos (.inr (.inl hq0))], ?_⟩
        rw [char_difference, hq0]
        exact ⟨fun h => absurd h hp0, fun h => by cases h⟩
      | cons d ys =>
        have hq0 : mem q ≠ 0 := hq.char (Nat.zero_lt_succ ys.length)
        have hd : mem q = d := (holdsBytes_cons.1 hq.bytes).1
        rw [stringcmp, if_neg fun h => hp0 h.1]
        by_cases hne : mem p ≠ mem q
        · refine ⟨_, if_pos (.inr (.inr hne)), ?_⟩
          rw [char_difference, List.cons.injEq, ← hc, ← hd]
          exact ⟨fun h => absurd h hne, fun h => absurd h.1 hne⟩
        · rw [if_neg (by simp [hp0, hq0, hne])]
          obtain ⟨d', hcmp, hiff⟩ := ih hp.tail hq.tail (by simpa using hfuel)
          refine ⟨d', hcmp, ?_⟩
          rw [hiff, List.cons.injEq, ← hc, ← hd]
          exact (and_iff_right (not_not.1 hne)).symm

theorem initArgv_some : ∀ (k i : ℕ) (argv : ℕ → ℕ), i + k ≤ SHELL_MAXARGS → ∃ argv', initArgv k i argv = some argv'
  | 0, _, argv, _ => ⟨argv, rfl⟩
  | k + 1, i, argv, h => by
    have hset : setArg argv i 0 = some (Function.update argv i 0) := if_pos (by omega)
    obtain ⟨argv', hinit⟩ := initArgv_some k (i + 1) (Function.update argv i 0) (by omega)
    refine ⟨argv', ?_⟩
    rw [initArgv, hset]
    exact hinit

/-- The words without a last ampersand. -/
def arguments (line : List UInt8) : List (List UInt8) :=
  if (words line).getLast? = some [AMPERSAND] then (words line).dropLast else words line

/-- `argc` and `argv` are these strings, and all of them lie inside `arga`. -/
structure HoldsArguments (arga : ℕ) (cmd : Command) (mem : Memory) (args : List (List UInt8)) : Prop where
  argc : cmd.argc = args.length
  argv : ∀ j (hj : j < args.length), arga ≤ cmd.argv j ∧ cmd.argv j + args[j].length < arga + SHELL_LINELEN ∧
    Terminated mem (cmd.argv j) args[j]

/-- What `shell_parse` may report on a line. -/
inductive Reported (arga : ℕ) (line : List UInt8) (cmd : Command) (mem : Memory) : Prop where
  | tooMany (herror : cmd.error = .argnFail) (hwords : SHELL_MAXARGS ≤ (words line).length)
  | ampersand (herror : cmd.error = .syntaxFail) (hwords : words line = [[AMPERSAND]])
  | command (herror : cmd.error = .ok) (hargs : HoldsArguments arga cmd mem (arguments line))
      (hground : cmd.foreground = if (words line).getLast? = some [AMPERSAND] then 0 else 1)

theorem getLast_words (h : 0 < (words line).length) :
    (words line).getLast? = some ((words line)[(words line).length - 1]) := by
  rw [List.getLast?_eq_getElem?, List.getElem?_eq_getElem]

theorem arguments_of_ne (h : (words line).getLast? ≠ some [AMPERSAND]) : arguments line = words line := if_neg h

/-- With a smaller `argc` the last string is left out. -/
theorem HoldsArguments.dropLast {arga : ℕ} {args : List (List UInt8)} (h : HoldsArguments arga cmd mem args)
    (hargv : cmd'.argv = cmd.argv) (hargc : cmd'.argc = args.length - 1) :
    HoldsArguments arga cmd' mem args.dropLast where
  argc := by rw [hargc, List.length_dropLast]
  argv j hj := by
    rw [List.length_dropLast] at hj
    rw [hargv, List.getElem_dropLast]
    exact h.argv j (by omega)

theorem finishParse_reported {argv : ℕ → ℕ} (hcut : Cut a.arga 0 ⟨mem, argv, 0, none, false⟩ s line)
    (hlit : Terminated s.mem a.ampersand [AMPERSAND]) (hlen : line.length < SHELL_LINELEN) :
    ∃ cmd' mem', finishParse cmd s a.ampersand SHELL_LINELEN = some (cmd', mem') ∧ Reported a.arga line cmd' mem' := by
  have hargc : s.argc = (words line).length := by
    rw [hcut.argc, Nat.zero_add]
  have hwords : HoldsArguments a.arga
      { cmd with argv := s.argv, foreground := 1, argc := (words line).length, error := .ok } s.mem (words line) := by
    refine ⟨rfl, fun j hj => ?_⟩
    obtain ⟨hlow, hhigh, hterm⟩ := hcut.entries j hj
    simp only [Nat.zero_add] at hlow hhigh hterm
    exact ⟨hlow, lt_of_le_of_lt hhigh (by omega), hterm⟩
  have hplain (hamp : (words line).getLast? ≠ some [AMPERSAND]) : Reported a.arga line
      { cmd with argv := s.argv, foreground := 1, argc := (words line).length, error := .ok } s.mem := by
    refine .command rfl ?_ (if_neg hamp).symm
    rw [arguments_of_ne hamp]
    exact hwords
  rw [finishParse]
  simp only [hargc]
  by_cases hpos : 0 < (words line).length
  · have hlast := getLast_words hpos
    obtain ⟨d, hcmp, hd⟩ := stringcmp_eq hlit (hwords.argv ((words line).length - 1) (by omega)).2.2
      (show 1 < SHELL_LINELEN by decide)
    simp only at hcmp
    simp only [if_pos hpos, hcmp]
    by_cases hzero : d = 0
    · have hamp : (words line).getLast? = some [AMPERSAND] := by
        rw [hlast, ← hd.1 hzero]
      rw [if_pos hzero]
      by_cases hone : (words line).length = 1
      · obtain ⟨w, hw⟩ := List.length_eq_one_iff.1 hone
        rw [if_pos hone]
        refine ⟨_, _, rfl, .ampersand rfl ?_⟩
        rw [hw, List.getLast?_singleton, Option.some.injEq] at hamp
        rw [hw, hamp]
      · rw [if_neg hone]
        refine ⟨_, _, rfl, .command rfl ?_ (if_pos hamp).symm⟩
        rw [arguments, if_pos hamp]
        exact hwords.dropLast rfl rfl
    · rw [if_neg hzero]
      refine ⟨_, _, rfl, hplain fun h => hzero (hd.2 ?_)⟩
      rw [hlast, Option.some.injEq] at h
      exact h.symm
  · rw [if_neg hpos]
    refine ⟨_, _, rfl, hplain ?_⟩
    rw [List.eq_nil_of_length_eq_zero (Nat.eq_zero_of_not_pos hpos)]
    simp

/-- **The shell cuts the line** that is typed into its words, or reports that there are too many of them
or only an ampersand. -/
theorem shell_parse_words {input rest : List Read} {mem1 : Memory} (hlit : Terminated mem a.ampersand [AMPERSAND])
    (hline : shellReadline a.arga SHELL_LINELEN a.temp fuel input (memoryset a.arga 0 SHELL_LINELEN mem) =
      some (.ok, mem1, rest)) :
    Terminated mem1 a.arga (lineOf input) ∧ (lineOf input).length < SHELL_LINELEN ∧
      ∃ cmd' mem', shellParse a fuel input cmd mem = some (cmd', mem') ∧
        Reported a.arga (lineOf input) cmd' mem' := by
  obtain ⟨hterm, hlen, hsame⟩ := shellReadline_line a.buffers hline
  obtain ⟨argv, hargv⟩ := initArgv_some SHELL_ARGLEN 0 cmd.argv (by decide)
  refine ⟨hterm, hlen, ?_⟩
  rw [shellParse]
  simp only [shellInit, hargv, hline]
  rcases scan_words (k := SHELL_LINELEN) (s := ⟨mem1, argv, 0, none, false⟩)
    (show Terminated mem1 (a.arga + 0) (lineOf input) from hterm) (fun _ => lineOf_printable) hlen rfl rfl
    (show 0 < SHELL_MAXARGS by decide) with
    ⟨s', hscan, hmany⟩ | ⟨s', hscan, hcut⟩
  · rw [hscan]
    exact ⟨_, _, rfl, .tooMany rfl (by simpa using hmany)⟩
  · rw [hscan]
    refine finishParse_reported hcut ?_ hlen
    refine hlit.frame fun b h1 h2 => ?_
    have harga := a.literal_arga
    have htemp := a.literal_temp
    rw [List.length_singleton] at h2
    exact (hcut.outside b (by omega)).trans ((hsame b (by omega) (by omega)).trans (if_neg (by omega)))

/-- The keys `lx`, delete, `s a &` and return. -/
def typed : List Read := [108, 120, 127, 115, 32, 97, 32, 38, 10].map Read.byte

def typedLayout : Layout := ⟨0, 512, 1024, .inl (by decide), by decide, by decide⟩

def typedMemory : Memory := fun b => if b = 1024 then 38 else 0

/-- The line `ls a &` is the command `ls` with the argument `a`, in the background. -/
theorem shell_parse_typed : lineOf typed = [108, 115, 32, 97, 32, 38] ∧
    ∃ cmd' mem', shellParse typedLayout 10 typed ⟨0, fun _ => 0, .ok, 0⟩ typedMemory = some (cmd', mem') ∧
      cmd'.error = .ok ∧ HoldsArguments typedLayout.arga cmd' mem' [[108, 115], [97]] ∧ cmd'.foreground = 0 := by
  have hlit : Terminated typedMemory typedLayout.ampersand [AMPERSAND] :=
    ⟨fun i hi => by
      have hcases : i = 0 ∨ i = 1 := by simp at hi; omega
      rcases hcases with rfl | rfl <;> rfl, by decide⟩
  obtain ⟨mem1, hline⟩ : ∃ mem1, shellReadline typedLayout.arga SHELL_LINELEN typedLayout.temp 10 typed
      (memoryset typedLayout.arga 0 SHELL_LINELEN typedMemory) = some (.ok, mem1, []) := ⟨_, rfl⟩
  obtain ⟨-, -, cmd', mem', hparse, hreported⟩ := shell_parse_words hlit hline
  have hwords : words (lineOf typed) = [[108, 115], [97], [38]] := by decide
  refine ⟨by decide, cmd', mem', hparse, ?_⟩
  cases hreported with
  | tooMany herror hmany =>
    rw [hwords] at hmany
    exact absurd hmany (by decide)
  | ampersand herror hone =>
    rw [hwords] at hone
    cases hone
  | command herror hargs hground =>
    rw [arguments, hwords] at hargs
    rw [hwords] at hground
    exact ⟨herror, hargs, hground⟩

end Parsing

end Buenos.Shell

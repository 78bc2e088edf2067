import Buenos.Lib.Libc
import Buenos.Fs.Vfs.Pathnames
import Buenos.Proc.Loading
import Buenos.Proc.UserCopy

/-!
# The arguments of a new program

`handle_execp` of `proc/syscall.c` copies the file name and the arguments into two buffers on the kernel stack,
and `process_start` copies them from there to the stack of the new program.

* `handleExecp` — the call of `syscall_handle_execp` that it comes to.
* `passArguments` — the part of `process_start` that fills in the context and the stack.
* `UserString`, `UserArguments` — a string and an array of strings in the memory of the calling program.
* `Receives` — what the new program finds in its registers and on its stack.

Principal result: `exec_arguments`.
-/

namespace Buenos.Proc.Arguments

open Bytes Buenos.Vm Buenos.Proc.UserCopy
open Buenos.Vfs (Str vfsParsePathname)

/-! ## `handle_execp` -/

/-- `read_string_from_vm` with `physical_target` in the memory of the kernel. -/
def readStringTo (pt : Pagetable) (user : UserMemory) (source maxLength : ℕ) (kernel : Memory) (target : ℕ) :
    Memory × Answer :=
  let r := UserCopy.readStringFromVm pt user source maxLength (maxLength + 1) fun i => kernel (target + i)
  (fun a => if target ≤ a then r.2.1 (a - target) else kernel a, r.2.2)

/-- The loop over the arguments, with `totalUsed` bytes of `temp` in use: the memory, and what is added to
`argv`.  The address that is checked is `virt_argv + i` in bytes, the one that is read is that of the element. -/
def readArguments (pt : Pagetable) (user : UserMemory) (virtArgv temp : ℕ) :
    ℕ → ℕ → ℕ → Memory → Except Outcome (Memory × List ℕ)
  | 0, _, _, kernel => .ok (kernel, [])
  | n + 1, i, totalUsed, kernel =>
    match vmGetVaddrPageOffsets pt (u32 (virtArgv + i)) with
    | none => .error .failed
    | some _ =>
      let element := u32 (virtArgv + 4 * i)
      if element % 4 ≠ 0 then .error (.panics element)
      else
        match readStringTo pt user (wordAt user element) (CONFIG_SYSCALL_MAX_BUFFER_SIZE - totalUsed) kernel
            (temp + totalUsed) with
        | (_, .nok) => .error .failed
        | (_, .hangs needs) => .error (.hangs needs)
        | (kernel, .ok used) =>
          (readArguments pt user virtArgv temp n (i + 1) (totalUsed + used) kernel).map fun r =>
            (r.1, (temp + totalUsed) :: r.2)

/-- The arguments of `syscall_handle_execp`, with the memory of the kernel. -/
structure ExecCall where
  kernel : Memory
  filename : ℕ
  argv : List ℕ

/-- `handle_execp` with its buffers at `filename` and `temp`, as far as `syscall_handle_execp`. -/
def handleExecp (pt : Pagetable) (user : UserMemory) (a1 a2 a3 : UInt32) (filename temp : ℕ) (kernel : Memory) :
    Except Outcome ExecCall :=
  match vmGetVaddrPageOffsets pt a1.toNat with
  | none => .error .failed
  | some _ =>
    match readStringTo pt user a1.toNat CONFIG_SYSCALL_MAX_BUFFER_SIZE kernel filename with
    | (_, .nok) => .error .failed
    | (_, .hangs needs) => .error (.hangs needs)
    | (kernel, .ok _) =>
      let argc := toInt a2.toNat
      if argc < 0 ∨ (0 < argc ∧ vmGetVaddrPageOffsets pt a3.toNat = none) ∨ CONFIG_SYSCALL_MAX_ARGC ≤ argc then
        .error .failed
      else
        (readArguments pt user a3.toNat temp argc.toNat 0 0 kernel).map fun r => ⟨r.1, filename, r.2⟩

/-! ## `process_start` -/

/-- `context_t`, in the fields that are used. -/
structure UserContext where
  cpuRegs : Fin 29 → ℕ
  pc : ℕ

def MIPS_REGISTER_A0 : Fin 29 := 3
def MIPS_REGISTER_A1 : Fin 29 := 4
def MIPS_REGISTER_SP : Fin 29 := 26

/-- Space for a string is reserved below `sp`, on a multiple of four, and the string is copied to it: the memory
and the new `sp`.  The strings lie in buffers of `CONFIG_SYSCALL_MAX_BUFFER_SIZE` bytes. -/
def pushString (mem : Memory) (sp str : ℕ) : Option (Memory × ℕ) :=
  (strlen mem str CONFIG_SYSCALL_MAX_BUFFER_SIZE).map fun len =>
    let arglen := len + 1
    let sp := sub32 sp arglen
    let sp := sub32 sp (sp % 4)
    (memcopy mem arglen sp str, sp)

/-- The loop over the arguments: the memory, `sp` and what is added to `virtual_argv`. -/
def pushStrings : List ℕ → Memory → ℕ → Option (Memory × ℕ × List ℕ)
  | [], mem, sp => some (mem, sp, [])
  | str :: strs, mem, sp =>
    (pushString mem sp str).bind fun pushed =>
      (pushStrings strs pushed.1 pushed.2).map fun r => (r.1, r.2.1, pushed.2 :: r.2.2)

/-- The loop that constructs the pointer array, from the last pointer to the first. -/
def pushPointers : List ℕ → Memory → ℕ → Memory × ℕ
  | [], mem, sp => (mem, sp)
  | p :: ps, mem, sp =>
    let r := pushPointers ps mem sp
    (storeWord r.1 (sub32 r.2 4) p, sub32 r.2 4)

/-- `user_context` as it is handed to `thread_goto_userland`. -/
def startContext (entryPoint a0 a1 sp : ℕ) : UserContext where
  cpuRegs := Function.update (Function.update (Function.update (fun _ => 0) MIPS_REGISTER_A0 a0) MIPS_REGISTER_A1 a1)
    MIPS_REGISTER_SP sp
  pc := entryPoint

/-- The context and the stack of the new program. -/
def passArguments (entryPoint executable : ℕ) (argv : List ℕ) (mem : Memory) : Option (UserContext × Memory) :=
  (pushStrings argv mem USERLAND_STACK_TOP).bind fun args =>
    (pushString args.1 args.2.1 executable).map fun name =>
      let virtualArgv := name.2 :: args.2.2
      let stack := pushPointers virtualArgv name.1 name.2
      (startContext entryPoint virtualArgv.length (if 0 < virtualArgv.length then stack.2 else 0)
        (sub32 stack.2 (2 * 4)), stack.1)

/-- The memory that `process_start` sees: the pages of the new program below the segments of the kernel. -/
def newMemory (program kernel : Memory) : Memory := fun a => if a < 0x80000000 then program a else kernel a

/-! ## What is passed -/

section Context

variable (entryPoint a0 a1 sp : ℕ)

@[simp] theorem startContext_a0 : (startContext entryPoint a0 a1 sp).cpuRegs MIPS_REGISTER_A0 = a0 := rfl

@[simp] theorem startContext_a1 : (startContext entryPoint a0 a1 sp).cpuRegs MIPS_REGISTER_A1 = a1 := rfl

@[simp] theorem startContext_sp : (startContext entryPoint a0 a1 sp).cpuRegs MIPS_REGISTER_SP = sp := rfl

end Context

/-- A string in the memory of the calling program. -/
structure UserString (pt : Pagetable) (user : UserMemory) (vaddr : ℕ) (str : Str) : Prop where
  bytes : ∀ j ≤ str.length, user (u32 (vaddr + j)) = (str ++ [0]).getD j 0
  nonzero : 0 ∉ str
  mapped : ∀ j ≤ str.length, UserByte pt (u32 (vaddr + j))

/-- An array of pointers to strings in the memory of the calling program. -/
structure UserArguments (pt : Pagetable) (user : UserMemory) (virtArgv : ℕ) (args : List Str) : Prop where
  aligned : args ≠ [] → virtArgv % 4 = 0
  mapped : ∀ k < 4 * args.length, UserByte pt (u32 (virtArgv + k))
  strings : ∀ i (h : i < args.length), UserString pt user (wordAt user (u32 (virtArgv + 4 * i))) args[i]

/-- The areas of the pointer array and of the strings. -/
def areas (argv : ℕ) (ptrs : List ℕ) (strs : List Str) : List Span :=
  ⟨argv, 4 * strs.length⟩ :: List.zipWith (fun p str => ⟨p, str.length + 1⟩) ptrs strs

/-- Two ranges that have no address in common. -/
def Separate (r r' : Span) : Prop := r.vaddr + r.length ≤ r'.vaddr ∨ r'.vaddr + r'.length ≤ r.vaddr

/-- The new program gets the strings: their number, and an array of that many pointers to them; all of it lies
between its stack pointer and the top of the stack, on the page of the stack. -/
structure Receives (ctx : UserContext) (mem : Memory) (strs : List Str) : Prop where
  count : ctx.cpuRegs MIPS_REGISTER_A0 = strs.length
  argv : ∃ ptrs : List ℕ, List.Forall₂ (Terminated mem) ptrs strs ∧
    (∀ i < strs.length, loadWord mem (ctx.cpuRegs MIPS_REGISTER_A1 + 4 * i) = ptrs.getD i 0) ∧
    (areas (ctx.cpuRegs MIPS_REGISTER_A1) ptrs strs).Pairwise Separate ∧
    ∀ r ∈ areas (ctx.cpuRegs MIPS_REGISTER_A1) ptrs strs,
      ctx.cpuRegs MIPS_REGISTER_SP ≤ r.vaddr ∧ r.vaddr + r.length ≤ USERLAND_STACK_TOP
  aligned : ctx.cpuRegs MIPS_REGISTER_SP % 4 = 0
  page : pageStart USERLAND_STACK_TOP ≤ ctx.cpuRegs MIPS_REGISTER_SP

/-! ## Onto the new stack -/

section Stack

variable {mem mem' : Memory} {sp sp' top p q : ℕ} {str : Str} {ptrs : List ℕ} {strs : List Str}

theorem sub32_eq {a b : ℕ} (ha : a < 2 ^ 32) (hb : b ≤ a) : sub32 a b = a - b := by
  unfold sub32
  omega

/-- A string on a multiple of four, from `p` to below `top`, and `top` not much higher. -/
structure Pushed (mem : Memory) (top p : ℕ) (str : Str) : Prop where
  string : Terminated mem p str
  below : p + str.length + 1 ≤ top
  above : top ≤ p + str.length + 4
  aligned : p % 4 = 0

/-- **A string is pushed.** -/
theorem pushString_pushed (h : Terminated mem q str) (hsource : 0x80000000 ≤ q) (hsp : sp ≤ 0x80000000)
    (hroom : str.length + 4 ≤ sp) (hlen : str.length < CONFIG_SYSCALL_MAX_BUFFER_SIZE) :
    ∃ mem' p, pushString mem sp q = some (mem', p) ∧ Pushed mem' sp p str ∧
      ∀ a, a < p ∨ sp ≤ a → mem' a = mem a := by
  have h1 : sub32 sp (str.length + 1) = sp - (str.length + 1) := sub32_eq (by omega) (by omega)
  have h2 : sub32 (sp - (str.length + 1)) ((sp - (str.length + 1)) % 4) =
      sp - (str.length + 1) - (sp - (str.length + 1)) % 4 := sub32_eq (by omega) (Nat.mod_le _ _)
  refine ⟨_, _, by rw [pushString, h.strlen hlen, Option.map_some], ?_⟩
  simp only [h1, h2]
  generalize hp : sp - (str.length + 1) - (sp - (str.length + 1)) % 4 = p
  have hcopy : Copied mem (memcopy mem ((str.length : ℤ) + 1) p q) p q (str.length + 1) := by
    have hapart : Apart p q (str.length + 1) := by
      unfold Apart
      omega
    exact_mod_cast memcopy_copied mem hapart
  refine ⟨⟨⟨hcopy.holds h.bytes (by simp), h.nonzero⟩, by omega, by omega, by omega⟩, fun a ha => ?_⟩
  exact hcopy.outside a (by omega)

end Stack

section Stack

variable {mem mem' : Memory} {sp sp' top p q : ℕ} {str : Str} {ptrs : List ℕ} {strs : List Str}

/-- The strings that have been pushed, from the first one below `top` to the last one at `sp`. -/
inductive Stacked (mem : Memory) : ℕ → List ℕ → List Str → ℕ → Prop where
  | nil {top : ℕ} : Stacked mem top [] [] top
  | cons {top p sp : ℕ} {str : Str} {ptrs : List ℕ} {strs : List Str} (h : Pushed mem top p str)
      (hrest : Stacked mem p ptrs strs sp) : Stacked mem top (p :: ptrs) (str :: strs) sp

/-- The bytes that strings take up at most. -/
def stackBytes (strs : List Str) : ℕ := (strs.map fun str => str.length + 4).sum

theorem stackBytes_cons (str : Str) (strs : List Str) :
    stackBytes (str :: strs) = str.length + 4 + stackBytes strs := by
  unfold stackBytes
  rw [List.map_cons, List.sum_cons]

theorem Stacked.le (h : Stacked mem top ptrs strs sp) : sp ≤ top ∧ top ≤ sp + stackBytes strs := by
  induction h with
  | nil => exact ⟨le_refl _, Nat.le_add_right _ _⟩
  | cons h hrest ih =>
    have hbelow := h.below
    have habove := h.above
    rw [stackBytes_cons]
    omega

theorem Stacked.aligned (h : Stacked mem top ptrs strs sp) (htop : top % 4 = 0) : sp % 4 = 0 := by
  induction h with
  | nil => exact htop
  | cons h hrest ih => exact ih h.aligned

/-- Strings that are not written stay. -/
theorem Stacked.frame (h : Stacked mem top ptrs strs sp) (hsame : ∀ a, sp ≤ a → a < top → mem' a = mem a) :
    Stacked mem' top ptrs strs sp := by
  induction h with
  | nil => exact .nil
  | cons h hrest ih =>
    have hle := hrest.le.1
    have hbelow := h.below
    refine .cons ⟨h.string.frame fun b h1 h2 => hsame b (by omega) (by omega), h.below, h.above, h.aligned⟩ ?_
    exact ih fun a h1 h2 => hsame a h1 (by omega)

theorem Stacked.strings (h : Stacked mem top ptrs strs sp) : List.Forall₂ (Terminated mem) ptrs strs := by
  induction h with
  | nil => exact .nil
  | cons h hrest ih => exact .cons h.string ih

/-- The areas of the strings. -/
def stringAreas (ptrs : List ℕ) (strs : List Str) : List Span :=
  List.zipWith (fun p str => ⟨p, str.length + 1⟩) ptrs strs

theorem Stacked.within (h : Stacked mem top ptrs strs sp) :
    ∀ r ∈ stringAreas ptrs strs, sp ≤ r.vaddr ∧ r.vaddr + r.length ≤ top := by
  induction h with
  | nil => exact fun r hr => absurd hr List.not_mem_nil
  | cons h hrest ih =>
    intro r hr
    have hle := hrest.le.1
    have hbelow := h.below
    rcases List.mem_cons.1 hr with rfl | hr
    · exact ⟨hle, hbelow⟩
    · have hin := ih r hr
      exact ⟨hin.1, by omega⟩

theorem Stacked.separate (h : Stacked mem top ptrs strs sp) : (stringAreas ptrs strs).Pairwise Separate := by
  induction h with
  | nil => exact .nil
  | cons h hrest ih => exact .cons (fun r hr => Or.inr (hrest.within r hr).2) ih

/-- Strings in the memory of the kernel, as long as its buffers at most. -/
def KernelStrings (mem : Memory) (argv : List ℕ) (strs : List Str) : Prop :=
  List.Forall₂ (fun q str => Terminated mem q str ∧ 0x80000000 ≤ q ∧ str.length < CONFIG_SYSCALL_MAX_BUFFER_SIZE)
    argv strs

/-- Writing to the stack leaves them. -/
theorem KernelStrings.frame {argv : List ℕ} (h : KernelStrings mem argv strs)
    (hsame : ∀ a, 0x80000000 ≤ a → mem' a = mem a) : KernelStrings mem' argv strs :=
  List.Forall₂.imp (fun _ _ ⟨hstr, hq, hlen⟩ => ⟨hstr.frame fun b hb _ => hsame b (hq.trans hb), hq, hlen⟩) h

/-- **The loop over the arguments.** -/
theorem pushStrings_stacked {argv : List ℕ} (h : KernelStrings mem argv strs) (hsp : sp ≤ 0x80000000)
    (hroom : stackBytes strs ≤ sp) :
    ∃ mem' sp' ptrs, pushStrings argv mem sp = some (mem', sp', ptrs) ∧ Stacked mem' sp ptrs strs sp' ∧
      ∀ a, a < sp' ∨ sp ≤ a → mem' a = mem a := by
  induction strs generalizing argv mem sp with
  | nil =>
    cases h
    exact ⟨mem, sp, [], rfl, .nil, fun _ _ => rfl⟩
  | cons str strs ih =>
    obtain ⟨q, argv, ⟨hstr, hkernel, hlen⟩, hrest, rfl⟩ := List.forall₂_cons_right_iff.1 h
    rw [stackBytes_cons] at hroom
    obtain ⟨mem1, p, hpush, hp, hsame1⟩ := pushString_pushed hstr hkernel hsp (by omega) hlen
    have hbelow := hp.below
    have habove := hp.above
    have hrest1 : KernelStrings mem1 argv strs :=
      KernelStrings.frame hrest fun a ha => hsame1 a (Or.inr (hsp.trans ha))
    obtain ⟨mem2, sp2, ptrs, hpushes, hstack, hsame2⟩ := ih hrest1 (show p ≤ 0x80000000 by omega) (by omega)
    have hle := hstack.le.1
    have hkeep : Pushed mem2 sp p str :=
      ⟨hp.string.frame fun b hb _ => hsame2 b (Or.inr hb), hp.below, hp.above, hp.aligned⟩
    refine ⟨mem2, sp2, p :: ptrs, ?_, .cons hkeep hstack, fun a ha => ?_⟩
    · rw [pushStrings, hpush, Option.bind_some, hpushes, Option.map_some]
    · rw [hsame2 a (by omega), hsame1 a (by omega)]

/-- **The loop that constructs the pointer array.** -/
theorem pushPointers_words (hlt : ∀ p ∈ ptrs, p < 2 ^ 32) (hsp : sp < 2 ^ 32) (hroom : 4 * ptrs.length ≤ sp) :
    (pushPointers ptrs mem sp).2 + 4 * ptrs.length = sp ∧
      (∀ i < ptrs.length, loadWord (pushPointers ptrs mem sp).1 ((pushPointers ptrs mem sp).2 + 4 * i) =
        ptrs.getD i 0) ∧
      ∀ a, a < (pushPointers ptrs mem sp).2 ∨ sp ≤ a → (pushPointers ptrs mem sp).1 a = mem a := by
  induction ptrs with
  | nil => exact ⟨rfl, fun i hi => absurd hi (Nat.not_lt_zero i), fun _ _ => rfl⟩
  | cons p ps ih =>
    rw [List.length_cons] at hroom ⊢
    obtain ⟨hat, hwords, hsame⟩ := ih (fun q hq => hlt q (List.mem_cons_of_mem _ hq)) (by omega)
    rw [pushPointers]
    generalize pushPointers ps mem sp = r at hat hwords hsame
    have hnew : sub32 r.2 4 = r.2 - 4 := sub32_eq (by omega) (by omega)
    simp only [hnew]
    have hlen : (be32 p).length = 4 := be32_length p
    have hkeep : ∀ a, a < r.2 - 4 ∨ r.2 ≤ a → storeWord r.1 (r.2 - 4) p a = r.1 a := fun a ha =>
      storeBytes_outside (by omega)
    refine ⟨by omega, fun i hi => ?_, fun a ha => ?_⟩
    · cases i with
      | zero =>
        rw [Nat.mul_zero, Nat.add_zero, List.getD_cons_zero, storeWord,
          (holdsBytes_storeBytes r.1 (r.2 - 4) (be32 p)).loadWord, Nat.mod_eq_of_lt (hlt p List.mem_cons_self)]
      | succ i =>
        have haddr : r.2 - 4 + 4 * (i + 1) = r.2 + 4 * i := by omega
        rw [haddr, List.getD_cons_succ, ← hwords i (by omega)]
        unfold loadWord
        rw [hkeep _ (by omega), hkeep _ (by omega), hkeep _ (by omega), hkeep _ (by omega)]
    · rw [hkeep a (by omega), hsame a (by omega)]

end Stack

section Pass

variable {mem : Memory} {entryPoint executable sp p : ℕ} {argv ptrs : List ℕ} {name : Str} {args : List Str}

/-- The pointer array is at `argv`, the file name above it, and above that the arguments. -/
theorem receives_of_stack {ctx : UserContext} {argv : ℕ} (hstack : Stacked mem USERLAND_STACK_TOP ptrs args sp)
    (hp : Pushed mem sp p name) (hat : argv + 4 * (args.length + 1) = p)
    (hwords : ∀ i < args.length + 1, loadWord mem (argv + 4 * i) = (p :: ptrs).getD i 0)
    (hpage : pageStart USERLAND_STACK_TOP + 8 ≤ argv) (ha0 : ctx.cpuRegs MIPS_REGISTER_A0 = args.length + 1)
    (ha1 : ctx.cpuRegs MIPS_REGISTER_A1 = argv) (hsp : ctx.cpuRegs MIPS_REGISTER_SP = argv - 8) :
    Receives ctx mem (name :: args) := by
  have hle := hstack.le.1
  have hbelow := hp.below
  have haligned := hp.aligned
  have hareas : ∀ r ∈ stringAreas (p :: ptrs) (name :: args), p ≤ r.vaddr ∧ r.vaddr + r.length ≤ USERLAND_STACK_TOP := by
    intro r hr
    rcases List.mem_cons.1 hr with rfl | hr
    · exact ⟨le_refl p, hbelow.trans hle⟩
    · have hin := hstack.within r hr
      exact ⟨by omega, hin.2⟩
  refine ⟨ha0, ⟨p :: ptrs, .cons hp.string hstack.strings, ?_, ?_, ?_⟩, ?_, ?_⟩
  · rw [ha1]
    exact hwords
  · rw [ha1]
    refine .cons (fun r hr => Or.inl ?_) (.cons (fun r hr => Or.inl ?_) hstack.separate)
    · rw [List.length_cons, hat]
      exact (hareas r hr).1
    · exact hbelow.trans (hstack.within r hr).1
  · rw [ha1, hsp]
    intro r hr
    rcases List.mem_cons.1 hr with rfl | hr
    · rw [List.length_cons, hat]
      exact ⟨Nat.sub_le _ _, by omega⟩
    · have hin := hareas r hr
      exact ⟨by omega, hin.2⟩
  · rw [hsp]
    omega
  · rw [hsp]
    omega

theorem Stacked.lt {top : ℕ} (h : Stacked mem top ptrs args sp) : ∀ q ∈ ptrs, q < top := by
  induction h with
  | nil => exact fun q hq => absurd hq List.not_mem_nil
  | cons h hrest ih =>
    intro q hq
    have hbelow := h.below
    rcases List.mem_cons.1 hq with rfl | hq
    · omega
    · exact (ih q hq).trans (by omega)

/-- **The context and the stack of the new program.** -/
theorem passArguments_receives (hname : Terminated mem executable name) (hkernel : 0x80000000 ≤ executable)
    (hlen : name.length < CONFIG_SYSCALL_MAX_BUFFER_SIZE) (hargs : KernelStrings mem argv args)
    (hroom : stackBytes args + name.length + 4 + 4 * (args.length + 1) + 8 ≤ 0xffc) :
    ∃ ctx mem', passArguments entryPoint executable argv mem = some (ctx, mem') ∧ Receives ctx mem' (name :: args) := by
  have htop : USERLAND_STACK_TOP = 0x7fffeffc := rfl
  have hpage : pageStart USERLAND_STACK_TOP = 0x7fffe000 := rfl
  obtain ⟨mem1, sp1, ptrs, hpushes, hstack1, hsame1⟩ :=
    pushStrings_stacked hargs (show USERLAND_STACK_TOP ≤ 0x80000000 by omega) (by omega)
  have hle1 := hstack1.le
  have hname1 : Terminated mem1 executable name := hname.frame fun b hb _ => hsame1 b (Or.inr (by omega))
  obtain ⟨mem2, p, hpush, hp, hsame2⟩ := pushString_pushed hname1 hkernel (show sp1 ≤ 0x80000000 by omega) (by omega) hlen
  have hbelow := hp.below
  have habove := hp.above
  have hlist : (p :: ptrs).length = args.length + 1 := by rw [List.length_cons, hstack1.strings.length_eq]
  have hlt : ∀ q ∈ p :: ptrs, q < 2 ^ 32 := fun q hq => by
    rcases List.mem_cons.1 hq with rfl | hq
    · omega
    · exact (hstack1.lt q hq).trans (by omega)
  obtain ⟨hat, hwords, hsame3⟩ := @pushPointers_words mem2 p (p :: ptrs) hlt (by omega) (by omega)
  refine ⟨_, _, by rw [passArguments, hpushes, Option.bind_some, hpush, Option.map_some], ?_⟩
  generalize pushPointers (p :: ptrs) mem2 p = stack at hat hwords hsame3
  rw [hlist] at hat hwords
  have hstack : Stacked stack.1 USERLAND_STACK_TOP ptrs args sp1 := hstack1.frame fun a ha _ => by
    rw [hsame3 a (Or.inr (by omega)), hsame2 a (Or.inr ha)]
  have hstring : Pushed stack.1 sp1 p name :=
    ⟨hp.string.frame fun b hb _ => hsame3 b (Or.inr hb), hp.below, hp.above, hp.aligned⟩
  refine receives_of_stack hstack hstring hat hwords (by omega) ?_ ?_ ?_
  · rw [startContext_a0, hlist]
  · rw [startContext_a1, hlist, if_pos (Nat.succ_pos _)]
  · rw [startContext_sp, sub32_eq (by omega) (by omega)]

end Pass

/-! ## Through the buffers of the kernel -/

section Buffers

variable {pt : Pagetable} {t : ℕ} {user : UserMemory} {kernel : Memory} {source target maxLength temp virtArgv : ℕ}
  {str : Str} {args : List Str}

/-- **A string is copied into a buffer of the kernel.** -/
theorem readStringTo_terminated (hw : pt.Wf t) (h : UserString pt user source str) (hmax : str.length < maxLength)
    (hlen : str.length < CONFIG_SYSCALL_MAX_BUFFER_SIZE) :
    ∃ kernel', readStringTo pt user source maxLength kernel target = (kernel', .ok (str.length + 1)) ∧
      Terminated kernel' target str ∧ ∀ a, a < target ∨ target + str.length + 1 ≤ a → kernel' a = kernel a := by
  have hfew : str.length < 4096 := hlen.trans (by decide)
  have hchar : ∀ j < str.length, user (u32 (source + j)) ≠ 0 := fun j hj hzero => by
    have hbyte := h.bytes j hj.le
    rw [List.getD_append _ _ _ _ hj, List.getD_eq_getElem _ _ hj] at hbyte
    exact h.nonzero (hzero ▸ hbyte ▸ List.getElem_mem hj)
  have hzero : user (u32 (source + str.length)) = 0 := by
    rw [h.bytes _ (le_refl _), List.getD_append_right _ _ _ _ (le_refl _), Nat.sub_self]
    rfl
  have hrun : UserCopy.readStringFromVm pt user source maxLength (maxLength + 1) (fun i => kernel (target + i)) = _ :=
    copyStringRounds_found hw hmax hfew (fun k hk => (h.mapped k hk).sound) hchar hzero (Nat.zero_le _) (Or.inl rfl)
      (by omega)
  refine ⟨_, by rw [readStringTo, hrun], ⟨fun i hi => ?_, h.nonzero⟩, fun a ha => ?_⟩ <;> simp only
  · rw [List.length_append, List.length_singleton] at hi
    rw [if_pos (Nat.le_add_right _ _), Nat.add_sub_cancel_left, putAll_target, if_pos (by omega)]
    exact h.bytes i (by omega)
  · split
    · rw [putAll_target, if_neg (by omega), Nat.add_sub_cancel' (by assumption)]
    · rfl

/-- **The loop over the arguments** packs them into `temp` one after another. -/
theorem readArguments_packed (hw : pt.Wf t) {i totalUsed : ℕ} (haligned : args ≠ [] → virtArgv % 4 = 0)
    (hmapped : ∀ k < args.length, UserByte pt (u32 (virtArgv + (i + k))))
    (hargs : ∀ k (h : k < args.length), UserString pt user (wordAt user (u32 (virtArgv + 4 * (i + k)))) args[k])
    (htotal : totalUsed + (args.map fun str => str.length + 1).sum ≤ CONFIG_SYSCALL_MAX_BUFFER_SIZE) :
    ∃ kernel' argv, readArguments pt user virtArgv temp args.length i totalUsed kernel = .ok (kernel', argv) ∧
      List.Forall₂ (fun q str => Terminated kernel' q str ∧ temp ≤ q ∧ str.length < CONFIG_SYSCALL_MAX_BUFFER_SIZE)
        argv args ∧
      ∀ a, a < temp + totalUsed ∨ temp + CONFIG_SYSCALL_MAX_BUFFER_SIZE ≤ a → kernel' a = kernel a := by
  induction args generalizing i totalUsed kernel with
  | nil => exact ⟨kernel, [], rfl, .nil, fun _ _ => rfl⟩
  | cons str args ih =>
    rw [List.map_cons, List.sum_cons] at htotal
    have hhead : UserByte pt (u32 (virtArgv + i)) := hmapped 0 (Nat.succ_pos _)
    obtain ⟨frame, hlookup⟩ := hhead.sound.lookup hw
    have helement : ¬ u32 (virtArgv + 4 * i) % 4 ≠ 0 := by
      have hzero := haligned (List.cons_ne_nil _ _)
      unfold u32
      omega
    have hstr : UserString pt user (wordAt user (u32 (virtArgv + 4 * i))) str := hargs 0 (Nat.succ_pos _)
    obtain ⟨kernel1, hread, hat, hsame1⟩ := @readStringTo_terminated pt t user kernel _ (temp + totalUsed)
      (CONFIG_SYSCALL_MAX_BUFFER_SIZE - totalUsed) str hw hstr (by omega) (by omega)
    have hshift : ∀ k, i + (k + 1) = i + 1 + k := fun k => by omega
    obtain ⟨kernel2, argv, hrest, hall, hsame2⟩ := @ih kernel1 (i + 1) (totalUsed + (str.length + 1))
      (fun _ => haligned (List.cons_ne_nil _ _)) (fun k hk => hshift k ▸ hmapped (k + 1) (Nat.succ_lt_succ hk))
      (fun k hk => hshift k ▸ hargs (k + 1) (Nat.succ_lt_succ hk)) (by omega)
    refine ⟨kernel2, (temp + totalUsed) :: argv, ?_, .cons ⟨hat.frame fun b _ hb => hsame2 b (by omega), by omega, by omega⟩
      hall, fun a ha => ?_⟩
    · rw [List.length_cons, readArguments, hlookup]
      simp only [if_neg helement, hread, hrest]
      rfl
    · rw [hsame2 a (by omega), hsame1 a (by omega)]

/-- The buffers `filename` and `temp` on the kernel stack. -/
structure Buffers (filename temp : ℕ) : Prop where
  apart : Apart filename temp CONFIG_SYSCALL_MAX_BUFFER_SIZE
  inKernel : 0x80000000 ≤ filename ∧ 0x80000000 ≤ temp

/-- **`handle_execp`** comes to `syscall_handle_execp` with the strings. -/
theorem handleExecp_call {a1 a2 a3 : UInt32} {filename : ℕ} {name : Str} (hw : pt.Wf t)
    (hname : UserString pt user a1.toNat name) (hlen : name.length < CONFIG_SYSCALL_MAX_BUFFER_SIZE)
    (hargs : UserArguments pt user a3.toNat args) (hcount : a2.toNat = args.length) (hmax : args.length ≤ 31)
    (htotal : (args.map fun str => str.length + 1).sum ≤ CONFIG_SYSCALL_MAX_BUFFER_SIZE) (hbuffers : Buffers filename temp) :
    ∃ call, handleExecp pt user a1 a2 a3 filename temp kernel = .ok call ∧ call.filename = filename ∧
      Terminated call.kernel filename name ∧ KernelStrings call.kernel call.argv args := by
  have hreg : ∀ r : UInt32, u32 (r.toNat + 0) = r.toNat := fun r => Nat.mod_eq_of_lt (UInt32.toNat_lt r)
  obtain ⟨frame, hlookup⟩ := (hreg a1 ▸ (hname.mapped 0 (Nat.zero_le _)).sound).lookup hw
  obtain ⟨kernel1, hread, hat, -⟩ := @readStringTo_terminated pt t user kernel _ filename
    CONFIG_SYSCALL_MAX_BUFFER_SIZE name hw hname hlen hlen
  have hargc : toInt a2.toNat = args.length := by
    rw [hcount, toInt, if_pos (by omega)]
  have haccept : ¬ (toInt a2.toNat < 0 ∨ (0 < toInt a2.toNat ∧ vmGetVaddrPageOffsets pt a3.toNat = none) ∨
      (CONFIG_SYSCALL_MAX_ARGC : ℤ) ≤ toInt a2.toNat) := by
    rw [hargc]
    rintro (hneg | ⟨hpos, hnone⟩ | hmany)
    · omega
    · obtain ⟨frame', hfound⟩ := (hreg a3 ▸ (hargs.mapped 0 (by omega)).sound).lookup hw
      rw [hnone] at hfound
      cases hfound
    · unfold CONFIG_SYSCALL_MAX_ARGC at hmany
      omega
  obtain ⟨kernel2, argv, hreads, hall, hsame⟩ := @readArguments_packed pt t user kernel1 temp a3.toNat args hw 0 0
    hargs.aligned (fun k hk => hargs.mapped (0 + k) (by omega)) (fun k hk => by
      rw [Nat.zero_add]
      exact hargs.strings k hk) (by omega)
  refine ⟨⟨kernel2, filename, argv⟩, ?_, rfl, hat.frame fun b h1 h2 => hsame b ?_, ?_⟩
  · rw [handleExecp, hlookup]
    simp only [hread, if_neg haccept]
    rw [hargc, Int.toNat_natCast, hreads]
    rfl
  · have hapart := hbuffers.apart
    unfold Apart at hapart
    omega
  · exact List.Forall₂.imp (fun q str h => ⟨h.1, hbuffers.inKernel.2.trans h.2.1, h.2.2⟩) hall

end Buffers

/-! ## The page of the stack -/

section StackPage

variable {c : StartCall} {w w' : World} {s s' : StartState} {pt pt' : Pagetable} {t : ℕ}

/-- `restore_process_state` is not called: all pages have been mapped. -/
theorem load_pagetable (h : load s = .ok s') : s'.world.pagetable = s.world.pagetable := by
  have hset : ∀ file, (s.setFile file).world.pagetable = s.world.pagetable := fun file => by
    unfold StartState.setFile
    split <;> rfl
  unfold load at h
  split at h
  · cases h
  · simp only at h
    split at h
    · split at h
      · cases h
        exact hset _
      · cases h
    · cases h

/-- Clearing the dirty bits leaves the pages mapped. -/
theorem protectPages_mapped {vaddrs : List ℕ} (hw : pt.Wf t) (h : protectPages vaddrs pt = some pt') (p : ℕ) :
    (pt'.mapping p).isSome = (pt.mapping p).isSome := by
  induction vaddrs generalizing pt with
  | nil =>
    cases h
    rfl
  | cons vaddr vaddrs ih =>
    rw [protectPages] at h
    split at h
    · cases h
    · rename_i pt1 hset
      obtain ⟨hw1, m, hm, hmap⟩ := vmSetDirty_mapping hw hset
      rw [ih hw1 h, hmap]
      by_cases hp : p = vaddr / PAGE_SIZE
      · rw [hp, Function.update_self, hm]
        rfl
      · rw [Function.update_of_ne hp]

/-- A call that goes to userland has got through all of its parts. -/
theorem processStart_started (h : processStart c w = some (.started w')) :
    ∃ s s', prepare c { w with data := c.parentPid.map fun _ => execpData } = .ok s ∧ load s = .ok s' ∧
      startUserland s' = some w' := by
  unfold processStart at h
  cases hprepare : prepare c { w with data := c.parentPid.map fun _ => execpData } with
  | panics =>
    rw [hprepare] at h
    cases h
  | fails s =>
    simp only [hprepare, Start.fails_bind] at h
    obtain ⟨w1, -, heq⟩ := Option.map_eq_some_iff.1 h
    cases heq
  | ok s =>
    simp only [hprepare, Start.ok_bind] at h
    cases hload : load s with
    | panics =>
      simp only [hload] at h
      cases h
    | fails s' =>
      simp only [hload] at h
      obtain ⟨w1, -, heq⟩ := Option.map_eq_some_iff.1 h
      cases heq
    | ok s' =>
      simp only [hload] at h
      obtain ⟨w1, hend, heq⟩ := Option.map_eq_some_iff.1 h
      cases heq
      exact ⟨s, s', rfl, hload, hend⟩

/-- **The page of the stack is mapped** in a new program. -/
theorem started_stackPage (hpool : PoolWf w.pool) (hstart : processStart c w = some (.started w')) :
    ∃ pt, w'.pagetable = some pt ∧ ∀ a, pageStart USERLAND_STACK_TOP ≤ a → a < USERLAND_STACK_TOP → Mapped pt a := by
  obtain ⟨s, s', hprepare, hload, hend⟩ := processStart_started hstart
  have hresult := prepare_result c (show PoolWf { w with data := c.parentPid.map fun _ => execpData }.pool from hpool)
  rw [hprepare] at hresult
  obtain ⟨pt, h⟩ : ∃ pt, Taken w.pool c.thread s.world pt s.elf.addrs none := by
    cases hresult with
    | ready hi hacc hfree hcan hs h => exact ⟨_, h⟩
  unfold startUserland at hend
  simp only [load_pagetable hload, h.pagetable] at hend
  obtain ⟨pt', hprotect, rfl⟩ := Option.map_eq_some_iff.1 hend
  have hstack : pageStart USERLAND_STACK_TOP / PAGE_SIZE ∈ s.elf.addrs.map (· / PAGE_SIZE) :=
    List.mem_map.2 ⟨pageStart USERLAND_STACK_TOP, List.mem_append_left _ (List.mem_append_left _
      (List.mem_append_left _ List.mem_cons_self)), rfl⟩
  refine ⟨pt', ?_, fun a hlow hhigh => ⟨?_, ?_⟩⟩
  · show (closeFile _ _).pagetable = some pt'
    unfold closeFile
    split <;> rfl
  · have hpage : pageStart USERLAND_STACK_TOP = 0x7fffe000 := rfl
    omega
  · have hpage : a / PAGE_SIZE = pageStart USERLAND_STACK_TOP / PAGE_SIZE := by
      unfold pageStart USERLAND_STACK_TOP PAGE_SIZE at *
      omega
    rw [hpage, protectPages_mapped h.maps.wf hprotect, h.maps.mapped]
    exact hstack

end StackPage

/-! ## Principal result -/

section Principal

variable {pt : Pagetable} {t filename temp : ℕ} {user : UserMemory} {name : Str} {args : List Str} {a1 a2 a3 : UInt32}
  {c : StartCall} {w w' : World}

theorem stackBytes_eq (strs : List Str) :
    stackBytes strs = (strs.map fun str => str.length + 1).sum + 3 * strs.length := by
  induction strs with
  | nil => rfl
  | cons str strs ih =>
    rw [stackBytes_cons, ih, List.map_cons, List.sum_cons, List.length_cons]
    omega

/-- **`exec` passes arguments faithfully**: the new program gets the file name and the arguments, in order, on
its mapped stack page. -/
theorem exec_arguments (hw : pt.Wf t) (hname : UserString pt user a1.toNat name)
    (hopen : (vfsParsePathname name).isSome = true) (hargs : UserArguments pt user a3.toNat args)
    (hcount : a2.toNat = args.length) (hmax : args.length ≤ 31)
    (htotal : (args.map fun str => str.length + 1).sum ≤ CONFIG_SYSCALL_MAX_BUFFER_SIZE)
    (hbuffers : Buffers filename temp) (hpool : PoolWf w.pool) (hstart : processStart c w = some (.started w'))
    (entryPoint : ℕ) (kernel program : Memory) :
    ∃ call, handleExecp pt user a1 a2 a3 filename temp kernel = .ok call ∧
      ∃ ctx mem, passArguments entryPoint call.filename call.argv (newMemory program call.kernel) = some (ctx, mem) ∧
        Receives ctx mem (name :: args) ∧
        ∃ pt', w'.pagetable = some pt' ∧
          ∀ a, ctx.cpuRegs MIPS_REGISTER_SP ≤ a → a < USERLAND_STACK_TOP → Mapped pt' a := by
  have hshort := Vfs.vfsParsePathname_length hopen
  have hlen : name.length < CONFIG_SYSCALL_MAX_BUFFER_SIZE := lt_of_le_of_lt hshort (by decide)
  obtain ⟨call, hcall, hfilename, hat, hstrings⟩ :=
    @handleExecp_call pt t user kernel temp args a1 a2 a3 filename name hw hname hlen hargs hcount hmax htotal hbuffers
  have hkernel : ∀ a, 0x80000000 ≤ a → newMemory program call.kernel a = call.kernel a := fun a ha =>
    if_neg (not_lt.2 ha)
  have hroom : stackBytes args + name.length + 4 + 4 * (args.length + 1) + 8 ≤ 0xffc := by
    rw [stackBytes_eq]
    unfold CONFIG_SYSCALL_MAX_BUFFER_SIZE at htotal
    omega
  obtain ⟨ctx, mem, hpass, hreceives⟩ := @passArguments_receives _ entryPoint filename call.argv name args
    (hat.frame fun b hb _ => hkernel b (hbuffers.inKernel.1.trans hb)) hbuffers.inKernel.1 hlen (hstrings.frame hkernel)
    hroom
  obtain ⟨pt', hpt', hmapped⟩ := started_stackPage hpool hstart
  refine ⟨call, hcall, ctx, mem, ?_, hreceives, pt', hpt', fun a hlow hhigh => ?_⟩
  · rw [hfilename]
    exact hpass
  · exact hmapped a (hreceives.page.trans hlow) hhigh

end Principal

/-! ## Two arguments -/

section Example

/-- The name `[d]p`, the arguments `a` and `bc`, and an array of pointers to these. -/
def callingMemory : UserMemory :=
  storeBytes (storeBytes (storeBytes (storeBytes (fun _ => 0) 0x4000 [91, 100, 93, 112, 0]) 0x4010 [97, 0])
    0x4020 [98, 99, 0]) 0x4100 (be32 0x4010 ++ be32 0x4020)

theorem callingMemory_string {pt : Pagetable} (hmapped : ∀ a, 0x4000 ≤ a → a < 0x6000 → Mapped pt a) {vaddr : ℕ}
    {str : Str} (hbytes : ∀ j ≤ str.length, callingMemory (u32 (vaddr + j)) = (str ++ [0]).getD j 0) (hnonzero : 0 ∉ str)
    (hlow : 0x4000 ≤ vaddr) (hhigh : vaddr + str.length < 0x6000) : UserString pt callingMemory vaddr str := by
  refine ⟨hbytes, hnonzero, fun j hj => ?_⟩
  have hu : u32 (vaddr + j) = vaddr + j := by
    unfold u32
    omega
  rw [hu]
  exact ⟨hmapped _ (by omega) (by omega), by omega⟩

theorem callingMemory_arguments {pt : Pagetable} (hmapped : ∀ a, 0x4000 ≤ a → a < 0x6000 → Mapped pt a) :
    UserArguments pt callingMemory (0x4100 : UInt32).toNat [[97], [98, 99]] := by
  show UserArguments pt callingMemory 0x4100 [[97], [98, 99]]
  refine ⟨fun _ => by decide, fun k hk => ?_, fun i hi => ?_⟩
  · have hk : k < 8 := hk
    have hu : u32 (0x4100 + k) = 0x4100 + k := by
      unfold u32
      omega
    rw [hu]
    exact ⟨hmapped _ (by omega) (by omega), by omega⟩
  · have hi : i < 2 := hi
    have hfirst : wordAt callingMemory (u32 (0x4100 + 4 * 0)) = 0x4010 := by decide
    have hsecond : wordAt callingMemory (u32 (0x4100 + 4 * 1)) = 0x4020 := by decide
    have ha : UserString pt callingMemory 0x4010 [97] :=
      callingMemory_string hmapped (by decide) (by decide) (by decide) (by decide)
    have hb : UserString pt callingMemory 0x4020 [98, 99] :=
      callingMemory_string hmapped (by decide) (by decide) (by decide) (by decide)
    match i, hi with
    | 0, _ =>
      rw [hfirst]
      exact ha
    | 1, _ =>
      rw [hsecond]
      exact hb

/-- `exec` of `[d]p` with two arguments. -/
theorem exec_arguments_two : ∃ pt w', Transition.run PagetableMap.step PagetableMap.oldPage twoPages = some pt ∧
    processStart (smallCall 0x10001000) freshWorld = some (.started w') ∧
    ∃ call, handleExecp pt callingMemory 0x4000 2 0x4100 0x80010000 0x80010200 (fun _ => 0) = .ok call ∧
      ∃ ctx mem, passArguments 0x10001000 call.filename call.argv (newMemory (fun _ => 0) call.kernel) = some (ctx, mem) ∧
        Receives ctx mem [[91, 100, 93, 112], [97], [98, 99]] ∧
        ∃ pt', w'.pagetable = some pt' ∧
          ∀ a, ctx.cpuRegs MIPS_REGISTER_SP ≤ a → a < USERLAND_STACK_TOP → Mapped pt' a := by
  obtain ⟨pt, hr, hmapped⟩ := twoPages_run
  obtain ⟨w', hstart⟩ := smallCall_started
  have hw := PagetableMap.wf_of_run (rfl : PagetableMap.oldPage.validCount = 0) hr
  have hname : UserString pt callingMemory (0x4000 : UInt32).toNat [91, 100, 93, 112] :=
    callingMemory_string hmapped (by decide) (by decide) (by decide) (by decide)
  have hbuffers : Buffers 0x80010000 0x80010200 := ⟨Or.inl (by decide), by decide, by decide⟩
  exact ⟨pt, w', hr, hstart, exec_arguments hw hname (by decide) (callingMemory_arguments hmapped) (by decide) (by decide)
    (by decide) hbuffers smallPool_wf hstart 0x10001000 (fun _ => 0) (fun _ => 0)⟩

end Example

end Buenos.Proc.Arguments

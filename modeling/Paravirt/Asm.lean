import Paravirt.Lib.X86

/-!
# The assembly routines

The trap path (`kern/inc/kernel_asm.h`, `user/libsyscall/syscall_asm.h`), the context switch
(`kern/context_switch.S`) and the C code that forges a first kernel stack (`kern/vmm.c`).

* `syscallStub`           the user-side `DEFINE_SYSCALL_WRAPPER`;
* `sysWrapper`            the kernel-side one, with `scwProlog` and `scwEpilog`;
* `doContextSwitch`       `do_context_switch`;
* `vmmSetupKernelStack`   `vmm_setup_kernel_stack`;
* `CCode`                 C routines that obey cdecl; `CCode.env` adds what the two routines that
  save thread state do to the threads.
-/

namespace Paravirt

open X86

def segselUserCs : Word := 0xe02b
def segselUserDs : Word := 0xe033
def segselKernelCs : Word := 0xe019
def segselKernelDs : Word := 0xe021

/-- the registers a `thread_t` keeps -/
structure ThreadRegs where
  kernelEsp : Word
  kernelEsp0 : Word
  esp : Word
  eip : Word
  ebp : Word
  eflags : Word
deriving DecidableEq

/-- the scheduler's variables the assembly depends on; a thread is named by its address -/
structure Sched where
  currentThread : Word
  kernelBooting : Bool
  thread : Word → ThreadRegs

/-- the routines the assembly calls; `sys` is the handler `sys_##sc` of the wrapper -/
inductive CFun
  | setKernelSegments | setKernelSs | setUserSegments
  | lockKernel | unlockKernel
  | schedSaveThreadUserState | schedSaveThreadKernelState | schedSaveKernelEsp0
  | vmmSetUserPgdir
  | sys
deriving DecidableEq

/-! ## `syscall_asm.h` -/

inductive Label
  | syscall0arg | syscall1arg | doSyscall | syscallWrapperEnd
deriving DecidableEq

abbrev Code := List (Instr Label CFun)

/-- the part of the stub after the trap -/
def syscallStubEnd : Code :=
  [.label .syscallWrapperEnd,
   .popl .esi, .popl .edi, .popl .ebx, .popl .ebp, .ret]

def syscallStub (argNum intrNum : Word) : Code :=
  [.pushl .ebp, .movl .esp .ebp, .pushl .ebx, .pushl .esi, .pushl .edi,
   .movlImm argNum .edx,
   .movlImm 2 .ebx,
   .cmplImm 1 .edx, .jz .syscall1arg,
   .cmplImm 0 .edx, .jz .syscall0arg,
   .leal ⟨.ebp, some .ebx, 4⟩ .esi, .jmp .doSyscall,
   .label .syscall0arg,
   .xorl .esi .esi, .jmp .doSyscall,
   .label .syscall1arg,
   .movlMem ⟨.ebp, some .ebx, 4⟩ .esi,
   .label .doSyscall,
   .int intrNum] ++ syscallStubEnd

/-! ## `kernel_asm.h` -/

def scwProlog : Code :=
  [.pushl .ebp, .movl .esp .ebp,
   .call .setKernelSegments, .call .setKernelSs, .call .lockKernel]

def scwEpilog : Code :=
  [.pushl .eax, .call .schedSaveKernelEsp0, .call .unlockKernel, .call .setUserSegments,
   .popl .eax, .popl .ebp, .iret]

/-- the arguments of `sched_save_thread_user_state`, last first, and its call -/
def scwSave : Code :=
  [.movlImm 3 .eax, .movlMem ⟨.ebp, some .eax, 4⟩ .ecx, .pushl .ecx,
   .movlMem ⟨.ebp, none, 1⟩ .ecx, .pushl .ecx,
   .movlImm 4 .eax, .movlMem ⟨.ebp, some .eax, 4⟩ .ecx, .pushl .ecx,
   .movlImm 1 .eax, .movlMem ⟨.ebp, some .eax, 4⟩ .ecx, .pushl .ecx,
   .call .schedSaveThreadUserState,
   .popl .ecx, .popl .ecx, .popl .ecx, .popl .ecx]

def scwHandler : Code := [.pushl .esi, .call .sys, .popl .esi]

def sysWrapper : Code := scwProlog ++ scwSave ++ scwHandler ++ scwEpilog

/-- `exit_kernel`, where a new thread starts -/
def exitKernel : Code := scwEpilog

/-! ## `context_switch.S` -/

def csRestore : Code :=
  [.popl .esi, .popl .edi, .popl .edx, .popl .ecx, .popl .ebx, .popl .eax, .popl .ebp, .ret]

/-- the registers, then the stack pointer and the old thread for the save routine -/
def csPush : Code :=
  [.pushl .ebp, .movl .esp .ebp,
   .pushl .eax, .pushl .ebx, .pushl .ecx, .pushl .edx, .pushl .edi, .pushl .esi,
   .pushl .esp,
   .movlImm 2 .ebx, .movlMem ⟨.ebp, some .ebx, 4⟩ .ecx, .pushl .ecx]

/-- the save routine's arguments come off, the page directory goes on -/
def csPgdir : Code :=
  [.popl .ecx, .popl .esp,
   .movlImm 4 .ebx, .pushlMem ⟨.ebp, some .ebx, 4⟩]

/-- the new thread's stack pointer -/
def csStack : Code := [.popl .ebx, .movlImm 3 .ebx, .movlMem ⟨.ebp, some .ebx, 4⟩ .esp]

def doContextSwitch : Code :=
  csPush ++ .call .schedSaveThreadKernelState :: csPgdir ++ .call .vmmSetUserPgdir :: csStack ++
    csRestore

/-! ## `vmm_setup_kernel_stack` -/

/-- `n` times `*(--kstack) = 0` -/
def pushZeros : Nat → Word → Memory → Word × Memory
  | 0, kstack, mem => (kstack, mem)
  | n + 1, kstack, mem => pushZeros n (kstack - 4) (mem.write32 (kstack - 4) 0)

/-- `exitAddr` is the address of `exit_kernel` -/
def vmmSetupKernelStack (exitAddr : Word) (th : ThreadRegs) (mem : Memory) :
    ThreadRegs × Memory :=
  let kstack := th.kernelEsp0
  let mem := mem.write32 kstack segselUserDs
  let mem := mem.write32 (kstack - 4) th.esp
  let mem := mem.write32 (kstack - 8) th.eflags
  let mem := mem.write32 (kstack - 12) segselUserCs
  let mem := mem.write32 (kstack - 16) th.eip
  let mem := mem.write32 (kstack - 20) th.ebp
  let currentKebp := kstack - 20
  let mem := mem.write32 (kstack - 24) exitAddr
  let mem := mem.write32 (kstack - 28) currentKebp
  let r := pushZeros 6 (kstack - 28) mem
  ({ th with kernelEsp := r.1 }, r.2)

/-- the registers `vmm_thread_copy` hands to the child -/
def vmmThreadCopy (dst src : ThreadRegs) : ThreadRegs :=
  { dst with esp := src.esp, ebp := src.ebp, eip := src.eip, eflags := src.eflags }

/-! ## The C routines -/

/-- argument `i` of a call about to be made -/
def arg (m : Machine Sched) (i : Nat) : Word :=
  m.mem.read32 (m.reg .esp + BitVec.ofNat 32 (4 * i))

def schedSaveThreadUserState (eip esp ebp eflags : Word) (s : Sched) : Sched :=
  let th := { s.thread s.currentThread with eip := eip, esp := esp, ebp := ebp, eflags := eflags }
  { s with thread := Function.update s.thread s.currentThread th }

def schedSaveThreadKernelState (oldThread kernelEsp : Word) (s : Sched) : Sched :=
  if s.kernelBooting = false ∧ oldThread ≠ 0 then
    let th := { s.thread oldThread with kernelEsp := kernelEsp }
    { s with kernelBooting := false, thread := Function.update s.thread oldThread th }
  else { s with kernelBooting := false }

@[simp] theorem schedSaveThreadKernelState_currentThread (old esp : Word) (s : Sched) :
    (schedSaveThreadKernelState old esp s).currentThread = s.currentThread := by
  unfold schedSaveThreadKernelState
  split <;> rfl

@[simp] theorem schedSaveThreadKernelState_kernelBooting (old esp : Word) (s : Sched) :
    (schedSaveThreadKernelState old esp s).kernelBooting = false := by
  unfold schedSaveThreadKernelState
  split <;> rfl

theorem schedSaveThreadKernelState_self {old : Word} (esp : Word) {s : Sched} (h0 : old ≠ 0)
    (hs : s.kernelBooting = false) :
    ((schedSaveThreadKernelState old esp s).thread old).kernelEsp = esp := by
  unfold schedSaveThreadKernelState
  rw [if_pos ⟨hs, h0⟩]
  simp only [Function.update_self]

theorem schedSaveThreadKernelState_of_ne {old t : Word} (esp : Word) (s : Sched) (h : t ≠ old) :
    (schedSaveThreadKernelState old esp s).thread t = s.thread t := by
  unfold schedSaveThreadKernelState
  split
  · exact Function.update_of_ne h _ _
  · rfl

/-- The bytes of arguments a routine may overwrite, which cdecl leaves to the callee.
`sched_save_thread_kernel_state` assigns neither of its two. -/
def CFun.args : CFun → Nat
  | .schedSaveThreadUserState => 16
  | .vmmSetUserPgdir => 4
  | .sys => 4
  | _ => 0

/-- what a routine does to the scheduler's variables; `sys` may do anything, `after` -/
def cEffect (f : CFun) (m : Machine Sched) (after : Sched) : Sched :=
  match f with
  | .schedSaveThreadUserState =>
      schedSaveThreadUserState (arg m 0) (arg m 1) (arg m 2) (arg m 3) m.vars
  | .schedSaveThreadKernelState => schedSaveThreadKernelState (arg m 0) (arg m 1) m.vars
  | .sys => after
  | _ => m.vars

/-- C routines that obey cdecl.  `top esp` is where the stack `esp` points into ends, `keep esp`
the other memory a routine called on that stack has no business with. -/
structure CCode (top : Word → Word) (keep : Word → Word → Prop) where
  call : CFun → Machine Sched → Machine Sched
  cdecl : ∀ f m, Cdecl f.args (top (m.reg .esp)) (keep (m.reg .esp)) m (call f m)

variable {top : Word → Word} {keep : Word → Word → Prop}

def CCode.env (c : CCode top keep) (f : CFun) (m : Machine Sched) : Machine Sched :=
  { c.call f m with vars := cEffect f m (c.call f m).vars }

theorem CCode.env_cdecl (c : CCode top keep) (f : CFun) (m : Machine Sched) :
    Cdecl f.args (top (m.reg .esp)) (keep (m.reg .esp)) m (c.env f m) where
  ebx := (c.cdecl f m).ebx
  esi := (c.cdecl f m).esi
  edi := (c.cdecl f m).edi
  ebp := (c.cdecl f m).ebp
  esp := (c.cdecl f m).esp
  frame := (c.cdecl f m).frame
  kept := (c.cdecl f m).kept

@[simp] theorem CCode.env_vars (c : CCode top keep) (f : CFun) (m : Machine Sched) :
    (c.env f m).vars = cEffect f m (c.call f m).vars := rfl

/-- C routines that leave everything as it is -/
def idleCode (top : Word → Word) (keep : Word → Word → Prop) : CCode top keep where
  call _ m := m
  cdecl _ _ := ⟨rfl, rfl, rfl, rfl, rfl, fun _ _ _ => rfl, fun _ _ => rfl⟩

/-! ## Calls on a symbolic stack -/

/-- `d` words fit below `base` on its stack, and the bytes in `P` are neither among them nor
touched by a routine called from there -/
structure Guard (top : Word → Word) (keep : Word → Word → Prop) (base : Word) (d : Nat)
    (P : Word → Prop) : Prop where
  small : 4 * d < 2 ^ 32
  room : ∀ n ≤ d, 4 * n ≤
    (top (base - BitVec.ofNat 32 (4 * n)) - (base - BitVec.ofNat 32 (4 * n))).toNat
  out : ∀ a, P a → 4 * d ≤ (a - (base - BitVec.ofNat 32 (4 * d))).toNat
  safe : ∀ a, P a → ∀ n ≤ d, keep (base - BitVec.ofNat 32 (4 * n)) a ∨
    ∃ k : Word, a = base - BitVec.ofNat 32 (4 * n) + k ∧ 4 * n ≤ k.toNat ∧
      k.toNat < (top (base - BitVec.ofNat 32 (4 * n)) - (base - BitVec.ofNat 32 (4 * n))).toNat

variable {base : Word} {d : Nat} {P : Word → Prop} {ws as : List Word} {m : Machine Sched}

theorem Guard.room_of_stack (g : Guard top keep base d P) (s : Stack base ws m)
    (hd : ws.length ≤ d) : 4 * ws.length ≤ (top (m.reg .esp) - m.reg .esp).toNat := by
  rw [s.esp]
  exact g.room _ hd

theorem Guard.call0 (g : Guard top keep base d P) (c : CCode top keep) {f : CFun}
    (hf : f.args = 0) (s : Stack base ws m) (hd : ws.length ≤ d) : Stack base ws (c.env f m) := by
  have h := c.env_cdecl f m
  rw [hf] at h
  exact s.call0 h (g.room_of_stack s hd)

theorem Guard.call (g : Guard top keep base d P) (c : CCode top keep) {f : CFun}
    (hf : f.args = 4 * as.length) (s : Stack base (as ++ ws) m) (hd : as.length + ws.length ≤ d) :
    ∃ as', as'.length = as.length ∧ Stack base (as' ++ ws) (c.env f m) := by
  have h := c.env_cdecl f m
  rw [hf] at h
  have hr := g.room_of_stack s (by simpa using hd)
  rw [List.length_append] at hr
  exact s.call h hr

theorem Guard.call_mem (g : Guard top keep base d P) (c : CCode top keep) {f : CFun}
    (hf : f.args ≤ 4 * ws.length) (s : Stack base ws m) (hd : ws.length ≤ d) {a : Word}
    (ha : P a) : (c.env f m).mem a = m.mem a := by
  have h := c.env_cdecl f m
  rw [s.esp] at h
  rcases g.safe a ha ws.length hd with hk | ⟨k, rfl, h1, h2⟩
  · exact h.kept a hk
  · have := h.frame k (by omega) (by rw [s.esp]; exact h2)
    rwa [s.esp] at this

theorem Guard.push_mem (g : Guard top keep base d P) (s : Stack base ws m)
    (hd : ws.length < d) (v : Word) {a : Word} (ha : P a) : (m.push v).mem a = m.mem a := by
  refine Memory.write32_of_le _ _ _ _ ?_
  have h := g.out a ha
  have h2 := g.small
  rw [s.esp]
  have h3 : (BitVec.ofNat 32 (4 * d)).toNat = 4 * d := by rw [BitVec.toNat_ofNat]; omega
  have h4 : (BitVec.ofNat 32 (4 * ws.length)).toNat = 4 * ws.length := by
    rw [BitVec.toNat_ofNat]; omega
  generalize BitVec.ofNat 32 (4 * d) = x at *
  generalize BitVec.ofNat 32 (4 * ws.length) = y at *
  bv_omega

theorem Guard.pushList_mem (g : Guard top keep base d P) (s : Stack base ws m) {a : Word}
    (ha : P a) : ∀ vs : List Word, vs.length + ws.length ≤ d → (m.pushList vs).mem a = m.mem a
  | [], _ => rfl
  | v :: vs, h => by
    rw [List.length_cons] at h
    have s' : Stack base (vs ++ ws) (m.pushList vs) :=
      s.pushList vs (by have := g.small; omega)
    exact (g.push_mem s' (by rw [List.length_append]; omega) v ha).trans
      (Guard.pushList_mem g s ha vs (by omega))

end Paravirt

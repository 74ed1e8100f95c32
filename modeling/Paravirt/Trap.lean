import Paravirt.Asm

/-!
# Leaving the kernel

* `scwEpilog_run`    from a kernel stack that ends in a saved `%ebp` and an interrupt frame, the
  epilogue goes to the frame's user context;
* `ForgedStack`      what `vmm_setup_kernel_stack` leaves on a new thread's stack;
* `csRestore_forged` the first switch to such a thread ends in `exit_kernel`.
-/

namespace Paravirt

open X86

variable {top : Word → Word} {keep : Word → Word → Prop} {base : Word} {d : Nat}
  {P : Word → Prop} {m : Machine Sched}

/-- where `iret` takes the processor, with the registers the epilogue does not pop -/
structure UserContext (ebp cs eflags esp ss : Word) (m m' : Machine Sched) : Prop where
  ebp : m'.reg .ebp = ebp
  cs : m'.cs = cs
  eflags : m'.eflags = eflags
  esp : m'.reg .esp = esp
  ss : m'.ss = ss
  eax : m'.reg .eax = m.reg .eax
  ebx : m'.reg .ebx = m.reg .ebx
  esi : m'.reg .esi = m.reg .esi
  edi : m'.reg .edi = m.reg .edi

theorem scwEpilog_run (c : CCode top keep) (g : Guard top keep base d P)
    {ebp eip cs eflags esp ss : Word} {ws : List Word}
    (s : Stack base (ebp :: eip :: cs :: eflags :: esp :: ss :: ws) m)
    (hd : ws.length + 7 ≤ d) :
    ∃ m', exec c.env none scwEpilog m = some (.iret eip, m') ∧
      UserContext ebp cs eflags esp ss m m' ∧ ∀ a, P a → m'.mem a = m.mem a := by
  have hsmall := g.small
  -- `pushl %eax` and the three calls
  have s1 := s.push (by simp; omega) (m.reg .eax)
  have hd1 : (m.reg .eax :: ebp :: eip :: cs :: eflags :: esp :: ss :: ws).length ≤ d := by
    simp only [List.length_cons]; omega
  have mem1 : ∀ a, P a → (m.push (m.reg .eax)).mem a = m.mem a :=
    fun a ha => g.push_mem s (by simp only [List.length_cons]; omega) _ ha
  generalize h1 : m.push (m.reg .eax) = m1 at *
  have c1 := c.env_cdecl .schedSaveKernelEsp0 m1
  have s2 := g.call0 c (f := .schedSaveKernelEsp0) rfl s1 hd1
  have mem2 : ∀ a, P a → (c.env .schedSaveKernelEsp0 m1).mem a = m1.mem a :=
    fun a ha => g.call_mem c (Nat.zero_le _) s1 hd1 ha
  generalize h2 : c.env .schedSaveKernelEsp0 m1 = m2 at *
  have c2 := c.env_cdecl .unlockKernel m2
  have s3 := g.call0 c (f := .unlockKernel) rfl s2 hd1
  have mem3 : ∀ a, P a → (c.env .unlockKernel m2).mem a = m2.mem a :=
    fun a ha => g.call_mem c (Nat.zero_le _) s2 hd1 ha
  generalize h3 : c.env .unlockKernel m2 = m3 at *
  have c3 := c.env_cdecl .setUserSegments m3
  have s4 := g.call0 c (f := .setUserSegments) rfl s3 hd1
  have mem4 : ∀ a, P a → (c.env .setUserSegments m3).mem a = m3.mem a :=
    fun a ha => g.call_mem c (Nat.zero_le _) s3 hd1 ha
  generalize h4 : c.env .setUserSegments m3 = m4 at *
  -- the pops
  have s5 := s4.pop (r := .eax) (by decide)
  have s6 := s5.pop (r := .ebp) (by decide)
  refine ⟨((m4.pop .eax).pop .ebp).iret, ?_, ?_, ?_⟩
  · simp only [scwEpilog, exec, h1, h2, h3, h4]
    rw [s6.top_eq]
  · have hreg : ∀ r, r ≠ .esp → r ≠ .eax → r ≠ .ebp →
        ((m4.pop .eax).pop .ebp).iret.reg r = m4.reg r := by
      intro r h h' h''
      rw [Machine.iret_reg_of_ne _ h, Machine.pop_reg_of_ne _ h'' h, Machine.pop_reg_of_ne _ h' h]
    have heax : ((m4.pop .eax).pop .ebp).iret.reg .eax = m.reg .eax := by
      rw [Machine.iret_reg_of_ne _ (by decide), Machine.pop_reg_of_ne _ (by decide) (by decide),
        Machine.pop_reg_self, s4.top_eq]
    have hebp : ((m4.pop .eax).pop .ebp).iret.reg .ebp = ebp := by
      rw [Machine.iret_reg_of_ne _ (by decide), Machine.pop_reg_self, s5.top_eq]
    have hesp : ((m4.pop .eax).pop .ebp).iret.reg .esp = esp := by
      rw [Machine.iret_reg_esp, s6.drop.drop.drop.top_eq]
    have hm1 : ∀ r, r ≠ .esp → m1.reg r = m.reg r := by
      intro r h
      rw [← h1, Machine.push_reg_of_ne _ _ h]
    refine ⟨hebp, s6.drop.top_eq, s6.drop.drop.top_eq, hesp, s6.drop.drop.drop.drop.top_eq,
      heax, ?_, ?_, ?_⟩
    · rw [hreg _ (by decide) (by decide) (by decide), c3.ebx, c2.ebx, c1.ebx, hm1 _ (by decide)]
    · rw [hreg _ (by decide) (by decide) (by decide), c3.esi, c2.esi, c1.esi, hm1 _ (by decide)]
    · rw [hreg _ (by decide) (by decide) (by decide), c3.edi, c2.edi, c1.edi, hm1 _ (by decide)]
  · intro a ha
    show m4.mem a = m.mem a
    rw [mem4 a ha, mem3 a ha, mem2 a ha, mem1 a ha]

/-! ## The first switch to a thread -/

/-- a switched-away thread's frame, from `%esi` at the bottom to the return address -/
def csFrame (esi edi edx ecx ebx eax ebp eip : Word) : List Word :=
  [esi, edi, edx, ecx, ebx, eax, ebp, eip]

/-- the six zeros and the two words `vmm_setup_kernel_stack` puts below the interrupt frame -/
def forgedFrame (exitAddr : Word) (th : ThreadRegs) : List Word :=
  csFrame 0 0 0 0 0 0 (th.kernelEsp0 - 20) exitAddr ++
    [th.ebp, th.eip, segselUserCs, th.eflags, th.esp, segselUserDs]

/-- what the pops of `csRestore` leave -/
structure Restored (esi edi ebx ebp : Word) (m m' : Machine Sched) : Prop where
  esi : m'.reg .esi = esi
  edi : m'.reg .edi = edi
  ebx : m'.reg .ebx = ebx
  ebp : m'.reg .ebp = ebp
  esp : m'.reg .esp = m.reg .esp + 32
  mem : m'.mem = m.mem
  vars : m'.vars = m.vars

theorem csRestore_run (env : CFun → Machine Sched → Machine Sched)
    {esi edi edx ecx ebx eax ebp eip : Word} {ws : List Word}
    (s : Stack base (csFrame esi edi edx ecx ebx eax ebp eip ++ ws) m) :
    ∃ m', exec env none csRestore m = some (.ret eip, m') ∧ Restored esi edi ebx ebp m m' ∧
      Stack base ws m' ∧ m'.reg .eax = eax := by
  have s1 := Stack.pop (r := .esi) s (by decide)
  have s2 := s1.pop (r := .edi) (by decide)
  have s3 := s2.pop (r := .edx) (by decide)
  have s4 := s3.pop (r := .ecx) (by decide)
  have s5 := s4.pop (r := .ebx) (by decide)
  have s6 := s5.pop (r := .eax) (by decide)
  have s7 := s6.pop (r := .ebp) (by decide)
  generalize h1 : m.pop .esi = m1 at *
  generalize h2 : m1.pop .edi = m2 at *
  generalize h3 : m2.pop .edx = m3 at *
  generalize h4 : m3.pop .ecx = m4 at *
  generalize h5 : m4.pop .ebx = m5 at *
  generalize h6 : m5.pop .eax = m6 at *
  generalize h7 : m6.pop .ebp = m7 at *
  refine ⟨m7.drop, ?_, ⟨?_, ?_, ?_, ?_, ?_, ?_, ?_⟩, s7.drop, ?_⟩
  · simp only [csRestore, exec, h1, h2, h3, h4, h5, h6, h7]
    rw [s7.top_eq]
  · rw [Machine.drop_reg_of_ne _ (by decide), ← h7, Machine.pop_reg_of_ne _ (by decide) (by decide),
      ← h6, Machine.pop_reg_of_ne _ (by decide) (by decide),
      ← h5, Machine.pop_reg_of_ne _ (by decide) (by decide),
      ← h4, Machine.pop_reg_of_ne _ (by decide) (by decide),
      ← h3, Machine.pop_reg_of_ne _ (by decide) (by decide),
      ← h2, Machine.pop_reg_of_ne _ (by decide) (by decide), ← h1, Machine.pop_reg_self]
    exact Stack.top_eq s
  · rw [Machine.drop_reg_of_ne _ (by decide), ← h7, Machine.pop_reg_of_ne _ (by decide) (by decide),
      ← h6, Machine.pop_reg_of_ne _ (by decide) (by decide),
      ← h5, Machine.pop_reg_of_ne _ (by decide) (by decide),
      ← h4, Machine.pop_reg_of_ne _ (by decide) (by decide),
      ← h3, Machine.pop_reg_of_ne _ (by decide) (by decide), ← h2, Machine.pop_reg_self]
    exact s1.top_eq
  · rw [Machine.drop_reg_of_ne _ (by decide), ← h7, Machine.pop_reg_of_ne _ (by decide) (by decide),
      ← h6, Machine.pop_reg_of_ne _ (by decide) (by decide), ← h5, Machine.pop_reg_self]
    exact s4.top_eq
  · rw [Machine.drop_reg_of_ne _ (by decide), ← h7, Machine.pop_reg_self]
    exact s6.top_eq
  · rw [s7.drop.esp, s.esp]
    have e : (csFrame esi edi edx ecx ebx eax ebp eip ++ ws).length = ws.length + 8 := by
      simp only [csFrame, List.length_append, List.length_cons, List.length_nil]
      omega
    show base - BitVec.ofNat 32 (4 * ws.length) = _
    rw [e]
    bv_omega
  · rw [Machine.drop_mem, ← h7, Machine.pop_mem, ← h6, Machine.pop_mem, ← h5, Machine.pop_mem,
      ← h4, Machine.pop_mem, ← h3, Machine.pop_mem, ← h2, Machine.pop_mem, ← h1, Machine.pop_mem]
  · rw [Machine.drop_vars, ← h7, Machine.pop_vars, ← h6, Machine.pop_vars, ← h5, Machine.pop_vars,
      ← h4, Machine.pop_vars, ← h3, Machine.pop_vars, ← h2, Machine.pop_vars, ← h1, Machine.pop_vars]
  · rw [Machine.drop_reg_of_ne _ (by decide), ← h7, Machine.pop_reg_of_ne _ (by decide) (by decide),
      ← h6, Machine.pop_reg_self]
    exact s5.top_eq

/-- popping leaves the memory and the C variables alone, whatever is on the stack -/
theorem csRestore_frame {env : CFun → Machine Sched → Machine Sched} {x : Exit Label CFun}
    {m' : Machine Sched} (h : exec env none csRestore m = some (x, m')) :
    m'.mem = m.mem ∧ m'.vars = m.vars := by
  simp only [csRestore, exec, Option.some.injEq, Prod.mk.injEq] at h
  rw [← h.2]
  exact ⟨rfl, rfl⟩

theorem vmmSetupKernelStack_kernelEsp (exitAddr : Word) (th : ThreadRegs) (mem : Memory) :
    (vmmSetupKernelStack exitAddr th mem).1.kernelEsp = th.kernelEsp0 - 52 := by
  simp only [vmmSetupKernelStack, pushZeros]
  bv_omega

/-- it writes the 56 bytes that end at `kernel_esp0 + 4` -/
theorem vmmSetupKernelStack_mem (exitAddr : Word) (th : ThreadRegs) (mem : Memory) {a : Word}
    (h0 : 52 ≤ th.kernelEsp0.toNat) (h1 : th.kernelEsp0.toNat + 4 < 2 ^ 32)
    (h : a.toNat < th.kernelEsp0.toNat - 52 ∨ th.kernelEsp0.toNat + 4 ≤ a.toNat) :
    (vmmSetupKernelStack exitAddr th mem).2 a = mem a := by
  have hw : ∀ (x : Memory) (i v : Word), i.toNat ≤ 52 →
      x.write32 (th.kernelEsp0 - i) v a = x a := by
    intro x i v hi
    exact x.write32_of_le _ _ _ (by bv_omega)
  have hw0 : ∀ (x : Memory) (v : Word), x.write32 th.kernelEsp0 v a = x a := by
    intro x v
    exact x.write32_of_le _ _ _ (by bv_omega)
  have hsub : ∀ x a b : Word, x - a - b = x - (a + b) := by
    intro x a b
    bv_omega
  simp only [vmmSetupKernelStack, pushZeros, hsub, BitVec.reduceAdd]
  rw [hw _ _ _ (by decide), hw _ _ _ (by decide), hw _ _ _ (by decide), hw _ _ _ (by decide),
    hw _ _ _ (by decide), hw _ _ _ (by decide), hw _ _ _ (by decide), hw _ _ _ (by decide),
    hw _ _ _ (by decide), hw _ _ _ (by decide), hw _ _ _ (by decide), hw _ _ _ (by decide),
    hw _ _ _ (by decide), hw0]

/-- the writes through `kstack` are pushes on an empty stack -/
theorem vmmSetupKernelStack_stack (exitAddr : Word) (th : ThreadRegs) (mem : Memory)
    (hesp : m.reg .esp = th.kernelEsp0 - 52)
    (hmem : ∀ k : Word, k.toNat < 56 → m.mem (th.kernelEsp0 - 52 + k) =
      (vmmSetupKernelStack exitAddr th mem).2 (th.kernelEsp0 - 52 + k)) :
    Stack (th.kernelEsp0 + 4) (forgedFrame exitAddr th) m := by
  let m0 : Machine Sched := { m.setReg .esp (th.kernelEsp0 + 4) with mem := mem }
  have hesp0 : m0.reg .esp = th.kernelEsp0 + 4 := by
    show (m.setReg .esp (th.kernelEsp0 + 4)).reg .esp = _
    rw [Machine.setReg_reg_self]
  have s0 : Stack (th.kernelEsp0 + 4) [] m0 := by
    rw [← hesp0]
    exact Stack.nil m0
  have s := s0.pushList (forgedFrame exitAddr th) (by simp [forgedFrame, csFrame])
  have hsub : ∀ x a b : Word, x - a - b = x - (a + b) := by
    intro x a b
    bv_omega
  have hadd : th.kernelEsp0 + 4 - 4 = th.kernelEsp0 := by bv_omega
  have e1 : (m0.pushList (forgedFrame exitAddr th)).reg .esp = th.kernelEsp0 - 52 := by
    simp only [forgedFrame, csFrame, List.cons_append, List.nil_append, Machine.pushList,
      Machine.push_reg_esp, hesp0, hadd]
    bv_omega
  have e2 : (m0.pushList (forgedFrame exitAddr th)).mem =
      (vmmSetupKernelStack exitAddr th mem).2 := by
    simp only [forgedFrame, csFrame, List.cons_append, List.nil_append, Machine.pushList,
      hesp0, hadd, Machine.push, Function.update_self, vmmSetupKernelStack,
      pushZeros, hsub, BitVec.reduceAdd]
    rfl
  rw [List.append_nil] at s
  refine s.congr_frame (by simp [forgedFrame, csFrame]) (by rw [hesp, e1]) ?_
  intro k hk
  rw [e1, e2]
  exact hmem k (by simpa [forgedFrame, csFrame] using hk)

end Paravirt

import Paravirt.Trap
import Paravirt.Mm

/-!
# A system call through its user-side stub

* `syscallStub_run`      the stub up to its trap, whatever the number of arguments;
* `KernelReturns`        the two ways back: the wrapper's epilogue, and a forked child's stack;
* `KernelReturns.spec`   both hand the stub its frame back;
* `syscallStubEnd_run`   the pops;
* `stub_preserves_iff`.
-/

namespace Paravirt

open X86

variable {m m' : Machine Sched}

/-! ## The stub -/

/-- the words the stub keeps, lowest first, and its return address -/
def stubFrame (m : Machine Sched) (ra : Word) : List Word :=
  [m.reg .edi, m.reg .esi, m.reg .ebx, m.reg .ebp, ra]

theorem Stack.setZf {base : Word} {ws : List Word} (s : Stack base ws m) (b : Bool) :
    Stack base ws (m.setZf b) := s.congr rfl rfl

/-- `m` is the caller's state before its `call` -/
theorem syscallStub_run (env : CFun → Machine Sched → Machine Sched) (argNum intrNum ra : Word)
    (m : Machine Sched) :
    ∃ m1, exec env none (syscallStub argNum intrNum) (m.push ra) =
        some (.int intrNum syscallStubEnd, m1) ∧
      Stack (m.reg .esp) (stubFrame m ra) m1 := by
  have s0 := (Stack.nil m).push (by decide) ra
  obtain ⟨m1, h1⟩ : ∃ m1, m1 = ((m.push ra).push (m.reg .ebp)).setReg .ebp (m.reg .esp - 8) :=
    ⟨_, rfl⟩
  have s1 : Stack (m.reg .esp) [m.reg .ebp, ra] m1 := by
    rw [h1]
    exact (s0.push (by simp) _).setReg (by decide) _
  have reg1 : ∀ r, r ≠ .esp → r ≠ .ebp → m1.reg r = m.reg r := by
    intro r h h'
    rw [h1, Machine.setReg_reg_of_ne _ _ h', Machine.push_reg_of_ne _ _ h,
      Machine.push_reg_of_ne _ _ h]
  obtain ⟨m2, h2⟩ : ∃ m2, m2 = ((m1.pushList [m1.reg .edi, m1.reg .esi, m1.reg .ebx]).setReg .edx
      argNum).setReg .ebx 2 := ⟨_, rfl⟩
  have s2 : Stack (m.reg .esp) (stubFrame m ra) m2 := by
    rw [h2, reg1 .edi (by decide) (by decide), reg1 .esi (by decide) (by decide),
      reg1 .ebx (by decide) (by decide)]
    exact ((s1.pushList [m.reg .edi, m.reg .esi, m.reg .ebx] (by simp)).setReg (by decide) _).setReg
      (by decide) _
  have hedx : m2.reg .edx = argNum := by
    rw [h2, Machine.setReg_reg_of_ne _ _ (by decide), Machine.setReg_reg_self]
  have hpush : ∀ (c : Machine Sched) (v : Word) (r : Reg), r ≠ .esp → (c.push v).reg r = c.reg r :=
    fun c v r h => c.push_reg_of_ne v h
  have e1 : exec env none (syscallStub argNum intrNum) (m.push ra) =
      exec env none ((syscallStub argNum intrNum).drop 7) m2 := by
    have he : m.reg .esp - 8 = ((m.push ra).push (m.reg .ebp)).reg .esp := by
      simp only [Machine.push_reg_esp]
      bv_omega
    have hb : m.reg .ebp = (m.push ra).reg .ebp := (hpush m ra .ebp (by decide)).symm
    rw [h2, h1, he, hb]
    simp only [syscallStub, List.cons_append, List.drop, exec, Machine.pushList, hpush, ne_eq,
      reduceCtorEq, not_false_eq_true]
  rw [e1]
  simp only [syscallStub, List.cons_append, List.drop, exec, Machine.setZf_zf,
    Machine.setZf_reg, hedx, beq_iff_eq, reduceCtorEq, if_false, if_true, List.nil_append]
  by_cases h1' : argNum = 1
  · rw [if_pos h1']
    exact ⟨_, rfl, (Stack.setZf s2 _).setReg (by decide) _⟩
  · rw [if_neg h1']
    by_cases h0' : argNum = 0
    · rw [if_pos h0']
      exact ⟨_, rfl, Stack.setZf ((Stack.setZf (Stack.setZf s2 _) _).setReg (by decide) _) _⟩
    · rw [if_neg h0']
      exact ⟨_, rfl, (Stack.setZf (Stack.setZf s2 _) _).setReg (by decide) _⟩

/-- `popl %esi` meets the saved `%edi`, and `popl %edi` the saved `%esi` -/
theorem syscallStubEnd_run (env : CFun → Machine Sched → Machine Sched) {base ra : Word}
    {edi esi ebx ebp : Word} (s : Stack base [edi, esi, ebx, ebp, ra] m) :
    ∃ m1, exec env none syscallStubEnd m = some (.ret ra, m1) ∧ m1.reg .ebx = ebx ∧
      m1.reg .esi = edi ∧ m1.reg .edi = esi ∧ m1.reg .ebp = ebp ∧ m1.reg .esp = base := by
  have s1 := s.pop (r := .esi) (by decide)
  have s2 := s1.pop (r := .edi) (by decide)
  have s3 := s2.pop (r := .ebx) (by decide)
  have s4 := s3.pop (r := .ebp) (by decide)
  generalize h1 : m.pop .esi = m1 at *
  generalize h2 : m1.pop .edi = m2 at *
  generalize h3 : m2.pop .ebx = m3 at *
  generalize h4 : m3.pop .ebp = m4 at *
  refine ⟨m4.drop, ?_, ?_, ?_, ?_, ?_, ?_⟩
  · simp only [syscallStubEnd, exec, h1, h2, h3, h4]
    rw [s4.top_eq]
  · rw [Machine.drop_reg_of_ne _ (by decide), ← h4, Machine.pop_reg_of_ne _ (by decide) (by decide),
      ← h3, Machine.pop_reg_self, s2.top_eq]
  · rw [Machine.drop_reg_of_ne _ (by decide), ← h4, Machine.pop_reg_of_ne _ (by decide) (by decide),
      ← h3, Machine.pop_reg_of_ne _ (by decide) (by decide),
      ← h2, Machine.pop_reg_of_ne _ (by decide) (by decide), ← h1, Machine.pop_reg_self, s.top_eq]
  · rw [Machine.drop_reg_of_ne _ (by decide), ← h4, Machine.pop_reg_of_ne _ (by decide) (by decide),
      ← h3, Machine.pop_reg_of_ne _ (by decide) (by decide), ← h2, Machine.pop_reg_self, s1.top_eq]
  · rw [Machine.drop_reg_of_ne _ (by decide), ← h4, Machine.pop_reg_self, s3.top_eq]
  · have h := s4.drop.esp
    simpa using h

/-! ## The kernel -/

/-- the words the wrapper finds on the kernel stack -/
def trapFrame (next : Word) (m : Machine Sched) : List Word :=
  [next, m.cs, m.eflags, m.reg .esp, m.ss]

theorem trap_stack (m : Machine Sched) (esp0 next kcs kss : Word) :
    Stack esp0 (trapFrame next m) (m.trap esp0 next kcs kss) := by
  have h0 : ({ m with reg := Function.update m.reg .esp esp0, cs := kcs, ss := kss } :
      Machine Sched).reg .esp = esp0 := by simp
  have s0 := Stack.nil ({ m with reg := Function.update m.reg .esp esp0, cs := kcs, ss := kss } :
      Machine Sched)
  rw [h0] at s0
  exact ((((s0.push (by decide) m.ss).push (by simp) (m.reg .esp)).push (by simp) m.eflags).push
    (by simp) m.cs).push (by simp) next

/-- the trap writes below `esp0` only -/
theorem trap_mem {top : Word → Word} {keep : Word → Word → Prop} {d : Nat} {P : Word → Prop}
    {esp0 next kcs kss a : Word} (m : Machine Sched) (g : Guard top keep esp0 d P) (hd : 5 ≤ d)
    (ha : P a) : (m.trap esp0 next kcs kss).mem a = m.mem a := by
  have h0 : ({ m with reg := Function.update m.reg .esp esp0, cs := kcs, ss := kss } :
      Machine Sched).reg .esp = esp0 := by simp
  have s0 := Stack.nil ({ m with reg := Function.update m.reg .esp esp0, cs := kcs, ss := kss } :
      Machine Sched)
  rw [h0] at s0
  exact g.pushList_mem s0 ha (trapFrame next m) (by simpa [trapFrame] using hd)

section
variable {top : Word → Word} {keep : Word → Word → Prop} {base : Word} {d : Nat}
  {P : Word → Prop} {ws : List Word} {x x' : Sched}

/-- inside the wrapper: the symbolic stack, the frame pointer at the saved `%ebp`, and what has
not changed since `m` -/
structure Wrapped (base : Word) (P : Word → Prop) (m : Machine Sched) (x : Sched)
    (ws : List Word) (m' : Machine Sched) : Prop where
  stack : Stack base ws m'
  ebp : m'.reg .ebp = base - 24
  mem : ∀ a, P a → m'.mem a = m.mem a
  vars : m'.vars = x

theorem Wrapped.call0 (c : CCode top keep) (g : Guard top keep base d P) {f : CFun}
    (hf : f.args = 0) (hx : ∀ y, cEffect f m' y = m'.vars) (w : Wrapped base P m x ws m')
    (hd : ws.length ≤ d) : Wrapped base P m x ws (c.env f m') where
  stack := g.call0 c hf w.stack hd
  ebp := by rw [(c.env_cdecl f m').ebp, w.ebp]
  mem a ha := by rw [g.call_mem c (by omega) w.stack hd ha, w.mem a ha]
  vars := by rw [CCode.env_vars, hx, w.vars]

theorem Wrapped.setReg {r : Reg} (hr : r ≠ .esp) (hr' : r ≠ .ebp) (v : Word)
    (w : Wrapped base P m x ws m') : Wrapped base P m x ws (m'.setReg r v) where
  stack := w.stack.setReg hr v
  ebp := by rw [Machine.setReg_reg_of_ne _ _ hr'.symm, w.ebp]
  mem := w.mem
  vars := w.vars

theorem Wrapped.push (g : Guard top keep base d P) (v : Word) (w : Wrapped base P m x ws m')
    (hd : ws.length < d) : Wrapped base P m x (v :: ws) (m'.push v) where
  stack := w.stack.push (by have := g.small; omega) v
  ebp := by rw [Machine.push_reg_of_ne _ _ (by decide), w.ebp]
  mem a ha := by rw [g.push_mem w.stack hd v ha, w.mem a ha]
  vars := w.vars

theorem Wrapped.pop {r : Reg} (hr : r ≠ .esp) (hr' : r ≠ .ebp) {v : Word}
    (w : Wrapped base P m x (v :: ws) m') : Wrapped base P m x ws (m'.pop r) where
  stack := w.stack.pop hr
  ebp := by rw [Machine.pop_reg_of_ne _ hr'.symm (by decide), w.ebp]
  mem := w.mem
  vars := w.vars

/-- a word of the frame is loaded and pushed -/
theorem Wrapped.pushSlot (env : CFun → Machine Sched → Machine Sched)
    (g : Guard top keep base d P) {a : Addr} {n : Nat} {v : Word}
    (w : Wrapped base P m x ws m') (hd : ws.length < d)
    (ha : m'.ea a = base - BitVec.ofNat 32 (4 * n)) (h0 : 0 < n) (hn : n ≤ ws.length)
    (hv : ws.get ⟨ws.length - n, by omega⟩ = v) :
    Wrapped base P m x (v :: ws)
      (straight env ([.movlMem a .ecx, .pushl .ecx] : Code) m') := by
  have e : straight env ([.movlMem a .ecx, .pushl .ecx] : Code) m' =
      (m'.setReg .ecx v).push v := by
    rw [← hv, ← w.stack.read h0 hn, ← ha]
    show Machine.push _ (Machine.reg (m'.setReg .ecx _) .ecx) = _
    rw [Machine.setReg_reg_self]
    rfl
  rw [e]
  exact (w.setReg (by decide) (by decide) v).push g v hd

/-- what the wrapper does before it calls the handler -/
def scwEnter : Code := scwProlog ++ scwSave ++ [.pushl .esi]

theorem scwEnter_run (c : CCode top keep) (g : Guard top keep base d P) (hd : 11 ≤ d)
    {eip cs eflags esp ss : Word} (s : Stack base [eip, cs, eflags, esp, ss] m) :
    ∃ v, Wrapped base P m (schedSaveThreadUserState eip esp (m.reg .ebp) eflags m.vars)
      [v, m.reg .ebp, eip, cs, eflags, esp, ss] (straight c.env scwEnter m) := by
  generalize hebp : m.reg .ebp = ebp
  -- `scwProlog`
  obtain ⟨m1, h1⟩ : ∃ m1, m1 = (m.push ebp).setReg .ebp (base - 24) := ⟨_, rfl⟩
  have s1 := s.push (by simp) ebp
  have w1 : Wrapped base P m m.vars [ebp, eip, cs, eflags, esp, ss] m1 := by
    rw [h1]
    refine ⟨s1.setReg (by decide) _, Machine.setReg_reg_self _ _ _, fun a ha => ?_, rfl⟩
    exact g.push_mem s (by simp; omega) _ ha
  have w2 := w1.call0 c g (f := .setKernelSegments) rfl (fun _ => rfl) (by simp; omega)
  have w3 := w2.call0 c g (f := .setKernelSs) rfl (fun _ => rfl) (by simp; omega)
  have w4 := w3.call0 c g (f := .lockKernel) rfl (fun _ => rfl) (by simp; omega)
  have e4 : straight c.env scwProlog m =
      c.env .lockKernel (c.env .setKernelSs (c.env .setKernelSegments m1)) := by
    have he : (m.push ebp).reg .esp = base - 24 := s1.esp
    rw [h1, ← he, ← hebp]
    rfl
  rw [← e4] at w4
  obtain ⟨m4, h4⟩ : ∃ m4, m4 = straight c.env scwProlog m := ⟨_, rfl⟩
  rw [← h4] at w4
  -- the four arguments
  have slot : ∀ {ws : List Word} {m' : Machine Sched} (i : Word),
      Wrapped base P m m.vars ws m' →
      (m'.setReg .eax i).ea ⟨.ebp, some .eax, 4⟩ = base - 24 + i * 4 := by
    intro ws m' i w
    show (m'.setReg .eax i).reg .ebp + (m'.setReg .eax i).reg .eax * 4 = _
    rw [Machine.setReg_reg_self, Machine.setReg_reg_of_ne _ _ (by decide), w.ebp]
  have w5 := (w4.setReg (r := .eax) (by decide) (by decide) 3).pushSlot c.env g (n := 3) (v := eflags)
    (by simp; omega) ((slot 3 w4).trans (by bv_omega)) (by decide) (by simp) rfl
  generalize h5 : straight c.env ([.movlMem ⟨.ebp, some .eax, 4⟩ .ecx, .pushl .ecx] : Code)
    (m4.setReg .eax 3) = m5 at w5
  have w6 := w5.pushSlot c.env g (a := ⟨.ebp, none, 1⟩) (n := 6) (v := ebp) (by simp; omega)
    (by show m5.reg .ebp = _; rw [w5.ebp]; rfl) (by decide) (by simp) rfl
  generalize h6 : straight c.env ([.movlMem ⟨.ebp, none, 1⟩ .ecx, .pushl .ecx] : Code) m5 = m6 at w6
  have w7 := (w6.setReg (r := .eax) (by decide) (by decide) 4).pushSlot c.env g (n := 2) (v := esp)
    (by simp; omega) ((slot 4 w6).trans (by bv_omega)) (by decide) (by simp) rfl
  generalize h7 : straight c.env ([.movlMem ⟨.ebp, some .eax, 4⟩ .ecx, .pushl .ecx] : Code)
    (m6.setReg .eax 4) = m7 at w7
  have w8 := (w7.setReg (r := .eax) (by decide) (by decide) 1).pushSlot c.env g (n := 5) (v := eip)
    (by simp; omega) ((slot 1 w7).trans (by bv_omega)) (by decide) (by simp) rfl
  generalize h8 : straight c.env ([.movlMem ⟨.ebp, some .eax, 4⟩ .ecx, .pushl .ecx] : Code)
    (m7.setReg .eax 1) = m8 at w8
  -- the save, and the pops
  have s8 : Stack base ([eip, esp, ebp, eflags] ++ [ebp, eip, cs, eflags, esp, ss]) m8 := w8.stack
  obtain ⟨as', hlen, s9⟩ := g.call c (f := .schedSaveThreadUserState) rfl s8 (by simp; omega)
  obtain ⟨a1, a2, a3, a4, rfl⟩ : ∃ a1 a2 a3 a4, as' = [a1, a2, a3, a4] := by
    rcases as' with _ | ⟨a1, _ | ⟨a2, _ | ⟨a3, _ | ⟨a4, _ | ⟨a5, as'⟩⟩⟩⟩⟩
    all_goals simp at hlen
    exact ⟨a1, a2, a3, a4, rfl⟩
  obtain ⟨m9, h9⟩ : ∃ m9, m9 = c.env .schedSaveThreadUserState m8 := ⟨_, rfl⟩
  have w9 : Wrapped base P m (schedSaveThreadUserState eip esp ebp eflags m.vars)
      ([a1, a2, a3, a4] ++ [ebp, eip, cs, eflags, esp, ss]) m9 := by
    rw [h9]
    refine ⟨s9, ?_, fun a ha => ?_, ?_⟩
    · rw [(c.env_cdecl _ m8).ebp, w8.ebp]
    · rw [g.call_mem c (by simp [CFun.args]) s8 (by simp; omega) ha, w8.mem a ha]
    · have g0 : arg m8 0 = eip := s8.word 0 (by simp)
      have g1 : arg m8 1 = esp := s8.word 1 (by simp)
      have g2 : arg m8 2 = ebp := s8.word 2 (by simp)
      have g3 : arg m8 3 = eflags := s8.word 3 (by simp)
      rw [CCode.env_vars, cEffect, g0, g1, g2, g3, w8.vars]
  have w13 := ((((w9.pop (r := .ecx) (by decide) (by decide)).pop (r := .ecx) (by decide)
    (by decide)).pop (r := .ecx) (by decide) (by decide)).pop (r := .ecx) (by decide) (by decide))
  have w14 := w13.push g ((((m9.pop .ecx).pop .ecx).pop .ecx).pop .ecx |>.reg .esi)
    (by simp; omega)
  have e14 : straight c.env scwEnter m =
      (((((m9.pop .ecx).pop .ecx).pop .ecx).pop .ecx).push
        ((((m9.pop .ecx).pop .ecx).pop .ecx).pop .ecx |>.reg .esi)) := by
    rw [h9, ← h8, ← h7, ← h6, ← h5, h4, ← straight_append]
    rfl
  rw [e14]
  exact ⟨_, w14⟩

theorem sysWrapper_run (c : CCode top keep) (g : Guard top keep base d P) (hd : 11 ≤ d)
    {eip cs eflags esp ss : Word} (s : Stack base [eip, cs, eflags, esp, ss] m) :
    ∃ m', exec c.env none sysWrapper m = some (.iret eip, m') ∧ m'.reg .esp = esp ∧
      ∀ a, P a → m'.mem a = m.mem a := by
  obtain ⟨v, w⟩ := scwEnter_run c g hd s
  obtain ⟨m1, h1⟩ : ∃ m1, m1 = straight c.env scwEnter m := ⟨_, rfl⟩
  rw [← h1] at w
  have s1 : Stack base ([v] ++ [m.reg .ebp, eip, cs, eflags, esp, ss]) m1 := w.stack
  obtain ⟨vs, hvs, s2⟩ := g.call c (f := .sys) rfl s1 (by simp; omega)
  obtain ⟨v', hv'⟩ := List.length_eq_one_iff.mp hvs
  rw [hv'] at s2
  have s3 := Stack.pop (r := .esi) s2 (by decide)
  obtain ⟨m', e, uc, mem⟩ := scwEpilog_run c g s3 (by simp; omega)
  refine ⟨m', ?_, uc.esp, fun a ha => ?_⟩
  · have h : sysWrapper = scwEnter ++ (.call .sys :: .popl .esi :: scwEpilog) := rfl
    rw [h, exec_append _ (by decide), ← h1, ← e]
    rfl
  · rw [mem a ha, Machine.pop_mem, g.call_mem c (by simp [CFun.args]) s1 (by simp; omega) ha,
      w.mem a ha]

end

/-! ## Back to the stub -/

/-- the bytes of the stub's frame, below the caller's `esp` -/
def InFrame (esp a : Word) : Prop := (a - (esp - 20)).toNat < 20

/-- a system call's way back from the trap to the stub.  `c` is the kernel's C code on the stack
that starts at `esp0`; it does not touch the frame the stub left at the end of the user stack, at
`uesp`. -/
inductive KernelReturns (uesp esp0 next : Word) (m1 : Machine Sched) : Word → Machine Sched → Prop
  /-- through the epilogue of the wrapper -/
  | epilog {eip : Word} {m2 : Machine Sched}
      (c : CCode (fun _ => esp0) (fun _ => InFrame uesp))
      (run : exec c.env none sysWrapper (m1.trap esp0 next segselKernelCs segselKernelDs) =
        some (.iret eip, m2)) :
      KernelReturns uesp esp0 next m1 eip m2
  /-- in a forked child: the wrapper saved the user state, `sys_fork` gave it to the child, and
  the child, on its own stack and on a copy of the user's, is switched to -/
  | child {eip exitAddr ret : Word} {mf mc mr m2 : Machine Sched} {dst th : ThreadRegs}
      {kmem : Memory}
      (c : CCode (fun _ => esp0) (fun _ => InFrame uesp))
      (cc : CCode (fun _ => th.kernelEsp0 + 4) (fun _ => InFrame uesp))
      (fork : mf = straight c.env scwEnter (m1.trap esp0 next segselKernelCs segselKernelDs))
      (copy : th = vmmThreadCopy dst (mf.vars.thread mf.vars.currentThread))
      (stack : vmmKernelBase + 80 ≤ th.kernelEsp0.toNat ∧ th.kernelEsp0.toNat + 4 < 2 ^ 32)
      (esp : mc.reg .esp = (vmmSetupKernelStack exitAddr th kmem).1.kernelEsp)
      (kernel : ∀ i : Word, i.toNat < 56 → mc.mem (th.kernelEsp0 - 52 + i) =
        (vmmSetupKernelStack exitAddr th kmem).2 (th.kernelEsp0 - 52 + i))
      (user : ∀ a, InFrame uesp a → mc.mem a = m1.mem a)
      (restore : exec cc.env none csRestore mc = some (.ret ret, mr))
      (run : exec cc.env none exitKernel mr = some (.iret eip, m2)) :
      KernelReturns uesp esp0 next m1 eip m2

theorem guard_const {uesp : Word} (esp0 : Word) (d : Nat) (hu : uesp.toNat ≤ vmmKernelBase)
    (hlo : 20 ≤ uesp.toNat) (hk : vmmKernelBase + 4 * d ≤ esp0.toNat) :
    Guard (fun _ => esp0) (fun _ => InFrame uesp) esp0 d (InFrame uesp) := by
  have h0 := esp0.isLt
  have hkb : vmmKernelBase = 0xc0000000 := rfl
  refine ⟨by omega, fun n hn => ?_, fun a ha => ?_, fun a ha n _ => Or.inl ha⟩
  · have e : (BitVec.ofNat 32 (4 * n)).toNat = 4 * n := by
      rw [BitVec.toNat_ofNat]
      omega
    generalize BitVec.ofNat 32 (4 * n) = y at *
    bv_omega
  · unfold InFrame at ha
    have e : (BitVec.ofNat 32 (4 * d)).toNat = 4 * d := by
      rw [BitVec.toNat_ofNat]
      omega
    generalize BitVec.ofNat 32 (4 * d) = y at *
    bv_omega

/-- both ways lead to the instruction after the trap, with the user's stack pointer and frame -/
theorem KernelReturns.spec {uesp esp0 next eip : Word} {m1 m2 : Machine Sched}
    (hu : uesp.toNat ≤ vmmKernelBase) (hlo : 20 ≤ uesp.toNat)
    (hk : vmmKernelBase + 44 ≤ esp0.toNat) (h : KernelReturns uesp esp0 next m1 eip m2)
    (hm1 : m1.reg .esp = uesp - 20) :
    eip = next ∧ m2.reg .esp = m1.reg .esp ∧ ∀ a, InFrame uesp a → m2.mem a = m1.mem a := by
  have g := guard_const esp0 11 hu hlo hk
  have st := trap_stack m1 esp0 next segselKernelCs segselKernelDs
  cases h with
  | epilog c run =>
    obtain ⟨m', e, esp, mem⟩ := sysWrapper_run c g (Nat.le_refl _) st
    rw [run] at e
    injection e with e
    injection e with e1 e2
    injection e1 with e1
    subst e2
    exact ⟨e1, esp, fun a ha => (mem a ha).trans (trap_mem m1 g (by decide) ha)⟩
  | @child exitAddr ret mf mc mr _ dst th kmem c cc fork copy stack esp kernel user restore run =>
    obtain ⟨v, w⟩ := scwEnter_run c g (Nat.le_refl _) st
    have hth : th.eip = next ∧ th.esp = m1.reg .esp := by
      rw [copy, fork, w.vars]
      simp [vmmThreadCopy, schedSaveThreadUserState]
    rw [vmmSetupKernelStack_kernelEsp] at esp
    have s1 := vmmSetupKernelStack_stack exitAddr th kmem esp kernel
    obtain ⟨mr', e1, r, s2, -⟩ := csRestore_run cc.env s1
    rw [restore] at e1
    injection e1 with e1
    injection e1 with e2 e3
    subst e3
    have hk2 : (th.kernelEsp0 + 4).toNat = th.kernelEsp0.toNat + 4 := by bv_omega
    have g2 := guard_const (th.kernelEsp0 + 4) 7 hu hlo (by omega)
    obtain ⟨m', e4, uc, mem⟩ := scwEpilog_run cc g2 s2 (by simp)
    unfold exitKernel at run
    rw [run] at e4
    injection e4 with e4
    injection e4 with e5 e6
    injection e5 with e5
    subst e6
    refine ⟨e5.trans hth.1, uc.esp.trans hth.2, fun a ha => ?_⟩
    rw [mem a ha, r.mem, user a ha]

/-! ## The whole call -/

/-- `m` is the caller before it calls the stub, `m3` the caller after it; `next` is the address of
`syscall_wrapper_end` -/
def StubCall (argNum intrNum ra esp0 next : Word) (m m3 : Machine Sched) : Prop :=
  ∃ (env : CFun → Machine Sched → Machine Sched) (rest : Code) (m1 m2 : Machine Sched),
    exec env none (syscallStub argNum intrNum) (m.push ra) = some (.int intrNum rest, m1) ∧
    KernelReturns (m.reg .esp) esp0 next m1 next m2 ∧
    exec env none rest m2 = some (.ret ra, m3)

/-- the registers cdecl promises the caller -/
structure Preserved (m m3 : Machine Sched) : Prop where
  ebx : m3.reg .ebx = m.reg .ebx
  esi : m3.reg .esi = m.reg .esi
  edi : m3.reg .edi = m.reg .edi
  ebp : m3.reg .ebp = m.reg .ebp
  esp : m3.reg .esp = m.reg .esp

/-- the user stack lies below the kernel, the kernel stack in it -/
structure StackBounds (uesp esp0 : Word) : Prop where
  room : 20 ≤ uesp.toNat
  user : uesp.toNat ≤ vmmKernelBase
  kernel : vmmKernelBase + 44 ≤ esp0.toNat

/-- the frame the stub left is what its end pops -/
theorem KernelReturns.stack {uesp esp0 next eip ra : Word} {m1 m2 : Machine Sched}
    (hb : StackBounds uesp esp0) (h : KernelReturns uesp esp0 next m1 eip m2)
    (hs : Stack uesp (stubFrame m ra) m1) : Stack uesp (stubFrame m ra) m2 := by
  have hesp : m1.reg .esp = uesp - 20 := hs.esp
  obtain ⟨-, e, mem⟩ := h.spec hb.user hb.room hb.kernel hesp
  refine hs.congr_frame (by simp [stubFrame]) e fun i hi => mem _ ?_
  unfold InFrame
  rw [hesp]
  have hi : i.toNat < 20 := by simpa [stubFrame] using hi
  bv_omega

/-- every stub exchanges `%esi` and `%edi` -/
theorem StubCall.swaps {argNum intrNum ra esp0 next : Word} {m m3 : Machine Sched}
    (hb : StackBounds (m.reg .esp) esp0) (h : StubCall argNum intrNum ra esp0 next m m3) :
    m3.reg .ebx = m.reg .ebx ∧ m3.reg .esi = m.reg .edi ∧ m3.reg .edi = m.reg .esi ∧
      m3.reg .ebp = m.reg .ebp ∧ m3.reg .esp = m.reg .esp := by
  obtain ⟨env, rest, m1, m2, h1, h2, h3⟩ := h
  obtain ⟨m1', e1, s1⟩ := syscallStub_run env argNum intrNum ra m
  rw [h1] at e1
  injection e1 with e1
  injection e1 with e2 e3
  injection e2 with _ e4
  subst e3
  subst e4
  obtain ⟨m3', e5, ebx, esi, edi, ebp, esp⟩ := syscallStubEnd_run env (h2.stack hb s1)
  rw [h3] at e5
  injection e5 with e5
  injection e5 with _ e6
  subst e6
  exact ⟨ebx, esi, edi, ebp, esp⟩

/-- whatever the C code does within cdecl, the call comes back -/
theorem StubCall.exists_return {esp0 : Word} {m : Machine Sched}
    (c : CCode (fun _ => esp0) (fun _ => InFrame (m.reg .esp)))
    (argNum intrNum ra next : Word) (hb : StackBounds (m.reg .esp) esp0) :
    ∃ m3, StubCall argNum intrNum ra esp0 next m m3 := by
  obtain ⟨m1, e1, s1⟩ := syscallStub_run c.env argNum intrNum ra m
  have g := guard_const esp0 11 hb.user hb.room hb.kernel
  obtain ⟨m2, e2, -, -⟩ := sysWrapper_run c g (Nat.le_refl _)
    (trap_stack m1 esp0 next segselKernelCs segselKernelDs)
  have hk := KernelReturns.epilog c e2
  obtain ⟨m3, e3, -⟩ := syscallStubEnd_run c.env (hk.stack hb s1)
  exact ⟨m3, c.env, syscallStubEnd, m1, m2, e1, hk, e3⟩

/-- A stub preserves the registers cdecl promises exactly when `%esi` and `%edi` hold the same
value. -/
theorem stub_preserves_iff {argNum intrNum ra esp0 next : Word} {m m3 : Machine Sched}
    (hb : StackBounds (m.reg .esp) esp0) (h : StubCall argNum intrNum ra esp0 next m m3) :
    Preserved m m3 ↔ m.reg .esi = m.reg .edi := by
  obtain ⟨ebx, esi, edi, ebp, esp⟩ := h.swaps hb
  constructor
  · intro hp
    rw [← hp.esi, esi]
  · intro he
    exact ⟨ebx, by rw [esi, he], by rw [edi, he], ebp, esp⟩

/-- a caller of `gettid` with `%esi` and `%edi` as given -/
def gettidCaller (esi edi : Word) : Machine Sched where
  reg r := match r with
    | .esi => esi
    | .edi => edi
    | .esp => 0xbfff0000
    | _ => 0
  eflags := 0x200
  cs := segselUserCs
  ss := segselUserDs
  mem _ := 0
  vars := ⟨0xc0100000, false, fun _ => ⟨0, 0xd0010000, 0, 0, 0, 0⟩⟩

theorem gettidCaller_bounds (esi edi : Word) :
    StackBounds ((gettidCaller esi edi).reg .esp) 0xd0010000 :=
  ⟨by show 20 ≤ (0xbfff0000 : Word).toNat; decide,
    by show (0xbfff0000 : Word).toNat ≤ vmmKernelBase; decide, by decide⟩

theorem stub_preserves_iff_gettid :
    ∃ m3, StubCall 0 0x48 0x1000010 0xd0010000 0x1001020 (gettidCaller 5 5) m3 ∧
      Preserved (gettidCaller 5 5) m3 := by
  obtain ⟨m3, h⟩ := StubCall.exists_return (idleCode _ _) 0 0x48 0x1000010 0x1001020
    (gettidCaller_bounds 5 5)
  exact ⟨m3, h, (stub_preserves_iff (gettidCaller_bounds 5 5) h).mpr rfl⟩

/-- `gettid` called with `1` in `%esi` and `2` in `%edi` -/
theorem stub_swaps_gettid :
    ∃ m3, StubCall 0 0x48 0x1000010 0xd0010000 0x1001020 (gettidCaller 1 2) m3 ∧
      ¬ Preserved (gettidCaller 1 2) m3 := by
  obtain ⟨m3, h⟩ := StubCall.exists_return (idleCode _ _) 0 0x48 0x1000010 0x1001020
    (gettidCaller_bounds 1 2)
  refine ⟨m3, h, fun hp => ?_⟩
  have h1 := (h.swaps (gettidCaller_bounds 1 2)).2.1
  rw [hp.esi] at h1
  exact absurd h1 (by show ¬ (1 : Word) = 2; decide)

end Paravirt

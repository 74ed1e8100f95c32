import Paravirt.Trap
import Paravirt.Lib.Steps

/-!
# Context switches among threads with a kernel stack each

* `doContextSwitch_run`   what `do_context_switch` does before it pops: the old thread's frame is
  on its stack and its stack pointer in its `thread_t`;
* `Stacks`                one kernel stack a thread;
* `SwitchStep`            a thread works, a thread is set up, the processor is switched;
* `SwitchStep.keep`       a step leaves the stacks of the threads it does not run alone;
* `context_switch_transparent`.
-/

namespace Paravirt

open X86

section
variable {top : Word → Word} {keep : Word → Word → Prop} {d : Nat} {P : Word → Prop}
  {m : Machine Sched} {base : Word}

/-! ## Up to the first pop -/

/-- the registers the switch leaves on the old thread's stack -/
def regFrame (m : Machine Sched) : List Word :=
  [m.reg .esi, m.reg .edi, m.reg .edx, m.reg .ecx, m.reg .ebx, m.reg .eax, m.reg .ebp]

/-- the words above `base`, among them the arguments, are still those of `m` -/
structure Args (base : Word) (P : Word → Prop) (m m' : Machine Sched) : Prop where
  ebp : m'.reg .ebp = base - 4
  mem : ∀ a, P a → m'.mem a = m.mem a

theorem Args.read {m' : Machine Sched} (h : Args base P m m')
    (hargs : ∀ k : Word, k.toNat < 16 → P (base + k)) {i : Word} (hi : i.toNat + 4 ≤ 16) :
    m'.mem.read32 (base + i) = m.mem.read32 (base + i) := by
  refine Memory.read32_congr fun k hk => ?_
  rw [BitVec.add_assoc]
  exact h.mem _ (hargs _ (by bv_omega))

/-- `pushl %ebp; movl %esp, %ebp`, then the six other registers -/
theorem csPush_regs_run (env : CFun → Machine Sched → Machine Sched) (rest : Code)
    (g : Guard top keep base d P) (hd : 9 ≤ d) (hbase : m.reg .esp = base) :
    ∃ m', exec env none (csPush ++ rest) m = exec env none (csPush.drop 8 ++ rest) m' ∧
      Args base P m m' ∧ Stack base (regFrame m) m' ∧ m'.vars = m.vars := by
  have s0 : Stack base [] m := by
    rw [← hbase]
    exact Stack.nil m
  obtain ⟨m1, h1⟩ : ∃ m1, m1 = (m.push (m.reg .ebp)).setReg .ebp (base - 4) := ⟨_, rfl⟩
  have s1 : Stack base [m.reg .ebp] m1 := by
    rw [h1]
    exact (s0.push (by decide) _).setReg (by decide) _
  have reg1 : ∀ r, r ≠ .esp → r ≠ .ebp → m1.reg r = m.reg r := by
    intro r h h'
    rw [h1, Machine.setReg_reg_of_ne _ _ h', Machine.push_reg_of_ne _ _ h]
  have a1 : Args base P m m1 := by
    rw [h1]
    exact ⟨Machine.setReg_reg_self _ _ _, fun x hx => g.push_mem s0 (by simp; omega) _ hx⟩
  obtain ⟨m2, h2⟩ : ∃ m2, m2 = m1.pushList
      [m1.reg .esi, m1.reg .edi, m1.reg .edx, m1.reg .ecx, m1.reg .ebx, m1.reg .eax] := ⟨_, rfl⟩
  refine ⟨m2, ?_, ⟨?_, fun x hx => ?_⟩, ?_, ?_⟩
  · have e1 : exec env none (csPush ++ rest) m = exec env none (csPush.drop 2 ++ rest) m1 := by
      rw [h1, ← hbase, ← Machine.push_reg_esp m (m.reg .ebp)]
      rfl
    have hpush : ∀ (c : Machine Sched) (v : Word) (r : Reg), r ≠ .esp →
        (c.push v).reg r = c.reg r := fun c v r h => c.push_reg_of_ne v h
    rw [e1, h2]
    simp only [csPush, List.drop, List.cons_append, exec, Machine.pushList, hpush, ne_eq,
      reduceCtorEq, not_false_eq_true]
  · rw [h2, Machine.pushList_reg_of_ne _ (by decide), a1.ebp]
  · rw [h2, g.pushList_mem s1 hx _ (by simp; omega), a1.mem x hx]
  · rw [h2, reg1 .esi (by decide) (by decide), reg1 .edi (by decide) (by decide),
      reg1 .edx (by decide) (by decide), reg1 .ecx (by decide) (by decide),
      reg1 .ebx (by decide) (by decide), reg1 .eax (by decide) (by decide)]
    exact s1.pushList [m.reg .esi, m.reg .edi, m.reg .edx, m.reg .ecx, m.reg .ebx, m.reg .eax]
      (by simp)
  · rw [h2, Machine.pushList_vars, h1]
    rfl

/-- the two arguments: where the frame lies, and the old thread -/
theorem csPush_args_run (env : CFun → Machine Sched → Machine Sched) (rest : Code)
    (g : Guard top keep base d P) (hd : 9 ≤ d) (hargs : ∀ k : Word, k.toNat < 16 → P (base + k))
    {m2 : Machine Sched} (a2 : Args base P m m2) (s2 : Stack base (regFrame m) m2) :
    ∃ m', exec env none (csPush.drop 8 ++ rest) m2 = exec env none rest m' ∧ Args base P m m' ∧
      Stack base (m.mem.read32 (base + 4) :: (base - 28) :: regFrame m) m' ∧ m'.vars = m2.vars := by
  have esp2 : m2.reg .esp = base - 28 := s2.esp
  obtain ⟨m3, h3⟩ : ∃ m3, m3 = (m2.push (base - 28)).setReg .ebx 2 := ⟨_, rfl⟩
  have s3 : Stack base ((base - 28) :: regFrame m) m3 := by
    rw [h3]
    exact (s2.push (by simp [regFrame]) _).setReg (by decide) _
  have a3 : Args base P m m3 := by
    refine ⟨?_, fun x hx => ?_⟩
    · rw [h3, Machine.setReg_reg_of_ne _ _ (by decide), Machine.push_reg_of_ne _ _ (by decide),
        a2.ebp]
    · rw [h3]
      exact (g.push_mem s2 (by simp [regFrame]; omega) _ hx).trans (a2.mem x hx)
  have old3 : m3.mem.read32 (m3.ea ⟨.ebp, some .ebx, 4⟩) = m.mem.read32 (base + 4) := by
    have ea : m3.ea ⟨.ebp, some .ebx, 4⟩ = base + 4 := by
      show m3.reg .ebp + m3.reg .ebx * 4 = base + 4
      rw [a3.ebp, h3, Machine.setReg_reg_self]
      bv_omega
    rw [ea]
    exact a3.read hargs (by decide)
  obtain ⟨m4, h4⟩ : ∃ m4, m4 = m3.setReg .ecx (m.mem.read32 (base + 4)) := ⟨_, rfl⟩
  have s4 : Stack base ((base - 28) :: regFrame m) m4 := by
    rw [h4]
    exact s3.setReg (by decide) _
  refine ⟨m4.push (m.mem.read32 (base + 4)), ?_, ⟨?_, fun x hx => ?_⟩,
    s4.push (by simp [regFrame]) _, ?_⟩
  · have e3 : exec env none (csPush.drop 8 ++ rest) m2 =
        exec env none (csPush.drop 10 ++ rest) m3 := by
      rw [h3, ← esp2]
      rfl
    have e4 : exec env none (csPush.drop 10 ++ rest) m3 =
        exec env none (csPush.drop 11 ++ rest) m4 := by
      rw [h4, ← old3]
      rfl
    have e5 : exec env none (csPush.drop 11 ++ rest) m4 =
        exec env none rest (m4.push (m.mem.read32 (base + 4))) := by
      have h : m4.reg .ecx = m.mem.read32 (base + 4) := by rw [h4, Machine.setReg_reg_self]
      rw [← h]
      rfl
    rw [e3, e4, e5]
  · rw [Machine.push_reg_of_ne _ _ (by decide), h4, Machine.setReg_reg_of_ne _ _ (by decide),
      a3.ebp]
  · refine (g.push_mem s4 (by simp [regFrame]; omega) _ hx).trans ?_
    rw [h4]
    exact a3.mem x hx
  · show m4.vars = _
    rw [h4]
    show m3.vars = _
    rw [h3]
    rfl

/-- **the first half of the switch**: seven registers and two arguments are on the stack -/
theorem csPush_run (env : CFun → Machine Sched → Machine Sched) (rest : Code)
    (g : Guard top keep base d P) (hd : 9 ≤ d) (hbase : m.reg .esp = base)
    (hargs : ∀ k : Word, k.toNat < 16 → P (base + k)) :
    ∃ m', exec env none (csPush ++ rest) m = exec env none rest m' ∧ Args base P m m' ∧
      Stack base (m.mem.read32 (base + 4) :: (base - 28) :: regFrame m) m' ∧ m'.vars = m.vars := by
  obtain ⟨m2, e1, a2, s2, v2⟩ := csPush_regs_run env rest g hd hbase
  obtain ⟨m', e2, a', s', v'⟩ := csPush_args_run env rest g hd hargs a2 s2
  exact ⟨m', e1.trans e2, a', s', v'.trans v2⟩

/-- the save routine's own arguments -/
theorem csPush_args {old : Word} {ws : List Word} (s : Stack base (old :: (base - 28) :: ws) m) :
    arg m 0 = old ∧ arg m 1 = base - 28 := by
  have h0 := s.word 0 (by simp)
  have h1 := s.word 1 (by simp)
  exact ⟨h0, h1⟩

theorem csPgdir_run (env : CFun → Machine Sched → Machine Sched) (rest : Code)
    {m' : Machine Sched} {old : Word} (g : Guard top keep base d P) (hd : 9 ≤ d)
    (hargs : ∀ k : Word, k.toNat < 16 → P (base + k)) (a : Args base P m m')
    (s : Stack base (old :: (base - 28) :: regFrame m) m') :
    ∃ m'', exec env none (csPgdir ++ rest) m' = exec env none rest m'' ∧ Args base P m m'' ∧
      Stack base (m.mem.read32 (base + 12) :: regFrame m) m'' ∧ m''.vars = m'.vars := by
  obtain ⟨m1, h1⟩ : ∃ m1, m1 = ((m'.pop .ecx).pop .esp).setReg .ebx 4 := ⟨_, rfl⟩
  have s1 : Stack base (regFrame m) m1 := by
    rw [h1]
    exact ((s.pop (by decide)).pop_esp rfl).setReg (by decide) _
  have a1 : Args base P m m1 := by
    refine ⟨?_, fun x hx => ?_⟩
    · rw [h1, Machine.setReg_reg_of_ne _ _ (by decide),
        Machine.pop_reg_of_ne _ (by decide) (by decide),
        Machine.pop_reg_of_ne _ (by decide) (by decide), a.ebp]
    · rw [h1]
      exact a.mem x hx
  have pd1 : m1.mem.read32 (m1.ea ⟨.ebp, some .ebx, 4⟩) = m.mem.read32 (base + 12) := by
    have ea : m1.ea ⟨.ebp, some .ebx, 4⟩ = base + 12 := by
      show m1.reg .ebp + m1.reg .ebx * 4 = base + 12
      rw [a1.ebp, h1, Machine.setReg_reg_self]
      bv_omega
    rw [ea]
    exact a1.read hargs (by decide)
  refine ⟨m1.push (m.mem.read32 (base + 12)), ?_, ⟨?_, fun x hx => ?_⟩,
    s1.push (by simp [regFrame]) _, ?_⟩
  · rw [← pd1, h1]
    rfl
  · rw [Machine.push_reg_of_ne _ _ (by decide), a1.ebp]
  · exact (g.push_mem s1 (by simp [regFrame]; omega) _ hx).trans (a1.mem x hx)
  · rw [Machine.push_vars, h1]
    rfl

theorem csStack_run (env : CFun → Machine Sched → Machine Sched) (rest : Code)
    {m' : Machine Sched} {v : Word} (hargs : ∀ k : Word, k.toNat < 16 → P (base + k))
    (a : Args base P m m') (s : Stack base (v :: regFrame m) m') :
    ∃ m'', exec env none (csStack ++ rest) m' =
        exec env none rest (m''.setReg .esp (m.mem.read32 (base + 8))) ∧
      Args base P m m'' ∧ Stack base (regFrame m) m'' ∧ m''.vars = m'.vars := by
  obtain ⟨m1, h1⟩ : ∃ m1, m1 = (m'.pop .ebx).setReg .ebx 3 := ⟨_, rfl⟩
  have s1 : Stack base (regFrame m) m1 := by
    rw [h1]
    exact (s.pop (by decide)).setReg (by decide) _
  have a1 : Args base P m m1 := by
    refine ⟨?_, fun x hx => ?_⟩
    · rw [h1, Machine.setReg_reg_of_ne _ _ (by decide),
        Machine.pop_reg_of_ne _ (by decide) (by decide), a.ebp]
    · rw [h1]
      exact a.mem x hx
  have sp1 : m1.mem.read32 (m1.ea ⟨.ebp, some .ebx, 4⟩) = m.mem.read32 (base + 8) := by
    have ea : m1.ea ⟨.ebp, some .ebx, 4⟩ = base + 8 := by
      show m1.reg .ebp + m1.reg .ebx * 4 = base + 8
      rw [a1.ebp, h1, Machine.setReg_reg_self]
      bv_omega
    rw [ea]
    exact a1.read hargs (by decide)
  refine ⟨m1, ?_, a1, s1, ?_⟩
  · rw [← sp1, h1]
    rfl
  · rw [h1]
    rfl

theorem Args.call {m' : Machine Sched} {ws : List Word} (c : CCode top keep)
    (g : Guard top keep base d P) {f : CFun} (hf : f.args ≤ 4 * ws.length)
    (a : Args base P m m') (s : Stack base ws m') (hd : ws.length ≤ d) :
    Args base P m (c.env f m') where
  ebp := by rw [(c.env_cdecl f m').ebp, a.ebp]
  mem x hx := by rw [g.call_mem c hf s hd hx, a.mem x hx]

theorem doContextSwitch_run (c : CCode top keep) (g : Guard top keep base d P) (hd : 9 ≤ d)
    (hbase : m.reg .esp = base) (hargs : ∀ k : Word, k.toNat < 16 → P (base + k)) :
    ∃ m', exec c.env none doContextSwitch m =
        exec c.env none csRestore (m'.setReg .esp (m.mem.read32 (base + 8))) ∧
      Stack base (regFrame m) m' ∧ (∀ a, P a → m'.mem a = m.mem a) ∧
      m'.vars = schedSaveThreadKernelState (m.mem.read32 (base + 4)) (base - 28) m.vars := by
  obtain ⟨m1, e1, a1, s1, x1⟩ := csPush_run c.env (.call .schedSaveThreadKernelState ::
    csPgdir ++ .call .vmmSetUserPgdir :: csStack ++ csRestore) g hd hbase hargs
  obtain ⟨m2, h2⟩ : ∃ m2, m2 = c.env .schedSaveThreadKernelState m1 := ⟨_, rfl⟩
  have hd9 : (m.mem.read32 (base + 4) :: (base - 28) :: regFrame m).length ≤ d := by
    simp only [regFrame, List.length_cons, List.length_nil]
    omega
  have s2 := g.call0 c (f := .schedSaveThreadKernelState) rfl s1 hd9
  have a2 := a1.call c g (f := .schedSaveThreadKernelState) (Nat.zero_le _) s1 hd9
  have x2 : (c.env .schedSaveThreadKernelState m1).vars =
      schedSaveThreadKernelState (m.mem.read32 (base + 4)) (base - 28) m.vars := by
    rw [CCode.env_vars, cEffect, (csPush_args s1).1, (csPush_args s1).2, x1]
  rw [← h2] at s2 a2 x2
  obtain ⟨m3, e3, a3, s3, x3⟩ := csPgdir_run c.env (.call .vmmSetUserPgdir :: csStack ++ csRestore)
    g hd hargs a2 s2
  obtain ⟨m4, h4⟩ : ∃ m4, m4 = c.env .vmmSetUserPgdir m3 := ⟨_, rfl⟩
  have s3' : Stack base ([m.mem.read32 (base + 12)] ++ regFrame m) m3 := s3
  obtain ⟨vs, hvs, s4⟩ := g.call c (f := .vmmSetUserPgdir) rfl s3' (by simp [regFrame]; omega)
  obtain ⟨v, hv⟩ := List.length_eq_one_iff.mp hvs
  rw [hv] at s4
  have a4 := a3.call c g (f := .vmmSetUserPgdir) (by show 4 ≤ 4 * (_ + 1); omega) s3
    (by simp [regFrame]; omega)
  have x4 : (c.env .vmmSetUserPgdir m3).vars = m3.vars := rfl
  rw [← h4] at s4 a4 x4
  obtain ⟨m5, e5, a5, s5, x5⟩ := csStack_run c.env csRestore hargs a4 s4
  refine ⟨m5, ?_, s5, a5.mem, by rw [x5, x4, x3, x2]⟩
  rw [← e5, h4]
  have e4 : exec c.env none (.call .vmmSetUserPgdir :: csStack ++ csRestore) m3 =
      exec c.env none (csStack ++ csRestore) (c.env .vmmSetUserPgdir m3) := rfl
  rw [← e4, ← e3, h2]
  have e2 : exec c.env none (.call .schedSaveThreadKernelState ::
      csPgdir ++ .call .vmmSetUserPgdir :: csStack ++ csRestore) m1 =
      exec c.env none (csPgdir ++ (.call .vmmSetUserPgdir :: csStack ++ csRestore))
        (c.env .schedSaveThreadKernelState m1) := rfl
  rw [← e2, ← e1]
  rfl

end

/-! ## Threads -/

/-- One kernel stack a thread.  `owner` names the thread whose stack an address is in, so two
stacks cannot overlap; thread `0` is the boot context. -/
structure Stacks where
  lo : Word → Nat
  hi : Word → Nat
  owner : Word → Word
  owner_eq : ∀ (t a : Word), lo t ≤ a.toNat → a.toNat < hi t → owner a = t
  hi_lt : ∀ t, hi t < 2 ^ 32

def Stacks.In (k : Stacks) (t a : Word) : Prop := k.lo t ≤ a.toNat ∧ a.toNat < k.hi t

/-- the end of the stack `esp` points into -/
def Stacks.top (k : Stacks) (esp : Word) : Word := BitVec.ofNat 32 (k.hi (k.owner esp))

/-- a routine running on one stack has no business with the others -/
def Stacks.keep (k : Stacks) (esp a : Word) : Prop := k.owner a ≠ k.owner esp ∧ k.In (k.owner a) a

structure Threads where
  m : Machine Sched
  /-- where the current thread continues -/
  eip : Word
  /-- the threads `vmm_setup_kernel_stack` has set up -/
  forged : List Word
  /-- the threads that have run -/
  started : List Word

def Threads.cur (s : Threads) : Word := s.m.vars.currentThread

inductive SwitchLabel
  | work
  | setup (u : Word)
  | switch (u : Word)
deriving DecidableEq

/-- the call `sched_thread_yield` makes: the arguments are on the stack of the current thread -/
structure AtSwitch (k : Stacks) (s : Threads) (u : Word) : Prop where
  room : k.lo s.cur + 36 ≤ (s.m.reg .esp).toNat
  args : (s.m.reg .esp).toNat + 16 ≤ k.hi s.cur
  old : s.m.mem.read32 (s.m.reg .esp + 4) = s.cur
  esp : s.m.mem.read32 (s.m.reg .esp + 8) = (s.m.vars.thread u).kernelEsp

/-- `sched_set_current_thread`, and the flag `sched_yield` sets when there is no old thread -/
def schedSetCurrent (u : Word) (s : Sched) : Sched :=
  { s with
    kernelBooting := if s.currentThread = 0 then true else s.kernelBooting
    currentThread := u }

/-- what the threads do: the current one computes, on its own stack and in other memory; a thread
that has not run is given its first stack; `sched_thread_yield` switches to another thread. -/
inductive SwitchStep (k : Stacks) (c : CCode k.top k.keep) (exitAddr : Word) :
    Threads → SwitchLabel → Threads → Prop
  | work {s : Threads} {m' : Machine Sched} {eip' : Word}
      (cur : m'.vars.currentThread = s.m.vars.currentThread)
      (boot : m'.vars.kernelBooting = s.m.vars.kernelBooting)
      (kesp : ∀ u, (m'.vars.thread u).kernelEsp = (s.m.vars.thread u).kernelEsp)
      (mem : ∀ u a, u ≠ s.cur → k.In u a → m'.mem a = s.m.mem a) :
      SwitchStep k c exitAddr s .work { s with m := m', eip := eip' }
  | setup {s : Threads} {u : Word} (fresh : u ∉ s.started) (hu : u ≠ s.cur)
      (lo : k.lo u + 52 ≤ (s.m.vars.thread u).kernelEsp0.toNat)
      (hi : (s.m.vars.thread u).kernelEsp0.toNat + 4 ≤ k.hi u) :
      SwitchStep k c exitAddr s (.setup u)
        { s with
          m := { s.m with
            mem := (vmmSetupKernelStack exitAddr (s.m.vars.thread u) s.m.mem).2
            vars := { s.m.vars with
              thread := Function.update s.m.vars.thread u
                (vmmSetupKernelStack exitAddr (s.m.vars.thread u) s.m.mem).1 } }
          forged := u :: s.forged }
  | switch {s : Threads} {u eip' : Word} {m' : Machine Sched}
      (hu : u ≠ s.cur) (h0 : u ≠ 0) (ready : u ∈ s.forged ∨ u ∈ s.started)
      (call : AtSwitch k s u)
      (run : exec c.env none doContextSwitch { s.m with vars := schedSetCurrent u s.m.vars } =
        some (.ret eip', m')) :
      SwitchStep k c exitAddr s (.switch u)
        { s with m := m', eip := eip', started := u :: s.started }

/-! ## One switch -/

variable {k : Stacks} {c : CCode k.top k.keep} {exitAddr : Word} {s s' : Threads}

/-- the bytes a switch from `t` at `base` leaves alone: the other stacks, and `t`'s from `base` -/
def Stacks.Safe (k : Stacks) (t base a : Word) : Prop :=
  ∃ u, k.In u a ∧ (u = t → base.toNat ≤ a.toNat)

theorem Stacks.owner_of_in {t a : Word} (h : k.In t a) : k.owner a = t := k.owner_eq t a h.1 h.2

theorem toNat_sub_words (base : Word) (n : Nat) (h : 4 * n ≤ base.toNat) :
    (base - BitVec.ofNat 32 (4 * n)).toNat = base.toNat - 4 * n := by
  have h1 := base.isLt
  rw [BitVec.toNat_sub, BitVec.toNat_ofNat]
  omega

/-- `4 * n` bytes below `base` lie on `t`'s stack -/
theorem Stacks.room {t base : Word} {n : Nat} (hlo : k.lo t + 4 * n ≤ base.toNat)
    (hhi : base.toNat ≤ k.hi t) (hn : 0 < n ∨ base.toNat < k.hi t) :
    k.owner (base - BitVec.ofNat 32 (4 * n)) = t ∧
      (k.top (base - BitVec.ofNat 32 (4 * n)) - (base - BitVec.ofNat 32 (4 * n))).toNat =
        k.hi t - (base.toNat - 4 * n) := by
  have e := toNat_sub_words base n (by omega)
  have ho : k.owner (base - BitVec.ofNat 32 (4 * n)) = t := by
    refine k.owner_of_in ⟨?_, ?_⟩
    · rw [e]; omega
    · rw [e]; omega
  have hlt := k.hi_lt t
  refine ⟨ho, ?_⟩
  unfold Stacks.top
  rw [ho, BitVec.toNat_sub, e, BitVec.toNat_ofNat]
  omega

theorem Stacks.guard (k : Stacks) (t base : Word) (d : Nat) (hlo : k.lo t + 4 * d ≤ base.toNat)
    (hhi : base.toNat < k.hi t) : Guard k.top k.keep base d (k.Safe t base) := by
  have hb := base.isLt
  refine ⟨by omega, fun n hn => ?_, fun a ha => ?_, fun a ha n hn => ?_⟩
  · rw [(k.room (t := t) (by omega) (by omega) (Or.inr hhi)).2]
    omega
  · obtain ⟨u, hu, hown⟩ := ha
    have e := toNat_sub_words base d (by omega)
    by_cases hut : u = t
    · have := hown hut
      rw [BitVec.toNat_sub, e]
      omega
    · have hne : ¬ k.In t a := fun h => hut ((k.owner_of_in hu).symm.trans (k.owner_of_in h))
      have ha := a.isLt
      have h2 : a.toNat < k.lo t ∨ k.hi t ≤ a.toNat := by
        unfold Stacks.In at hne
        omega
      rw [BitVec.toNat_sub, e]
      omega
  · obtain ⟨u, hu, hown⟩ := ha
    obtain ⟨ho, htop⟩ := k.room (t := t) (n := n) (by omega) (by omega) (Or.inr hhi)
    by_cases hut : u = t
    · subst hut
      have h1 := hown rfl
      have e := toNat_sub_words base n (by omega)
      have ha := a.isLt
      have e2 : (a - (base - BitVec.ofNat 32 (4 * n))).toNat = a.toNat - (base.toNat - 4 * n) := by
        rw [BitVec.toNat_sub, e]
        omega
      refine Or.inr ⟨a - (base - BitVec.ofNat 32 (4 * n)), by bv_omega, ?_, ?_⟩
      · rw [e2]; omega
      · rw [e2, htop]
        have := hu.2
        omega
    · refine Or.inl ⟨?_, ?_⟩
      · rw [ho, k.owner_of_in hu]
        exact hut
      · rw [k.owner_of_in hu]
        exact hu

/-- below a frame that ends with the stack itself -/
theorem Stacks.guard_top (k : Stacks) (t base : Word) (d : Nat)
    (hlo : k.lo t + 4 * d ≤ base.toNat) (hhi : base.toNat ≤ k.hi t) :
    Guard k.top k.keep base d (fun _ => False) := by
  have hb := base.isLt
  refine ⟨by omega, fun n hn => ?_, fun _ ha => ha.elim, fun _ ha => ha.elim⟩
  rcases Nat.eq_zero_or_pos n with rfl | hn0
  · exact Nat.zero_le _
  · rw [(k.room (t := t) (by omega) hhi (Or.inl hn0)).2]
    omega

/-- a switch: the old thread's registers are on its stack, the safe bytes are as before, and the
pops run on the new thread's stack -/
theorem SwitchStep.switch_run {u : Word} (h : SwitchStep k c exitAddr s (.switch u) s') :
    ∃ m', Stack (s.m.reg .esp) (regFrame s.m) m' ∧
      (∀ a, k.Safe s.cur (s.m.reg .esp) a → m'.mem a = s.m.mem a) ∧
      m'.vars = schedSaveThreadKernelState s.cur (s.m.reg .esp - 28)
        (schedSetCurrent u s.m.vars) ∧
      exec c.env none csRestore (m'.setReg .esp (s.m.vars.thread u).kernelEsp) =
        some (.ret s'.eip, s'.m) ∧
      s'.m.mem = m'.mem ∧ s'.m.vars = m'.vars := by
  cases h with
  | switch hu h0 ready call run =>
    have hroom := call.room
    have hargs := call.args
    have g := k.guard s.cur (s.m.reg .esp) 9 (by omega) (by omega)
    obtain ⟨m', e, st, mem, vars⟩ := doContextSwitch_run
      (m := { s.m with vars := schedSetCurrent u s.m.vars }) c g (Nat.le_refl 9) rfl (by
        intro i hi
        have e : (s.m.reg .esp + i).toNat = (s.m.reg .esp).toNat + i.toNat := by
          have := k.hi_lt s.cur
          rw [BitVec.toNat_add]
          omega
        exact ⟨s.cur, ⟨by rw [e]; omega, by rw [e]; omega⟩, fun _ => by rw [e]; omega⟩)
    have hesp : s.m.mem.read32 (s.m.reg .esp + 8) = (s.m.vars.thread u).kernelEsp := call.esp
    have hold : s.m.mem.read32 (s.m.reg .esp + 4) = s.cur := call.old
    rw [e] at run
    simp only [hesp] at run
    simp only [hold] at vars
    obtain ⟨f1, f2⟩ := csRestore_frame run
    exact ⟨m', st, mem, vars, run, f1, f2⟩

/-- the thread that is switched to runs -/
theorem SwitchStep.switch_inv {u : Word} (h : SwitchStep k c exitAddr s (.switch u) s') :
    s'.cur = u ∧ s'.forged = s.forged ∧ s'.started = u :: s.started := by
  obtain ⟨m', -, -, vars, -, -, hvars⟩ := h.switch_run
  have hcur : s'.cur = u := by
    unfold Threads.cur
    rw [hvars, vars, schedSaveThreadKernelState_currentThread]
    rfl
  cases h with
  | switch => exact ⟨hcur, rfl, rfl⟩

/-- a switch always goes through -/
theorem SwitchStep.exists_switch {u : Word} (hu : u ≠ s.cur) (h0 : u ≠ 0)
    (ready : u ∈ s.forged ∨ u ∈ s.started) (call : AtSwitch k s u) :
    ∃ s', SwitchStep k c exitAddr s (.switch u) s' :=
  ⟨_, .switch hu h0 ready call rfl⟩

/-- what a step leaves alone of a thread it does not run -/
structure Untouched (k : Stacks) (t : Word) (s s' : Threads) : Prop where
  cur : s'.cur ≠ t
  mem : ∀ a, k.In t a → s'.m.mem a = s.m.mem a
  kesp : (s'.m.vars.thread t).kernelEsp = (s.m.vars.thread t).kernelEsp

theorem SwitchStep.keep {t : Word} {l : SwitchLabel} (h : SwitchStep k c exitAddr s l s')
    (ht : s.cur ≠ t) (hs : l ≠ .switch t) (hf : l ≠ .setup t) : Untouched k t s s' := by
  cases l with
  | work =>
    cases h with
    | work cur boot kesp mem =>
      exact ⟨fun e => ht (cur.symm.trans e), fun a ha => mem t a (Ne.symm ht) ha, kesp t⟩
  | setup u =>
    have hut : u ≠ t := fun e => hf (by rw [e])
    cases h with
    | setup fresh hu lo hi =>
      refine ⟨ht, fun a ha => ?_, ?_⟩
      · have hne : ¬ k.In u a := fun hin =>
          hut ((k.owner_of_in hin).symm.trans (k.owner_of_in ha))
        have hlt := k.hi_lt u
        refine vmmSetupKernelStack_mem _ _ _ (by omega) (by omega) ?_
        unfold Stacks.In at hne
        omega
      · simp only
        rw [Function.update_of_ne (Ne.symm hut)]
  | switch u =>
    have hut : u ≠ t := fun e => hs (by rw [e])
    obtain ⟨m', -, mem, vars, -, hmem, hvars⟩ := h.switch_run
    refine ⟨?_, fun a ha => ?_, ?_⟩
    · unfold Threads.cur
      rw [hvars, vars, schedSaveThreadKernelState_currentThread]
      exact hut
    · rw [hmem]
      exact mem a ⟨t, ha, fun e => absurd e.symm ht⟩
    · rw [hvars, vars, schedSaveThreadKernelState_of_ne _ _ (Ne.symm ht)]
      rfl

theorem Untouched.run {t : Word} {ls : List SwitchLabel} (ht : s.cur ≠ t)
    (h : Steps (SwitchStep k c exitAddr) s ls s') (hs : .switch t ∉ ls) (hf : .setup t ∉ ls) :
    Untouched k t s s' := by
  induction h with
  | nil => exact ⟨ht, fun _ _ => rfl, rfl⟩
  | @snoc ls x y l hx hxy ih =>
    simp only [List.mem_append, List.mem_singleton, not_or] at hs hf
    have hx := ih hs.1 hf.1
    have hy := hxy.keep hx.cur (Ne.symm hs.2) (Ne.symm hf.2)
    exact ⟨hy.cur, fun a ha => (hy.mem a ha).trans (hx.mem a ha), hy.kesp.trans hx.kesp⟩

/-! ## Whole runs -/

/-- `sched_init`: no current thread, the flag up -/
structure Threads.Boot (s : Threads) : Prop where
  cur : s.cur = 0
  booting : s.m.vars.kernelBooting = true

/-- a thread that runs has been switched to, which cleared the flag -/
def Threads.Running (s : Threads) : Prop :=
  s.cur ≠ 0 → s.m.vars.kernelBooting = false ∧ s.cur ∈ s.started

theorem SwitchStep.running {l : SwitchLabel} (h : SwitchStep k c exitAddr s l s')
    (hs : s.Running) : s'.Running := by
  cases l with
  | work =>
    cases h with
    | work cur boot kesp mem =>
      intro h0
      obtain ⟨h1, h2⟩ := hs (fun e => h0 (cur.trans e))
      refine ⟨boot.trans h1, ?_⟩
      unfold Threads.cur
      simp only
      rw [cur]
      exact h2
  | setup u => cases h with | setup fresh hu lo hi => exact hs
  | switch u =>
    obtain ⟨m', -, -, vars, -, -, hvars⟩ := h.switch_run
    intro _
    cases h with
    | switch hu h0 ready call run =>
      unfold Threads.cur
      simp only at hvars ⊢
      rw [hvars, vars, schedSaveThreadKernelState_currentThread,
        schedSaveThreadKernelState_kernelBooting]
      exact ⟨rfl, List.mem_cons_self⟩

theorem Threads.Boot.running {s0 : Threads} {ls : List SwitchLabel} (h0 : s0.Boot)
    (h : Steps (SwitchStep k c exitAddr) s0 ls s) : s.Running :=
  h.invariant (fun _ _ _ hx hxy => hxy.running hx) (fun hne => absurd h0.cur hne)

/-- a thread that has run is not set up again -/
theorem SwitchStep.no_setup {t : Word} {ls : List SwitchLabel}
    (h : Steps (SwitchStep k c exitAddr) s ls s') (ht : t ∈ s.started) :
    t ∈ s'.started ∧ .setup t ∉ ls := by
  induction h with
  | nil => exact ⟨ht, List.not_mem_nil⟩
  | snoc _ hxy ih =>
    simp only [List.mem_append, List.mem_singleton, not_or]
    cases hxy with
    | work => exact ⟨ih.1, ih.2, by simp⟩
    | setup fresh =>
      refine ⟨ih.1, ih.2, fun e => fresh ?_⟩
      injection e with e
      rw [← e]
      exact ih.1
    | switch => exact ⟨List.mem_cons_of_mem _ ih.1, ih.2, by simp⟩

/-- the thread goes on after its call of `do_context_switch`: `s` is at the entry of the call, the
return address on the stack; `s'` is after the `ret`. -/
structure Resumed (k : Stacks) (s s' : Threads) : Prop where
  eip : s'.eip = s.m.top
  ebx : s'.m.reg .ebx = s.m.reg .ebx
  esi : s'.m.reg .esi = s.m.reg .esi
  edi : s'.m.reg .edi = s.m.reg .edi
  ebp : s'.m.reg .ebp = s.m.reg .ebp
  esp : s'.m.reg .esp = s.m.reg .esp + 4
  stack : ∀ a, k.In s.cur a → (s.m.reg .esp).toNat ≤ a.toNat → s'.m.mem a = s.m.mem a

theorem resumed {u : Word} {ls : List SwitchLabel} {s1 s2 s3 : Threads} (hs : s.Running)
    (hcur : s.cur ≠ 0) (h1 : SwitchStep k c exitAddr s (.switch u) s1)
    (h2 : Steps (SwitchStep k c exitAddr) s1 ls s2) (hls : .switch s.cur ∉ ls)
    (h3 : SwitchStep k c exitAddr s2 (.switch s.cur) s3) : Resumed k s s3 := by
  obtain ⟨hboot, hst⟩ := hs hcur
  obtain ⟨m1, st1, mem1, ext1, -, hm1, hx1⟩ := h1.switch_run
  obtain ⟨hu, hcall, hst1⟩ : u ≠ s.cur ∧ AtSwitch k s u ∧ s.cur ∈ s1.started := by
    cases h1 with
    | switch hu h0 ready call run => exact ⟨hu, call, List.mem_cons_of_mem _ hst⟩
  have hroom := hcall.room
  have hargs := hcall.args
  -- the frame sits at the saved stack pointer
  have hc1 : s1.cur ≠ s.cur := by
    unfold Threads.cur
    rw [hx1, ext1, schedSaveThreadKernelState_currentThread]
    exact hu
  have hk1 : (s1.m.vars.thread s.cur).kernelEsp = s.m.reg .esp - 28 := by
    rw [hx1, ext1]
    refine schedSaveThreadKernelState_self _ hcur ?_
    show (if s.cur = 0 then true else s.m.vars.kernelBooting) = false
    rw [if_neg hcur, hboot]
  have hun := Untouched.run hc1 h2 hls (SwitchStep.no_setup h2 hst1).2
  -- the switch back
  obtain ⟨m2, -, mem2, -, run, hm2, -⟩ := h3.switch_run
  rw [hun.kesp, hk1] at run
  have hmem : ∀ a, k.In s.cur a → (s.m.reg .esp).toNat ≤ a.toNat + 28 →
      m2.mem a = m1.mem a := by
    intro a ha _
    rw [mem2 a ⟨s.cur, ha, fun e => absurd e.symm hun.cur⟩, hun.mem a ha, hm1]
  have hlt := k.hi_lt s.cur
  have hb := (s.m.reg .esp).isLt
  have hra : m1.mem.read32 (s.m.reg .esp) = s.m.top := by
    refine Memory.read32_congr fun i hi => mem1 _ ⟨s.cur, ?_, fun _ => ?_⟩
    · exact ⟨by rw [BitVec.toNat_add]; omega, by rw [BitVec.toNat_add]; omega⟩
    · rw [BitVec.toNat_add]; omega
  have st2 : Stack (s.m.reg .esp + 4) (csFrame (s.m.reg .esi) (s.m.reg .edi) (s.m.reg .edx)
      (s.m.reg .ecx) (s.m.reg .ebx) (s.m.reg .eax) (s.m.reg .ebp) s.m.top ++ [])
      (m2.setReg .esp (s.m.reg .esp - 28)) := by
    have e1 : m1.reg .esp = s.m.reg .esp - 28 := st1.esp
    refine (st1.extend hra).congr_frame (by simp [regFrame]) ?_ ?_
    · rw [Machine.setReg_reg_self, e1]
    · intro i hi
      rw [e1]
      have hi : i.toNat < 32 := by simpa [regFrame] using hi
      have e : (s.m.reg .esp - 28 + i).toNat = (s.m.reg .esp).toNat - 28 + i.toNat := by bv_omega
      exact hmem _ ⟨by rw [e]; omega, by rw [e]; omega⟩ (by rw [e]; omega)
  obtain ⟨m3, e3, r, -, -⟩ := csRestore_run c.env st2
  rw [run] at e3
  injection e3 with e3
  injection e3 with e4 e5
  injection e4 with e4
  subst e5
  refine ⟨e4, r.ebx, r.esi, r.edi, r.ebp, ?_, ?_⟩
  · rw [r.esp, Machine.setReg_reg_self]
    bv_omega
  · intro a ha hle
    rw [hm2, hmem a ha (by omega), mem1 a ⟨s.cur, ha, fun _ => hle⟩]

/-- a new thread's user context -/
structure UserEntry (th : ThreadRegs) (m : Machine Sched) : Prop where
  eflags : m.eflags = th.eflags
  esp : m.reg .esp = th.esp
  ebp : m.reg .ebp = th.ebp
  cs : m.cs = segselUserCs
  ss : m.ss = segselUserDs
  eax : m.reg .eax = 0

theorem SwitchStep.setup_inv {u : Word} (h : SwitchStep k c exitAddr s (.setup u) s') :
    s'.cur ≠ u ∧ k.lo u + 52 ≤ (s.m.vars.thread u).kernelEsp0.toNat ∧
      (s.m.vars.thread u).kernelEsp0.toNat + 4 ≤ k.hi u ∧
      s'.m.mem = (vmmSetupKernelStack exitAddr (s.m.vars.thread u) s.m.mem).2 ∧
      (s'.m.vars.thread u).kernelEsp = (s.m.vars.thread u).kernelEsp0 - 52 := by
  cases h with
  | setup fresh hu lo hi =>
    refine ⟨Ne.symm hu, lo, hi, rfl, ?_⟩
    simp only
    rw [Function.update_self, vmmSetupKernelStack_kernelEsp]

theorem entered {u : Word} {ls : List SwitchLabel} {s1 s2 s3 : Threads}
    (h1 : SwitchStep k c exitAddr s (.setup u) s1)
    (h2 : Steps (SwitchStep k c exitAddr) s1 ls s2) (hls : .switch u ∉ ls) (hlf : .setup u ∉ ls)
    (h3 : SwitchStep k c exitAddr s2 (.switch u) s3) :
    s3.eip = exitAddr ∧
      ∃ m, exec c.env none exitKernel s3.m = some (.iret (s.m.vars.thread u).eip, m) ∧
        UserEntry (s.m.vars.thread u) m := by
  obtain ⟨hcur, lo, hi, hm1, hk1⟩ := h1.setup_inv
  obtain ⟨m2, -, mem2, -, run, -, -⟩ := h3.switch_run
  generalize s.m.vars.thread u = th at *
  have hun := Untouched.run hcur h2 hls hlf
  have hlt := k.hi_lt u
  rw [hun.kesp, hk1] at run
  have st2 : Stack (th.kernelEsp0 + 4) (forgedFrame exitAddr th)
      (m2.setReg .esp (th.kernelEsp0 - 52)) := by
    refine vmmSetupKernelStack_stack exitAddr th s.m.mem ?_ ?_
    · exact Machine.setReg_reg_self _ _ _
    · intro i hi
      have e : (th.kernelEsp0 - 52 + i).toNat = th.kernelEsp0.toNat - 52 + i.toNat := by bv_omega
      have hin : k.In u (th.kernelEsp0 - 52 + i) := ⟨by rw [e]; omega, by rw [e]; omega⟩
      rw [Machine.setReg_mem, mem2 _ ⟨u, hin, fun e => absurd e.symm hun.cur⟩, hun.mem _ hin, hm1]
  obtain ⟨m3, e3, r, st3, heax⟩ := csRestore_run c.env st2
  rw [run] at e3
  injection e3 with e3
  injection e3 with e4 e5
  injection e4 with e4
  subst e5
  have g := k.guard_top u (th.kernelEsp0 + 4) 7 (by bv_omega) (by bv_omega)
  obtain ⟨m4, e6, uc, -⟩ := scwEpilog_run c g st3 (by simp)
  exact ⟨e4, m4, e6, uc.eflags, uc.esp, uc.ebp, uc.cs, uc.ss, uc.eax.trans heax⟩

/-- Context switches are transparent: a thread goes on where it was switched away, and a new one
enters user mode with its saved registers. -/
theorem context_switch_transparent (k : Stacks) (c : CCode k.top k.keep) (exitAddr : Word)
    {s0 s : Threads} {ls : List SwitchLabel} (h0 : s0.Boot)
    (h : Steps (SwitchStep k c exitAddr) s0 ls s) :
    (∀ u ls' s1 s2 s3, s.cur ≠ 0 → SwitchStep k c exitAddr s (.switch u) s1 →
      Steps (SwitchStep k c exitAddr) s1 ls' s2 → .switch s.cur ∉ ls' →
      SwitchStep k c exitAddr s2 (.switch s.cur) s3 → Resumed k s s3) ∧
    (∀ u ls' s1 s2 s3, SwitchStep k c exitAddr s (.setup u) s1 →
      Steps (SwitchStep k c exitAddr) s1 ls' s2 → .switch u ∉ ls' → .setup u ∉ ls' →
      SwitchStep k c exitAddr s2 (.switch u) s3 →
      s3.eip = exitAddr ∧
        ∃ m, exec c.env none exitKernel s3.m = some (.iret (s.m.vars.thread u).eip, m) ∧
          UserEntry (s.m.vars.thread u) m) := by
  refine ⟨?_, ?_⟩
  · intro u ls' s1 s2 s3 hcur h1 h2 hls h3
    exact resumed (h0.running h) hcur h1 h2 hls h3
  · intro u ls' s1 s2 s3 h1 h2 hls hlf h3
    exact entered h1 h2 hls hlf h3

/-- thread `t` has the 64 KiB block `t` -/
def blockStacks : Stacks where
  lo t := if t.toNat < 65535 then t.toNat * 65536 else 0
  hi t := if t.toNat < 65535 then (t.toNat + 1) * 65536 else 0
  owner a := a >>> 16
  owner_eq t a h1 h2 := by
    split at h1
    · rename_i h
      rw [if_pos h] at h2
      apply BitVec.eq_of_toNat_eq
      rw [BitVec.toNat_ushiftRight, Nat.shiftRight_eq_div_pow]
      omega
    · rename_i h
      rw [if_neg h] at h2
      omega
  hi_lt t := by
    split
    · omega
    · omega

/-- the boot context about to switch to thread `1`, which is to enter user mode at `0x1000000`; the
kernel stack of each thread is its block -/
def bootThreads : Threads where
  m :=
    { reg := fun r => if r = .esp then 0x8000 else 7
      eflags := 0
      cs := segselKernelCs
      ss := segselKernelDs
      mem := Memory.write32 (fun _ => 0) 0x8008 0x1ffac
      vars :=
        { currentThread := 0
          kernelBooting := true
          thread := fun t => ⟨0, t * 0x10000 + 0xffe0, 0xbfff0000, 0x1000000, 0xbfff0010, 0x200⟩ } }
  eip := 0
  forged := []
  started := []

/-- the current thread goes on to call `do_context_switch` for `u`, with its stack pointer at `b` -/
def callSwitch (s : Threads) (u b : Word) : Threads :=
  { s with
    m := { s.m with
      reg := Function.update s.m.reg .esp b
      mem := (s.m.mem.write32 (b + 4) s.cur).write32 (b + 8) (s.m.vars.thread u).kernelEsp }
    eip := 0 }

theorem atSwitch_callSwitch (s : Threads) (u b : Word) (hlo : k.lo s.cur + 36 ≤ b.toNat)
    (hhi : b.toNat + 16 ≤ k.hi s.cur) : AtSwitch k (callSwitch s u b) u := by
  have hesp : (callSwitch s u b).m.reg .esp = b := by simp [callSwitch]
  constructor
  · rw [hesp]
    exact hlo
  · rw [hesp]
    exact hhi
  · rw [hesp]
    show ((s.m.mem.write32 (b + 4) s.cur).write32 (b + 8) _).read32 (b + 4) = s.cur
    rw [Memory.read32_write32_of_le _ _ _ _ (by bv_omega) (by bv_omega), Memory.read32_write32]
  · rw [hesp]
    exact Memory.read32_write32 _ _ _

theorem callSwitch_step (s : Threads) (u b : Word) (hlo : k.lo s.cur + 36 ≤ b.toNat)
    (hhi : b.toNat + 16 ≤ k.hi s.cur) : SwitchStep k c exitAddr s .work (callSwitch s u b) := by
  refine .work rfl rfl (fun _ => rfl) fun t a ht ha => ?_
  -- the arguments are on the stack of the current thread
  have hne : ∀ i : Word, i.toNat < 12 → a ≠ b + i := by
    intro i hi he
    have hlt := k.hi_lt s.cur
    have hin : k.In s.cur a := by
      rw [he]
      unfold Stacks.In
      rw [BitVec.toNat_add]
      omega
    exact ht ((k.owner_of_in ha).symm.trans (k.owner_of_in hin))
  have h0 := hne 4 (by decide)
  have h1 := hne 5 (by decide)
  have h2 := hne 6 (by decide)
  have h3 := hne 7 (by decide)
  have h4 := hne 8 (by decide)
  have h5 := hne 9 (by decide)
  have h6 := hne 10 (by decide)
  have h7 := hne 11 (by decide)
  show (s.m.mem.write32 (b + 4) s.cur).write32 (b + 8) _ a = s.m.mem a
  rw [Memory.write32_of_le _ _ _ _ (by bv_omega), Memory.write32_of_le _ _ _ _ (by bv_omega)]

/-- threads 2 and 1 are set up, and thread 1 runs -/
theorem boot_to_one : ∃ s1 s2 s3 : Threads,
    SwitchStep blockStacks (idleCode _ _) 0xc0001000 bootThreads (.setup 2) s1 ∧
    SwitchStep blockStacks (idleCode _ _) 0xc0001000 s1 (.setup 1) s2 ∧
    SwitchStep blockStacks (idleCode _ _) 0xc0001000 s2 (.switch 1) s3 ∧
    (s1.m.vars.thread 1).eip = 0x1000000 ∧ s3.cur = 1 ∧ s3.forged = [1, 2] ∧ s3.started = [1] := by
  have hsetup : ∃ s1, SwitchStep blockStacks (idleCode _ _) 0xc0001000 bootThreads (.setup 2) s1 ∧
      ∃ s2, SwitchStep blockStacks (idleCode _ _) 0xc0001000 s1 (.setup 1) s2 ∧ s2.cur = 0 ∧
        s2.forged = [1, 2] ∧ s2.started = [] ∧ (s1.m.vars.thread 1).eip = 0x1000000 ∧
        AtSwitch blockStacks s2 1 := by
    refine ⟨_, .setup (by simp [bootThreads]) (by decide) (by decide) (by decide), _,
      .setup (by simp [bootThreads]) (by decide) (by decide) (by decide), rfl, rfl, rfl, rfl,
      ⟨?_, ?_, ?_, ?_⟩⟩
    · decide
    · decide
    · decide
    · decide
  obtain ⟨s1, h1, s2, h2, hc2, hf2, hs2, heip, ha2⟩ := hsetup
  have hne : (1 : Word) ≠ s2.cur := by
    rw [hc2]
    decide
  obtain ⟨s3, h3⟩ := SwitchStep.exists_switch hne (by decide)
    (Or.inl (by rw [hf2]; exact List.mem_cons_self)) ha2
  obtain ⟨hc3, hf3, hs3⟩ := h3.switch_inv
  refine ⟨s1, s2, s3, h1, h2, h3, heip, hc3, hf3.trans hf2, ?_⟩
  rw [hs3, hs2]

/-- thread 1 calls for thread 2, and thread 2 for thread 1 -/
theorem one_to_two {s3 : Threads} (hc3 : s3.cur = 1) (hf3 : s3.forged = [1, 2])
    (hs3 : s3.started = [1]) : ∃ s4 s5 s6 s7 : Threads, s4.cur = 1 ∧
      SwitchStep blockStacks (idleCode _ _) 0xc0001000 s3 .work s4 ∧
      SwitchStep blockStacks (idleCode _ _) 0xc0001000 s4 (.switch 2) s5 ∧
      SwitchStep blockStacks (idleCode _ _) 0xc0001000 s5 .work s6 ∧
      SwitchStep blockStacks (idleCode _ _) 0xc0001000 s6 (.switch 1) s7 := by
  have hlo4 : blockStacks.lo s3.cur + 36 ≤ (0x18000 : Word).toNat := by
    rw [hc3]
    decide
  have hhi4 : (0x18000 : Word).toNat + 16 ≤ blockStacks.hi s3.cur := by
    rw [hc3]
    decide
  have h4 : SwitchStep blockStacks (idleCode _ _) 0xc0001000 s3 .work (callSwitch s3 2 0x18000) :=
    callSwitch_step s3 2 0x18000 hlo4 hhi4
  have ha4 := atSwitch_callSwitch s3 2 0x18000 hlo4 hhi4
  have hc4 : (callSwitch s3 2 0x18000).cur = 1 := hc3
  have hf4 : (callSwitch s3 2 0x18000).forged = [1, 2] := hf3
  have hs4 : (callSwitch s3 2 0x18000).started = [1] := hs3
  generalize callSwitch s3 2 0x18000 = s4 at h4 ha4 hc4 hf4 hs4
  obtain ⟨s5, h5⟩ := SwitchStep.exists_switch (u := 2) (by rw [hc4]; decide) (by decide)
    (Or.inl (by rw [hf4]; decide)) ha4
  obtain ⟨hc5, -, hs5⟩ := h5.switch_inv
  have hlo6 : blockStacks.lo s5.cur + 36 ≤ (0x28000 : Word).toNat := by
    rw [hc5]
    decide
  have hhi6 : (0x28000 : Word).toNat + 16 ≤ blockStacks.hi s5.cur := by
    rw [hc5]
    decide
  have h6 : SwitchStep blockStacks (idleCode _ _) 0xc0001000 s5 .work (callSwitch s5 1 0x28000) :=
    callSwitch_step s5 1 0x28000 hlo6 hhi6
  have ha6 := atSwitch_callSwitch s5 1 0x28000 hlo6 hhi6
  have hc6 : (callSwitch s5 1 0x28000).cur = 2 := hc5
  have hs6 : (callSwitch s5 1 0x28000).started = [2, 1] := by
    show s5.started = [2, 1]
    rw [hs5, hs4]
  generalize callSwitch s5 1 0x28000 = s6 at h6 ha6 hc6 hs6
  obtain ⟨s7, h7⟩ := SwitchStep.exists_switch (u := 1) (by rw [hc6]; decide) (by decide)
    (Or.inr (by rw [hs6]; decide)) ha6
  exact ⟨s4, s5, s6, s7, hc4, h4, h5, h6, h7⟩

/-- thread `1` is switched away from and back to, and thread `2` is entered in between -/
theorem context_switch_transparent_boot :
    (∃ s s1 s2 s3 : Threads,
      Steps (SwitchStep blockStacks (idleCode _ _) 0xc0001000) bootThreads
        [.setup 2, .setup 1, .switch 1, .work] s ∧
      SwitchStep blockStacks (idleCode _ _) 0xc0001000 s (.switch 2) s1 ∧
      Steps (SwitchStep blockStacks (idleCode _ _) 0xc0001000) s1 [.work] s2 ∧
      SwitchStep blockStacks (idleCode _ _) 0xc0001000 s2 (.switch 1) s3 ∧
      Resumed blockStacks s s3) ∧
    ∃ s1 s3 : Threads,
      Steps (SwitchStep blockStacks (idleCode _ _) 0xc0001000) bootThreads
        [.setup 2, .setup 1, .switch 1] s3 ∧
      s3.eip = 0xc0001000 ∧
      ∃ m, exec (idleCode blockStacks.top blockStacks.keep).env none exitKernel s3.m =
          some (.iret 0x1000000, m) ∧
        UserEntry (s1.m.vars.thread 1) m := by
  obtain ⟨s1, s2, s3, h1, h2, h3, heip, hc3, hf3, hs3⟩ := boot_to_one
  obtain ⟨s4, s5, s6, s7, hc4, h4, h5, h6, h7⟩ := one_to_two hc3 hf3 hs3
  have hrun3 := Steps.snoc (Steps.snoc (Steps.single h1) h2) h3
  refine ⟨⟨s4, s5, s6, s7, .snoc hrun3 h4, h5, .single h6, h7, ?_⟩, s1, s3, hrun3, ?_⟩
  · have h := (context_switch_transparent blockStacks (idleCode _ _) 0xc0001000 ⟨rfl, rfl⟩
      (hrun3.snoc h4)).1 2 [.work] s5 s6 s7 (by rw [hc4]; decide) h5 (.single h6)
    rw [hc4] at h
    exact h (by simp) h7
  · have h := (context_switch_transparent blockStacks (idleCode _ _) 0xc0001000 ⟨rfl, rfl⟩
      (.single h1)).2 1 [] s2 s2 s3 h2 .nil List.not_mem_nil List.not_mem_nil h3
    rw [heip] at h
    exact h

end Paravirt

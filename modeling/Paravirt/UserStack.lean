import Paravirt.TaskCopy
import Paravirt.Exec
import Paravirt.Lib.Steps

/-!
# User stacks (kern/vmm.c: `vmm_user_stack_init`, `vmm_thread_copy`, kern/process.c: `sys_fork`)

All tasks with their one thread each, and what the system calls do to their lists of areas.  Every
user stack starts at the same address.  A thread keeps its stack as an area; an area on a list once
is the only one of its value, so that the value stands for the pointer.

* `sysFork`, `ProcStep`     the calls that change a list, the end of a thread, and the rest of the
                            kernel, which changes memory;
* `StackHeld`               the stack is on the list, once, and it is the one that is found there;
* `vmmTaskCopy_true`        the list of a child;
* `schedStart_started`      the tasks that are started at boot, with which a run begins;
* `stack_registered`        in a run where no `remove_pages` is at the start of a stack, and no
                            program is loaded over it, every thread has its stack on the list.
-/

namespace Paravirt

/-! ## the stacks of a thread -/

def threadDefaultStackSize : Nat := 1024 <<< pageShift
def vmmKernelThreadStackSize : Nat := 1 <<< pageShift

/-- `VMM_KERNEL_BASE - stack_size - PAGE_SIZE` -/
def userStackStart : Nat := u32sub vmmKernelBase (threadDefaultStackSize + pageSize)

/-- `vmm_user_stack_init`; the thread holds the area -/
def vmmUserStackInit (s : VmaState) (task pd : Nat) : Option (VmaState × Bool) :=
  vmAreaAlloc s task pd userStackStart threadDefaultStackSize pgtabAttribUsrRw .zeropage vmaFlagStack
    .none

def vmmKernelStackInit (s : VmaState) (task pd : Nat) : Option (VmaState × Bool) :=
  vmAreaAlloc s task pd 0 vmmKernelThreadStackSize pgtabAttribSuRw .kernelStack vmaFlagStack .none

/-- the area `vmm_user_stack_init` makes -/
def userStackArea (task : Nat) : VmArea :=
  zeroArea task userStackStart threadDefaultStackSize pgtabAttribUsrRw vmaFlagStack

/-- `thread_create` and `do_exec` for a task that is started at boot, without arguments -/
def schedStart (task pd : Nat) (f : Option ExecFile) (s : VmaState) : Option (TaskVm × Bool) :=
  match vmmUserStackInit s task pd with
  | some (s, true) =>
    match vmmKernelStackInit s task pd with
    | some (s, true) =>
      let uvma := userStackArea task
      let mm := (vmAreaZero s.mm pd uvma uvma.startAddress uvma.size).1
      taskLoad task pd f ⟨vmAreaRemoveTaskvm pd uvma { s with mm := mm }, 0, 0⟩
    | _ => none
  | _ => none

/-! ## tasks -/

/-- a task and its thread -/
structure Proc where
  hasParent : Bool
  pd : Nat
  vmas : List VmArea
  userStack : VmArea
  userStackSize : Nat
  file : Nat
  entryPoint : Nat
  eip : Nat
  eflags : Nat
  esp : Nat

/-- the tasks whose thread has not vanished, by their pointers -/
structure Procs where
  heap : List Nat
  mm : Mm
  procs : Nat → Option Proc

namespace Procs

variable (s : Procs) (task : Nat) (p : Proc)

def vmaState : VmaState := ⟨s.heap, s.mm, p.vmas⟩

def put (vm : VmaState) (p : Option Proc) : Procs :=
  ⟨vm.heap, vm.mm, Function.update s.procs task p⟩

def execState : ExecState where
  hasParent := p.hasParent
  task := ⟨s.vmaState p, p.file, p.entryPoint⟩
  userStack := p.userStack
  userStackSize := p.userStackSize
  eip := p.eip
  eflags := p.eflags
  esp := p.esp
  status := 0

/-- the tasks after `sys_exec`.  It returns only to a thread that has vanished, and that has no
memory left to run in -/
def afterExec (e : ExecState) : ExecOutcome → Procs
  | .entered _ _ _ _ => s.put task e.task.vm (some ⟨p.hasParent, p.pd, e.task.vm.vmas, e.userStack,
      e.userStackSize, e.task.file, e.task.entryPoint, e.eip, e.eflags, e.esp⟩)
  | _ => s.put task e.task.vm none

end Procs

/-- `sys_fork` up to the switch to another thread; whether there is a child.  `none` is a panic: an
access through `NULL` where `malloc` fails for a `task_t` or a `thread_t`, or the assertion of
`vmm_thread_copy`.  A task whose thread could not be made stays behind without one -/
def sysFork (addr : VmArea → Nat) (taskIdUsed threadIdUsed : Bool) (s : Procs) (p : Proc) :
    Option (Procs × Bool) :=
  let (child, heap) := malloc s.heap
  if child = 0 then none
  else if taskIdUsed then some ({ s with heap := heap }, false)
  else
    match s.mm.vmmCreatePgdir p.pd with
    | (mm, none) => some ({ s with heap := heap, mm := mm }, false)
    | (mm, some pd) =>
      match vmmTaskCopy child pd p.pd addr p.vmas ⟨heap, mm, []⟩ with
      | none => none
      | some (vm, false) =>
        some ({ s with heap := vm.heap, mm := (taskDeleteVm pd vm).mm.vmmFreePgdir pd }, false)
      | some (vm, true) =>
        let (thread, heap) := malloc vm.heap
        if thread = 0 then none
        else if threadIdUsed then some ({ s with heap := heap, mm := vm.mm }, false)
        else
          match findVmArea vm.vmas p.userStack.startAddress with
          | none => none
          | some uvma =>
            match vmmKernelStackInit { vm with heap := heap } child pd with
            | none => none
            | some (vm, false) => some ({ s with heap := vm.heap, mm := vm.mm }, false)
            | some (vm, true) =>
              some (s.put child vm (some { p with
                hasParent := true, pd := pd, vmas := vm.vmas, userStack := uvma }), true)

/-! ## runs -/

/-- the executables, `machine_phys_frames()`, and the addresses of areas -/
structure ProcEnv where
  exec2obj : List Nat → Option ExecFile
  numPpf : Nat
  addr : VmArea → Nat

inductive ProcOp where
  | fork (task : Nat) (taskIdUsed threadIdUsed : Bool)
  | exec (task : Nat) (path : List Nat) (argvec : List (List Nat))
  | newPages (task : Nat) (taskCount : Int) (addr : Nat) (size : Int)
  | removePages (task : Nat) (count : VmArea → Nat) (addr : Nat)
  /-- `vanish`, a fault that is not handled, or `task_vanish` by another thread -/
  | vanish (task : Nat)
  /-- whatever leaves the lists alone: stores, page faults, `wait`, the scheduler -/
  | other (heap : List Nat) (mm : Mm)

def ProcStep (k : ProcEnv) (s : Procs) : ProcOp → Procs → Prop
  | .fork task taskIdUsed threadIdUsed, s' =>
    ∃ p ok, s.procs task = some p ∧ sysFork k.addr taskIdUsed threadIdUsed s p = some (s', ok)
  | .exec task path argvec, s' =>
    ∃ p e out, s.procs task = some p ∧
      sysExec k.exec2obj task p.pd (s.execState p) path argvec = some (e, out) ∧
      s' = s.afterExec task p e out
  | .newPages task taskCount addr size, s' =>
    ∃ p vm count rc, s.procs task = some p ∧
      sysNewPages k.numPpf (s.vmaState p) taskCount task p.pd addr size = some ((vm, count), rc) ∧
      s' = s.put task vm (some { p with vmas := vm.vmas })
  | .removePages task count addr, s' =>
    ∃ p mm vmas rc, s.procs task = some p ∧
      sysRemovePages count s.mm p.pd p.vmas addr = ((mm, vmas), rc) ∧
      s' = s.put task ⟨s.heap, mm, vmas⟩ (some { p with vmas := vmas })
  | .vanish task, s' =>
    ∃ p, s.procs task = some p ∧ s' = s.put task (taskDeleteVm p.pd (s.vmaState p)) none
  | .other heap mm, s' => s' = { s with heap := heap, mm := mm }

/-- no segment of the executable has a page with the start of the stack -/
def ClearOfStack (f : ExecFile) : Prop :=
  ∀ heap heap' se task file, elfLoadHelper heap (some f) = some (heap', some se) →
    ∀ v ∈ loadedAreas task file se, v.covers userStackStart = false

/-- the stacks stay: they are not named in `remove_pages`, and no program is loaded over them -/
def ProcOp.SparesStacks (k : ProcEnv) : ProcOp → Prop
  | .removePages _ _ addr => addr ≠ userStackStart
  | .exec _ path _ => ∀ f, k.exec2obj path = some f → ClearOfStack f
  | _ => True

/-- a step that spares them -/
def SparingStep (k : ProcEnv) (s : Procs) (op : ProcOp) (s' : Procs) : Prop :=
  op.SparesStacks k ∧ ProcStep k s op s'

/-- a task as it is started at boot: its stacks, and the areas of a program clear of them -/
structure Started (task : Nat) (p : Proc) : Prop where
  userStack : p.userStack = userStackArea task
  areas : ∃ kstack prog, p.vmas.Perm (userStackArea task :: kstack :: prog) ∧
    kstack.type = .kernelStack ∧ ∀ v ∈ prog, v.covers userStackStart = false

/-! ## the stack on a list -/

/-- the stack is on the list once, and what is found at its start is the stack -/
structure StackHeld (vmas : List VmArea) (stack : VmArea) : Prop where
  once : vmas.count stack = 1
  start : stack.startAddress = userStackStart
  ok : stack.Ok
  type : stack.type = .zeropage
  flag : stack.vmaFlags &&& vmaFlagStack ≠ 0
  only : ∀ v ∈ vmas, v.copied = true → v.covers userStackStart = true → v = stack

namespace StackHeld
variable {vmas vmas' : List VmArea} {stack : VmArea}

theorem mem (h : StackHeld vmas stack) : stack ∈ vmas :=
  List.count_pos_iff.mp (Nat.lt_of_lt_of_eq Nat.one_pos h.once.symm)

theorem covers (h : StackHeld vmas stack) : stack.covers userStackStart = true := by
  have hpos := h.ok.pos
  have hstart := h.start
  refine h.ok.covers_of_contains ⟨by omega, by omega⟩

theorem copied (h : StackHeld vmas stack) : stack.copied = true := by
  unfold VmArea.copied
  rw [h.type]
  rfl

/-- other areas come -/
theorem append (h : StackHeld vmas stack) {l : List VmArea} (hp : vmas'.Perm (l ++ vmas))
    (hl : ∀ v ∈ l, v.copied = true → v.covers userStackStart = false) : StackHeld vmas' stack where
  once := by
    have hnot : stack ∉ l := fun hm => Bool.false_ne_true ((hl stack hm h.copied).symm.trans h.covers)
    rw [hp.count_eq, List.count_append, List.count_eq_zero.mpr hnot, h.once]
  start := h.start
  ok := h.ok
  type := h.type
  flag := h.flag
  only v hv hc hcov := by
    rcases List.mem_append.mp (hp.mem_iff.mp hv) with hv | hv
    · exact absurd ((hl v hv hc).symm.trans hcov) Bool.false_ne_true
    · exact h.only v hv hc hcov

/-- another area goes -/
theorem erase (h : StackHeld vmas stack) {v : VmArea} (hne : v ≠ stack) :
    StackHeld (vmas.erase v) stack where
  once := by rw [List.count_erase_of_ne hne.symm, h.once]
  start := h.start
  ok := h.ok
  type := h.type
  flag := h.flag
  only w hw := h.only w (List.mem_of_mem_erase hw)

/-- `exec` keeps areas that are stacks -/
theorem reload (h : StackHeld vmas stack) : StackHeld (vmas.filter VmArea.keptByReload) stack where
  once := by
    have hkept : stack.keptByReload = true := by
      unfold VmArea.keptByReload
      exact decide_eq_true (.inr (.inr h.flag))
    rw [List.count_filter hkept, h.once]
  start := h.start
  ok := h.ok
  type := h.type
  flag := h.flag
  only w hw := h.only w (List.mem_of_mem_filter hw)

/-- what `find_vm_area` finds at the start of the stack, where only areas are that are copied -/
theorem find (h : StackHeld vmas stack) (hall : ∀ v ∈ vmas, v.copied = true) :
    findVmArea vmas userStackStart = some stack := by
  cases hf : findVmArea vmas userStackStart with
  | none => exact absurd h.covers (Bool.eq_false_iff.mp (find_none_iff.mp hf stack h.mem))
  | some v =>
    have hv := List.mem_of_find?_eq_some hf
    have hcov := List.find?_some (p := fun w : VmArea => w.covers userStackStart) hf
    rw [h.only v hv (hall v hv) hcov]

end StackHeld

/-! ## the list of a child -/

/-- the copy of an area for the task `dst` -/
def copyArea (dst : Nat) (addr : VmArea → Nat) (v : VmArea) : VmArea :=
  { v with
    task := dst
    src := ⟨if v.type = .file ∨ v.type = .copy ∨ v.type = .cow then v.src.ptr else addr v, 0⟩ }

section
variable {dst dstPd srcPd : Nat} {addr : VmArea → Nat}

theorem vmAreaAlloc_copy {s s' : VmaState} {v : VmArea}
    (h : vmAreaAlloc s dst dstPd v.startAddress v.size v.flags .copy v.vmaFlags
      (.vma (addr v) srcPd v) = some (s', true)) :
    s'.vmas.Perm (copyArea dst addr v :: s.vmas) := by
  obtain ⟨mm, vma, hi, rfl⟩ := vmAreaAlloc_true h
  have hcopy : vma = copyArea dst addr v := by
    have hi' := Option.some.inj hi
    unfold vmAreaInitCopy at hi'
    dsimp only at hi'
    split at hi'
    · split at hi'
      · rename_i hty
        rw [← Option.some.inj (congrArg Prod.snd hi')]
        unfold copyArea
        rw [if_pos (.inl hty)]
        rfl
      · rename_i hty
        rw [← Option.some.inj (congrArg Prod.snd hi')]
        unfold copyArea
        simp only [hty, false_or]
        rfl
    · exact absurd (congrArg Prod.snd hi').symm (Option.some_ne_none vma)
  rw [hcopy]
  exact vmAreaAdd_perm _ _

/-- **the child's list** has a copy of each area that is copied -/
theorem vmmTaskCopy_true (l : List VmArea) {s s' : VmaState}
    (h : vmmTaskCopy dst dstPd srcPd addr l s = some (s', true)) :
    s'.vmas.Perm ((l.filter VmArea.copied).map (copyArea dst addr) ++ s.vmas) := by
  induction l generalizing s with
  | nil =>
    cases h
    exact List.Perm.refl _
  | cons v l ih =>
    unfold vmmTaskCopy at h
    by_cases hc : v.copied = true
    · rw [if_pos hc] at h
      rw [List.filter_cons_of_pos hc, List.map_cons]
      generalize ha : vmAreaAlloc s dst dstPd _ _ _ _ _ _ = r at h
      obtain _ | ⟨s1, _ | _⟩ := r
      · exact absurd h.symm (Option.some_ne_none _)
      · cases h
      · have h1 := vmAreaAlloc_copy ha
        have h2 := (ih h).trans (h1.append_left _)
        exact h2.trans List.perm_middle
    · rw [if_neg hc] at h
      rw [List.filter_cons_of_neg hc]
      exact ih h

theorem copyArea_covers (v : VmArea) (a : Nat) : (copyArea dst addr v).covers a = v.covers a := rfl

/-- **the stack of a child** is the copy of its parent's -/
theorem StackHeld.copy {vmas vmas' : List VmArea} {stack : VmArea} (h : StackHeld vmas stack)
    (hp : vmas'.Perm ((vmas.filter VmArea.copied).map (copyArea dst addr))) :
    StackHeld vmas' (copyArea dst addr stack) where
  once := by
    have hback : ∀ v ∈ vmas.filter VmArea.copied,
        copyArea dst addr v = copyArea dst addr stack → v = stack := by
      intro v hv he
      obtain ⟨hv, hc⟩ := List.mem_filter.mp hv
      refine h.only v hv hc ?_
      rw [← @copyArea_covers dst addr v, he, copyArea_covers]
      exact h.covers
    have hcount : ((vmas.filter VmArea.copied).map (copyArea dst addr)).count
        (copyArea dst addr stack) = (vmas.filter VmArea.copied).count stack := by
      unfold List.count
      rw [List.countP_map]
      refine List.countP_congr fun v hv => ?_
      rw [Function.comp_apply, beq_iff_eq, beq_iff_eq]
      exact ⟨hback v hv, fun he => congrArg (copyArea dst addr) he⟩
    rw [hp.count_eq, hcount, List.count_filter h.copied, h.once]
  start := h.start
  ok := ⟨h.ok.pos, h.ok.noWrap, h.ok.flags, h.ok.nopage, h.ok.user⟩
  type := h.type
  flag := h.flag
  only v hv _ hcov := by
    obtain ⟨w, hw, rfl⟩ := List.mem_map.mp (hp.mem_iff.mp hv)
    obtain ⟨hw, hc⟩ := List.mem_filter.mp hw
    rw [h.only w hw hc hcov]

theorem copies_copied {vmas vmas' : List VmArea}
    (hp : vmas'.Perm ((vmas.filter VmArea.copied).map (copyArea dst addr))) :
    ∀ v ∈ vmas', v.copied = true := by
  intro v hv
  obtain ⟨w, hw, rfl⟩ := List.mem_map.mp (hp.mem_iff.mp hv)
  exact (List.mem_filter.mp hw).2

/-- **the lookup of `vmm_thread_copy`** finds the copy of the stack -/
theorem StackHeld.lookup {vmas : List VmArea} {stack : VmArea} (h : StackHeld vmas stack)
    {heap : List Nat} {mm : Mm} {vm : VmaState}
    (hcopy : vmmTaskCopy dst dstPd srcPd addr vmas ⟨heap, mm, []⟩ = some (vm, true)) :
    findVmArea vm.vmas stack.startAddress = some (copyArea dst addr stack) ∧
      StackHeld vm.vmas (copyArea dst addr stack) := by
  have hp := vmmTaskCopy_true vmas hcopy
  rw [List.append_nil] at hp
  have hheld := h.copy hp
  rw [h.start]
  exact ⟨hheld.find (copies_copied hp), hheld⟩

end

/-! ## the calls -/

section
variable {k : ProcEnv} {task pd addr : Nat} {size : Int} {stack : VmArea} {s s' : VmaState}

/-- what a call of `sys_new_pages` adds -/
theorem sysNewPages_adds {numPpf : Nat} {c c' rc : Int}
    (h : sysNewPages numPpf s c task pd addr size = some ((s', c'), rc)) :
    s'.vmas = s.vmas ∨ newPagesArgs numPpf addr size = true ∧
      (∀ v ∈ s.vmas, v.overlaps addr size.toNat = false) ∧
      s'.vmas = vmAreaAdd (newArea task addr size.toNat) s.vmas := by
  by_cases hrc : rc = 0
  · subst hrc
    obtain ⟨hargs, hover, -, rfl, -⟩ := sysNewPages_ok h
    exact .inr ⟨hargs, hover, rfl⟩
  · left
    unfold sysNewPages at h
    split at h
    · cases h
      rfl
    · rw [vmAreaAllocTask_new] at h
      split at h
      · cases h
        rfl
      · split at h
        · cases h
          exact absurd rfl hrc
        · cases h
          rfl

theorem StackHeld.newPages {numPpf : Nat} {c c' rc : Int} (h : StackHeld s.vmas stack)
    (hs : sysNewPages numPpf s c task pd addr size = some ((s', c'), rc)) :
    StackHeld s'.vmas stack := by
  rcases sysNewPages_adds hs with he | ⟨hargs, hover, he⟩
  · rw [he]
    exact h
  · rw [he]
    refine h.append (l := [newArea task addr size.toNat]) (vmAreaAdd_perm _ _) fun v hv _ => ?_
    rw [List.mem_singleton.mp hv]
    obtain ⟨-, h2, h3, h4, -⟩ := newPagesArgs_iff hargs
    have hnew : (newArea task addr size.toNat).Ok := newArea_ok hargs
    have hd := h.ok.disjoint_of_not_overlaps h3 hnew.noWrap (hover stack h.mem)
    rw [Bool.eq_false_iff]
    intro hc
    exact absurd h.covers (Bool.eq_false_iff.mp (h.ok.not_covers_of_disjoint hnew h2 h4 hd hc))

theorem StackHeld.removePages {count : VmArea → Nat} {mm mm' : Mm} {vmas vmas' : List VmArea}
    {rc : Int} (h : StackHeld vmas stack) (hne : addr ≠ userStackStart)
    (hs : sysRemovePages count mm pd vmas addr = ((mm', vmas'), rc)) : StackHeld vmas' stack := by
  unfold sysRemovePages at hs
  split at hs
  · cases hs
    exact h
  · rename_i v hfind
    split at hs
    · cases hs
      exact h
    · rename_i hstart
      cases hs
      refine h.erase fun he => hne ?_
      rw [not_not.mp hstart, he, h.start]

theorem vmmKernelStackInit_adds (hs : vmmKernelStackInit s task pd = some (s', true)) :
    ∃ v, v.type = .kernelStack ∧ s'.vmas.Perm (v :: s.vmas) := by
  obtain ⟨mm, v, hi, rfl⟩ := vmAreaAlloc_true hs
  refine ⟨v, ?_, vmAreaAdd_perm v s.vmas⟩
  have hi' := Option.some.inj hi
  unfold vmAreaInitKernelStack at hi'
  dsimp only at hi'
  split at hi'
  · exact absurd (congrArg Prod.snd hi').symm (Option.some_ne_none v)
  · split at hi'
    · rw [← Option.some.inj (congrArg Prod.snd hi')]
      rfl
    · exact absurd (congrArg Prod.snd hi').symm (Option.some_ne_none v)

theorem copied_kernelStack {v : VmArea} (h : v.type = .kernelStack) : v.copied = false := by
  unfold VmArea.copied
  rw [h]
  rfl

/-- a kernel stack is not a copied area -/
theorem StackHeld.kernelStack (h : StackHeld s.vmas stack)
    (hs : vmmKernelStackInit s task pd = some (s', true)) : StackHeld s'.vmas stack := by
  obtain ⟨v, hty, hp⟩ := vmmKernelStackInit_adds hs
  refine h.append (l := [v]) hp fun w hw hc => ?_
  rw [List.mem_singleton.mp hw, copied_kernelStack hty] at hc
  exact absurd hc Bool.false_ne_true

/-- a program is loaded behind the areas that were kept -/
theorem taskLoad_some {f : Option ExecFile} {t t' : TaskVm}
    (h : taskLoad task pd f t = some (t', true)) :
    ∃ g heap heap' se, f = some g ∧ elfLoadHelper heap (some g) = some (heap', some se) ∧
      t'.vm.vmas.Perm (loadedAreas task t'.file se ++ t.vm.vmas) := by
  cases f with
  | none =>
    obtain ⟨t1, h1⟩ := taskLoad_noFile task pd t
    rw [h1] at h
    cases h
  | some g =>
    obtain ⟨heap, heap', se, h1, -, h2⟩ := taskLoad_true h
    exact ⟨g, heap, heap', se, rfl, h1, h2⟩

/-- the ends of `exec` that leave no thread with a memory -/
def ExecOutcome.ends : ExecOutcome → Prop
  | .entered _ _ _ _ => False
  | _ => True

theorem sysExecFail_ends (pd : Nat) (e : ExecState) : (e.sysExecFail pd).2.ends := by
  unfold ExecState.sysExecFail
  cases e.hasParent <;> trivial

theorem vanishInReload_some {e e' : ExecState} {out : ExecOutcome}
    (h : e.vanishInReload pd = some (e', out)) : out = .vanished ∧ e' = e.vanish pd := by
  unfold ExecState.vanishInReload at h
  split at h
  · cases h
    exact ⟨rfl, rfl⟩
  · cases h

/-- `exec` ends in the new program or with the end of the thread -/
theorem sysExec_cases {exec2obj : List Nat → Option ExecFile} {e e' : ExecState}
    {path : List Nat} {argvec : List (List Nat)} {out : ExecOutcome}
    (h : sysExec exec2obj task pd e path argvec = some (e', out)) :
    out.ends ∨ e'.userStack = e.userStack ∧ ∃ g heap heap' se,
      exec2obj path = some g ∧ elfLoadHelper heap (some g) = some (heap', some se) ∧
      e'.task.vm.vmas.Perm
        (loadedAreas task e'.task.file se ++ e.task.vm.vmas.filter VmArea.keptByReload) := by
  unfold sysExec at h
  dsimp only at h
  -- no memory for the arguments
  split at h
  · cases h
    exact .inl (sysExecFail_ends pd _)
  split at h
  · cases h
    exact .inl (sysExecFail_ends pd _)
  unfold taskReload at h
  split at h
  · cases h
  rename_i e1 hprep
  -- the areas `task_reload` keeps
  have hkept : e1.userStack = e.userStack ∧
      e1.task.vm.vmas = e.task.vm.vmas.filter VmArea.keptByReload := by
    unfold reloadPrepare at hprep
    dsimp only at hprep
    split at hprep
    · cases hprep
    · cases hprep
      exact ⟨rfl, rfl⟩
  split at h
  · cases h
  · rw [(vanishInReload_some h).1]
    exact .inl trivial
  · rename_i t hload
    cases h
    obtain ⟨g, heap, heap', se, hg, he, hp⟩ := taskLoad_some hload
    rw [hkept.2] at hp
    exact .inr ⟨hkept.1, g, heap, heap', se, hg, he, hp⟩

theorem StackHeld.exec {exec2obj : List Nat → Option ExecFile} {e e' : ExecState}
    {path : List Nat} {argvec : List (List Nat)} {out : ExecOutcome}
    (h : StackHeld e.task.vm.vmas e.userStack)
    (hclear : ∀ f, exec2obj path = some f → ClearOfStack f)
    (hs : sysExec exec2obj task pd e path argvec = some (e', out)) :
    out.ends ∨ StackHeld e'.task.vm.vmas e'.userStack := by
  rcases sysExec_cases hs with hout | ⟨hstack, g, heap, heap', se, hg, he, hp⟩
  · exact .inl hout
  · rw [hstack]
    exact .inr (h.reload.append hp fun v hv _ => hclear g hg heap heap' se task _ he v hv)

/-- a child is made with the copy of the stack -/
theorem sysFork_cases {addr : VmArea → Nat} {taskIdUsed threadIdUsed : Bool} {s s' : Procs}
    {p : Proc} {ok : Bool} (h : StackHeld p.vmas p.userStack)
    (hs : sysFork addr taskIdUsed threadIdUsed s p = some (s', ok)) :
    s'.procs = s.procs ∨ ∃ child q, s'.procs = Function.update s.procs child (some q) ∧
      StackHeld q.vmas q.userStack := by
  unfold sysFork at hs
  dsimp only at hs
  split at hs
  · cases hs
  split at hs
  · cases hs
    exact .inl rfl
  split at hs
  · cases hs
    exact .inl rfl
  split at hs
  · cases hs
  · cases hs
    exact .inl rfl
  rename_i vm hcopy
  split at hs
  · cases hs
  split at hs
  · cases hs
    exact .inl rfl
  obtain ⟨hfind, hchild⟩ := h.lookup hcopy
  rw [hfind] at hs
  dsimp only at hs
  split at hs
  · cases hs
  · cases hs
    exact .inl rfl
  · rename_i vm' hkstack
    cases hs
    exact .inr ⟨_, _, rfl, hchild.kernelStack (s := { vm with heap := vm.heap.tail }) hkstack⟩

end

/-! ## runs -/

/-- every thread has its stack -/
def StacksHeld (s : Procs) : Prop :=
  ∀ task p, s.procs task = some p → StackHeld p.vmas p.userStack

theorem StacksHeld.update {s s' : Procs} {task : Nat} {q : Option Proc} (h : StacksHeld s)
    (hs : s'.procs = Function.update s.procs task q)
    (hq : ∀ p, q = some p → StackHeld p.vmas p.userStack) : StacksHeld s' := by
  intro t p ht
  rw [hs] at ht
  by_cases he : t = task
  · rw [he, Function.update_self] at ht
    exact hq p ht
  · rw [Function.update_of_ne he] at ht
    exact h t p ht

/-- **one step** keeps the stacks -/
theorem StacksHeld.step {k : ProcEnv} {s s' : Procs} {op : ProcOp} (h : StacksHeld s)
    (hop : op.SparesStacks k) (hs : ProcStep k s op s') : StacksHeld s' := by
  cases op with
  | fork task taskIdUsed threadIdUsed =>
    obtain ⟨p, ok, hp, hfork⟩ := hs
    rcases sysFork_cases (h task p hp) hfork with he | ⟨child, q, he, hq⟩
    · intro t r hr
      rw [he] at hr
      exact h t r hr
    · refine h.update he fun r hr => ?_
      rw [← Option.some.inj hr]
      exact hq
  | exec task path argvec =>
    obtain ⟨p, e, out, hp, hexec, rfl⟩ := hs
    have hheld := StackHeld.exec (e := s.execState p) (h task p hp) hop hexec
    cases out with
    | vanished => exact h.update rfl fun r hr => absurd hr.symm (Option.some_ne_none r)
    | returned rc => exact h.update rfl fun r hr => absurd hr.symm (Option.some_ne_none r)
    | entered eip eflags esp pageDir =>
      refine h.update rfl fun r hr => ?_
      rw [← Option.some.inj hr]
      exact hheld.resolve_left id
  | newPages task taskCount addr size =>
    obtain ⟨p, vm, count, rc, hp, hnew, rfl⟩ := hs
    refine h.update rfl fun r hr => ?_
    rw [← Option.some.inj hr]
    exact StackHeld.newPages (s := s.vmaState p) (h task p hp) hnew
  | removePages task count addr =>
    obtain ⟨p, mm, vmas, rc, hp, hrem, rfl⟩ := hs
    refine h.update rfl fun r hr => ?_
    rw [← Option.some.inj hr]
    exact (h task p hp).removePages hop hrem
  | vanish task =>
    obtain ⟨p, hp, rfl⟩ := hs
    exact h.update rfl fun r hr => absurd hr.symm (Option.some_ne_none r)
  | other heap mm =>
    obtain rfl := hs
    exact h

/-! ## the boot -/

/-- a task that is started at boot is one -/
theorem schedStart_started {task pd : Nat} {f : Option ExecFile} {heap : List Nat} {mm : Mm}
    {t : TaskVm} {p : Proc} (hclear : ∀ g, f = some g → ClearOfStack g)
    (h : schedStart task pd f ⟨heap, mm, []⟩ = some (t, true)) (hvmas : p.vmas = t.vm.vmas)
    (hstack : p.userStack = userStackArea task) : Started task p := by
  unfold schedStart at h
  split at h
  · rename_i s1 hu
    split at h
    · rename_i s2 hk
      dsimp only at h
      obtain ⟨g, heap1, heap2, se, hg, he, hp⟩ := taskLoad_some h
      obtain ⟨v, hty, hp2⟩ := vmmKernelStackInit_adds hk
      have hp1 : s1.vmas.Perm [userStackArea task] := vmAreaAlloc_zeropage hu
      -- both stacks are kept
      have hkept : (s2.vmas.filter VmArea.keptByReload).Perm [userStackArea task, v] := by
        have hall : [v, userStackArea task].filter VmArea.keptByReload =
            [v, userStackArea task] := by
          refine List.filter_eq_self.mpr fun w hw => ?_
          unfold VmArea.keptByReload
          rcases List.mem_pair.mp hw with rfl | rfl
          · exact decide_eq_true (.inl hty)
          · have hflag : vmaFlagStack &&& vmaFlagStack ≠ 0 := by decide
            exact decide_eq_true (.inr (.inr hflag))
        have h2 := (hp2.trans (hp1.cons v)).filter VmArea.keptByReload
        rw [hall] at h2
        exact h2.trans (List.Perm.swap _ _ _)
      refine ⟨hstack, v, loadedAreas task t.file se, ?_, hty,
        hclear g hg heap1 heap2 se task t.file he⟩
      rw [hvmas]
      exact hp.trans ((hkept.append_left _).trans List.perm_append_comm)
    · cases h
  · cases h

theorem userStackArea_ok (task : Nat) : (userStackArea task).Ok where
  pos := show 0 < threadDefaultStackSize by decide
  noWrap := show userStackStart + threadDefaultStackSize ≤ 2^32 by decide
  flags := show pgtabAttribUsrRw < 4096 by decide
  nopage := rfl
  user _ := show userMemStart ≤ userStackStart ∧
    userStackStart + threadDefaultStackSize ≤ vmmKernelBase by decide

/-- it has its stack -/
theorem Started.held {task : Nat} {p : Proc} (h : Started task p) :
    StackHeld p.vmas p.userStack := by
  obtain ⟨kstack, prog, hp, hty, hclear⟩ := h.areas
  have h0 : StackHeld [userStackArea task] (userStackArea task) :=
    { once := List.count_singleton_self
      start := rfl
      ok := userStackArea_ok task
      type := rfl
      flag := show vmaFlagStack &&& vmaFlagStack ≠ 0 by decide
      only := fun v hv _ _ => List.mem_singleton.mp hv }
  rw [h.userStack]
  have hp' : p.vmas.Perm ((kstack :: prog) ++ [userStackArea task]) :=
    hp.trans (@List.perm_append_comm _ [userStackArea task] (kstack :: prog))
  refine h0.append hp' fun v hv hc => ?_
  rcases List.mem_cons.mp hv with rfl | hv
  · rw [copied_kernelStack hty] at hc
    exact absurd hc Bool.false_ne_true
  · exact hclear v hv

/-- **every thread has its stack on the list of its task**, and a fork finds it, in a run from the
boot whose steps spare the stacks -/
theorem stack_registered {k : ProcEnv} {s s' : Procs} {ops : List ProcOp}
    (h0 : ∀ task p, s.procs task = some p → Started task p)
    (hrun : Steps (SparingStep k) s ops s') {task : Nat} {p : Proc}
    (hp : s'.procs task = some p) :
    p.vmas.count p.userStack = 1 ∧ ∀ child pd heap mm vm,
      vmmTaskCopy child pd p.pd k.addr p.vmas ⟨heap, mm, []⟩ = some (vm, true) →
        (findVmArea vm.vmas p.userStack.startAddress).isSome := by
  have hheld : StacksHeld s' :=
    hrun.invariant (fun _ _ _ h hs => h.step hs.1 hs.2) fun task p hp => (h0 task p hp).held
  have h := hheld task p hp
  refine ⟨h.once, fun child pd heap mm vm hcopy => ?_⟩
  rw [(h.lookup hcopy).1]
  rfl

/-! ## a task with one page of program -/

def bootKstack : VmArea :=
  { vmAreaInit 1 0xc1c00000 0x1000 pgtabAttribSuRw .kernelStack vmaFlagStack with
    src := ⟨0xc1c00000, 0⟩ }

def bootText : VmArea := fileArea 1 0x01000000 0x1000 pgtabAttribUsrRo 0 0xc1800000 0x1000

def bootProc : Proc where
  hasParent := false
  pd := 0xc0400000
  vmas := [bootText, userStackArea 1, bootKstack]
  userStack := userStackArea 1
  userStackSize := threadDefaultStackSize
  file := 0xc1800000
  entryPoint := 0x01000000
  eip := 0x01000000
  eflags := resetEflags
  esp := 0xbfffefe0

def bootProcs : Procs where
  heap := [0xc1900000, 0xc1a00000, 0xc1b00000]
  mm := smallMm
  procs := Function.update (fun _ => none) 1 (some bootProc)

def bootEnv : ProcEnv := ⟨fun _ => none, 4096, VmArea.startAddress⟩

theorem bootProc_started : Started 1 bootProc where
  userStack := rfl
  areas := by
    refine ⟨bootKstack, [bootText], ?_, rfl, fun v hv => ?_⟩
    · exact (List.Perm.swap _ _ _).trans ((List.Perm.swap _ _ _).cons _)
    · rw [List.mem_singleton.mp hv]
      decide

theorem bootProcs_started {task : Nat} {p : Proc} (hp : bootProcs.procs task = some p) :
    Started task p := by
  by_cases he : task = 1
  · rw [he] at hp ⊢
    rw [← Option.some.inj hp]
    exact bootProc_started
  · have hnone : bootProcs.procs task = none := by
      show Function.update (fun _ => none) 1 (some bootProc) task = none
      exact Function.update_of_ne he _ _
    rw [hnone] at hp
    exact absurd hp.symm (Option.some_ne_none p)

/-- the task after `remove_pages(addr)`, and all of the state -/
def afterRemove (count : VmArea → Nat) (addr : Nat) : Proc :=
  { bootProc with vmas := (sysRemovePages count smallMm 0xc0400000 bootProc.vmas addr).1.2 }

def afterRemoveProcs (count : VmArea → Nat) (addr : Nat) : Procs :=
  let r := sysRemovePages count smallMm 0xc0400000 bootProc.vmas addr
  bootProcs.put 1 ⟨bootProcs.heap, r.1.1, r.1.2⟩ (some (afterRemove count addr))

theorem afterRemove_step (count : VmArea → Nat) (addr : Nat) :
    ProcStep bootEnv bootProcs (.removePages 1 count addr) (afterRemoveProcs count addr) :=
  ⟨bootProc, (sysRemovePages count smallMm 0xc0400000 bootProc.vmas addr).1.1,
    (sysRemovePages count smallMm 0xc0400000 bootProc.vmas addr).1.2,
    (sysRemovePages count smallMm 0xc0400000 bootProc.vmas addr).2, rfl, rfl, rfl⟩

theorem afterRemove_proc (count : VmArea → Nat) (addr : Nat) :
    (afterRemoveProcs count addr).procs 1 = some (afterRemove count addr) := by
  show Function.update bootProcs.procs 1 (some (afterRemove count addr)) 1 = _
  exact Function.update_self _ _ _

/-- the program's own page is removed -/
theorem stack_registered_boot :
    Steps (SparingStep bootEnv) bootProcs [.removePages 1 (fun _ => 1) 0x01000000]
      (afterRemoveProcs (fun _ => 1) 0x01000000) ∧
    bootText ∉ (afterRemove (fun _ => 1) 0x01000000).vmas ∧
    (afterRemove (fun _ => 1) 0x01000000).vmas.count (userStackArea 1) = 1 := by
  have hstep : SparingStep bootEnv bootProcs (.removePages 1 (fun _ => 1) 0x01000000)
      (afterRemoveProcs (fun _ => 1) 0x01000000) :=
    ⟨show (0x01000000 : Nat) ≠ userStackStart by decide, afterRemove_step _ _⟩
  refine ⟨Steps.single hstep, by decide, ?_⟩
  exact (stack_registered (fun _ _ h => bootProcs_started h) (Steps.single hstep)
    (afterRemove_proc _ _)).1

/-- `remove_pages(0xbfbff000)`, and then a fork: the assertion of `vmm_thread_copy` fails -/
theorem stack_removed_fork_panics :
    (∀ task q, bootProcs.procs task = some q → Started task q) ∧
    Steps (ProcStep bootEnv) bootProcs [.removePages 1 (fun _ => 2) 0xbfbff000]
      (afterRemoveProcs (fun _ => 2) 0xbfbff000) ∧
    (afterRemoveProcs (fun _ => 2) 0xbfbff000).procs 1 =
      some (afterRemove (fun _ => 2) 0xbfbff000) ∧
    userStackArea 1 ∉ (afterRemove (fun _ => 2) 0xbfbff000).vmas ∧
    (∃ vm, vmmTaskCopy 0xc1900000 0xc0401000 0xc0400000 bootEnv.addr
        (afterRemove (fun _ => 2) 0xbfbff000).vmas
        ⟨[0xc1a00000], (afterRemoveProcs (fun _ => 2) 0xbfbff000).mm, []⟩ = some (vm, true) ∧
      findVmArea vm.vmas userStackStart = none) ∧
    sysFork bootEnv.addr false false (afterRemoveProcs (fun _ => 2) 0xbfbff000)
      (afterRemove (fun _ => 2) 0xbfbff000) = none := by
  refine ⟨fun _ _ h => bootProcs_started h, Steps.single (afterRemove_step _ _),
    afterRemove_proc _ _, by decide, ?_, ?_⟩
  · have hcopy : (vmmTaskCopy 0xc1900000 0xc0401000 0xc0400000 bootEnv.addr
        (afterRemove (fun _ => 2) 0xbfbff000).vmas
        ⟨[0xc1a00000], (afterRemoveProcs (fun _ => 2) 0xbfbff000).mm, []⟩).map
          (fun r => (r.2, findVmArea r.1.vmas userStackStart)) = some (true, none) := by
      decide
    obtain ⟨⟨vm, ok⟩, hvm, he⟩ := Option.map_eq_some_iff.mp hcopy
    cases congrArg Prod.fst he
    exact ⟨vm, hvm, congrArg Prod.snd he⟩
  · refine Option.isNone_iff_eq_none.mp ?_
    decide

end Paravirt

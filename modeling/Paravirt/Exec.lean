import Paravirt.TaskLoad
import Paravirt.Fault

/-!
# exec (kern/process.c: `sys_exec`, kern/task.c: `task_reload`)

`sysExec` runs the system call for the calling thread, with its arguments as read from user memory.
The state is that of the caller: its areas and pages, its `task_t` and its saved user registers.
Reference counts of files are left out; an area taken off the list is freed unless the thread holds
it as its stack.

* `reloadPrepare`   what `task_reload` does before `task_load`: the stack is zeroed, the arguments are
                    copied to it, the other areas go, and so does the file;
* `taskReload`      all of it.  Where `task_load` fails the task vanishes;
* `ExecOutcome`     how the call ends for its caller.

A thread that was started at boot has no parent, and `thread_vanish` leaves its state RUNNABLE:
`sched_yield` puts it back on the queue, and the call that ended it goes on when its turn comes.

`sysExec_loadFails` says what a failed load leaves, and `exec_never_survives_failed_load` that it is
never what a caller could go on with.
-/

set_option linter.unusedVariables false

namespace Paravirt

/-! ## the arguments on the user stack -/

/-- the kernel writes to user memory through the tables of the task; `none` is a page fault in the
kernel, a panic -/
def writeUser (pd : Nat) : List (Nat × Nat) → Mm → Option Mm
  | [], mm => some mm
  | (addr, byte) :: ws, mm =>
    let page := pageAddr (mm.vmmGetMapping pd addr)
    if page = 0 then none else writeUser pd ws (mm.memset (p2v page + pageDiv addr) byte 1)

def wordWrites (addr v : Nat) : List (Nat × Nat) :=
  [(addr, v % 256), (u32 (addr + 1), v / 256 % 256), (u32 (addr + 2), v / 65536 % 256),
    (u32 (addr + 3), v / 16777216 % 256)]

/-- `argvec_str_size` and `argvec_array_size` of `get_string_array_dim` -/
def argvecStrSize (argvec : List (List Nat)) : Nat := (argvec.map fun s => s.length + 1).sum
def argvecArraySize (argvec : List (List Nat)) : Nat := 4 * (argvec.length + 1)

/-- the loop of `vmm_copy_argvec`: string by string, with its pointer -/
def argvecWrites : List (List Nat) → Nat → Nat → List (Nat × Nat)
  | [], slot, _ => wordWrites slot 0
  | s :: argvec, slot, str =>
    wordWrites slot str ++ (s ++ [0]).zipIdx.map (fun c : Nat × Nat => (u32 (str + c.2), c.1)) ++
      argvecWrites argvec (u32 (slot + 4)) (u32 (str + s.length + 1))

/-- `vmm_copy_argvec`: the writes, and the new `esp` -/
def vmmCopyArgvec (esp : Nat) (argvec : List (List Nat)) : List (Nat × Nat) × Nat :=
  let str := u32sub esp (argvecStrSize argvec)
  let stackArgvec := u32sub str (argvecArraySize argvec)
  (argvecWrites argvec stackArgvec str ++ wordWrites (u32sub stackArgvec 4) stackArgvec ++
      wordWrites (u32sub stackArgvec 8) argvec.length ++ wordWrites (u32sub stackArgvec 12) 0,
    u32sub stackArgvec 12)

def threadStackAlign : Nat := 0xffffffe0

/-- `vmm_setup_user_stack` with arguments -/
def vmmSetupUserStack (mm : Mm) (pd userStackSize : Nat) (argvec : List (List Nat)) :
    Option (Mm × Nat) :=
  let start := u32sub vmmKernelBase (userStackSize + pageSize)
  let r := vmmCopyArgvec (u32 (start + userStackSize + 2^32 - 1) &&& threadStackAlign) argvec
  (writeUser pd r.1 mm).map fun mm => (mm, r.2)

/-! ## the caller -/

structure ExecState where
  /-- `thread->parent != NULL` -/
  hasParent : Bool
  task : TaskVm
  userStack : VmArea
  userStackSize : Nat
  eip : Nat
  eflags : Nat
  esp : Nat
  status : Int

inductive ExecOutcome where
  /-- back to the program that called, with a result -/
  | returned (rc : Int)
  /-- `exit_exec` into the new program -/
  | entered (eip eflags esp pageDir : Nat)
  /-- the thread was taken off, and another one runs -/
  | vanished
  deriving DecidableEq, Repr

/-- the areas `vm_area_remove_taskvm` leaves -/
def VmArea.keptByReload (vma : VmArea) : Bool :=
  vma.type = .kernelStack ∨ vma.type = .direct ∨ vma.vmaFlags &&& vmaFlagStack ≠ 0

/-- the last reference to an area goes -/
def vmAreaFree (pd : Nat) (mm : Mm) (vma : VmArea) : Mm :=
  if vma.type = .direct then mm else vmAreaUnmap mm pd vma

/-- `vm_area_remove_taskvm` -/
def vmAreaRemoveTaskvm (pd : Nat) (userStack : VmArea) (vm : VmaState) : VmaState :=
  let gone := vm.vmas.filter fun vma => !vma.keptByReload
  { vm with
    mm := (gone.filter fun vma => vma ≠ userStack).foldl (vmAreaFree pd) vm.mm
    vmas := vm.vmas.filter VmArea.keptByReload }

/-- `task_delete_vm` when the task vanishes; the thread still holds its kernel stack -/
def taskDeleteVm (pd : Nat) (vm : VmaState) : VmaState :=
  { vm with
    mm := (vm.vmas.filter fun vma => vma.type ≠ .kernelStack).foldl (vmAreaFree pd) vm.mm
    vmas := [] }

/-- the caller after `thread_vanish`: the status is set before -/
def ExecState.vanish (s : ExecState) (pd : Nat) : ExecState :=
  { s with task := { s.task with vm := taskDeleteVm pd s.task.vm }, status := -1 }

/-- `EFL_CF | EFL_IOPL_RING0 | EFL_IF` -/
def resetEflags : Nat := 0x1 ||| 0x0 ||| 0x200

/-- `thread_reset` -/
def ExecState.threadReset (s : ExecState) : ExecState :=
  { s with eip := s.task.entryPoint, eflags := resetEflags }

def reloadPrepare (pd : Nat) (s : ExecState) (argvec : List (List Nat)) : Option ExecState :=
  let mm := (vmAreaZero s.task.vm.mm pd s.userStack s.userStack.startAddress s.userStack.size).1
  match vmmSetupUserStack mm pd s.userStackSize argvec with
  | none => none
  | some (mm, esp) =>
    let vm := vmAreaRemoveTaskvm pd s.userStack { s.task.vm with mm := mm }
    some { s with task := { s.task with vm := vm, file := 0 }, esp := esp }

/-- `task_vanish` where the load fails.  Without a parent it comes back, and `thread_reset` reads
`task->thread`, which is `NULL` by now: a page fault in the kernel, a panic -/
def ExecState.vanishInReload (s : ExecState) (pd : Nat) : Option (ExecState × ExecOutcome) :=
  if s.hasParent then some (s.vanish pd, .vanished) else none

/-- `sys_exec_fail`: `thread_vanish`, and the `return` behind it -/
def ExecState.sysExecFail (s : ExecState) (pd : Nat) : ExecState × ExecOutcome :=
  (s.vanish pd, if s.hasParent then .vanished else .returned (-1))

/-- `task_reload` and what `sys_exec` does with its result -/
def taskReload (exec2obj : List Nat → Option ExecFile) (task pd : Nat) (s : ExecState)
    (path : List Nat) (argvec : List (List Nat)) : Option (ExecState × ExecOutcome) :=
  match reloadPrepare pd s argvec with
  | none => none
  | some s =>
    match taskLoad task pd (exec2obj path) s.task with
    | none => none
    | some (t, false) => ({ s with task := t } : ExecState).vanishInReload pd
    | some (t, true) =>
      let s := ({ s with task := t } : ExecState).threadReset
      some (s, .entered s.eip s.eflags s.esp pd)

def ExecState.setHeap (s : ExecState) (heap : List Nat) : ExecState :=
  { s with task := { s.task with vm := { s.task.vm with heap := heap } } }

/-- `sys_exec`; without memory for the copies of its arguments the thread vanishes -/
def sysExec (exec2obj : List Nat → Option ExecFile) (task pd : Nat) (s : ExecState)
    (path : List Nat) (argvec : List (List Nat)) : Option (ExecState × ExecOutcome) :=
  let (execpath, heap) := malloc s.task.vm.heap
  if execpath = 0 then some ((s.setHeap heap).sysExecFail pd)
  else
    let (execargv, heap) := malloc heap
    if execargv = 0 then some ((s.setHeap heap).sysExecFail pd)
    else taskReload exec2obj task pd (s.setHeap heap) path argvec

/-! ## a load that fails -/

section
variable (exec2obj : List Nat → Option ExecFile) (task pd : Nat) (s : ExecState) (path : List Nat)
  (argvec : List (List Nat))

/-- the arguments were copied, and then the program could not be loaded: there is no such file, or
one of its segments gets no area -/
def LoadFails : Prop :=
  (malloc s.task.vm.heap).1 ≠ 0 ∧ (malloc (malloc s.task.vm.heap).2).1 ≠ 0 ∧
    ∃ s1 t, reloadPrepare pd (s.setHeap (malloc (malloc s.task.vm.heap).2).2) argvec = some s1 ∧
      taskLoad task pd (exec2obj path) s1.task = some (t, false)

/-- what the caller keeps: its areas, what it reads in its memory, its file, its entry point and its
registers -/
structure Intact (s s' : ExecState) : Prop where
  vmas : s'.task.vm.vmas = s.task.vm.vmas
  memory : ∀ a, userByte s'.task.vm.mm pd a = userByte s.task.vm.mm pd a
  file : s'.task.file = s.task.file
  entryPoint : s'.task.entryPoint = s.task.entryPoint
  regs : s'.eip = s.eip ∧ s'.eflags = s.eflags ∧ s'.esp = s.esp

theorem reloadPrepare_hasParent {e e' : ExecState} (h : reloadPrepare pd e argvec = some e') :
    e'.hasParent = e.hasParent := by
  unfold reloadPrepare at h
  dsimp only at h
  split at h
  · cases h
  · cases h
    rfl

/-- **a failed load is the end of its caller**: nothing is left of its memory.  A caller without a
parent takes the kernel with it -/
theorem sysExec_loadFails (h : LoadFails exec2obj task pd s path argvec) :
    ∃ s', s'.status = -1 ∧ s'.task.vm.vmas = [] ∧ sysExec exec2obj task pd s path argvec =
      if s.hasParent then some (s', .vanished) else none := by
  obtain ⟨h1, h2, s1, t, h3, h4⟩ := h
  refine ⟨({ s1 with task := t } : ExecState).vanish pd, rfl, rfl, ?_⟩
  have hp : s1.hasParent = s.hasParent :=
    reloadPrepare_hasParent (e := s.setHeap (malloc (malloc s.task.vm.heap).2).2) pd argvec h3
  unfold sysExec taskReload ExecState.vanishInReload
  simp only [if_neg h1, if_neg h2, h3, h4, hp]

/-- a file that does not exist is such a load -/
theorem taskLoad_noFile (t : TaskVm) : ∃ t', taskLoad task pd none t = some (t', false) := by
  unfold taskLoad
  by_cases h : (malloc t.vm.heap).1 = 0
  · exact ⟨_, if_pos h⟩
  · exact ⟨_, if_neg h⟩

/-- **no caller survives a failed load**, let alone with its memory -/
theorem exec_never_survives_failed_load (h : LoadFails exec2obj task pd s path argvec) :
    ¬ ∃ s' rc, sysExec exec2obj task pd s path argvec = some (s', .returned rc) ∧ rc < 0 ∧
      Intact pd s s' := by
  rintro ⟨s', rc, hs, -, -⟩
  obtain ⟨t, -, -, ht⟩ := sysExec_loadFails exec2obj task pd s path argvec h
  rw [ht] at hs
  by_cases hp : s.hasParent = true
  · rw [if_pos hp] at hs
    injection hs with hs
    injection hs with _ hs
    cases hs
  · rw [if_neg hp] at hs
    cases hs

end

/-! ## a program that does not exist -/

/-- a task with one page of stack and one area, all of whose pages are mapped -/
def callerTask : ExecState where
  hasParent := true
  task :=
    { vm :=
        { heap := [1, 2, 3]
          mm := { smallMm with word := fun _ _ => 0x1007 }
          vmas := [zeroArea 1 0x01000000 0x1000 pgtabAttribUsrRw 0,
            zeroArea 1 0xbfffe000 0x1000 pgtabAttribUsrRw vmaFlagStack] }
      file := 1
      entryPoint := 0x01000000 }
  userStack := zeroArea 1 0xbfffe000 0x1000 pgtabAttribUsrRw vmaFlagStack
  userStackSize := 0x1000
  eip := 0x01000010
  eflags := 0x202
  esp := 0xbfffef00
  status := 0

/-- the arguments of `exec("x", {NULL})` are copied; there is no such file -/
theorem callerTask_loadFails : LoadFails (fun _ => none) 1 0xc0400000 callerTask [120] [] := by
  have h : (reloadPrepare 0xc0400000 (callerTask.setHeap [3]) []).isSome = true := by decide +kernel
  obtain ⟨s1, h1⟩ := Option.isSome_iff_exists.mp h
  obtain ⟨t, ht⟩ := taskLoad_noFile 1 0xc0400000 s1.task
  exact ⟨by decide, by decide, s1, t, h1, ht⟩

theorem exec_never_survives_callerTask :
    ¬ ∃ s' rc, sysExec (fun _ => none) 1 0xc0400000 callerTask [120] [] = some (s', .returned rc) ∧
      rc < 0 ∧ Intact 0xc0400000 callerTask s' :=
  exec_never_survives_failed_load _ 1 0xc0400000 callerTask [120] [] callerTask_loadFails

/-- the caller is gone, and so are its areas -/
theorem exec_noFile_vanishes :
    LoadFails (fun _ => none) 1 0xc0400000 callerTask [120] [] ∧
      ∃ s', sysExec (fun _ => none) 1 0xc0400000 callerTask [120] [] = some (s', .vanished) ∧
        callerTask.task.vm.vmas.length = 2 ∧ s'.task.vm.vmas = [] := by
  obtain ⟨s', -, h2, h1⟩ := sysExec_loadFails _ 1 0xc0400000 callerTask [120] [] callerTask_loadFails
  exact ⟨callerTask_loadFails, s', h1, rfl, h2⟩

end Paravirt

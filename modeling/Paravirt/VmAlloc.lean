import Paravirt.VmArea

/-!
# Creating VM areas (kern/vm_area.c: `vm_area_init`, `vm_area_init_*`, `vm_area_alloc`, `vm_area_add`)

The results of `malloc` are a list of pointers, `heap`, one for each call to come; 0 is `NULL`, and
so is every call after the last.  An area is created for a task, given by its pointer and its page
directory.

* `vmAreaInit`        the fields of a new area before its type is looked at;
* `vmAreaAdd`         insertion into `task->vm_area_list`, before the first area that starts later;
* `vmAreaInitType`    the `vm_area_init_*` function of a type; an area that fails is unmapped again;
* `vmAreaAlloc`       all of it.
-/

set_option linter.unusedVariables false

namespace Paravirt

/-- the next result of `malloc`, and the results after it -/
def malloc (heap : List Nat) : Nat × List Nat := (heap.headD 0, heap.tail)

/-- the argument `src` of `vm_area_alloc`; a source area comes with its address and the page
directory of its task -/
inductive VmAreaSrcArg where
  | none
  | paddr (paddr : Nat)
  | vma (addr pd : Nat) (vma : VmArea)
  | file (file startOffset : Nat)

def vmAreaInit (task startAddress size flags : Nat) (type : VmaType) (vmaFlags : Nat) : VmArea where
  startAddress := startAddress
  size := size
  flags := flags
  type := type
  vmaFlags := vmaFlags
  task := task
  src := ⟨0, 0⟩
  nopage := .default
  pagewrite := if flags &&& pgFlagWr ≠ 0 ∧ flags &&& pgFlagUsr ≠ 0 then .write else .default

/-- `vm_area_add` -/
def vmAreaAdd (vma : VmArea) : List VmArea → List VmArea
  | [] => [vma]
  | curpos :: l =>
    if curpos.startAddress > vma.startAddress then vma :: curpos :: l
    else curpos :: vmAreaAdd vma l

/-- the end of `vm_area_init_alloc`, `vm_area_init_zeropage` and `vm_area_init_file` -/
def vmAreaInitNull (mm : Mm) (pd : Nat) (vma : VmArea) : Mm × Option VmArea :=
  let r := vmAreaCreateNull mm pd vma
  if r.2 then (r.1, some vma) else (vmAreaUnmap r.1 pd vma, none)

def vmAreaInitKernelStack (mm : Mm) (pd : Nat) (vma : VmArea) : Mm × Option VmArea :=
  let numPages := stackPages vma.size
  match mm.vmmPpfsHighmemAlloc numPages with
  | (mm, none) => (mm, none)
  | (mm, some stack) =>
    let vma := { vma with startAddress := stack, src := ⟨stack, 0⟩, nopage := .default }
    let r := vmAreaCreateIdentity mm pd vma
    if r.2 then (r.1, some vma)
    else ((vmAreaUnmap r.1 pd vma).vmmPpfsHighmemFree stack numPages, none)

def vmAreaInitDirect (mm : Mm) (pd : Nat) (vma : VmArea) (paddr : Nat) : Mm × Option VmArea :=
  let vma := { vma with src := ⟨paddr, 0⟩, nopage := .default }
  let r := vmAreaCreateIdentity mm pd vma
  if r.2 then (r.1, some vma) else (r.1, none)

/-- the copy takes over the descriptor of `src`, for a file area its file but not its offset -/
def vmAreaInitCopy (mm : Mm) (pd : Nat) (vma : VmArea) (addr srcPd : Nat) (src : VmArea) :
    Mm × Option VmArea :=
  let vma := { vma with
    startAddress := src.startAddress
    size := src.size
    flags := src.flags
    type := src.type
    nopage := src.nopage
    pagewrite := src.pagewrite
    src := ⟨if src.type = .copy ∨ src.type = .cow then src.src.ptr else addr, vma.src.startOffset⟩ }
  let r := vmAreaCopy mm pd srcPd vma.startAddress vma.size
  if r.2 then
    if vma.type = .file then (r.1, some { vma with src := ⟨src.src.ptr, vma.src.startOffset⟩ })
    else (r.1, some vma)
  else (vmAreaUnmap r.1 pd vma, none)

/-- the choice by `type`; an argument of the wrong kind is a misread of the union, and the COW type
is never asked for -/
def vmAreaInitType (mm : Mm) (pd : Nat) (vma : VmArea) (type : VmaType) (src : VmAreaSrcArg) :
    Option (Mm × Option VmArea) :=
  match type, src with
  | .copy, .vma addr srcPd src => some (vmAreaInitCopy mm pd vma addr srcPd src)
  | .file, .file file off =>
    some (vmAreaInitNull mm pd { vma with src := ⟨file, off⟩, nopage := .file })
  | .zeropage, _ => some (vmAreaInitNull mm pd { vma with nopage := .zeropage })
  | .alloc, _ => some (vmAreaInitNull mm pd { vma with nopage := .alloc })
  | .direct, .paddr paddr => some (vmAreaInitDirect mm pd vma paddr)
  | .kernelStack, _ => some (vmAreaInitKernelStack mm pd vma)
  | _, _ => none

/-- what `vm_area_alloc` works on: the results of `malloc` to come, the pages, and the list -/
structure VmaState where
  heap : List Nat
  mm : Mm
  vmas : List VmArea

/-- the end of `vm_area_alloc`: an area that was set up goes on the list -/
def vmAreaEnter (heap : List Nat) (vmas : List VmArea) :
    Option (Mm × Option VmArea) → Option (VmaState × Bool)
  | none => none
  | some (mm, none) => some (⟨heap, mm, vmas⟩, false)
  | some (mm, some vma) => some (⟨heap, mm, vmAreaAdd vma vmas⟩, true)

def vmAreaAlloc (s : VmaState) (task pd startAddress size flags : Nat) (type : VmaType)
    (vmaFlags : Nat) (src : VmAreaSrcArg) : Option (VmaState × Bool) :=
  if (malloc s.heap).1 = 0 then some (⟨(malloc s.heap).2, s.mm, s.vmas⟩, false)
  else
    vmAreaEnter (malloc s.heap).2 s.vmas
      (vmAreaInitType s.mm pd (vmAreaInit task startAddress size flags type vmaFlags) type src)

/-! ## what a call that succeeds leaves -/

theorem vmAreaAdd_perm (vma : VmArea) (l : List VmArea) : (vmAreaAdd vma l).Perm (vma :: l) := by
  induction l with
  | nil => exact List.Perm.refl _
  | cons v l ih =>
    unfold vmAreaAdd
    split
    · exact List.Perm.refl _
    · exact (ih.cons v).trans (List.Perm.swap vma v l)

theorem vmAreaInitNull_some {mm mm' : Mm} {pd : Nat} {vma v : VmArea}
    (h : vmAreaInitNull mm pd vma = (mm', some v)) : v = vma := by
  unfold vmAreaInitNull at h
  generalize vmAreaCreateNull mm pd vma = r at h
  by_cases hr : r.2 = true
  · rw [if_pos hr, Prod.mk.injEq, Option.some.injEq] at h
    exact h.2.symm
  · rw [if_neg hr, Prod.mk.injEq] at h
    exact absurd h.2 (by simp)

/-- the file area a successful call adds -/
def fileArea (task startAddress size flags vmaFlags file off : Nat) : VmArea :=
  { vmAreaInit task startAddress size flags .file vmaFlags with src := ⟨file, off⟩, nopage := .file }

/-- the zero-filled area a successful call adds -/
def zeroArea (task startAddress size flags vmaFlags : Nat) : VmArea :=
  { vmAreaInit task startAddress size flags .zeropage vmaFlags with nopage := .zeropage }

theorem vmAreaEnter_true {heap : List Nat} {vmas : List VmArea} {s' : VmaState}
    {r : Option (Mm × Option VmArea)} (h : vmAreaEnter heap vmas r = some (s', true)) :
    ∃ mm vma, r = some (mm, some vma) ∧ s' = ⟨heap, mm, vmAreaAdd vma vmas⟩ := by
  cases r with
  | none => simp [vmAreaEnter] at h
  | some r =>
    obtain ⟨mm, v⟩ := r
    cases v with
    | none => simp [vmAreaEnter] at h
    | some vma =>
      simp only [vmAreaEnter, Option.some.injEq, Prod.mk.injEq, and_true] at h
      exact ⟨mm, vma, rfl, h.symm⟩

theorem vmAreaAlloc_true {s s' : VmaState} {task pd start size flags : Nat} {type : VmaType}
    {vmaFlags : Nat} {src : VmAreaSrcArg}
    (h : vmAreaAlloc s task pd start size flags type vmaFlags src = some (s', true)) :
    ∃ mm vma, vmAreaInitType s.mm pd (vmAreaInit task start size flags type vmaFlags) type src
      = some (mm, some vma) ∧ s' = ⟨s.heap.tail, mm, vmAreaAdd vma s.vmas⟩ := by
  unfold vmAreaAlloc at h
  by_cases h0 : (malloc s.heap).1 = 0
  · rw [if_pos h0] at h
    simp only [Option.some.injEq, Prod.mk.injEq, Bool.false_eq_true, and_false] at h
  · rw [if_neg h0] at h
    exact vmAreaEnter_true h

theorem vmAreaAlloc_file {s s' : VmaState} {task pd start size flags vmaFlags file off : Nat}
    (h : vmAreaAlloc s task pd start size flags .file vmaFlags (.file file off) = some (s', true)) :
    s'.vmas.Perm (fileArea task start size flags vmaFlags file off :: s.vmas) := by
  obtain ⟨mm, vma, hi, rfl⟩ := vmAreaAlloc_true h
  simp only [vmAreaInitType, Option.some.injEq] at hi
  rw [vmAreaInitNull_some hi]
  exact vmAreaAdd_perm _ _

theorem vmAreaAlloc_zeropage {s s' : VmaState} {task pd start size flags vmaFlags : Nat}
    {src : VmAreaSrcArg}
    (h : vmAreaAlloc s task pd start size flags .zeropage vmaFlags src = some (s', true)) :
    s'.vmas.Perm (zeroArea task start size flags vmaFlags :: s.vmas) := by
  obtain ⟨mm, vma, hi, rfl⟩ := vmAreaAlloc_true h
  simp only [vmAreaInitType, Option.some.injEq] at hi
  rw [vmAreaInitNull_some hi]
  exact vmAreaAdd_perm _ _

end Paravirt

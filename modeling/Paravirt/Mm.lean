import Paravirt.Zone

/-!
# Page frames, page tables and the update queue (kern/vmm_page.c)

`Mm` is the state these functions share.

* `lomem`, `himem`   the two zones (`lomem_zone_ptr`, `himem_zone_ptr`);
* `word t i`         entry `i` of the page directory or page table in the page at `t`.  Such pages
                     are mapped read-only, so the kernel changes them by queued updates only, and
                     fills a fresh one before it is pinned;
* `queue`            `xen_update_queue`, oldest request first;
* `mem`              the bytes of all other pages.

Pages are named by their kernel virtual address; an entry is `flags | pa`, with `pa` the
pseudo-physical address of the page (the hypervisor's machine frame numbers are `phys_to_mach` of
these, and every value read back goes through `mach_to_phys`).  `NULL` is 0.
-/

set_option linter.unusedVariables false

namespace Paravirt

/-! ## address arithmetic (kern/inc/vmm_page.h) -/

def userMemStart : Nat := 0x01000000
def vmmKernelBase : Nat := 0xc0000000

/-- `VMM_V2P`, `VMM_P2V` -/
def v2p (a : Nat) : Nat := a &&& 0x3fffffff
def p2v (a : Nat) : Nat := a ||| 0xc0000000

/-- `a & PAGE_MASK`, `a & ~PAGE_MASK` -/
def pageAddr (a : Nat) : Nat := a &&& 0xfffff000
def pageDiv (a : Nat) : Nat := a &&& 0xfff

/-- the indices `VMM_GET_PDE` and `VMM_GET_PTE` form -/
def pdeIndex (a : Nat) : Nat := (a &&& 0xffc00000) >>> 22
def pteIndex (a : Nat) : Nat := (a &&& 0x003ff000) >>> 12

def pgFlagPresent : Nat := 1
def pgFlagWr : Nat := 2
def pgFlagUsr : Nat := 4
def pgtabAttribSuRo : Nat := 1
def pgtabAttribSuRw : Nat := 3
def pgtabAttribUsrRo : Nat := 5
def pgtabAttribUsrRw : Nat := 7

/-! ## the state -/

structure Mm where
  lomem : VmmZone
  himem : VmmZone
  kernelPageDir : Nat
  word : Nat → Nat → Nat
  queue : List ((Nat × Nat) × Nat)
  mem : Nat → Nat

/-- one entry is overwritten -/
def setWord (word : Nat → Nat → Nat) (slot : Nat × Nat) (v : Nat) : Nat → Nat → Nat :=
  Function.update word slot.1 (Function.update (word slot.1) slot.2 v)

/-- `vmm_flush_mmu_update_queue`: the hypervisor applies the requests in order -/
def applyUpdates (word : Nat → Nat → Nat) : List ((Nat × Nat) × Nat) → Nat → Nat → Nat
  | [] => word
  | (slot, v) :: q => applyUpdates (setWord word slot v) q

def Mm.vmmFlushMmuUpdateQueue (mm : Mm) : Mm :=
  { mm with word := applyUpdates mm.word mm.queue, queue := [] }

def xenUpdateQueueSize : Nat := 2048

/-- `vmm_queue_mmu_update` -/
def Mm.vmmQueueMmuUpdate (mm : Mm) (slot : Nat × Nat) (v : Nat) : Mm :=
  let mm := { mm with queue := mm.queue ++ [(slot, v)] }
  if mm.queue.length = xenUpdateQueueSize then mm.vmmFlushMmuUpdateQueue else mm

/-! ## page frames -/

def Mm.vmmPpfAlloc (mm : Mm) : Mm × Option Nat :=
  let (z, p) := vmmBuddyGetFreePages mm.lomem 1
  ({ mm with lomem := z }, p)

def Mm.vmmPpfFree (mm : Mm) (pageAddr : Nat) : Mm :=
  { mm with lomem := vmmBuddyFreePages mm.lomem pageAddr 1 }

def Mm.vmmPpfsFree (mm : Mm) (pgaddr numPages : Nat) : Mm :=
  { mm with lomem := vmmBuddyFreePages mm.lomem pgaddr (vmmFloorLog2 numPages) }

def Mm.vmmPpfsHighmemAlloc (mm : Mm) (numPages : Nat) : Mm × Option Nat :=
  let (z, p) := vmmBuddyGetFreePages mm.himem (vmmFloorLog2 numPages)
  ({ mm with himem := z }, p)

def Mm.vmmPpfsHighmemFree (mm : Mm) (pgaddr numPages : Nat) : Mm :=
  { mm with himem := vmmBuddyFreePages mm.himem pgaddr (vmmFloorLog2 numPages) }

/-! ## memory contents -/

def Mm.memset (mm : Mm) (dst v n : Nat) : Mm :=
  { mm with mem := fun a => if dst ≤ a ∧ a < dst + n then v else mm.mem a }

def Mm.memcpy (mm : Mm) (dst src n : Nat) : Mm :=
  { mm with mem := fun a => if dst ≤ a ∧ a < dst + n then mm.mem (src + (a - dst)) else mm.mem a }

/-! ## mapping one page -/

/-- the entry `VMM_GET_PTE(pageDir, vaddr)`; its table exists for every kernel address -/
def Mm.vmmGetPte (mm : Mm) (pageDir vaddr : Nat) : Nat × Nat :=
  (p2v (pageAddr (mm.word pageDir (pdeIndex vaddr))), pteIndex vaddr)

/-- the branch of `vmm_map_page` that sets up a page table: the page is zeroed, marked read-only in
the kernel's map, entered in the directory, and both updates are flushed -/
def Mm.mapPageTable (mm : Mm) (pageDir vaddr : Nat) : Mm × Bool :=
  match mm.vmmPpfAlloc with
  | (mm, none) => (mm, false)
  | (mm, some ptPpf) =>
    let mm := { mm with word := Function.update mm.word ptPpf (fun _ => 0) }
    let mm := mm.vmmQueueMmuUpdate (mm.vmmGetPte pageDir ptPpf)
      (pgtabAttribSuRo ||| pgFlagPresent ||| v2p ptPpf)
    let mm := mm.vmmQueueMmuUpdate (pageDir, pdeIndex vaddr)
      (pgtabAttribUsrRw ||| pgFlagPresent ||| v2p ptPpf)
    (mm.vmmFlushMmuUpdateQueue, true)

/-- the value `vmm_map_page` gives an entry: a `NULL` page is a zero mapping -/
def entryVal (ppf flags : Nat) : Nat := if ppf ≠ 0 then flags ||| v2p ppf else 0

/-- the rest of `vmm_map_page`: an update is queued only when the entry IN MEMORY differs -/
def Mm.mapPageEntry (mm : Mm) (pageDir vaddr ppf flags : Nat) : Mm :=
  let pte := mm.vmmGetPte pageDir vaddr
  if mm.word pte.1 pte.2 ≠ entryVal ppf flags then
    mm.vmmQueueMmuUpdate pte (entryVal ppf flags)
  else mm

/-- `vmm_map_page`; `false` is the return value -1 -/
def Mm.vmmMapPage (mm : Mm) (pageDir vaddr ppf flags : Nat) : Mm × Bool :=
  if mm.word pageDir (pdeIndex vaddr) = 0 then
    match mm.mapPageTable pageDir vaddr with
    | (mm, false) => (mm, false)
    | (mm, true) => (mm.mapPageEntry pageDir vaddr ppf flags, true)
  else (mm.mapPageEntry pageDir vaddr ppf flags, true)

def Mm.vmmGetMapping (mm : Mm) (pageDir vaddr : Nat) : Nat :=
  if mm.word pageDir (pdeIndex vaddr) = 0 then 0
  else mm.word (mm.vmmGetPte pageDir vaddr).1 (mm.vmmGetPte pageDir vaddr).2

/-! ## page directories -/

/-- `vmm_create_pgdir`; `currentPageDir` is the directory of the running task, or the kernel's -/
def Mm.vmmCreatePgdir (mm : Mm) (currentPageDir : Nat) : Mm × Option Nat :=
  match mm.vmmPpfAlloc with
  | (mm, none) => (mm, none)
  | (mm, some pageDir) =>
    let mm := { mm with word := Function.update mm.word pageDir (mm.word mm.kernelPageDir) }
    let mm := (mm.vmmMapPage currentPageDir pageDir (v2p pageDir)
      (pgtabAttribUsrRo ||| pgFlagPresent)).1
    (mm.vmmFlushMmuUpdateQueue, some pageDir)

/-- the body of the loop of `vmm_free_pgdir` -/
def Mm.freePgdirEntry (mm : Mm) (pgdir i : Nat) : Mm :=
  let pgtab := pageAddr (mm.word pgdir i)
  if pgtab = 0 then mm
  else
    let mm := mm.vmmQueueMmuUpdate (pgdir, i) 0
    let mm := mm.vmmQueueMmuUpdate (mm.vmmGetPte pgdir (p2v pgtab)) (pgtab ||| pgtabAttribSuRw)
    mm.vmmFlushMmuUpdateQueue.vmmPpfFree (p2v pgtab)

/-- the entries that map `[USER_MEM_START, VMM_KERNEL_BASE)` -/
def userPdes : List Nat :=
  (List.range ((vmmKernelBase - 1) >>> 22 + 1)).drop (userMemStart >>> 22)

def Mm.vmmFreePgdir (mm : Mm) (pgdir : Nat) : Mm :=
  let mm := userPdes.foldl (fun mm i => mm.freePgdirEntry pgdir i) mm
  let mm := mm.vmmQueueMmuUpdate (mm.vmmGetPte pgdir pgdir) (v2p pgdir ||| pgtabAttribSuRw)
  mm.vmmFlushMmuUpdateQueue.vmmPpfFree pgdir

end Paravirt

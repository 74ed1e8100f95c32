import Paravirt.Mm

/-!
# VM areas: mapping, loading and copying pages (kern/vm_area.c, kern/file.c, kern/loader.c)

The functions of `vm_area.c` that change page tables and page contents.  Each takes the page
directory of `vma->task` as `pd`.  An `int` result is `0` or more for success; the functions that
only ever return 0 or -1 return a `Bool`.

* `vmPages start size`   the pages `for (i = 0; i < num_pages; i++)` runs over;
* `vmAreaCreate`, `vmAreaCreateNull`, `vmAreaSetflags`, `vmAreaCreateIdentity`, `vmAreaUnmap`,
  `vmAreaCopy`           one loop over these pages each;
* `vmAreaZero`, `vmAreaLoad`     contents of mapped pages;
* `VmArea.callNopage`, `VmArea.callPagewrite`   the methods of an area, `none` where they panic.

The COW type is never requested by a caller, and its functions are left out.
-/

set_option linter.unusedVariables false

namespace Paravirt

/-! ## files -/

/-- an entry of `exec2obj_userapp_TOC`; the bytes around the array are what `memcpy` would read at an
offset that is out of bounds -/
structure ExecFile where
  execlen : Int
  execbytes : Int → Nat

/-- the value of a 32-bit word as an `int` -/
def toInt (n : Nat) : Int := if n < 2^31 then n else (n : Int) - 2^32

/-- `getbytes` of loader.c: the number of bytes it copies, or -1 when the file is not found.  The sum
and the difference are those of `int`, and wrap; the difference is positive where it is taken -/
def getbytesCount (f : Option ExecFile) (offset size : Nat) : Int :=
  match f with
  | none => -1
  | some f =>
    if toInt offset ≥ f.execlen then 0
    else if toInt (u32 (size + offset)) > f.execlen then
      toInt (u32 (f.execlen - toInt offset).toNat)
    else toInt size

def Mm.getbytes (mm : Mm) (f : Option ExecFile) (offset size buf : Nat) : Mm × Int :=
  let n := getbytesCount f offset size
  match f with
  | none => (mm, n)
  | some f =>
    ({ mm with mem := fun a =>
        if buf ≤ a ∧ a < buf + n.toNat then f.execbytes (toInt offset + (a - buf : Nat))
        else mm.mem a }, n)

/-! ## areas -/

inductive VmaType where
  | kernelStack | direct | alloc | zeropage | cow | copy | file
  deriving DecidableEq, Repr

inductive Nopage where
  | default | alloc | zeropage | file
  deriving DecidableEq, Repr

inductive Pagewrite where
  | default | write
  deriving DecidableEq, Repr

/-- the union `vm_area_src_t`: `ptr` is `paddr`, `vma` or `file_src.file`, which share their place -/
structure VmAreaSrc where
  ptr : Nat
  startOffset : Nat
  deriving DecidableEq, Repr

structure VmArea where
  startAddress : Nat
  size : Nat
  flags : Nat
  type : VmaType
  vmaFlags : Nat
  task : Nat
  src : VmAreaSrc
  nopage : Nopage
  pagewrite : Pagewrite
  deriving DecidableEq, Repr

def vmaFlagStack : Nat := 2

/-- `num_pages` for the range of `size` bytes from `start` -/
def numPages (start size : Nat) : Nat :=
  u32 (pageAddr (u32 (start + size + 2^32 - 1)) + 2^32 - pageAddr start) >>> pageShift + 1

/-- `num_pages` of a kernel stack; `size - 1` is unsigned -/
def stackPages (size : Nat) : Nat := (if size = 0 then 2^32 - 1 else size - 1) >>> pageShift + 1

/-- the page addresses `start_vpf + (i << PAGE_SHIFT)` -/
def vmPages (start size : Nat) : List Nat :=
  (List.range (numPages start size)).map fun i => u32 (pageAddr start + i <<< pageShift)

/-- the address of the last byte of an area -/
def VmArea.endAddress (vma : VmArea) : Nat := u32 (vma.startAddress + vma.size + 2^32 - 1)

/-! ## loops over the pages of a range -/

def vmAreaCreateLoop (pd flags : Nat) : List Nat → Mm → Mm × Bool
  | [], mm => (mm.vmmFlushMmuUpdateQueue, true)
  | vpf :: vpfs, mm =>
    let mapping := mm.vmmGetMapping pd vpf
    if pageAddr mapping = 0 then
      match mm.vmmPpfAlloc with
      | (mm, none) => (mm, false)
      | (mm, some ppf) => vmAreaCreateLoop pd flags vpfs (mm.vmmMapPage pd vpf ppf flags).1
    else vmAreaCreateLoop pd flags vpfs (mm.vmmMapPage pd vpf (pageAddr mapping) flags).1

def vmAreaCreate (mm : Mm) (pd : Nat) (vma : VmArea) (start size : Nat) : Mm × Bool :=
  vmAreaCreateLoop pd vma.flags (vmPages start size) mm

def vmAreaCreateNullLoop (pd : Nat) : List Nat → Mm → Mm × Bool
  | [], mm => (mm.vmmFlushMmuUpdateQueue, true)
  | vpf :: vpfs, mm =>
    match mm.vmmMapPage pd vpf 0 pgFlagUsr with
    | (mm, false) => (mm, false)
    | (mm, true) => vmAreaCreateNullLoop pd vpfs mm

def vmAreaCreateNull (mm : Mm) (pd : Nat) (vma : VmArea) : Mm × Bool :=
  vmAreaCreateNullLoop pd (vmPages vma.startAddress vma.size) mm

def vmAreaSetflagsLoop (pd flags : Nat) : List Nat → Mm → Mm × Bool
  | [], mm => (mm.vmmFlushMmuUpdateQueue, true)
  | vpf :: vpfs, mm =>
    match mm.vmmMapPage pd vpf (pageAddr (mm.vmmGetMapping pd vpf)) flags with
    | (mm, false) => (mm, false)
    | (mm, true) => vmAreaSetflagsLoop pd flags vpfs mm

def vmAreaSetflags (mm : Mm) (pd : Nat) (vma : VmArea) (start size : Nat) : Mm × Bool :=
  vmAreaSetflagsLoop pd vma.flags (vmPages start size) mm

/-- `ppf` runs along with `vpf` from `src.paddr` -/
def vmAreaCreateIdentityLoop (pd flags : Nat) : List (Nat × Nat) → Mm → Mm × Bool
  | [], mm => (mm.vmmFlushMmuUpdateQueue, true)
  | (vpf, ppf) :: vpfs, mm =>
    match mm.vmmMapPage pd vpf ppf flags with
    | (mm, false) => (mm, false)
    | (mm, true) => vmAreaCreateIdentityLoop pd flags vpfs mm

def vmAreaCreateIdentity (mm : Mm) (pd : Nat) (vma : VmArea) : Mm × Bool :=
  vmAreaCreateIdentityLoop pd vma.flags
    ((List.range (numPages vma.startAddress vma.size)).map fun i =>
      (u32 (pageAddr vma.startAddress + i <<< pageShift),
        u32 (pageAddr vma.src.ptr + i <<< pageShift))) mm

/-- the frame of each present page is copied to a new frame; the result of `vmm_ppf_alloc` is not
checked, so `dst_ppf` may be `NULL` -/
def vmAreaCopyLoop (dstPd srcPd : Nat) : List Nat → Mm → Mm × Bool
  | [], mm => (mm.vmmFlushMmuUpdateQueue, true)
  | vpf :: vpfs, mm =>
    let mapping := mm.vmmGetMapping srcPd vpf
    if pageAddr mapping = 0 then
      match mm.vmmMapPage dstPd vpf 0 (pageDiv mapping) with
      | (mm, false) => (mm, false)
      | (mm, true) => vmAreaCopyLoop dstPd srcPd vpfs mm
    else
      let (mm, p) := mm.vmmPpfAlloc
      let dstPpf := p.getD 0
      let srcPpf := p2v (pageAddr mapping)
      match mm.vmmMapPage dstPd vpf dstPpf (pageDiv mapping) with
      | (mm, false) => (mm, false)
      | (mm, true) => vmAreaCopyLoop dstPd srcPd vpfs (mm.memcpy dstPpf srcPpf pageSize)

def vmAreaCopy (mm : Mm) (dstPd srcPd start size : Nat) : Mm × Bool :=
  vmAreaCopyLoop dstPd srcPd (vmPages start size) mm

/-- the frames of a kernel stack are left alone: they are released as a block -/
def vmAreaUnmapLoop (pd : Nat) (type : VmaType) : List Nat → Mm → Mm
  | [], mm => mm
  | vpf :: vpfs, mm =>
    let page := pageAddr (mm.vmmGetMapping pd vpf)
    if page ≠ 0 ∧ type ≠ .kernelStack then
      vmAreaUnmapLoop pd type vpfs
        ((mm.vmmMapPage pd vpf 0 0).1.vmmFlushMmuUpdateQueue.vmmPpfFree (p2v page))
    else vmAreaUnmapLoop pd type vpfs mm

def vmAreaUnmap (mm : Mm) (pd : Nat) (vma : VmArea) : Mm :=
  vmAreaUnmapLoop pd vma.type (vmPages vma.startAddress vma.size) mm

/-! ## page contents -/

/-- `total_bytes_zeroed` stays 0 in the source, so `bytes_to_zero` starts from `length` each time -/
def vmAreaZeroLoop (pd length : Nat) : List Nat → Nat → Mm → Mm
  | [], _, mm => mm.vmmFlushMmuUpdateQueue
  | vpf :: vpfs, pgOffset, mm =>
    let ppf := pageAddr (mm.vmmGetMapping pd vpf)
    if ppf ≠ 0 then
      let bytesToZero := if u32 (pgOffset + length) > pageSize then pageSize - pgOffset else length
      vmAreaZeroLoop pd length vpfs 0 (mm.memset (p2v ppf + pgOffset) 0 bytesToZero)
    else vmAreaZeroLoop pd length vpfs 0 mm

def vmAreaZero (mm : Mm) (pd : Nat) (vma : VmArea) (addr length : Nat) : Mm × Bool :=
  if vma.startAddress > addr ∨ u32 (vma.startAddress + vma.size) < u32 (addr + length) then
    (mm, false)
  else (vmAreaZeroLoop pd length (vmPages addr length) (pageDiv addr) mm, true)

/-- `loadOffset` is 0 from the second page on; `total` counts the bytes read -/
def vmAreaLoadLoop (pd : Nat) (vma : VmArea) (file : Option ExecFile) (foffset length : Nat) :
    List Nat → Nat → Nat → Mm → Mm × Int
  | [], _, total, mm => (mm.vmmFlushMmuUpdateQueue, total)
  | vpf :: vpfs, loadOffset, total, mm =>
    let bytesToRead := length - total
    let ppf := p2v (pageAddr (mm.vmmGetMapping pd vpf))
    let bytesToRead :=
      if loadOffset + bytesToRead > pageSize then pageSize - loadOffset else bytesToRead
    let mm := mm.memset (ppf + loadOffset) 0 bytesToRead
    match mm.getbytes file (u32 (foffset + total)) bytesToRead (ppf + loadOffset) with
    | (mm, bytesRead) =>
      if bytesRead < 0 then (mm, bytesRead)
      else if bytesRead = 0 ∨ bytesRead ≠ bytesToRead then (mm, -1)
      else
        vmAreaLoadLoop pd vma file foffset length vpfs 0 (total + bytesRead.toNat)
          (mm.vmmMapPage pd vpf ppf (vma.flags ||| pgFlagPresent)).1

/-- `fs` gives the contents behind a `file_t` -/
def vmAreaLoad (fs : Nat → Option ExecFile) (mm : Mm) (pd : Nat) (vma : VmArea)
    (loadAddr length : Nat) : Mm × Int :=
  if vma.startAddress > loadAddr ∨ u32 (vma.startAddress + vma.size) < u32 (loadAddr + length) ∨
      vma.type ≠ .file ∨ vma.src.ptr = 0 then (mm, -1)
  else
    let foffset := u32 (vma.src.startOffset + (loadAddr - vma.startAddress))
    vmAreaLoadLoop pd vma (fs vma.src.ptr) foffset length (vmPages loadAddr length)
      (pageDiv loadAddr) 0 mm

/-! ## the methods of an area -/

/-- the part of the page of `vaddr` that the area covers: its first address and its length, as
`vma_nopage_file` and `vma_nopage_zeropage` compute them -/
def VmArea.clip (vma : VmArea) (vaddr : Nat) : Nat × Nat :=
  let vpf := pageAddr vaddr
  let vaddr := if vma.startAddress ≥ vpf then vma.startAddress else vpf
  let length := pageSize - (vaddr - vpf)
  let pageEndAddress := vpf + (pageSize - 1)
  if vma.endAddress < pageEndAddress then (vaddr, length - (pageEndAddress - vma.endAddress))
  else (vaddr, length)

def vmaNopageAlloc (mm : Mm) (pd : Nat) (vma : VmArea) (vaddr : Nat) : Mm × Int :=
  ((vmAreaCreate mm pd vma (pageAddr vaddr) pageSize).1, 0)

def vmaNopageZeropage (mm : Mm) (pd : Nat) (vma : VmArea) (vaddr : Nat) : Mm × Int :=
  let r := vmAreaCreate mm pd vma (pageAddr vaddr) pageSize
  if r.2 then ((vmAreaZero r.1 pd vma (vma.clip vaddr).1 (vma.clip vaddr).2).1, 0) else (r.1, -1)

def vmaNopageFile (fs : Nat → Option ExecFile) (mm : Mm) (pd : Nat) (vma : VmArea) (vaddr : Nat) :
    Mm × Int :=
  let r := vmAreaCreate mm pd vma (pageAddr vaddr) pageSize
  if r.2 then
    let r := vmAreaLoad fs r.1 pd vma (vma.clip vaddr).1 (vma.clip vaddr).2
    (r.1.vmmFlushMmuUpdateQueue, r.2)
  else (r.1, -1)

/-- `vma->nopage(vma, vaddr)`; `vma_nopage_default` panics -/
def VmArea.callNopage (fs : Nat → Option ExecFile) (mm : Mm) (pd : Nat) (vma : VmArea)
    (vaddr : Nat) : Option (Mm × Int) :=
  match vma.nopage with
  | .default => none
  | .alloc => some (vmaNopageAlloc mm pd vma vaddr)
  | .zeropage => some (vmaNopageZeropage mm pd vma vaddr)
  | .file => some (vmaNopageFile fs mm pd vma vaddr)

/-- `vma->pagewrite(vma, vaddr)` -/
def VmArea.callPagewrite (mm : Mm) (pd : Nat) (vma : VmArea) (vaddr : Nat) : Mm × Bool :=
  match vma.pagewrite with
  | .default => (mm, false)
  | .write =>
    if vma.flags &&& pgFlagWr ≠ 0 then vmAreaSetflags mm pd vma vaddr 1 else (mm, false)

/-! ## pgf_exception_handler (kern/kernel_exceptions.c) -/

def pgfErrAccess : Nat := 1
def pgfErrWr : Nat := 2
def pgfErrUsr : Nat := 4

/-- the first and the last page of an area contain those of `vaddr` between them -/
def VmArea.covers (vma : VmArea) (vaddr : Nat) : Bool :=
  pageAddr vma.startAddress ≤ pageAddr vaddr ∧ pageAddr vaddr ≤ pageAddr vma.endAddress

/-- `find_vm_area` yields a list position; here the list from that position on -/
def findVmAreaFrom (vmas : List VmArea) (vaddr : Nat) : List VmArea :=
  vmas.dropWhile fun vma => ¬ vma.covers vaddr

/-- the state of the loop of `pgf_exception_handler`; `calls` records the areas whose `nopage` ran -/
structure PgfState where
  mm : Mm
  handled : Bool
  calls : List VmArea

/-- the loop over the list from the area found on; `none` is a panic -/
def pgfLoop (fs : Nat → Option ExecFile) (pd errflag cr2 : Nat) :
    List VmArea → PgfState → Option PgfState
  | [], s => some s
  | vma :: vmas, s =>
    if vma.covers cr2 then
      let pagewrite (s : PgfState) : Option PgfState :=
        if errflag &&& pgfErrWr ≠ 0 then
          match vma.callPagewrite s.mm pd cr2 with
          | (mm, false) => some { s with mm := mm, handled := false }
          | (mm, true) => pgfLoop fs pd errflag cr2 vmas { s with mm := mm, handled := true }
        else pgfLoop fs pd errflag cr2 vmas s
      if errflag &&& pgfErrAccess = 0 then
        match vma.callNopage fs s.mm pd cr2 with
        | none => none
        | some (mm, rc) =>
          if rc < 0 then some ⟨mm, false, s.calls ++ [vma]⟩
          else if vma.type ≠ .cow then
            pgfLoop fs pd errflag cr2 vmas ⟨mm, true, s.calls ++ [vma]⟩
          else pagewrite ⟨mm, true, s.calls ++ [vma]⟩
      else pagewrite s
    else some s

/-- `pgf_exception_handler` up to the decision whether the fault was handled; when it was, the
mapping is refreshed (`vmm_set_user_pgdir`, which flushes) -/
def pgfExceptionHandler (fs : Nat → Option ExecFile) (mm : Mm) (pd : Nat) (vmas : List VmArea)
    (errflag cr2 : Nat) : Option PgfState :=
  if errflag &&& pgfErrUsr = 0 then none
  else
    match pgfLoop fs pd errflag cr2 (findVmAreaFrom vmas cr2) ⟨mm, false, []⟩ with
    | none => none
    | some s =>
      if s.handled then some { s with mm := s.mm.vmmFlushMmuUpdateQueue } else some s

end Paravirt

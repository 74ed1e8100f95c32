import Mathlib.Data.List.TakeWhile
import Paravirt.Remove
import Paravirt.VmFail

/-!
# sys_new_pages, and sys_remove_pages after it (kern/mm.c)

* `findVmAreaOverlap`, `sysNewPages`   the call;
* `createNull_user`        the loop of `vm_area_create_null`: the page tables of a range of user pages
                           exist, and no page of it is mapped;
* `Split`                  the list once the area is on it;
* `storeBytes`             a program writes to pages of the region, which are faulted in;
* `Region`                 the state while it does;
* `new_then_remove_pages`  removing the region undoes all of it.
-/

set_option linter.unusedSectionVars false
set_option linter.unusedVariables false

namespace Paravirt
open Tiling

/-! ## the call -/

/-- the tests of `find_vm_area_overlap` on one area, for a positive `size` -/
@[irreducible] def VmArea.overlaps (vma : VmArea) (vaddr size : Nat) : Bool :=
  (vaddr = vma.startAddress ∨ vaddr = vma.endAddress) ∨
    (vaddr < vma.startAddress ∧ u32 (vaddr + size + 2^32 - 1) ≥ vma.startAddress) ∨
    (vaddr > vma.startAddress ∧ vaddr < vma.endAddress)

def findVmAreaOverlap (vmas : List VmArea) (vaddr size : Nat) : Option VmArea :=
  vmas.find? (·.overlaps vaddr size)

def vmmKernelStackPages : Nat := 4096 * 1

/-- the tests of `sys_new_pages` on its arguments; `numPpf` is `machine_phys_frames()` -/
@[irreducible] def newPagesArgs (numPpf addr : Nat) (size : Int) : Bool :=
  ¬ (addr < userMemStart ∨ addr ≥ vmmKernelBase) ∧ pageAddr addr = addr ∧
    ¬ (size ≤ 0 ∨ size % pageSize ≠ 0) ∧
    ¬ (size.toNat >>> pageShift ≥
      u32 (numPpf + 2^32 - userMemStart >>> pageShift + 2^32 - vmmKernelStackPages)) ∧
    ¬ (size.toNat > vmmKernelBase - addr)

/-- the end of `sys_new_pages`, on the result of `vm_area_alloc` -/
def newPagesResult : Option ((VmaState × Int) × Bool) → Option ((VmaState × Int) × Int)
  | none => none
  | some (r, false) => some (r, -1)
  | some (r, true) => some ((⟨r.1.heap, r.1.mm.vmmFlushMmuUpdateQueue, r.1.vmas⟩, r.2), 0)

/-- `task` has the count `taskCount`; `none` does not occur -/
def sysNewPages (numPpf : Nat) (s : VmaState) (taskCount : Int) (task pd addr : Nat) (size : Int) :
    Option ((VmaState × Int) × Int) :=
  if newPagesArgs numPpf addr size = false ∨ (findVmAreaOverlap s.vmas addr size.toNat).isSome then
    some ((s, taskCount), -1)
  else
    newPagesResult
      (vmAreaAllocTask taskCount s task pd addr size.toNat pgtabAttribUsrRw .zeropage 0 .none)

/-- the area `sys_new_pages` adds -/
def newArea (task addr size : Nat) : VmArea := zeroArea task addr size pgtabAttribUsrRw 0

theorem newPagesArgs_iff {numPpf addr : Nat} {size : Int}
    (h : newPagesArgs numPpf addr size = true) :
    userMemStart ≤ addr ∧ pageAddr addr = addr ∧ 0 < size.toNat ∧ size.toNat % 4096 = 0 ∧
      addr + size.toNat ≤ vmmKernelBase := by
  unfold newPagesArgs at h
  have h' := of_decide_eq_true h
  obtain ⟨h1, h2, h3, -, h5⟩ := h'
  have e : (pageSize : Int) = 4096 := rfl
  rw [e] at h3
  refine ⟨by omega, h2, by omega, by omega, by omega⟩

theorem newArea_ok {numPpf task addr : Nat} {size : Int}
    (h : newPagesArgs numPpf addr size = true) :
    (newArea task addr size.toNat).Ok where
  pos := (newPagesArgs_iff h).2.2.1
  noWrap := by
    have h5 := (newPagesArgs_iff h).2.2.2.2
    unfold vmmKernelBase at h5
    show addr + size.toNat ≤ 2^32
    omega
  flags := show pgtabAttribUsrRw < 4096 by decide
  nopage := rfl
  user _ := ⟨(newPagesArgs_iff h).1, (newPagesArgs_iff h).2.2.2.2⟩

/-- an area that `find_vm_area_overlap` passes over lies on one side of the range -/
theorem VmArea.Ok.disjoint_of_not_overlaps {vma : VmArea} (h : vma.Ok) {vaddr size : Nat}
    (h0 : 0 < size) (hw : vaddr + size ≤ 2^32) (hn : vma.overlaps vaddr size = false) :
    vma.startAddress + vma.size ≤ vaddr ∨ vaddr + size ≤ vma.startAddress := by
  unfold overlaps at hn
  have hn' := of_decide_eq_false hn
  rw [h.endAddress] at hn'
  have e : u32 (vaddr + size + 2^32 - 1) = vaddr + size - 1 := by
    unfold u32
    omega
  rw [e] at hn'
  have hpos := h.pos
  omega

/-- a range of whole pages has no page in common with an area that has no byte in common with it -/
theorem VmArea.not_covers_of_apart {vma new : VmArea} (h1 : 0 < vma.size)
    (h2 : vma.startAddress + vma.size ≤ 2^32) (h3 : 0 < new.size)
    (h4 : new.startAddress + new.size ≤ 2^32) (ha : pageAddr new.startAddress = new.startAddress)
    (hs : new.size % 4096 = 0)
    (hd : vma.startAddress + vma.size ≤ new.startAddress ∨
      new.startAddress + new.size ≤ vma.startAddress) {b : Nat} (hc : new.covers b = true) :
    vma.covers b = false := by
  rw [Bool.eq_false_iff]
  intro hv
  rw [covers_iff_pages h1 h2, pageAddr_of_lt (by omega : vma.startAddress < 2^32),
    pageAddr_of_lt (by omega : vma.startAddress + vma.size - 1 < 2^32)] at hv
  rw [covers_iff_pages h3 h4, pageAddr_of_lt (by omega : new.startAddress + new.size - 1 < 2^32)]
    at hc
  rw [pageAddr_of_lt (by omega : new.startAddress < 2^32)] at hc ha
  omega

theorem VmArea.Ok.not_covers_of_disjoint {vma new : VmArea} (h : vma.Ok) (hn : new.Ok)
    (ha : pageAddr new.startAddress = new.startAddress) (hs : new.size % 4096 = 0)
    (hd : vma.startAddress + vma.size ≤ new.startAddress ∨
      new.startAddress + new.size ≤ vma.startAddress) {b : Nat} (hc : new.covers b = true) :
    vma.covers b = false :=
  not_covers_of_apart h.pos h.noWrap hn.pos hn.noWrap ha hs hd hc

/-! ## vm_area_create_null -/

section
variable {base live : List Block} {dirs : List Nat} {mm mm' : Mm} {pd : Nat} {done : List Nat}

end

/-- the pages of an area are different ones -/
theorem VmArea.Ok.vmPages_pairwise {vma : VmArea} (h : vma.Ok) :
    (vmPages vma.startAddress vma.size).Pairwise fun a b => ¬ SamePage a b := by
  have h1 := h.pos
  have h2 := h.noWrap
  have es : pageAddr vma.startAddress = vma.startAddress / 4096 * 4096 := pageAddr_of_lt (by omega)
  have ee : pageAddr (vma.startAddress + vma.size - 1)
      = (vma.startAddress + vma.size - 1) / 4096 * 4096 := pageAddr_of_lt (by omega)
  unfold vmPages
  rw [List.pairwise_map, h.numPages]
  refine List.Pairwise.imp_of_mem ?_ List.pairwise_lt_range
  intro i j hi hj hlt hs
  rw [List.mem_range] at hi hj
  have e : ∀ k, k < (pageAddr (vma.startAddress + vma.size - 1) - pageAddr vma.startAddress) / 4096 + 1 →
      u32 (pageAddr vma.startAddress + k <<< pageShift) = pageAddr vma.startAddress + k * 4096 := by
    intro k hk
    rw [Nat.shiftLeft_eq]
    show u32 (pageAddr vma.startAddress + k * 4096) = _
    exact u32_of_lt (by omega)
  have ep : ∀ k, k < (pageAddr (vma.startAddress + vma.size - 1) - pageAddr vma.startAddress) / 4096 + 1 →
      pageAddr (pageAddr vma.startAddress + k * 4096) = pageAddr vma.startAddress + k * 4096 := by
    intro k hk
    rw [pageAddr_of_lt (by omega : pageAddr vma.startAddress + k * 4096 < 2^32), es]
    omega
  rw [e i hi, e j hj, samePage_iff (by omega) (by omega), ep i hi, ep j hj] at hs
  omega

/-! ## the list with the new area -/

/-- the new area stands between `l1` and `l2`, and no other area has a page of it -/
structure Inserted (new : VmArea) (vmas l1 l2 : List VmArea) : Prop where
  before : vmas = l1 ++ l2
  after : vmAreaAdd new vmas = l1 ++ new :: l2
  apart : ∀ v ∈ vmas, ∀ b, new.covers b = true → v.covers b = false

section
variable {new : VmArea} {vmas l1 l2 : List VmArea} {b : Nat}

theorem Inserted.findFrom (h : Inserted new vmas l1 l2) (hb : new.covers b = true) :
    findVmAreaFrom (vmAreaAdd new vmas) b = new :: l2 := by
  have hl : ∀ v ∈ l1, (¬ v.covers b) = true := by
    intro v hv
    have hc := h.apart v (by rw [h.before]; exact List.mem_append_left _ hv) b hb
    simp [hc]
  unfold findVmAreaFrom
  rw [h.after, List.dropWhile_append_of_pos (fun v hv => by simpa using hl v hv)]
  rw [List.dropWhile_cons_of_neg (by simp [hb])]

theorem Inserted.find (h : Inserted new vmas l1 l2) (hb : new.covers b = true) :
    findVmArea (vmAreaAdd new vmas) b = some new := by
  unfold findVmArea
  rw [h.after, List.find?_append, List.find?_eq_none.mpr, Option.none_or]
  · exact List.find?_cons_of_pos hb
  intro v hv
  have hc := h.apart v (by rw [h.before]; exact List.mem_append_left _ hv) b hb
  rw [hc]
  decide

theorem Inserted.erase (h : Inserted new vmas l1 l2) (hb : new.covers b = true) :
    (vmAreaAdd new vmas).erase new = vmas := by
  have hn : new ∉ l1 := by
    intro hv
    have hc := h.apart new (by rw [h.before]; exact List.mem_append_left _ hv) b hb
    rw [hb] at hc
    cases hc
  rw [h.after, List.erase_append_right _ hn, List.erase_cons_head, ← h.before]

end

/-! ## stores of a program -/

/-- the page of `a` is present, or a fault for a write makes it so; `none` ends the program -/
def faultIn (fs : Nat → Option ExecFile) (mm : Mm) (pd : Nat) (vmas : List VmArea) (a : Nat) :
    Option Mm :=
  match frameAt mm pd a with
  | some _ => some mm
  | none =>
    match pgfExceptionHandler fs mm pd vmas (pgfErrUsr ||| pgfErrWr) a with
    | some s => if s.handled then some s.mm else none
    | none => none

/-- the byte `p.2` is stored at the address `p.1` -/
def storeByte (fs : Nat → Option ExecFile) (mm : Mm) (pd : Nat) (vmas : List VmArea)
    (p : Nat × Nat) : Option Mm :=
  (faultIn fs mm pd vmas p.1).bind fun mm => (frameAt mm pd p.1).map fun f =>
    { mm with mem := Function.update mm.mem (f + pageDiv p.1) p.2 }

def storeBytes (fs : Nat → Option ExecFile) (pd : Nat) (vmas : List VmArea) :
    List (Nat × Nat) → Mm → Option Mm
  | [], mm => some mm
  | p :: ps, mm => (storeByte fs mm pd vmas p).bind (storeBytes fs pd vmas ps)

/-- the state since `mm1`, while a program stores to pages of the area `new` -/
structure Region (base : List Block) (dirs : List Nat) (pd : Nat) (new : VmArea) (mm1 mm : Mm) :
    Prop where
  ready : ∃ live, Ready base live dirs mm
  mapping : ∀ d ∈ dirs, ∀ b, UserPde (pdeIndex b) → ¬ (d = pd ∧ new.covers b = true) →
    mm.vmmGetMapping d b = mm1.vmmGetMapping d b
  table : ∀ b, new.covers b = true → mm.word pd (pdeIndex b) ≠ 0

section
variable {fs : Nat → Option ExecFile} {base live : List Block} {dirs : List Nat} {mm mm1 mm' : Mm}
  {pd a : Nat} {new : VmArea} {vmas l1 l2 : List VmArea}

theorem vmAreaZeroLoop_word (pd length : Nat) (l : List Nat) :
    ∀ (pgOffset : Nat) (mm : Mm), (vmAreaZeroLoop pd length l pgOffset mm).word = mm.eff.word := by
  induction l with
  | nil => intro pgOffset mm; rfl
  | cons a l ih =>
    intro pgOffset mm
    unfold vmAreaZeroLoop
    dsimp only
    split
    · exact ih _ _
    · exact ih _ _

theorem vmAreaZero_word (hq : mm.queue = []) (pd : Nat) (vma : VmArea) (addr length : Nat) :
    (vmAreaZero mm pd vma addr length).1.word = mm.word := by
  unfold vmAreaZero
  by_cases hc : vma.startAddress > addr ∨ u32 (vma.startAddress + vma.size) < u32 (addr + length)
  · rw [if_pos hc]
  · rw [if_neg hc]
    dsimp only
    rw [vmAreaZeroLoop_word, Mm.eff_of_nil hq]

/-- a fault on an absent page keeps the page tables there are -/
theorem nopageZeropage_tables (h : Ready base live dirs mm) (hd : pd ∈ dirs) (hok : new.Ok)
    (hu : UserPde (pdeIndex a)) (ha : a < 2^32) (h0 : frameAt mm pd a = none)
    (hcan : FramesFor mm pd a) {i : Nat} (hi : mm.word pd i ≠ 0) :
    (vmaNopageZeropage mm pd new a).1.word pd i ≠ 0 := by
  have hsp := samePage_pageAddr a
  have hup : UserPde (pdeIndex (pageAddr a)) := by
    rw [hsp.1]
    exact hu
  have h0' : frameAt mm pd (pageAddr a) = none := by
    rw [hsp.frameAt]
    exact h0
  obtain ⟨m1, live1, f, e, r1, -, -, -, -, -, -, r8⟩ := vmAreaCreate_page h hd hok.flags hup
    fun _ => framesFor_pageAddr.mpr hcan
  have he : vmAreaCreate mm pd new (pageAddr a) pageSize = (m1, true) :=
    (vmAreaCreate_pageAddr ha new).trans e
  obtain ⟨m2, hm2⟩ : ∃ m2, (vmAreaZero m1 pd new (new.clip a).1 (new.clip a).2).1 = m2 := ⟨_, rfl⟩
  have hw := vmAreaZero_word r1.queue pd new (new.clip a).1 (new.clip a).2
  rw [hm2] at hw
  rw [vmaNopageZeropage_eq he hm2]
  dsimp only
  rw [hw]
  exact r8 h0' i hi

/-- the loop of the handler stops at once where no area covers the page -/
theorem pgfLoop_none {errflag : Nat} {l : List VmArea} (hl : ∀ v ∈ l, v.covers a = false)
    (s : PgfState) : pgfLoop fs pd errflag a l s = some s := by
  cases l with
  | nil => rfl
  | cons v l => exact pgfLoop_stop (hl v List.mem_cons_self)

theorem nopage_of_zeropage (hok : new.Ok) (hty : new.type = .zeropage) :
    new.nopage = .zeropage := by
  have hn := hok.nopage
  rw [hty] at hn
  exact hn

variable (fs) in
/-- **a fault on an absent page of the new area**: with the frames for it, the area is served alone -/
theorem Inserted.fault (hin : Inserted new vmas l1 l2) (hr : Ready base live dirs mm)
    (hd : pd ∈ dirs)
    (hok : new.Ok) (hty : new.type = .zeropage) (hc : new.covers a = true) (ha : a < 2^32)
    {errflag : Nat} (hu : errflag &&& pgfErrUsr ≠ 0) (hnp : errflag &&& pgfErrAccess = 0)
    (h0 : frameAt mm pd a = none) (hcan : FramesFor mm pd a) :
    ∃ m2 live2 f, pgfExceptionHandler fs mm pd (vmAreaAdd new vmas) errflag a
        = some ⟨m2, true, [new]⟩ ∧ NopageDone fs base live live2 dirs pd a new f mm m2 ∧
      ∀ i, mm.word pd i ≠ 0 → m2.word pd i ≠ 0 := by
  have hn := nopage_of_zeropage hok hty
  have hnd : new.nopage ≠ .default := by
    rw [hn]
    decide
  have hua := (hok.userPde hnd ha hc).1
  have hl2 : ∀ v ∈ l2, v.covers a = false := fun v hv =>
    hin.apart v (by rw [hin.before]; exact List.mem_append_right _ hv) a hc
  have htab := fun i hi => nopageZeropage_tables (i := i) hr hd hok hua ha h0 hcan hi
  rcases callNopage_done fs hr hd hok hnd ha hc fun _ => hcan with
    ⟨r, -, -, hb⟩ | ⟨m2, live2, f, rc, he, hrc, -, hdone⟩
  · exact absurd (fun ht => by rw [hty] at ht; cases ht) hb
  · have hloop : pgfLoop fs pd errflag a (findVmAreaFrom (vmAreaAdd new vmas) a) ⟨mm, false, []⟩
        = some ⟨m2, true, [new]⟩ := by
      rw [hin.findFrom hc, pgfLoop_cons hc hnp (hok.type_ne_cow hnd) he hrc]
      exact pgfLoop_none hl2 _
    refine ⟨m2, live2, f, ?_, hdone, ?_⟩
    · rw [pgfExceptionHandler_of_loop hu hloop]
      dsimp only
      rw [if_pos rfl, Mm.flush_eq, hdone.ready.eff_eq]
    · rw [callNopage_zeropage hn, Option.some.injEq] at he
      rw [he] at htab
      exact htab

/-- without a frame the fault is not handled -/
theorem Inserted.fault_fails (hin : Inserted new vmas l1 l2) (hr : Ready base live dirs mm)
    (hok : new.Ok) (hty : new.type = .zeropage) (hc : new.covers a = true) (ha : a < 2^32)
    {errflag : Nat} (hu : errflag &&& pgfErrUsr ≠ 0) (hnp : errflag &&& pgfErrAccess = 0)
    (h0 : frameAt mm pd a = none) (hcan : ¬ CanServe 1 mm.lomem) :
    pgfExceptionHandler fs mm pd (vmAreaAdd new vmas) errflag a = some ⟨mm, false, [new]⟩ := by
  have hno : mm.vmmPpfAlloc = (mm, none) := by
    have hI : MmInv base live dirs mm.eff := by
      rw [hr.eff_eq]
      exact hr.inv
    rcases hI.alloc with ⟨e, -⟩ | ⟨z, f, e, -⟩
    · exact e
    · exfalso
      refine hcan ⟨z, f, ?_, trivial⟩
      unfold Mm.vmmPpfAlloc at e
      have e1 := congrArg (fun r => r.1.lomem) e
      have e2 := congrArg (fun r => r.2) e
      exact Prod.ext e1 e2
  have hm0 : pageAddr (mm.vmmGetMapping pd (pageAddr a)) = 0 := by
    rw [(samePage_pageAddr a).mapping]
    by_contra hne
    have hs : frameAt mm pd a = some _ := if_neg hne
    rw [h0] at hs
    cases hs
  have hcreate : vmAreaCreate mm pd new (pageAddr a) pageSize = (mm, false) := by
    rw [vmAreaCreate_pageAddr ha]
    unfold vmAreaCreateLoop
    dsimp only
    rw [if_pos hm0, hno]
  have hcall : new.callNopage fs mm pd a = some (mm, -1) := by
    rw [callNopage_zeropage (nopage_of_zeropage hok hty)]
    unfold vmaNopageZeropage
    rw [hcreate]
    rfl
  have hloop : pgfLoop fs pd errflag a (findVmAreaFrom (vmAreaAdd new vmas) a) ⟨mm, false, []⟩
      = some ⟨mm, false, [new]⟩ := by
    rw [hin.findFrom hc]
    exact pgfLoop_fail (s := ⟨mm, false, []⟩) hc hnp hcall (show (-1 : Int) < 0 by decide)
  rw [pgfExceptionHandler_of_loop hu hloop]
  exact if_neg Bool.false_ne_true

/-- **a page of the region is faulted in** -/
theorem Region.fault (h : Region base dirs pd new mm1 mm) (hd : pd ∈ dirs) (hok : new.Ok)
    (hty : new.type = .zeropage) (hin : Inserted new vmas l1 l2) (hc : new.covers a = true)
    (ha : a < 2^32) (hf : faultIn fs mm pd (vmAreaAdd new vmas) a = some mm') :
    Region base dirs pd new mm1 mm' := by
  obtain ⟨live, hr⟩ := h.ready
  have hnp : (pgfErrUsr ||| pgfErrWr) &&& pgfErrAccess = 0 := by decide
  have hu : (pgfErrUsr ||| pgfErrWr) &&& pgfErrUsr ≠ 0 := by decide
  unfold faultIn at hf
  cases h0 : frameAt mm pd a with
  | some f =>
    rw [h0] at hf
    cases hf
    exact h
  | none =>
    rw [h0] at hf
    by_cases hcan : CanServe 1 mm.lomem
    · -- the page table is there, so one frame is enough
      obtain ⟨m2, live2, f, he, hdone, htab⟩ := hin.fault fs hr hd hok hty hc ha hu hnp h0
        ⟨hcan, fun hw => absurd hw (h.table a hc)⟩
      rw [he] at hf
      cases hf
      refine ⟨⟨live2, hdone.ready⟩, fun d hd' b hb hne => ?_, fun b hb => htab _ (h.table b hb)⟩
      rw [hdone.only.mapping d hd' b hb, h.mapping d hd' b hb hne]
      rintro ⟨rfl, hs⟩
      refine hne ⟨rfl, ?_⟩
      exact (hok.samePage_vmPages b).mp ((hok.samePage_vmPages a).mpr hc |>.imp
        fun x hx => ⟨hx.1, hs.trans hx.2⟩)
    · rw [hin.fault_fails hr hok hty hc ha hu hnp h0 hcan] at hf
      cases hf

/-- **the stores of a program**, by induction on their list -/
theorem Region.stores (hd : pd ∈ dirs) (hok : new.Ok) (hty : new.type = .zeropage)
    (hin : Inserted new vmas l1 l2) (ps : List (Nat × Nat)) :
    ∀ {mm : Mm}, Region base dirs pd new mm1 mm → (∀ p ∈ ps, new.Contains p.1) →
      storeBytes fs pd (vmAreaAdd new vmas) ps mm = some mm' → Region base dirs pd new mm1 mm' := by
  induction ps with
  | nil =>
    intro mm h _ hs
    cases hs
    exact h
  | cons p ps ih =>
    intro mm h hp hs
    have hc := hp p List.mem_cons_self
    unfold storeBytes at hs
    obtain ⟨m1, h1, hs⟩ := Option.bind_eq_some_iff.mp hs
    unfold storeByte at h1
    obtain ⟨m0, hf, h1⟩ := Option.bind_eq_some_iff.mp h1
    obtain ⟨f, -, rfl⟩ := Option.map_eq_some_iff.mp h1
    have h0 := h.fault hd hok hty hin (hok.covers_of_contains hc) (hok.lt_of_contains hc) hf
    obtain ⟨live0, hr0⟩ := h0.ready
    refine ih ?_ (fun q hq => hp q (List.mem_cons_of_mem _ hq)) hs
    exact ⟨⟨live0, hr0.setMem _⟩, h0.mapping, h0.table⟩

/-! ## what the calls leave -/

/-- `vm_area_alloc` for a new zero-filled area -/
theorem vmAreaAllocTask_new (c : Int) (s : VmaState) (task pd addr size : Nat) :
    vmAreaAllocTask c s task pd addr size pgtabAttribUsrRw .zeropage 0 .none =
      if (malloc s.heap).1 = 0 then some ((⟨s.heap.tail, s.mm, s.vmas⟩, c), false)
      else if (vmAreaCreateNull s.mm pd (newArea task addr size)).2 then
        some ((⟨s.heap.tail, (vmAreaCreateNull s.mm pd (newArea task addr size)).1,
          vmAreaAdd (newArea task addr size) s.vmas⟩, c + 1), true)
      else
        some ((⟨s.heap.tail, vmAreaUnmap (vmAreaCreateNull s.mm pd (newArea task addr size)).1 pd
          (newArea task addr size), s.vmas⟩, c + 1), false) := by
  have hi : vmAreaInitType s.mm pd (vmAreaInit task addr size pgtabAttribUsrRw .zeropage 0)
      .zeropage .none = some (vmAreaInitNull s.mm pd (newArea task addr size)) := rfl
  unfold vmAreaAllocTask vmAreaAlloc
  rw [hi]
  unfold vmAreaInitNull
  generalize vmAreaCreateNull s.mm pd (newArea task addr size) = r
  by_cases hm : (malloc s.heap).1 = 0
  · rw [if_pos hm, if_pos hm]
    dsimp only
    rw [Option.map_some, if_pos hm]
    rfl
  · rw [if_neg hm, if_neg hm]
    dsimp only
    rw [if_neg hm]
    by_cases hr : r.2 = true
    · rw [if_pos hr, if_pos hr]
      rfl
    · rw [if_neg hr, if_neg hr]
      rfl

variable {numPpf task addr : Nat} {size : Int} {s s1 : VmaState} {c c1 : Int}

theorem find_none_iff {p : VmArea → Bool} : vmas.find? p = none ↔ ∀ v ∈ vmas, p v = false := by
  rw [List.find?_eq_none]
  constructor
  · intro h v hv
    exact Bool.eq_false_iff.mpr (h v hv)
  · intro h v hv
    exact Bool.eq_false_iff.mp (h v hv)

theorem findVmAreaOverlap_none {n : Nat} :
    findVmAreaOverlap vmas addr n = none ↔ ∀ v ∈ vmas, v.overlaps addr n = false :=
  find_none_iff

theorem newPagesResult_true (heap : List Nat) (mm : Mm) (vmas : List VmArea) (c : Int) :
    newPagesResult (some ((⟨heap, mm, vmas⟩, c), true)) =
      some ((⟨heap, mm.vmmFlushMmuUpdateQueue, vmas⟩, c), 0) := rfl

theorem newPagesResult_false (r : VmaState × Int) :
    newPagesResult (some (r, false)) = some (r, -1) := rfl

/-- when `sys_new_pages` succeeds -/
theorem sysNewPages_of (hargs : newPagesArgs numPpf addr size = true)
    (hover : ∀ v ∈ s.vmas, v.overlaps addr size.toNat = false) (hm : (malloc s.heap).1 ≠ 0)
    (hnull : (vmAreaCreateNull s.mm pd (newArea task addr size.toNat)).2 = true) :
    sysNewPages numPpf s c task pd addr size = some ((⟨s.heap.tail,
        (vmAreaCreateNull s.mm pd (newArea task addr size.toNat)).1.vmmFlushMmuUpdateQueue,
        vmAreaAdd (newArea task addr size.toNat) s.vmas⟩, c + 1), 0) := by
  have hno : ¬ (newPagesArgs numPpf addr size = false ∨
      (findVmAreaOverlap s.vmas addr size.toNat).isSome = true) := by
    rintro (he | he)
    · rw [hargs] at he
      cases he
    · rw [findVmAreaOverlap_none.mpr hover] at he
      cases he
  unfold sysNewPages
  rw [if_neg hno, vmAreaAllocTask_new, if_neg hm, if_pos hnull, newPagesResult_true]

/-- a call of `sys_new_pages` that succeeds -/
theorem sysNewPages_ok (h : sysNewPages numPpf s c task pd addr size = some ((s1, c1), 0)) :
    newPagesArgs numPpf addr size = true ∧
      (∀ v ∈ s.vmas, v.overlaps addr size.toNat = false) ∧
      (vmAreaCreateNull s.mm pd (newArea task addr size.toNat)).2 = true ∧
      s1 = ⟨s.heap.tail,
        (vmAreaCreateNull s.mm pd (newArea task addr size.toNat)).1.vmmFlushMmuUpdateQueue,
        vmAreaAdd (newArea task addr size.toNat) s.vmas⟩ ∧ c1 = c + 1 := by
  have hne : ∀ {r : VmaState × Int}, some (r, (-1 : Int)) = some ((s1, c1), 0) → False := by
    intro r hr
    have h2 : (-1 : Int) = 0 := congrArg Prod.snd (Option.some.inj hr)
    omega
  by_cases hno : newPagesArgs numPpf addr size = false ∨
      (findVmAreaOverlap s.vmas addr size.toNat).isSome = true
  · unfold sysNewPages at h
    rw [if_pos hno] at h
    exact (hne h).elim
  have hargs : newPagesArgs numPpf addr size = true :=
    Bool.eq_true_of_not_eq_false fun he => hno (.inl he)
  have hover : ∀ v ∈ s.vmas, v.overlaps addr size.toNat = false := by
    refine findVmAreaOverlap_none.mp ?_
    rw [← Option.not_isSome_iff_eq_none]
    exact fun he => hno (.inr he)
  by_cases hm : (malloc s.heap).1 = 0
  · unfold sysNewPages at h
    rw [if_neg hno, vmAreaAllocTask_new, if_pos hm, newPagesResult_false] at h
    exact (hne h).elim
  by_cases hnull : (vmAreaCreateNull s.mm pd (newArea task addr size.toNat)).2 = true
  · rw [sysNewPages_of hargs hover hm hnull] at h
    have h1 := congrArg Prod.fst (Option.some.inj h)
    exact ⟨hargs, hover, hnull, (congrArg Prod.fst h1).symm, (congrArg Prod.snd h1).symm⟩
  · unfold sysNewPages at h
    rw [if_neg hno, vmAreaAllocTask_new, if_neg hm, if_neg hnull, newPagesResult_false] at h
    exact (hne h).elim

end

/-! ## the round trip -/

section
variable {fs : Nat → Option ExecFile} {base live live' : List Block} {dirs : List Nat}
  {mm mm2 : Mm} {pd a f numPpf task addr : Nat} {size : Int} {s s1 : VmaState} {c c1 : Int}
  {count : VmArea → Nat} {l : List Nat} {new : VmArea} {vmas l1 l2 : List VmArea}

/-- the frame of a page that was unmapped is on the free lists -/
theorem Unmapped.freed (h : Unmapped base live live' dirs pd l mm mm2)
    (hr : Ready base live dirs mm)
    (hd : pd ∈ dirs) (hu : UserPde (pdeIndex a)) (ha : a ∈ l) (hf : frameAt mm pd a = some f) :
    f ∈ allCells pageSize mm2.lomem.freeBlocks := by
  have hlive := hr.inv.live_of_use _ _ (MmInv.uses_of_frameAt hd hu hf)
  have hcell := (hr.inv.isFrame_of_live hlive).2
  have htiles := (List.Perm.mem_iff h.ready.inv.zone.tiles).mpr hcell
  rw [allCells_append] at htiles
  rcases List.mem_append.mp htiles with h1 | h1
  · exact h1
  · exfalso
    obtain ⟨b, hb, hfb⟩ := mem_allCells.mp h1
    obtain ⟨hbl, hnot⟩ := (h.live b).mp hb
    by_cases e : b = (f, 1)
    · exact hnot ⟨a, ha, f, hf, e⟩
    · have hsymm : Std.Symm fun x y : Block => (cells pageSize x).Disjoint (cells pageSize y) :=
        ⟨fun x y hxy c hy hx => hxy hx hy⟩
      have hdis := (hr.inv.zone.live_disjoint hr.inv.good).forall hbl hlive e
      exact hdis hfb (fst_mem_cells pageSize (f, 1))

end

/-! ## one page -/

end Paravirt

import Paravirt.Unmap

/-!
# sys_remove_pages (kern/mm.c)

`count vma` is `vma->count`: the list holds one reference, and a thread holds one on each of its
stacks.

* `sysRemovePages`       the call: the first area of the page of `addr`, when it starts at `addr`,
                         leaves the list and loses the reference of the list;
* `Reads`                what a program reads at an address, present or loaded by a fault;
* `Removed`              the state after the call: only pages of the area are gone;
* `remove_isolated_iff`  the other areas read as before if and only if what they had in these pages
                         is what a fault loads.
-/

set_option linter.unusedSectionVars false
set_option linter.unusedVariables false

namespace Paravirt
open Tiling

/-! ## the call -/

/-- `find_vm_area` -/
def findVmArea (vmas : List VmArea) (vaddr : Nat) : Option VmArea := vmas.find? (·.covers vaddr)

/-- `vm_area_free_resources`, but for the reference to the file -/
def vmAreaFreeResources (mm : Mm) (pd : Nat) (vma : VmArea) : Mm :=
  let mm := vmAreaUnmap mm pd vma
  if vma.type = .kernelStack then
    mm.vmmPpfsFree vma.startAddress (stackPages vma.size)
  else mm

/-- `vm_area_put` on an area that has `count` references -/
def vmAreaPut (count : Nat) (mm : Mm) (pd : Nat) (vma : VmArea) : Mm :=
  if count = 1 then
    if vma.type ≠ .direct then vmAreaFreeResources mm pd vma else mm
  else mm

/-- `sched_set_user_pgdir` at the end flushes the update queue -/
def sysRemovePages (count : VmArea → Nat) (mm : Mm) (pd : Nat) (vmas : List VmArea) (addr : Nat) :
    (Mm × List VmArea) × Int :=
  match findVmArea vmas addr with
  | none => ((mm, vmas), -1)
  | some vma =>
    if addr ≠ vma.startAddress then ((mm, vmas), -1)
    else (((vmAreaPut (count vma) mm pd vma).vmmFlushMmuUpdateQueue, vmas.erase vma), 0)

theorem sysRemovePages_ok {count : VmArea → Nat} {mm mm' : Mm} {pd addr : Nat}
    {vmas vmas' : List VmArea} (h : sysRemovePages count mm pd vmas addr = ((mm', vmas'), 0)) :
    ∃ vma, findVmArea vmas addr = some vma ∧ vma.startAddress = addr ∧
      (vmAreaPut (count vma) mm pd vma).vmmFlushMmuUpdateQueue = mm' ∧ vmas.erase vma = vmas' := by
  unfold sysRemovePages at h
  cases hfind : findVmArea vmas addr with
  | none =>
    rw [hfind] at h
    have h2 : (-1 : Int) = 0 := congrArg Prod.snd h
    omega
  | some vma =>
    rw [hfind] at h
    dsimp only at h
    by_cases hstart : addr = vma.startAddress
    · rw [if_neg (not_not.mpr hstart)] at h
      have h1 := congrArg Prod.fst h
      exact ⟨vma, rfl, hstart.symm, congrArg Prod.fst h1, congrArg Prod.snd h1⟩
    · rw [if_pos hstart] at h
      have h2 : (-1 : Int) = 0 := congrArg Prod.snd h
      omega

/-! ## the pages of an area -/

theorem VmArea.Ok.numPages {vma : VmArea} (h : vma.Ok) :
    Paravirt.numPages vma.startAddress vma.size =
      (pageAddr (vma.startAddress + vma.size - 1) - pageAddr vma.startAddress) / 4096 + 1 := by
  have h1 := h.pos
  have h2 := h.noWrap
  have e : u32 (vma.startAddress + vma.size + 2^32 - 1) = vma.startAddress + vma.size - 1 := by
    unfold u32
    omega
  have hle : pageAddr vma.startAddress ≤ pageAddr (vma.startAddress + vma.size - 1) :=
    pageAddr_mono (by omega) (by omega)
  have hlt := pageAddr_lt (vma.startAddress + vma.size - 1)
  unfold Paravirt.numPages
  rw [e]
  have e2 : u32 (pageAddr (vma.startAddress + vma.size - 1) + 2^32 - pageAddr vma.startAddress)
      = pageAddr (vma.startAddress + vma.size - 1) - pageAddr vma.startAddress := by
    unfold u32
    omega
  rw [e2, Nat.shiftRight_eq_div_pow]
  rfl

/-- the loops over the pages of an area meet the pages it covers -/
theorem VmArea.Ok.mem_vmPages {vma : VmArea} (h : vma.Ok) {a : Nat} :
    a ∈ vmPages vma.startAddress vma.size ↔ pageAddr a = a ∧ vma.covers a = true := by
  have h1 := h.pos
  have h2 := h.noWrap
  have es : pageAddr vma.startAddress = vma.startAddress / 4096 * 4096 := pageAddr_of_lt (by omega)
  have ee : pageAddr (vma.startAddress + vma.size - 1)
      = (vma.startAddress + vma.size - 1) / 4096 * 4096 := pageAddr_of_lt (by omega)
  unfold vmPages
  rw [List.mem_map, h.numPages, h.covers_iff]
  constructor
  · rintro ⟨i, hi, rfl⟩
    rw [List.mem_range] at hi
    have e : u32 (pageAddr vma.startAddress + i <<< pageShift)
        = pageAddr vma.startAddress + i * 4096 := by
      rw [Nat.shiftLeft_eq]
      show u32 (pageAddr vma.startAddress + i * 4096) = _
      exact u32_of_lt (by omega)
    have ea : pageAddr (pageAddr vma.startAddress + i * 4096)
        = pageAddr vma.startAddress + i * 4096 := by
      rw [pageAddr_of_lt (by omega), es]
      omega
    rw [e, ea]
    exact ⟨rfl, by omega, by omega⟩
  · rintro ⟨ea, hlo, hhi⟩
    have hlt := pageAddr_lt a
    have ea' : a = a / 4096 * 4096 := by
      rw [pageAddr_of_lt (by omega)] at ea
      exact ea.symm
    refine ⟨(a - pageAddr vma.startAddress) / 4096, ?_, ?_⟩
    · rw [List.mem_range]
      omega
    · rw [Nat.shiftLeft_eq]
      show u32 (pageAddr vma.startAddress + (a - pageAddr vma.startAddress) / 4096 * 4096) = _
      rw [u32_of_lt (by omega)]
      omega

theorem VmArea.Ok.samePage_vmPages {vma : VmArea} (h : vma.Ok) (b : Nat) :
    (∃ a ∈ vmPages vma.startAddress vma.size, SamePage b a) ↔ vma.covers b = true := by
  constructor
  · rintro ⟨a, ha, hs⟩
    obtain ⟨ea, hc⟩ := h.mem_vmPages.mp ha
    have hsp := (samePage_pageAddr b).trans hs
    have e := (samePage_iff (pageAddr_lt b) (ea ▸ pageAddr_lt a)).mp hsp
    rw [pageAddr_pageAddr] at e
    rw [h.covers_iff] at hc ⊢
    rw [e]
    exact hc
  · intro hc
    refine ⟨pageAddr b, h.mem_vmPages.mpr ⟨pageAddr_pageAddr b, ?_⟩, (samePage_pageAddr b).symm⟩
    rw [h.covers_iff] at hc ⊢
    rw [pageAddr_pageAddr]
    exact hc

/-! ## what a program reads -/

/-- the byte at `b`: the one that is there or, when the page is not present and there are frames for
the fault, the one the fault loads -/
def Reads (fs : Nat → Option ExecFile) (mm : Mm) (pd : Nat) (vmas : List VmArea) (b x : Nat) :
    Prop :=
  userByte mm pd b = some x ∨
    (frameAt mm pd b = none ∧ FramesFor mm pd b ∧
      ∃ s, pgfExceptionHandler fs mm pd vmas pgfErrUsr b = some s ∧ s.handled = true ∧
        userByte s.mm pd b = some x)

/-- every byte of the other areas reads the same after `sys_remove_pages(addr)` as before -/
def RemoveIsolated (fs : Nat → Option ExecFile) (count : VmArea → Nat) (mm : Mm) (pd : Nat)
    (vmas : List VmArea) (addr : Nat) : Prop :=
  ∀ mm' vmas', sysRemovePages count mm pd vmas addr = ((mm', vmas'), 0) →
    ∀ w ∈ vmas', ∀ b x, w.Contains b → Reads fs mm pd vmas b x →
      (frameAt mm' pd b = none → FramesFor mm' pd b) → Reads fs mm' pd vmas' b x

/-- what the present pages of `vma` hold of the other areas is what a fault loads there -/
def AsLoaded (fs : Nat → Option ExecFile) (mm : Mm) (pd : Nat) (vmas : List VmArea) (vma : VmArea) :
    Prop :=
  ∀ w ∈ vmas.erase vma, ∀ b x, w.Contains b → vma.covers b = true → userByte mm pd b = some x →
    w.initial fs b b = some x ∧ ∀ u ∈ vmas.erase vma, u.covers b = true → u.PartBacked fs b

/-- the frames of a kernel stack, a block of the other zone -/
def VmArea.stackBlock (vma : VmArea) : Block :=
  (vma.startAddress, vmmFloorLog2 (stackPages vma.size))

/-- the areas of a task: demand-loaded ones in user memory, and the kernel stacks of its threads -/
structure TaskAreas (base live : List Block) (dirs : List Nat) (mm : Mm) (pd : Nat)
    (vmas : List VmArea) : Prop extends FaultOk base live dirs mm pd vmas where
  fits : ZoneInv.Fits base mm.lomem
  kind : ∀ vma ∈ vmas, vma.type = .file ∨ vma.type = .zeropage ∨
    (vma.type = .kernelStack ∧ vmmKernelBase ≤ vma.startAddress)
  stack : ∀ vma ∈ vmas, vma.type = .kernelStack →
    MmInv (vma.stackBlock :: base) (vma.stackBlock :: live) dirs mm ∧
      vma.stackBlock.2 ≤ mm.lomem.maxOrder + 1

/-! ## the state after the call -/

/-- `gone` says whether the pages of `vma` were released -/
structure Removed (gone : Prop) [Decidable gone] (dirs : List Nat) (pd : Nat) (vmas : List VmArea)
    (vma : VmArea) (mm mm' : Mm) : Prop where
  task : ∃ base live, FaultOk base live dirs mm' pd (vmas.erase vma)
  mem : mm'.mem = mm.mem
  frame : ∀ b, frameAt mm' pd b =
    if gone ∧ vma.covers b = true then none else frameAt mm pd b
  serves : gone → ∀ b, vma.covers b = true → frameAt mm pd b ≠ none → FramesFor mm' pd b

section
variable {fs : Nat → Option ExecFile} {base live : List Block} {dirs : List Nat} {mm mm' : Mm}
  {pd addr : Nat} {vmas : List VmArea} {vma : VmArea} {count : VmArea → Nat}

theorem FaultOk.erase (h : FaultOk base live dirs mm pd vmas) (vma : VmArea) :
    FaultOk base live dirs mm pd (vmas.erase vma) where
  ready := h.ready
  dir := h.dir
  ok v hv := h.ok v (List.mem_of_mem_erase hv)
  sorted := h.sorted.sublist List.erase_sublist
  mapped v hv := h.mapped v (List.mem_of_mem_erase hv)

theorem TaskAreas.nopage_ne (h : TaskAreas base live dirs mm pd vmas) (hv : vma ∈ vmas)
    (ht : vma.type ≠ .kernelStack) : vma.nopage ≠ .default := by
  have hn := (h.ok vma hv).nopage
  rcases h.kind vma hv with e | e | ⟨e, -⟩
  · rw [e] at hn
    rw [hn]
    decide
  · rw [e] at hn
    rw [hn]
    decide
  · exact absurd e ht

/-- no page of a demand-loaded area belongs to a kernel stack -/
theorem TaskAreas.not_covers (h : TaskAreas base live dirs mm pd vmas) (hv : vma ∈ vmas)
    (ht : vma.type ≠ .kernelStack) {w : VmArea} (hw : w ∈ vmas) (hwt : w.type = .kernelStack) {b : Nat}
    (hc : w.covers b = true) : ¬ vma.covers b = true := by
  intro hcv
  have hlow := ((h.ok w hw).covers_iff b).mp hc
  have hhigh := ((h.ok vma hv).covers_iff b).mp hcv
  have huser := (h.ok vma hv).user (h.nopage_ne hv ht)
  have hpos := (h.ok vma hv).pos
  have hwrap := (h.ok w hw).noWrap
  have hwpos := (h.ok w hw).pos
  have hstart : vmmKernelBase ≤ w.startAddress := by
    rcases h.kind w hw with e | e | ⟨-, e⟩
    · rw [hwt] at e
      cases e
    · rw [hwt] at e
      cases e
    · exact e
  unfold vmmKernelBase at huser hstart
  rw [pageAddr_of_lt (by omega : w.startAddress < 2^32)] at hlow
  rw [pageAddr_of_lt (by omega : vma.startAddress + vma.size - 1 < 2^32)] at hhigh
  omega

theorem TaskAreas.type_ne_direct (h : TaskAreas base live dirs mm pd vmas) (hv : vma ∈ vmas) :
    vma.type ≠ .direct := by
  intro hd
  rcases h.kind vma hv with e | e | ⟨e, -⟩
  all_goals
    rw [hd] at e
    cases e

/-- the type of an area without `nopage` method -/
theorem TaskAreas.type_of_default (h : TaskAreas base live dirs mm pd vmas) (hv : vma ∈ vmas)
    (hd : vma.nopage = .default) : vma.type = .kernelStack := by
  by_contra ht
  exact h.nopage_ne hv ht hd

/-- the list keeps the area's last reference, and its pages are released -/
theorem removed_released (h : TaskAreas base live dirs mm pd vmas) (hv : vma ∈ vmas)
    (ht : vma.type ≠ .kernelStack) : Removed True dirs pd vmas vma mm
      (vmAreaFreeResources mm pd vma).vmmFlushMmuUpdateQueue := by
  have hok := h.ok vma hv
  have hn := h.nopage_ne hv ht
  have huser : ∀ a ∈ vmPages vma.startAddress vma.size, UserPde (pdeIndex a) := by
    intro a ha
    obtain ⟨ea, hc⟩ := hok.mem_vmPages.mp ha
    exact (hok.userPde hn (ea ▸ pageAddr_lt a) hc).1
  obtain ⟨live', hu⟩ := unmapLoop_user ht h.dir (vmPages vma.startAddress vma.size) h.ready huser
  have he : (vmAreaFreeResources mm pd vma).vmmFlushMmuUpdateQueue
      = vmAreaUnmapLoop pd vma.type (vmPages vma.startAddress vma.size) mm := by
    unfold vmAreaFreeResources
    dsimp only
    rw [if_neg ht, Mm.flush_eq]
    exact hu.ready.eff_eq
  rw [he]
  have hframe : ∀ b, frameAt (vmAreaUnmapLoop pd vma.type (vmPages vma.startAddress vma.size) mm) pd b
      = if True ∧ vma.covers b = true then none else frameAt mm pd b := by
    intro b
    rw [hu.frame pd h.dir b]
    refine if_congr ?_ rfl rfl
    rw [hok.samePage_vmPages, true_and, and_iff_right rfl]
  refine ⟨⟨base, live', hu.ready, h.dir, fun v hw => h.ok v (List.mem_of_mem_erase hw),
    h.sorted.sublist List.erase_sublist, fun v hw hd a hc => ?_⟩, hu.mem, hframe, fun _ b hc hf => ?_⟩
  · have hw := List.mem_of_mem_erase hw
    rw [hframe, if_neg fun hcv => h.not_covers hv ht hw (h.type_of_default hw hd) hc hcv.2]
    exact h.mapped v hw hd a hc
  · obtain ⟨a, ha, hs⟩ := (hok.samePage_vmPages b).mpr hc
    refine ⟨hu.serves h.fits (.inr ⟨a, ha, hs.frameAt mm pd ▸ hf⟩), fun h0 => ?_⟩
    -- the page table is there already
    rw [hu.tables pd h.dir] at h0
    obtain ⟨f, hf⟩ := Option.ne_none_iff_exists'.mp hf
    have hub : UserPde (pdeIndex b) := hs.1 ▸ huser a ha
    cases MmInv.uses_of_frameAt h.dir hub hf with
    | page _ _ hne _ => exact absurd h0 hne

theorem ZoneInv.free_block {base live : List Block} {z : VmmZone} {b : Block}
    (h : ZoneInv base (b :: live) z) (hb : GoodBase base) (hk : b.2 ≤ z.maxOrder + 1) :
    ZoneInv base live (vmmBuddyFreePages z b.1 b.2) := (h.free hb hk).1

/-- the pages of a kernel stack are not unmapped one by one -/
theorem unmapLoop_kernelStack (pd : Nat) (l : List Nat) :
    ∀ mm : Mm, vmAreaUnmapLoop pd .kernelStack l mm = mm := by
  induction l with
  | nil => exact fun mm => rfl
  | cons a l ih =>
    intro mm
    unfold vmAreaUnmapLoop
    dsimp only
    rw [if_neg fun h => h.2 rfl]
    exact ih mm

/-- a live block goes back to the lomem zone -/
theorem Ready.giveLomem {b : Block} {z : VmmZone} (h : Ready base live dirs mm)
    (hinv : MmInv (b :: base) (b :: live) dirs mm) (hz : ZoneInv (b :: base) live z) :
    Ready (b :: base) live dirs { mm with lomem := z } :=
  ⟨{ hinv with
      zone := hz
      live_of_use := h.inv.live_of_use }, h.queue⟩

/-- nothing is unmapped, and blocks are given to the lomem zone -/
theorem removed_lomem (h : TaskAreas base live dirs mm pd vmas) {base' live' : List Block}
    {z : VmmZone} (hready : Ready base' live' dirs { mm with lomem := z }) :
    Removed False dirs pd vmas vma mm { mm with lomem := z } :=
  ⟨⟨base', live', hready, h.dir, fun v hw => h.ok v (List.mem_of_mem_erase hw),
    h.sorted.sublist List.erase_sublist, fun v hw => h.mapped v (List.mem_of_mem_erase hw)⟩, rfl,
    fun b => (if_neg fun hc => hc.1).symm, fun hf => hf.elim⟩

/-- a kernel stack keeps its pages mapped -/
theorem removed_stack (h : TaskAreas base live dirs mm pd vmas) (hv : vma ∈ vmas)
    (ht : vma.type = .kernelStack) : Removed False dirs pd vmas vma mm
      (vmAreaFreeResources mm pd vma).vmmFlushMmuUpdateQueue := by
  obtain ⟨hinv, hk⟩ := h.stack vma hv ht
  have hzone : ZoneInv (vma.stackBlock :: base) live
      (vmmBuddyFreePages mm.lomem vma.stackBlock.1 vma.stackBlock.2) :=
    hinv.zone.free_block hinv.good hk
  have he : vmAreaFreeResources mm pd vma
      = { mm with lomem := vmmBuddyFreePages mm.lomem vma.stackBlock.1 vma.stackBlock.2 } := by
    unfold vmAreaFreeResources vmAreaUnmap
    dsimp only
    rw [ht, unmapLoop_kernelStack, if_pos rfl]
    unfold Mm.vmmPpfsFree VmArea.stackBlock
    rfl
  have hready := Ready.giveLomem h.ready hinv hzone
  rw [he, Mm.flush_eq, hready.eff_eq]
  exact removed_lomem h hready

/-- a thread still holds the area -/
theorem removed_held (h : TaskAreas base live dirs mm pd vmas) :
    Removed False dirs pd vmas vma mm mm.vmmFlushMmuUpdateQueue := by
  rw [Mm.flush_eq, h.ready.eff_eq]
  exact ⟨⟨base, live, h.toFaultOk.erase vma⟩, rfl, fun b => (if_neg fun hc => hc.1).symm,
    fun hf => hf.elim⟩

/-- a fault on an absent page that is handled loads every part of the page -/
theorem handled_initial (h : FaultOk base live dirs mm pd vmas) {b x : Nat} (hb : b < 2^32)
    (h0 : frameAt mm pd b = none) (hcan : FramesFor mm pd b) {s : PgfState}
    (hs : pgfExceptionHandler fs mm pd vmas pgfErrUsr b = some s) (hh : s.handled = true)
    (hx : userByte s.mm pd b = some x) {w : VmArea} (hw : w ∈ vmas) (hc : w.Contains b) :
    (∀ v, w.initial fs b b = some v → v = x) ∧ ∀ u ∈ vmas, u.covers b = true → u.PartBacked fs b := by
  obtain ⟨t, ht, hcase⟩ := pgf_result fs h hb
    (by decide : pgfErrUsr &&& pgfErrUsr ≠ 0) (by decide) h0 hcan
  rw [hs] at ht
  cases ht
  rcases hcase with ⟨hf, -⟩ | ⟨-, -, hback, hload⟩
  · rw [hf] at hh
    cases hh
  have hmem : w ∈ vmas.filter (·.covers b) :=
    List.mem_filter.mpr ⟨hw, (h.ok w hw).covers_of_contains hc⟩
  obtain ⟨f, -, hfr, hin, -⟩ := hload.frame (List.ne_nil_of_mem hmem)
  refine ⟨fun v hv => ?_, fun u hu hcu => hback u (List.mem_filter.mpr ⟨hu, hcu⟩)⟩
  have hself : InPage b b := ⟨hb, rfl⟩
  rw [userByte_inPage hb hself hfr, hin w hmem b hself hc v hv] at hx
  exact Option.some.inj hx

/-- a fault on an absent page, all of whose parts can be loaded, is handled -/
theorem reads_initial (h : FaultOk base live dirs mm pd vmas) {b x : Nat} (hb : b < 2^32)
    (h0 : frameAt mm pd b = none) (hcan : FramesFor mm pd b) {w : VmArea} (hw : w ∈ vmas)
    (hc : w.Contains b) (hx : w.initial fs b b = some x)
    (hback : ∀ u ∈ vmas, u.covers b = true → u.PartBacked fs b) : Reads fs mm pd vmas b x := by
  obtain ⟨s, hs, hcase⟩ := pgf_result fs h hb
    (by decide : pgfErrUsr &&& pgfErrUsr ≠ 0) (by decide) h0 hcan
  rcases hcase with ⟨-, u, hu, hcu, hnb⟩ | ⟨-, hh, -, hload⟩
  · exact absurd (hback u hu hcu) hnb
  have hmem : w ∈ vmas.filter (·.covers b) :=
    List.mem_filter.mpr ⟨hw, (h.ok w hw).covers_of_contains hc⟩
  obtain ⟨f, -, hfr, hin, -⟩ := hload.frame (List.ne_nil_of_mem hmem)
  have hself : InPage b b := ⟨hb, rfl⟩
  refine .inr ⟨h0, hcan, s, hs, ?_, ?_⟩
  · rw [hh]
    cases hl : vmas.filter (·.covers b) with
    | nil => rw [hl] at hmem; exact absurd hmem List.not_mem_nil
    | cons _ _ => rfl
  · rw [userByte_inPage hb hself hfr, hin w hmem b hself hc x hx]

theorem userByte_some {b x : Nat} (h : userByte mm pd b = some x) :
    ∃ f, frameAt mm pd b = some f ∧ mm.mem (f + pageDiv b) = x := by
  unfold userByte at h
  obtain ⟨f, hf, hx⟩ := Option.map_eq_some_iff.mp h
  exact ⟨f, hf, hx⟩

variable (fs) in
/-- a byte of a demand-loaded area has a value a fault gives it -/
theorem TaskAreas.initial_some (h : TaskAreas base live dirs mm pd vmas) (hv : vma ∈ vmas)
    (ht : vma.type ≠ .kernelStack) (b : Nat) : ∃ v, vma.initial fs b b = some v := by
  rcases h.kind vma hv with e | e | ⟨e, -⟩
  · exact ⟨_, VmArea.initial_file fs e b b⟩
  · exact ⟨_, VmArea.initial_zeropage fs e b b⟩
  · exact absurd e ht

theorem VmArea.Ok.lt_of_contains (h : vma.Ok) {b : Nat} (hc : vma.Contains b) : b < 2^32 := by
  have h1 := h.noWrap
  have h2 := hc.2
  omega

variable (fs) in
/-- **reads survive the call** when no page was released, or only pages that a fault loads again -/
theorem Removed.reads {gone : Prop} [Decidable gone] (h : TaskAreas base live dirs mm pd vmas)
    (hr : Removed gone dirs pd vmas vma mm mm') (hl : gone → AsLoaded fs mm pd vmas vma) {w : VmArea}
    (hw : w ∈ vmas.erase vma) {b x : Nat} (hc : w.Contains b) (hx : Reads fs mm pd vmas b x)
    (hcan : frameAt mm' pd b = none → FramesFor mm' pd b) :
    Reads fs mm' pd (vmas.erase vma) b x := by
  have hwm := List.mem_of_mem_erase hw
  have hb := (h.ok w hwm).lt_of_contains hc
  obtain ⟨base', live', htask⟩ := hr.task
  rcases hx with hx | ⟨h0, hcan0, s, hs, hh, hx⟩
  · obtain ⟨f, hf, hfx⟩ := userByte_some hx
    by_cases hg : gone ∧ vma.covers b = true
    · -- the page was released: the fault loads it again
      have h0 : frameAt mm' pd b = none := by
        rw [hr.frame, if_pos hg]
      obtain ⟨hi, hback⟩ := hl hg.1 w hw b x hc hg.2 hx
      exact reads_initial htask hb h0 (hcan h0) hw hc hi hback
    · left
      unfold userByte
      rw [hr.frame, if_neg hg, hf, hr.mem]
      exact congrArg some hfx
  · -- the page was absent, and stays so
    have h0' : frameAt mm' pd b = none := by
      rw [hr.frame]
      split
      · rfl
      · exact h0
    have hwt : w.type ≠ .kernelStack := by
      intro e
      have hd : w.nopage = .default := by
        have hn := (h.ok w hwm).nopage
        rw [e] at hn
        exact hn
      exact h.mapped w hwm hd b ((h.ok w hwm).covers_of_contains hc) h0
    obtain ⟨hval, hback⟩ := handled_initial h.toFaultOk hb h0 hcan0 hs hh hx hwm hc
    obtain ⟨v, hv⟩ := h.initial_some fs hwm hwt b
    rw [hval v hv] at hv
    exact reads_initial htask hb h0' (hcan h0') hw hc hv fun u hu =>
      hback u (List.mem_of_mem_erase hu)

/-! ## the other areas -/

/-- the pages of an area were released: other areas read the same only what a fault loads -/
theorem asLoaded_of_isolated (h : TaskAreas base live dirs mm pd vmas)
    (hiso : RemoveIsolated fs count mm pd vmas addr) (hfind : findVmArea vmas addr = some vma)
    (hstart : vma.startAddress = addr) (hcount : count vma = 1) (ht : vma.type ≠ .kernelStack) :
    AsLoaded fs mm pd vmas vma := by
  intro w hw b x hc hcov hx
  have hv : vma ∈ vmas := List.mem_of_find?_eq_some hfind
  have hwm := List.mem_of_mem_erase hw
  have hb := (h.ok w hwm).lt_of_contains hc
  have hdir := h.type_ne_direct hv
  have hcall : sysRemovePages count mm pd vmas addr
      = (((vmAreaFreeResources mm pd vma).vmmFlushMmuUpdateQueue, vmas.erase vma), 0) := by
    unfold sysRemovePages vmAreaPut
    rw [hfind]
    dsimp only
    rw [if_neg (not_not.mpr hstart.symm), if_pos hcount, if_pos hdir]
  have hr := removed_released h hv ht
  obtain ⟨f, hf, hfx⟩ := userByte_some hx
  have h0 : frameAt (vmAreaFreeResources mm pd vma).vmmFlushMmuUpdateQueue pd b = none := by
    rw [hr.frame, if_pos ⟨trivial, hcov⟩]
  have hcan := hr.serves trivial b hcov (by rw [hf]; exact Option.some_ne_none f)
  obtain ⟨base', live', htask⟩ := hr.task
  have hwt : w.type ≠ .kernelStack := fun e =>
    h.not_covers hv ht hwm e ((h.ok w hwm).covers_of_contains hc) hcov
  rcases hiso _ _ hcall w hw b x hc (.inl hx) fun _ => hcan with
    hp | ⟨-, -, s, hs, hh, hsx⟩
  · obtain ⟨g, hg, -⟩ := userByte_some hp
    rw [h0] at hg
    cases hg
  · obtain ⟨hval, hback⟩ := handled_initial htask hb h0 hcan hs hh hsx hw hc
    obtain ⟨v, hv⟩ := h.initial_some fs hwm hwt b
    rw [hval v hv] at hv
    exact ⟨hv, hback⟩

/-- no page of the area was released, or each of them can be loaded again -/
theorem isolated_of_asLoaded (h : TaskAreas base live dirs mm pd vmas)
    (hl : ∀ vma, findVmArea vmas addr = some vma → vma.startAddress = addr → count vma = 1 →
      vma.type ≠ .kernelStack → AsLoaded fs mm pd vmas vma) :
    RemoveIsolated fs count mm pd vmas addr := by
  intro mm' vmas' hcall w hw b x hc hx hcan
  obtain ⟨vma, hfind, hstart, rfl, rfl⟩ := sysRemovePages_ok hcall
  have hv : vma ∈ vmas := List.mem_of_find?_eq_some hfind
  unfold vmAreaPut at hcan ⊢
  by_cases hcount : count vma = 1
  · have hdir := h.type_ne_direct hv
    rw [if_pos hcount, if_pos hdir] at hcan ⊢
    by_cases ht : vma.type = .kernelStack
    · exact (removed_stack h hv ht).reads fs h (fun hf => hf.elim) hw hc hx hcan
    · exact (removed_released h hv ht).reads fs h (fun _ => hl vma hfind hstart hcount ht) hw hc hx
        hcan
  · rw [if_neg hcount] at hcan ⊢
    exact (removed_held h).reads fs h (fun hf => hf.elim) hw hc hx hcan

variable (fs count) in
/-- **the other areas read as before** if and only if a thread holds the area, or it is a kernel
stack, or what its present pages hold of other areas is what a fault loads there -/
theorem remove_isolated_iff (h : TaskAreas base live dirs mm pd vmas) :
    RemoveIsolated fs count mm pd vmas addr ↔
      ∀ vma, findVmArea vmas addr = some vma → vma.startAddress = addr → count vma = 1 →
        vma.type ≠ .kernelStack → AsLoaded fs mm pd vmas vma := by
  constructor
  · intro hiso vma hfind hstart hcount ht
    exact asLoaded_of_isolated h hiso hfind hstart hcount ht
  · exact isolated_of_asLoaded h

end

/-! ## a page with two areas -/

/-- a task's directory, its one page table and one page, and the directory of another task -/
def sharedLive : List Block :=
  [(0xc0400000, 1), (0xc0402000, 1), (0xc0404000, 1), (0xc0406000, 1)]

def sharedDirs : List Nat := [0xc0400000, 0xc0406000]

def sharedZone : VmmZone where
  freeAreaList i := if i = 3 then ⟨1, [0xc0408000]⟩ else ⟨0, []⟩
  order _ := 3
  start := 0xc0400000
  numPages := 16
  maxOrder := 4

/-- the page at `0x01000000` is present, and the byte at `0x01000120` was set to 9 -/
def sharedMm : Mm where
  lomem := sharedZone
  himem := sharedZone
  kernelPageDir := 0xc0000000
  word t i :=
    if t = 0xc0400000 ∧ i = 4 then 0x00402007
    else if t = 0xc0402000 then if i = 0 then 0x00404007 else 0
    else if UserPde i then 0 else 0x1003
  queue := []
  mem a := if a = 0xc0404120 then 9 else 0

theorem sharedMm_else {t i : Nat} (h1 : ¬ (t = 0xc0400000 ∧ i = 4)) (h2 : t ≠ 0xc0402000) :
    sharedMm.word t i = if UserPde i then 0 else 0x1003 := by
  unfold sharedMm
  dsimp only
  rw [if_neg h1, if_neg h2]

theorem sharedMm_dir {d i : Nat} (hd : d ∈ sharedDirs) (hi : UserPde i)
    (h0 : sharedMm.word d i ≠ 0) :
    d = 0xc0400000 ∧ i = 4 := by
  by_contra hn
  have hd' : d ≠ 0xc0402000 := by
    rintro rfl
    exact absurd hd (by decide)
  refine h0 ?_
  rw [sharedMm_else hn hd', if_pos hi]

theorem sharedMm_table : tableAt sharedMm.word 0xc0400000 4 = 0xc0402000 := by decide

theorem sharedMm_uses {u : Use} {f : Nat} (h : Uses sharedMm.word sharedDirs u f) :
    (u = .dir f ∧ f ∈ sharedDirs) ∨ (u = .table 0xc0400000 4 ∧ f = 0xc0402000) ∨
      (u = .page 0xc0400000 4 0 ∧ f = 0xc0404000) := by
  cases h with
  | dir hd => exact .inl ⟨rfl, hd⟩
  | table hd hi h0 =>
    obtain ⟨rfl, rfl⟩ := sharedMm_dir hd hi h0
    exact .inr (.inl ⟨rfl, sharedMm_table⟩)
  | @page d i j hd hi h0 hj =>
    obtain ⟨rfl, rfl⟩ := sharedMm_dir hd hi h0
    rw [sharedMm_table] at hj ⊢
    have e : j = 0 := by
      by_contra hne
      refine hj ?_
      show pageAddr (if j = 0 then 0x00404007 else 0) = 0
      rw [if_neg hne]
      rfl
    subst e
    exact .inr (.inr ⟨rfl, by decide⟩)

theorem sharedMm_kernel {d i : Nat} (hd : d ∈ 0xc0000000 :: sharedDirs) (hi : ¬ UserPde i) :
    sharedMm.word d i = 0x1003 := by
  have h1 : d ≠ 0xc0402000 := by
    rintro rfl
    exact absurd hd (by decide)
  have h2 : ¬ (d = 0xc0400000 ∧ i = 4) := by
    rintro ⟨-, rfl⟩
    exact hi (by decide)
  rw [sharedMm_else h2 h1, if_neg hi]

theorem sharedZone_freeList {i a : Nat} (h : a ∈ sharedZone.freeList i) :
    i = 3 ∧ a = 0xc0408000 := by
  unfold VmmZone.freeList sharedZone at h
  dsimp only at h
  split at h
  · exact ⟨‹_›, List.mem_singleton.mp h⟩
  · exact absurd h List.not_mem_nil

theorem sharedMm_ready : Ready [(0xc0400000, 4)] sharedLive sharedDirs sharedMm where
  queue := rfl
  inv :=
    { good := ⟨by decide, by decide, by decide⟩
      frame := by
        have h : ∀ c ∈ allCells pageSize [(0xc0400000, 4)],
            vmmKernelBase < c ∧ c < 2^32 ∧ c % 4096 = 0 := by decide
        exact fun c hc => ⟨(h c hc).1, (h c hc).2.1, (h c hc).2.2⟩
      zone :=
        { tiles := by unfold Tiles; decide
          order := fun i a ha => (sharedZone_freeList ha).1.symm
          numFree := by
            intro i
            show (sharedZone.freeAreaList i).numFree = (sharedZone.freeAreaList i).freeList.length
            unfold sharedZone
            dsimp only
            split <;> rfl
          bounded := by
            intro i hi
            have h3 : i ≠ 3 := by
              rintro rfl
              exact absurd hi (by decide)
            exact List.eq_nil_iff_forall_not_mem.mpr fun a ha => h3 (sharedZone_freeList ha).1 }
      live_of_use := by
        intro u f h
        rcases sharedMm_uses h with ⟨-, hd⟩ | ⟨-, rfl⟩ | ⟨-, rfl⟩
        · rcases List.mem_pair.mp hd with rfl | rfl <;> decide
        · decide
        · decide
      inj := by
        intro u v f h h'
        rcases sharedMm_uses h with ⟨rfl, hd⟩ | ⟨rfl, rfl⟩ | ⟨rfl, rfl⟩ <;>
          rcases sharedMm_uses h' with ⟨rfl, hd'⟩ | ⟨rfl, hd'⟩ | ⟨rfl, hd'⟩
        all_goals first | rfl | (subst hd'; exact absurd hd (by decide)) | (exact absurd hd' (by decide))
      kdir := fun d hd i hi =>
        (sharedMm_kernel (List.mem_cons_of_mem _ hd) hi).trans (sharedMm_kernel List.mem_cons_self hi).symm
      kuser := by
        intro i hi
        have h1 : ¬ (sharedMm.kernelPageDir = 0xc0400000 ∧ i = 4) := fun hc => absurd hc.1 (by decide)
        have h2 : sharedMm.kernelPageDir ≠ 0xc0402000 := by decide
        rw [sharedMm_else h1 h2, if_pos hi]
      ktab := fun i hi => by
        unfold tableAt
        rw [show sharedMm.word sharedMm.kernelPageDir i = 0x1003 from
          sharedMm_kernel List.mem_cons_self hi]
        decide
      kpd := by decide
      kmap := by decide }

theorem sharedMm_task :
    TaskAreas [(0xc0400000, 4)] sharedLive sharedDirs sharedMm 0xc0400000 smallVmas where
  ready := sharedMm_ready
  dir := List.mem_cons_self
  ok := smallMm_faultOk.ok
  sorted := smallMm_faultOk.sorted
  mapped := smallVmas_forall.mpr ⟨fun h => (by cases h), fun h => (by cases h)⟩
  fits := by unfold ZoneInv.Fits; decide
  kind := smallVmas_forall.mpr ⟨.inl rfl, .inr (.inl rfl)⟩
  stack := smallVmas_forall.mpr ⟨fun h => (by cases h), fun h => (by cases h)⟩

theorem remove_isolated_iff_shared :
    RemoveIsolated smallFs (fun _ => 1) sharedMm 0xc0400000 smallVmas 0x01000010 ↔
      ∀ vma, findVmArea smallVmas 0x01000010 = some vma → vma.startAddress = 0x01000010 → 1 = 1 →
        vma.type ≠ .kernelStack → AsLoaded smallFs sharedMm 0xc0400000 smallVmas vma :=
  remove_isolated_iff smallFs (fun _ => 1) sharedMm_task

/-- the file area is removed; the byte that was set to 9 belongs to the zero-filled area -/
theorem remove_clears_other :
    ¬ RemoveIsolated smallFs (fun _ => 1) sharedMm 0xc0400000 smallVmas 0x01000010 := by
  intro h
  have hfind : findVmArea smallVmas 0x01000010 = some
      ⟨0x01000010, 0x100, pgtabAttribUsrRo, .file, 0, 1, ⟨1, 0x40⟩, .file, .default⟩ := by decide
  have hl := asLoaded_of_isolated sharedMm_task h hfind rfl rfl (by decide)
  have hw := hl ⟨0x01000110, 0x200, pgtabAttribUsrRw, .zeropage, 0, 1, ⟨0, 0⟩, .zeropage, .write⟩
    (by decide) 0x01000120 9 (by unfold VmArea.Contains; decide) (by decide) (by decide)
  rw [VmArea.initial_zeropage smallFs rfl] at hw
  exact absurd hw.1 (by decide)

end Paravirt

import Paravirt.Coalesce
import Paravirt.Remove
import Paravirt.VmAlloc

/-!
# Kernel stacks (kern/vm_area.c: `vm_area_init_kernel_stack`, `vm_area_free_resources`)

A kernel stack is one block of the himem zone.  It is taken by `vmm_ppfs_highmem_alloc` and, when
its area is released, freed by `vmm_ppfs_free`, which names the lomem zone.

* `StackStep`                 the creation of a stack area and the release of its last reference;
* `LomemOnly`                 mapping the pages of a stack takes page tables from the lomem zone only;
* `initKernelStack_cases`     a creation takes one block for one area, or gives back what it took;
* `HimemInv`                  the himem zone is tiled by its free blocks, the live stacks, and the
  blocks lost by releases;
* `kernel_stacks_kept_iff`    himem pages are conserved if and only if no stack is released.
-/

set_option linter.unusedSectionVars false

namespace Paravirt
open Tiling

/-- the pages and the list of the live stack areas -/
structure StackState where
  mm : Mm
  vmas : List VmArea

inductive StackOp where
  /-- `vm_area_alloc` with `VMA_TYPE_KERNEL_STACK`, given the results of `malloc` to come -/
  | create (heap : List Nat) (task pd startAddress size flags vmaFlags : Nat)
  /-- `vm_area_put` on the last reference -/
  | release (pd : Nat) (vma : VmArea)

def StackStep (s : StackState) : StackOp → StackState → Prop
  | .create heap task pd startAddress size flags vmaFlags, t =>
    ∃ heap' ok, vmAreaAlloc ⟨heap, s.mm, s.vmas⟩ task pd startAddress size flags .kernelStack
      vmaFlags .none = some (⟨heap', t.mm, t.vmas⟩, ok)
  | .release pd vma, t => vma ∈ s.vmas ∧ t = ⟨vmAreaPut 1 s.mm pd vma, s.vmas.erase vma⟩

def StackOp.IsRelease : StackOp → Prop
  | .create .. => False
  | .release .. => True

/-- a creation asks for a block of order `k` -/
def StackOp.Asks (k : Nat) : StackOp → Prop
  | .create _ _ _ _ size _ _ => vmmFloorLog2 (stackPages size) = k
  | .release .. => True

/-! ## the lomem zone -/

/-- the lomem zone is a tiling of its own pages -/
def LomemOk (base : List Block) (mm : Mm) : Prop := ∃ live, ZoneInv base live mm.lomem

/-- what the queue and the map may change -/
structure LomemOnly (base : List Block) (mm mm' : Mm) : Prop where
  himem : mm'.himem = mm.himem
  lomem : LomemOk base mm → LomemOk base mm'

namespace LomemOnly
variable {base : List Block} {mm m1 m2 : Mm}

theorem of_zones (h : m1.himem = mm.himem) (l : m1.lomem = mm.lomem) : LomemOnly base mm m1 := by
  refine ⟨h, fun hl => ?_⟩
  unfold LomemOk
  rw [l]
  exact hl

theorem trans (h1 : LomemOnly base mm m1) (h2 : LomemOnly base m1 m2) : LomemOnly base mm m2 :=
  ⟨h2.himem.trans h1.himem, fun h => h2.lomem (h1.lomem h)⟩

theorem vmmQueueMmuUpdate (mm : Mm) (slot : Nat × Nat) (v : Nat) :
    LomemOnly base mm (mm.vmmQueueMmuUpdate slot v) := by
  refine of_zones ?_ (Mm.vmmQueueMmuUpdate_lomem mm slot v)
  unfold Mm.vmmQueueMmuUpdate
  dsimp only
  split <;> rfl

theorem flush (mm : Mm) : LomemOnly base mm mm.vmmFlushMmuUpdateQueue := .of_zones rfl rfl

theorem vmmPpfAlloc (hb : GoodBase base) (mm : Mm) : LomemOnly base mm mm.vmmPpfAlloc.1 := by
  refine ⟨rfl, fun ⟨live, h⟩ => ?_⟩
  rcases h.get hb 1 with ⟨e, -⟩ | ⟨z, a, e, h1, -⟩
  · refine ⟨live, ?_⟩
    unfold Mm.vmmPpfAlloc
    rw [e]
    exact h
  · refine ⟨(a, 1) :: live, ?_⟩
    unfold Mm.vmmPpfAlloc
    rw [e]
    exact h1

theorem mapPageTable (hb : GoodBase base) (mm : Mm) (pd va : Nat) :
    LomemOnly base mm (mm.mapPageTable pd va).1 := by
  have h := vmmPpfAlloc hb mm
  unfold Mm.mapPageTable
  generalize mm.vmmPpfAlloc = r at h
  obtain ⟨m1, _ | p⟩ := r
  · exact h
  · have h1 : LomemOnly base m1 { m1 with word := Function.update m1.word p fun _ => 0 } :=
      of_zones rfl rfl
    exact ((h.trans h1).trans (vmmQueueMmuUpdate _ _ _)).trans
      ((vmmQueueMmuUpdate _ _ _).trans (flush _))

theorem mapPageEntry (mm : Mm) (pd va ppf flags : Nat) :
    LomemOnly base mm (mm.mapPageEntry pd va ppf flags) := by
  unfold Mm.mapPageEntry
  dsimp only
  split
  · exact vmmQueueMmuUpdate _ _ _
  · exact of_zones rfl rfl

theorem vmmMapPage (hb : GoodBase base) (mm : Mm) (pd va ppf flags : Nat) :
    LomemOnly base mm (mm.vmmMapPage pd va ppf flags).1 := by
  unfold Mm.vmmMapPage
  by_cases h0 : mm.word pd (pdeIndex va) = 0
  · rw [if_pos h0]
    have h := mapPageTable hb mm pd va
    generalize mm.mapPageTable pd va = r at h
    obtain ⟨m1, _ | _⟩ := r
    · exact h
    · exact h.trans (mapPageEntry m1 pd va ppf flags)
  · rw [if_neg h0]
    exact mapPageEntry mm pd va ppf flags

theorem createIdentityLoop (hb : GoodBase base) (pd flags : Nat) (l : List (Nat × Nat)) :
    ∀ mm : Mm, LomemOnly base mm (vmAreaCreateIdentityLoop pd flags l mm).1 := by
  induction l with
  | nil => exact fun mm => flush mm
  | cons p l ih =>
    intro mm
    have h := vmmMapPage hb mm pd p.1 p.2 flags
    unfold vmAreaCreateIdentityLoop
    generalize mm.vmmMapPage pd p.1 p.2 flags = r at h
    obtain ⟨m1, _ | _⟩ := r
    · exact h
    · exact h.trans (ih m1)

end LomemOnly

/-! ## the orders of the free blocks -/

/-- no list below order `k` has a block -/
def NoSmaller (k : Nat) (z : VmmZone) : Prop := ∀ i, i < k → z.freeList i = []

section
variable {base live : List Block} {z : VmmZone} {a k : Nat}

theorem splitLoop_lists (hb : GoodBase base) (n : Nat) : ∀ {z : VmmZone} {node k : Nat},
    ZoneInv base ((node, k+n) :: live) z → z.order node = k + n → k + n ≤ z.maxOrder + 1 →
      ∀ i, i < k → (splitLoop n z node).freeList i = z.freeList i := by
  induction n with
  | zero => exact fun _ _ _ i _ => rfl
  | succ n ih =>
    intro z node k h ho hk i hi
    obtain ⟨h1, h2, h3⟩ := splitStep_inv (m := k + n) hb h ho (by omega)
    have hne : i ≠ z.order node - 1 := by omega
    calc (splitLoop (n+1) z node).freeList i
        = (splitStep z node).freeList i := ih h1 h2 (by omega) i hi
      _ = z.freeList i := by
        unfold splitStep
        dsimp only
        rw [VmmZone.freeList_pushFront, Function.update_of_ne hne]
        rfl

theorem getLoop_lists (hb : GoodBase base) (h : ZoneInv base live z) (hs : NoSmaller k z) (n : Nat) :
    ∀ i, k ≤ i → i + n = z.maxOrder + 1 → NoSmaller k (getLoop n i z k).1 := by
  induction n with
  | zero => exact fun i _ _ => hs
  | succ n ih =>
    intro i hki hi
    unfold getLoop
    by_cases h0 : (z.freeAreaList i).numFree = 0
    · rw [if_pos h0]
      exact ih (i+1) (by omega) (by omega)
    · rw [if_neg h0]
      have hmem : (z.freeAreaList i).freeList.headD 0 ∈ z.freeList i := by
        have hlen := h.numFree i
        unfold VmmZone.freeList at hlen ⊢
        cases hl : (z.freeAreaList i).freeList with
        | nil => exact absurd (by rw [hlen, hl]; rfl) h0
        | cons a l => exact List.mem_cons_self
      have ho := h.order i _ hmem
      generalize (z.freeAreaList i).freeList.headD 0 = node at hmem ho ⊢
      obtain ⟨m, rfl⟩ := Nat.exists_eq_add_of_le hki
      have ho' : (z.remove (k+m) node).order node = k + m := ho
      intro j hj
      have hne : j ≠ k + m := by omega
      unfold buddySplitNode
      dsimp only
      rw [ho', Nat.add_sub_cancel_left,
        splitLoop_lists hb m (h.remove hmem) ho' (by rw [VmmZone.remove_maxOrder]; omega) j hj,
        VmmZone.freeList_remove, Function.update_of_ne hne]
      exact hs j hj

theorem get_lists (hb : GoodBase base) (h : ZoneInv base live z) (hs : NoSmaller k z) :
    NoSmaller k (vmmBuddyGetFreePages z k).1 := by
  unfold vmmBuddyGetFreePages
  by_cases hk : k ≤ z.maxOrder + 1
  · exact getLoop_lists hb h hs _ k (Nat.le_refl k) (by omega)
  · have e : z.maxOrder + 1 - k = 0 := by omega
    rw [e]
    exact hs

theorem free_lists (hb : GoodBase base) (h : ZoneInv base ((a, k) :: live) z)
    (hk : k ≤ z.maxOrder + 1) (hs : NoSmaller k z) : NoSmaller k (vmmBuddyFreePages z a k) := by
  have h1 := h.setOrder hb List.mem_cons_self (fst_mem_cells pageSize (a, k)) k
  obtain ⟨z', m, j, he, -, -, -, -⟩ := freeLoop_inv hb (z.maxOrder + 1 - k) h1
    (VmmZone.setOrder_self ..) (by rw [VmmZone.setOrder_maxOrder]; omega)
  have hge := freeLoop_order_ge hb _ h1 (VmmZone.setOrder_self ..) he
  intro i hi
  have hne : i ≠ z'.order m := by omega
  have hl := freeLoop_lists (z.maxOrder + 1 - k) (z.setOrder a k) k a i hi
  rw [he] at hl
  unfold vmmBuddyFreePages
  rw [he]
  dsimp only
  rw [VmmZone.freeList_pushFront, Function.update_of_ne hne]
  exact hl.trans (hs i hi)

end

/-! ## one creation -/

theorem initKernelStack_cases {base : Block} {lo live : List Block} {mm : Mm} {vma : VmArea}
    {k : Nat} (hb : GoodBase [base]) (hlo : GoodBase lo) (pd : Nat) (hty : vma.type = .kernelStack)
    (hk : vma.stackBlock.2 = k) (h : ZoneInv [base] live mm.himem)
    (hm : mm.himem.maxOrder = base.2) :
    ∃ m r, vmAreaInitKernelStack mm pd vma = (m, r) ∧ m.himem.maxOrder = base.2 ∧
      (LomemOk lo mm → LomemOk lo m) ∧ (NoSmaller k mm.himem → NoSmaller k m.himem) ∧
      ((r = none ∧ ZoneInv [base] live m.himem) ∨
        ∃ v, r = some v ∧ v.type = .kernelStack ∧ v.stackBlock.2 = k ∧
          ZoneInv [base] (v.stackBlock :: live) m.himem) := by
  unfold VmArea.stackBlock at hk
  dsimp only at hk
  unfold vmAreaInitKernelStack
  dsimp only
  unfold Mm.vmmPpfsHighmemAlloc
  rw [hk]
  have hl := get_lists (k := k) hb h
  rcases h.get hb k with ⟨e, -⟩ | ⟨z, a, e, h1, hmax⟩
  · rw [e]
    exact ⟨mm, none, rfl, hm, id, id, .inl ⟨rfl, h⟩⟩
  · rw [e] at hl
    rw [e]
    dsimp only
    have hk' : k ≤ z.maxOrder + 1 := by
      have := h1.live_order_le List.mem_cons_self
      omega
    have hc := LomemOnly.createIdentityLoop hlo pd vma.flags
      ((List.range (numPages a vma.size)).map fun i =>
        (u32 (pageAddr a + i <<< pageShift), u32 (pageAddr a + i <<< pageShift)))
      { mm with himem := z }
    unfold vmAreaCreateIdentity
    dsimp only
    generalize vmAreaCreateIdentityLoop pd vma.flags _ { mm with himem := z } = r at hc
    obtain ⟨m1, b⟩ := r
    have hz : m1.himem = z := hc.himem
    cases b with
    | false =>
      refine ⟨_, none, rfl, ?_⟩
      unfold vmAreaUnmap
      dsimp only
      rw [hty, unmapLoop_kernelStack]
      unfold Mm.vmmPpfsHighmemFree
      rw [hk, hz]
      obtain ⟨h2, h3⟩ := h1.free hb hk'
      exact ⟨h3.trans (hmax.trans hm), hc.lomem, fun hs => free_lists hb h1 hk' (hl hs),
        .inl ⟨rfl, h2⟩⟩
    | true =>
      refine ⟨_, _, rfl, ?_⟩
      dsimp only
      rw [hz]
      refine ⟨hmax.trans hm, hc.lomem, hl, .inr ⟨_, rfl, hty, ?_⟩⟩
      unfold VmArea.stackBlock
      dsimp only
      rw [hk]
      exact ⟨rfl, h1⟩

/-! ## a run -/

/-- the pages on the free lists of a zone -/
def VmmZone.freePages (z : VmmZone) : Nat := (allCells pageSize z.freeBlocks).length

/-- the pages under the stacks of a list of areas -/
def heldPages (vmas : List VmArea) : Nat := (allCells pageSize (vmas.map VmArea.stackBlock)).length

/-- the himem zone is tiled by its free blocks, the live stacks, and the blocks in `lost`, which are
neither -/
structure HimemInv (base : Block) (lost : List Block) (s : StackState) : Prop where
  zone : ZoneInv [base] (s.vmas.map VmArea.stackBlock ++ lost) s.mm.himem
  maxOrder : s.mm.himem.maxOrder = base.2
  type : ∀ v ∈ s.vmas, v.type = .kernelStack

section
variable {base : Block} {lo lost : List Block} {s t : StackState}

theorem HimemInv.total (h : HimemInv base lost s) :
    s.mm.himem.freePages + heldPages s.vmas + (allCells pageSize lost).length = 2^base.2 := by
  have e := List.Perm.length_eq h.zone.tiles
  rw [allCells_append, allCells_append, allCells_cons, allCells_nil, List.append_nil, length_cells,
    List.length_append, List.length_append, ← Nat.add_assoc] at e
  exact e

theorem vmmPpfsHighmemAlloc_snd (mm : Mm) (n : Nat) :
    (mm.vmmPpfsHighmemAlloc n).2 = (vmmBuddyGetFreePages mm.himem (vmmFloorLog2 n)).2 := by
  unfold Mm.vmmPpfsHighmemAlloc
  generalize vmmBuddyGetFreePages mm.himem (vmmFloorLog2 n) = r
  rfl

/-- what a creation leaves: the himem zone has given a block to each new stack, and no other -/
theorem HimemInv.create (hb : GoodBase [base]) (hlo : GoodBase lo) (h : HimemInv base lost s)
    {heap : List Nat} {task pd startAddress size flags vmaFlags k : Nat}
    (hk : vmmFloorLog2 (stackPages size) = k)
    (hs : StackStep s (.create heap task pd startAddress size flags vmaFlags) t) :
    HimemInv base lost t ∧ (LomemOk lo s.mm → LomemOk lo t.mm) ∧
      (NoSmaller k s.mm.himem → NoSmaller k t.mm.himem) ∧
      ∀ v ∈ t.vmas, v ∈ s.vmas ∨ v.stackBlock.2 = k := by
  obtain ⟨heap', ok, hs⟩ := hs
  obtain ⟨mm', vmas'⟩ := t
  unfold vmAreaAlloc at hs
  by_cases h0 : (malloc heap).1 = 0
  · rw [if_pos h0, Option.some.injEq, Prod.mk.injEq, VmaState.mk.injEq] at hs
    obtain ⟨⟨-, rfl, rfl⟩, -⟩ := hs
    exact ⟨h, id, id, fun v hv => .inl hv⟩
  · rw [if_neg h0] at hs
    have hk' : (vmAreaInit task startAddress size flags .kernelStack vmaFlags).stackBlock.2 = k := by
      unfold VmArea.stackBlock vmAreaInit
      dsimp only
      exact hk
    obtain ⟨m, r, e, h1, h2, h3, hr⟩ := initKernelStack_cases hb hlo pd rfl hk' h.zone h.maxOrder
    unfold vmAreaInitType at hs
    dsimp only at hs
    rw [e] at hs
    rcases hr with ⟨rfl, hz⟩ | ⟨v, rfl, hty, hv, hz⟩
    · unfold vmAreaEnter at hs
      rw [Option.some.injEq, Prod.mk.injEq, VmaState.mk.injEq] at hs
      obtain ⟨⟨-, rfl, rfl⟩, -⟩ := hs
      exact ⟨⟨hz, h1, h.type⟩, h2, h3, fun v hv => .inl hv⟩
    · unfold vmAreaEnter at hs
      rw [Option.some.injEq, Prod.mk.injEq, VmaState.mk.injEq] at hs
      obtain ⟨⟨-, rfl, rfl⟩, -⟩ := hs
      have hp := vmAreaAdd_perm v s.vmas
      have hmem : ∀ w ∈ vmAreaAdd v s.vmas, w = v ∨ w ∈ s.vmas :=
        fun w hw => List.mem_cons.mp (hp.mem_iff.mp hw)
      refine ⟨⟨hz.perm ?_, h1, fun w hw => ?_⟩, h2, h3, fun w hw => ?_⟩
      · exact ((hp.map VmArea.stackBlock).append_right lost).symm
      · rcases hmem w hw with rfl | hw
        · exact hty
        · exact h.type w hw
      · rcases hmem w hw with rfl | hw
        · exact .inr hv
        · exact .inl hw

/-- **a release gives nothing back to the himem zone** -/
theorem HimemInv.release (h : HimemInv base lost s) {pd : Nat} {vma : VmArea}
    (hs : StackStep s (.release pd vma) t) : HimemInv base (vma.stackBlock :: lost) t := by
  obtain ⟨hmem, rfl⟩ := hs
  have hty := h.type vma hmem
  have hhi : (vmAreaPut 1 s.mm pd vma).himem = s.mm.himem := by
    unfold vmAreaPut vmAreaFreeResources vmAreaUnmap
    dsimp only
    rw [hty, unmapLoop_kernelStack, if_pos rfl, if_pos (by decide), if_pos rfl]
    unfold Mm.vmmPpfsFree
    rfl
  have hp := (List.perm_cons_erase hmem).map VmArea.stackBlock
  refine ⟨?_, ?_, fun v hv => h.type v (List.mem_of_mem_erase hv)⟩
  · dsimp only
    rw [hhi]
    exact h.zone.perm ((hp.append_right lost).trans List.perm_middle.symm)
  · dsimp only
    rw [hhi]
    exact h.maxOrder

end

/-- the two zones are set up over disjoint pages, and no kernel stack was created -/
structure StackBoot (hdr : Nat → Nat) (start numPages : Nat) (lo : List Block) (s : StackState) :
    Prop where
  two : 2 ≤ numPages
  fit : start + numPages * pageSize ≤ 2^32
  himem : s.mm.himem = vmmZoneInit hdr start numPages
  good : GoodBase lo
  lomem : LomemOk lo s.mm
  apart : ∀ c ∈ cells pageSize (buddyInitBlock start numPages), c ∉ allCells pageSize lo
  vmas : s.vmas = []

/-- what a run `ops` from `s` to `t` keeps, when `base` is the block of the himem zone -/
structure StacksKept (base : Block) (ops : List StackOp) (s t : StackState) : Prop where
  /-- the free pages of the zone and those under live stacks are constant in number -/
  pages : t.mm.himem.freePages + heldPages t.vmas = s.mm.himem.freePages + heldPages s.vmas
  apart : ∀ c ∈ cells pageSize base, c ∉ allCells pageSize t.mm.lomem.freeBlocks
  /-- when at most `m` stacks are alive at once and `m` fit in the zone, there is one more to have -/
  serves : ∀ k m n, (∀ op ∈ ops, op.Asks k) → t.vmas.length < m → m * 2^k ≤ 2^base.2 →
    vmmFloorLog2 n = k → (t.mm.vmmPpfsHighmemAlloc n).2 ≠ none

section
variable {hdr : Nat → Nat} {start numPages : Nat} {lo : List Block} {s t : StackState}
  {ops : List StackOp}

theorem StackBoot.inv (h : StackBoot hdr start numPages lo s) :
    HimemInv (buddyInitBlock start numPages) [] s := by
  refine ⟨?_, ?_, ?_⟩
  · rw [h.vmas, h.himem]
    exact ZoneInv.init hdr h.two h.fit
  · rw [h.himem]
    exact vmmBuddyInit_maxOrder hdr start numPages
  · intro v hv
    rw [h.vmas] at hv
    exact absurd hv List.not_mem_nil

/-- over a run, a block is lost if and only if a stack was released -/
theorem StackBoot.run (h : StackBoot hdr start numPages lo s) (hrun : Steps StackStep s ops t) :
    ∃ lost, HimemInv (buddyInitBlock start numPages) lost t ∧
      (lost = [] ↔ ∀ op ∈ ops, ¬ op.IsRelease) := by
  have hb := GoodBase.init h.two h.fit
  induction hrun with
  | nil => exact ⟨[], h.inv, iff_of_true rfl fun op hop => absurd hop List.not_mem_nil⟩
  | @snoc as t u op _ hstep ih =>
    obtain ⟨lost, hi, hl⟩ := ih
    cases op with
    | create heap task pd startAddress size flags vmaFlags =>
      refine ⟨lost, (hi.create hb h.good rfl hstep).1, hl.trans ?_⟩
      constructor
      · intro hn op hop
        rcases List.mem_append.mp hop with hop | hop
        · exact hn op hop
        · rw [List.mem_singleton.mp hop]
          exact id
      · exact fun hn op hop => hn op (List.mem_append_left _ hop)
    | release pd vma =>
      refine ⟨_, hi.release hstep, iff_of_false (List.cons_ne_nil _ _) fun hn => ?_⟩
      exact hn _ (List.mem_append_right _ (List.mem_singleton_self _)) trivial

/-- without a release, the lomem zone keeps to its own pages -/
theorem StackBoot.run_lomem (h : StackBoot hdr start numPages lo s) (hrun : Steps StackStep s ops t)
    (hn : ∀ op ∈ ops, ¬ op.IsRelease) : LomemOk lo t.mm := by
  have hb := GoodBase.init h.two h.fit
  induction hrun with
  | nil => exact h.lomem
  | @snoc as t u op hrun hstep ih =>
    have hn' := fun op hop => hn op (List.mem_append_left _ hop)
    obtain ⟨lost, hi, -⟩ := h.run hrun
    cases op with
    | create heap task pd startAddress size flags vmaFlags =>
      exact (hi.create hb h.good rfl hstep).2.1 (ih hn')
    | release pd vma =>
      exact absurd trivial (hn _ (List.mem_append_right _ (List.mem_singleton_self _)))

/-- without a release, stacks of one order keep the himem zone free of smaller blocks -/
theorem StackBoot.run_orders (h : StackBoot hdr start numPages lo s)
    (hrun : Steps StackStep s ops t) (hn : ∀ op ∈ ops, ¬ op.IsRelease) {k : Nat}
    (hk : k ≤ (buddyInitBlock start numPages).2) (ha : ∀ op ∈ ops, op.Asks k) :
    NoSmaller k t.mm.himem ∧ ∀ v ∈ t.vmas, v.stackBlock.2 = k := by
  have hb := GoodBase.init h.two h.fit
  induction hrun with
  | nil =>
    refine ⟨fun i hi => ?_, fun v hv => ?_⟩
    · rw [h.himem, init_freeList hdr Prod.mk.eta.symm, if_neg (by omega)]
    · rw [h.vmas] at hv
      exact absurd hv List.not_mem_nil
  | @snoc as t u op hrun hstep ih =>
    obtain ⟨h1, h2⟩ := ih (fun op hop => hn op (List.mem_append_left _ hop))
      fun op hop => ha op (List.mem_append_left _ hop)
    obtain ⟨lost, hi, -⟩ := h.run hrun
    have hlast := List.mem_append_right as (List.mem_singleton_self op)
    cases op with
    | create heap task pd startAddress size flags vmaFlags =>
      obtain ⟨-, -, h3, h4⟩ := hi.create (k := k) hb h.good (ha _ hlast) hstep
      refine ⟨h3 h1, fun v hv => ?_⟩
      rcases h4 v hv with hv | hv
      · exact h2 v hv
      · exact hv
    | release pd vma => exact absurd trivial (hn _ hlast)

theorem heldPages_of_order {k : Nat} {vmas : List VmArea} (h : ∀ v ∈ vmas, v.stackBlock.2 = k) :
    heldPages vmas = vmas.length * 2^k := by
  induction vmas with
  | nil => rw [List.length_nil, Nat.zero_mul]; rfl
  | cons v l ih =>
    have e := ih fun w hw => h w (List.mem_cons_of_mem _ hw)
    unfold heldPages at e ⊢
    rw [List.map_cons, allCells_cons, List.length_append, length_cells, h v List.mem_cons_self, e,
      List.length_cons, Nat.succ_mul, Nat.add_comm]

theorem HimemInv.serves {base : Block} (hb : GoodBase [base]) (h : HimemInv base [] s) {k m : Nat}
    (hs : NoSmaller k s.mm.himem) (hv : ∀ v ∈ s.vmas, v.stackBlock.2 = k)
    (hlt : s.vmas.length < m) (hm : m * 2^k ≤ 2^base.2) :
    (vmmBuddyGetFreePages s.mm.himem k).2 ≠ none := by
  have htot := h.total
  have hheld : heldPages s.vmas < 2^base.2 := by
    rw [heldPages_of_order hv]
    exact Nat.lt_of_lt_of_le (Nat.mul_lt_mul_of_pos_right hlt (Nat.two_pow_pos k)) hm
  have hpos : 0 < s.mm.himem.freePages := by
    rw [allCells_nil, List.length_nil] at htot
    omega
  -- a free page is in a free block, and that block is large enough
  obtain ⟨c, hc⟩ := List.exists_mem_of_length_pos hpos
  obtain ⟨b, hbm, -⟩ := List.mem_flatMap.mp hc
  have hle := h.zone.tiles.order_le (List.mem_append_left _ hbm)
  obtain ⟨-, hfree⟩ := VmmZone.mem_freeBlocks.mp hbm
  have hge : k ≤ b.2 := by
    by_contra hlt'
    rw [hs b.2 (by omega)] at hfree
    exact absurd hfree List.not_mem_nil
  rw [Ne, get_none_iff hb h.zone]
  intro hnil
  rw [hnil b.2 hge (by rw [h.maxOrder]; exact hle)] at hfree
  exact absurd hfree List.not_mem_nil

/-- **without a release the himem zone is kept** -/
theorem StackBoot.kept (h : StackBoot hdr start numPages lo s) (hrun : Steps StackStep s ops t)
    (hn : ∀ op ∈ ops, ¬ op.IsRelease) :
    StacksKept (buddyInitBlock start numPages) ops s t := by
  have hb := GoodBase.init h.two h.fit
  obtain ⟨lost, hi, hl⟩ := h.run hrun
  rw [hl.mpr hn] at hi
  refine ⟨?_, fun c hc hfree => ?_, fun k m n ha hlt hm hk => ?_⟩
  · have e1 := hi.total
    have e2 := h.inv.total
    omega
  · obtain ⟨live, hz⟩ := h.run_lomem hrun hn
    refine h.apart c hc ((List.Perm.mem_iff hz.tiles).mp ?_)
    rw [allCells_append]
    exact List.mem_append_left _ hfree
  · have hm1 : 1 * 2^k ≤ 2^(buddyInitBlock start numPages).2 :=
      Nat.le_trans (Nat.mul_le_mul_right _ (by omega)) hm
    have hle : k ≤ (buddyInitBlock start numPages).2 := by
      rw [Nat.one_mul] at hm1
      exact (Nat.pow_le_pow_iff_right Nat.one_lt_two).mp hm1
    obtain ⟨h1, h2⟩ := h.run_orders hrun hn hle ha
    have hserve := hi.serves hb h1 h2 hlt hm
    rw [vmmPpfsHighmemAlloc_snd, hk]
    exact hserve

/-- **a release loses the pages of the stack**, since every later step keeps the number of pages that
are neither free nor held -/
theorem StackBoot.not_kept (h : StackBoot hdr start numPages lo s) (hrun : Steps StackStep s ops t)
    {op : StackOp} (hop : op ∈ ops) (hr : op.IsRelease) :
    ¬ StacksKept (buddyInitBlock start numPages) ops s t := by
  intro hk
  obtain ⟨lost, hi, hl⟩ := h.run hrun
  have hne : lost ≠ [] := fun e => hl.mp e op hop hr
  have e1 := hi.total
  have e2 := h.inv.total
  have e3 := hk.pages
  obtain ⟨b, l, rfl⟩ := List.exists_cons_of_ne_nil hne
  rw [allCells_cons, List.length_append, length_cells] at e1
  rw [allCells_nil, List.length_nil] at e2
  have := Nat.two_pow_pos b.2
  omega

/-- **the himem pages are kept over a run** if and only if no stack is released in it -/
theorem kernel_stacks_kept_iff (h : StackBoot hdr start numPages lo s)
    (hrun : Steps StackStep s ops t) :
    StacksKept (buddyInitBlock start numPages) ops s t ↔ ∀ op ∈ ops, ¬ op.IsRelease :=
  ⟨fun hk _ hop hr => h.not_kept hrun hop hr hk, fun hn => h.kept hrun hn⟩

end

/-! ## a zone with one block of two pages -/

def bootStacks : StackState := ⟨{ smallMm with himem := vmmZoneInit (fun _ => 0) 0xc2000000 3 }, []⟩

/-- a stack of one page -/
def createOne : StackOp := .create [0xc1700000] 0xc1800000 0xc0400000 0 4096 7 0

theorem bootStacks_boot :
    StackBoot (fun _ => 0) 0xc2000000 3 [(0xc0400000, 3)] bootStacks where
  two := by decide
  fit := by decide
  himem := rfl
  good := smallMm_ready.inv.good
  lomem := ⟨_, smallMm_ready.inv.zone⟩
  apart := by decide
  vmas := rfl

theorem createOne_step : ∃ t v, StackStep bootStacks createOne t ∧ v ∈ t.vmas := by
  have h : (vmAreaAlloc ⟨[0xc1700000], bootStacks.mm, []⟩ 0xc1800000 0xc0400000 0 4096 7
      .kernelStack 0 .none).map (fun r => r.1.vmas.length) = some 1 := by decide +kernel
  obtain ⟨⟨s, ok⟩, e, hl⟩ := Option.map_eq_some_iff.mp h
  obtain ⟨v, hv⟩ := List.exists_mem_of_length_pos (Nat.lt_of_lt_of_eq Nat.one_pos hl.symm)
  exact ⟨⟨s.mm, s.vmas⟩, v, ⟨s.heap, ok, e⟩, hv⟩

theorem createOne_release :
    ∃ v t, Steps StackStep bootStacks [createOne, .release 0xc0400000 v] t := by
  obtain ⟨t, v, h, hv⟩ := createOne_step
  exact ⟨v, _, .snoc (Steps.single h) ⟨hv, rfl⟩⟩

theorem kernel_stacks_kept_iff_one : ∃ v t,
    Steps StackStep bootStacks [createOne, .release 0xc0400000 v] t ∧
      (StacksKept (buddyInitBlock 0xc2000000 3) [createOne, .release 0xc0400000 v] bootStacks t ↔
        ∀ op ∈ [createOne, .release 0xc0400000 v], ¬ op.IsRelease) := by
  obtain ⟨v, t, hrun⟩ := createOne_release
  exact ⟨v, t, hrun, kernel_stacks_kept_iff bootStacks_boot hrun⟩

/-- one stack that is created and released -/
theorem kernel_stack_lost : ∃ v t,
    Steps StackStep bootStacks [createOne, .release 0xc0400000 v] t ∧
      ¬ StacksKept (buddyInitBlock 0xc2000000 3) [createOne, .release 0xc0400000 v] bootStacks t := by
  obtain ⟨v, t, hrun⟩ := createOne_release
  exact ⟨v, t, hrun, bootStacks_boot.not_kept hrun
    (List.mem_cons_of_mem _ (List.mem_singleton_self _)) trivial⟩

end Paravirt

import Paravirt.Lmm
import Mathlib.Algebra.BigOperators.Group.List.Basic
import Mathlib.Data.List.Perm.Basic

/-!
# Runs of the kernel heap (410kern/lmm, 410kern/malloc)

`Heap` is the list of regions with the blocks handed out and not yet returned; `heapRun` makes any
sequence of allocations, aligned allocations and frees.  A block is returned once, with its size.

* `HeapInv`          the free lists and the live blocks are a partition of the memory there was;
* `heapStep_inv`, `heapRun_inv`   a call keeps it and fails no assertion, and so does a run;
* `heap_run_partition`   what holds after a run;
* `heap_restored`    when all blocks are back, the heap is the one of the start;
* `alloc_fails_iff`  an allocation fails only when there is no room in a row;
* `alloc_taken_iff`  the sizes for which the rounding wraps;
* `memalign_aligned` an aligned allocation.
-/

namespace Paravirt

open Extents

/-! ## the source -/

/-- the regions, and the blocks handed out with the sizes asked for -/
structure Heap where
  lmm : List LmmRegion
  live : List (Nat × Nat)
deriving DecidableEq

/-- the memory of a block, as `lmm_free` computes it -/
def blockExtent (b : Nat × Nat) : Extent := ⟨alignDown b.1, alignUp (b.1 % 8 + b.2)⟩

inductive HeapOp where
  | alloc (size flags : Nat)
  | allocGen (r : GenReq)
  | free (block size : Nat)

/-- a call; a caller returns what it was given -/
def heapStep (h : Heap) : HeapOp → Option Heap
  | .alloc size flags => (lmmAlloc h.lmm size flags).map fun r =>
      r.elim h fun r => ⟨r.2, (r.1, size) :: h.live⟩
  | .allocGen g => (lmmAllocGen h.lmm g).map fun r =>
      r.elim h fun r => ⟨r.2, (r.1, g.size) :: h.live⟩
  | .free block size =>
      if (block, size) ∈ h.live then
        (lmmFree h.lmm block size).map fun lmm => ⟨lmm, h.live.erase (block, size)⟩
      else some h

def heapRun (h : Heap) : List HeapOp → Option Heap
  | [] => some h
  | op :: ops => (heapStep h op).bind fun h => heapRun h ops

/-- sizes that can be rounded up -/
def HeapOp.InRange : HeapOp → Prop
  | .alloc size _ => 0 < size ∧ size ≤ 2^32 - 8
  | .allocGen g => g.Small
  | .free _ _ => True

/-- the memory of the free lists -/
def freeOf (regs : List LmmRegion) : List Extent := regs.flatMap (·.nodes)

/-- what `lmm_avail` adds up -/
def availOf (regs : List LmmRegion) : Nat := (regs.map (·.free)).sum

def Heap.extents (h : Heap) : List Extent := h.live.map blockExtent

/-! ## the invariant -/

/-- what never changes of a region -/
def LmmRegion.shape (reg : LmmRegion) : Nat × Nat × Nat × Nat := (reg.min, reg.max, reg.flags, reg.pri)

def LmmRegion.Apart (r s : LmmRegion) : Prop := r.max ≤ s.min ∨ s.max ≤ r.min

/-- regions in order that do not overlap, with all free memory below `2^30` -/
structure LmmOk (regs : List LmmRegion) : Prop where
  regions : ∀ reg ∈ regs, RegionOk reg
  apart : regs.Pairwise LmmRegion.Apart
  low : ∀ reg ∈ regs, ∀ x ∈ reg.nodes, x.stop ≤ 2^30

/-- the heap `h`, where `base` was at the start -/
structure HeapInv (base : List LmmRegion) (h : Heap) : Prop where
  ok : LmmOk h.lmm
  shape : base.map LmmRegion.shape = h.lmm.map LmmRegion.shape
  live : ∀ e ∈ h.extents, 0 < e.len ∧ 0 < e.start ∧ e.stop ≤ 2^30 ∧
    ∃ reg ∈ h.lmm, reg.min ≤ e.start ∧ e.stop ≤ reg.max
  sizes : ∀ b ∈ h.live, 0 < b.2 ∧ 0 < b.1
  apart : h.extents.Pairwise Extent.Apart
  excl : ∀ b, Covered (freeOf h.lmm) b → ¬ Covered h.extents b
  all : ∀ b, Covered (freeOf base) b ↔ Covered (freeOf h.lmm) b ∨ Covered h.extents b
  avail : availOf h.lmm + total h.extents = availOf base

instance : Std.Symm LmmRegion.Apart := ⟨fun _ _ h => Or.symm h⟩

variable {base regs regs' pre post : List LmmRegion} {reg : LmmRegion} {h h' : Heap} {b n a : Nat}
  {e : Extent}

theorem availOf_mid : availOf (pre ++ reg :: post) = availOf pre + (reg.free + availOf post) := by
  simp [availOf]

theorem covered_freeOf : Covered (freeOf regs) b ↔ ∃ reg ∈ regs, Covered reg.nodes b := by
  simp only [Covered, freeOf, List.mem_flatMap]
  constructor
  · rintro ⟨x, ⟨reg, hreg, hx⟩, hb⟩
    exact ⟨reg, hreg, x, hx, hb⟩
  · rintro ⟨reg, hreg, x, hx, hb⟩
    exact ⟨x, ⟨reg, hreg, hx⟩, hb⟩

theorem RegionOk.within (hr : RegionOk reg) (hb : Covered reg.nodes b) :
    reg.min ≤ b ∧ b < reg.max := by
  obtain ⟨x, hx, h1, h2⟩ := hb
  obtain ⟨h3, h4⟩ := hr.inside x hx
  omega

/-- the free memory of one of the regions -/
theorem LmmOk.covered_nodes (hl : LmmOk regs) (hreg : reg ∈ regs) :
    Covered reg.nodes b ↔ Covered (freeOf regs) b ∧ reg.min ≤ b ∧ b < reg.max := by
  constructor
  · intro hb
    exact ⟨covered_freeOf.mpr ⟨reg, hreg, hb⟩, (hl.regions reg hreg).within hb⟩
  · rintro ⟨hb, hmin, hmax⟩
    obtain ⟨r, hr, hb⟩ := covered_freeOf.mp hb
    obtain ⟨h1, h2⟩ := (hl.regions r hr).within hb
    by_cases heq : r = reg
    · rw [← heq]
      exact hb
    · rcases hl.apart.forall hr hreg heq with h | h <;> omega

/-- the region in the middle is apart from the others -/
theorem LmmOk.apart_mid (hl : LmmOk (pre ++ reg :: post)) :
    ∀ r ∈ pre ++ post, r.Apart reg := by
  intro r hr
  obtain ⟨_, h2, h3⟩ := List.pairwise_append.mp hl.apart
  obtain ⟨h4, _⟩ := List.pairwise_cons.mp h2
  rcases List.mem_append.mp hr with hr | hr
  · exact h3 r hr reg List.mem_cons_self
  · exact Or.symm (h4 r hr)

/-- free memory outside the region in the middle is outside its bounds -/
theorem LmmOk.not_within (hl : LmmOk (pre ++ reg :: post))
    (hb : Covered (freeOf (pre ++ post)) b) : ¬ (reg.min ≤ b ∧ b < reg.max) := by
  obtain ⟨r, hr, hb⟩ := covered_freeOf.mp hb
  have hreg : r ∈ pre ++ reg :: post := by
    simp only [List.mem_append, List.mem_cons] at hr ⊢
    tauto
  obtain ⟨h1, h2⟩ := (hl.regions r hreg).within hb
  rcases hl.apart_mid r hr with h | h <;> omega

theorem covered_freeOf_mid : Covered (freeOf (pre ++ reg :: post)) b ↔
    Covered reg.nodes b ∨ Covered (freeOf (pre ++ post)) b := by
  simp only [covered_freeOf, List.mem_append, List.mem_cons]
  constructor
  · rintro ⟨r, hr | rfl | hr, hb⟩
    · exact .inr ⟨r, .inl hr, hb⟩
    · exact .inl hb
    · exact .inr ⟨r, .inr hr, hb⟩
  · rintro (hb | ⟨r, hr | hr, hb⟩)
    · exact ⟨reg, .inr (.inl rfl), hb⟩
    · exact ⟨r, .inl hr, hb⟩
    · exact ⟨r, .inr (.inr hr), hb⟩

/-- a region is replaced by one of the same shape -/
theorem LmmOk.replace (hl : LmmOk (pre ++ reg :: post)) {reg' : LmmRegion} (hok : RegionOk reg')
    (hshape : reg'.shape = reg.shape) (hlow : ∀ x ∈ reg'.nodes, x.stop ≤ 2^30) :
    LmmOk (pre ++ reg' :: post) := by
  have hmem : ∀ r ∈ pre ++ reg' :: post, r = reg' ∨ r ∈ pre ++ reg :: post := by
    intro r hr
    simp only [List.mem_append, List.mem_cons] at hr ⊢
    tauto
  simp only [LmmRegion.shape, Prod.mk.injEq] at hshape
  refine ⟨fun r hr => ?_, ?_, fun r hr => ?_⟩
  · rcases hmem r hr with rfl | hr
    · exact hok
    · exact hl.regions r hr
  · have hp := hl.apart
    simp only [List.pairwise_append, List.pairwise_cons, List.forall_mem_cons, LmmRegion.Apart] at hp ⊢
    rw [hshape.1, hshape.2.1]
    exact hp
  · rcases hmem r hr with rfl | hr
    · exact hlow
    · exact hl.low r hr

/-! ## taking a block -/

/-- `regs'` is `regs` with the memory `e` taken out of a node -/
def Takes (regs : List LmmRegion) (e : Extent) (regs' : List LmmRegion) : Prop :=
  ∃ pre reg post p x q, regs = pre ++ reg :: post ∧ reg.nodes = p ++ x :: q ∧ x.start ≤ e.start ∧
    0 < e.len ∧ e.stop ≤ x.stop ∧ e.start % 8 = 0 ∧ e.len % 8 = 0 ∧
    regs' = pre ++ reg.take p q x e.start e.len :: post

theorem alignUp_pos {size : Nat} (h0 : 0 < size) (hs : size ≤ 2^32 - 8) :
    alignUp size = (size + 7) / 8 * 8 ∧ 0 < alignUp size := by
  have := alignUp_eq (n := size) (by omega)
  omega

theorem FirstFit.takes {size flags block : Nat} (hl : LmmOk regs) (h0 : 0 < size)
    (hs : size ≤ 2^32 - 8) (hf : FirstFit (alignUp size) flags regs block regs') :
    Takes regs (blockExtent (block, size)) regs' := by
  obtain ⟨pre, reg, post, p, x, q, rfl, hn, -, hx, -, -, rfl, rfl⟩ := hf
  have hreg := hl.regions reg (List.mem_append_right _ List.mem_cons_self)
  have hx8 := (hreg.aligned x (by rw [hn]; exact List.mem_append_right _ List.mem_cons_self)).1
  have he : blockExtent (x.start, size) = ⟨x.start, alignUp size⟩ := by
    unfold blockExtent alignDown
    rw [hx8, Nat.zero_add]
    congr 1
    omega
  rw [he]
  refine ⟨pre, reg, post, p, x, q, rfl, hn, Nat.le_refl _, (alignUp_pos h0 hs).2, ?_, hx8,
    alignUp_mod _, rfl⟩
  unfold Extent.stop
  exact Nat.add_le_add_left hx _

theorem GenTakes.takes {g : GenReq} {addr : Nat} (hg : GenTakes g regs addr regs') :
    Takes regs (blockExtent (addr, g.size)) regs' := by
  obtain ⟨pre, reg, post, p, x, q, a, n, rfl, hn, -, hf, h1, h2, h3, h4, h5, rfl⟩ := hg
  have ha : a = alignDown addr := hf.start
  have hlen : n = alignUp (addr % 8 + g.size) := hf.len
  subst ha
  subst hlen
  exact ⟨pre, reg, post, p, x, q, rfl, hn, h1, h2, h3, h5, h4, rfl⟩

/-- the free memory loses the block, and nothing else -/
theorem Takes.spec (hl : LmmOk regs) (ht : Takes regs e regs') :
    LmmOk regs' ∧ regs.map LmmRegion.shape = regs'.map LmmRegion.shape ∧
      (∀ b, Covered (freeOf regs') b ↔ Covered (freeOf regs) b ∧ ¬ e.Has b) ∧
      (∀ b, e.Has b → Covered (freeOf regs) b) ∧ availOf regs' + e.len = availOf regs ∧
      0 < e.len ∧ 0 < e.start ∧ e.stop ≤ 2^30 ∧
      ∃ reg ∈ regs', reg.min ≤ e.start ∧ e.stop ≤ reg.max := by
  obtain ⟨pre, reg, post, p, x, q, rfl, hn, hstart, hpos, hstop, h8, hlen8, rfl⟩ := ht
  have hmem : reg ∈ pre ++ reg :: post := List.mem_append_right _ List.mem_cons_self
  have hreg := hl.regions reg hmem
  have hx : x ∈ reg.nodes := by rw [hn]; exact List.mem_append_right _ List.mem_cons_self
  obtain ⟨hmin, hmax⟩ := hreg.inside x hx
  have htake := hreg.take hn hstart hpos hstop h8 hlen8
  have hspaced := hreg.spaced
  rw [hn] at hspaced
  have hcut : ∀ b, Covered (p ++ cut x e.start e.len ++ q) b ↔ Covered reg.nodes b ∧ ¬ e.Has b := by
    intro b
    rw [hn]
    exact hspaced.covered_cut_mid hstart hstop
  have hxlow := hl.low reg hmem x hx
  have hother : ∀ b, Covered (freeOf (pre ++ post)) b → ¬ e.Has b := by
    intro b hb heb
    apply hl.not_within hb
    unfold Extent.stop at hstop hmax
    obtain ⟨h1, h2⟩ := heb
    unfold Extent.stop at h2
    omega
  refine ⟨hl.replace htake rfl fun y hy => ?_, by simp [LmmRegion.take, LmmRegion.shape],
    fun b => ?_, fun b hb => ?_, ?_, hpos, ?_, Nat.le_trans hstop hxlow, ?_⟩
  · rcases List.mem_append.mp hy with hy | hy
    · rcases List.mem_append.mp hy with hy | hy
      · exact hl.low reg hmem y (by rw [hn]; exact List.mem_append_left _ hy)
      · have := (mem_cut hy hstart hstop).2.2
        omega
    · exact hl.low reg hmem y (by
        rw [hn]; exact List.mem_append_right _ (List.mem_cons_of_mem _ hy))
  · rw [covered_freeOf_mid, covered_freeOf_mid]
    show Covered (p ++ cut x e.start e.len ++ q) b ∨ _ ↔ _
    rw [hcut]
    have := hother b
    tauto
  · apply covered_freeOf.mpr
    refine ⟨reg, hmem, x, hx, ?_, ?_⟩
    · exact Nat.le_trans hstart hb.1
    · exact Nat.lt_of_lt_of_le hb.2 hstop
  · have hle := len_le_total hx
    rw [← hreg.free] at hle
    rw [availOf_mid, availOf_mid]
    show availOf pre + (reg.free - e.len + availOf post) + e.len = _
    unfold Extent.stop at hstop
    omega
  · exact Nat.lt_of_lt_of_le (hreg.notNull x hx) hstart
  · refine ⟨reg.take p q x e.start e.len, List.mem_append_right _ List.mem_cons_self, ?_, ?_⟩
    · exact Nat.le_trans hmin hstart
    · exact Nat.le_trans hstop hmax

/-- regions of the same shapes have the same bounds -/
theorem region_of_shape (hs : regs.map LmmRegion.shape = regs'.map LmmRegion.shape)
    (hr : reg ∈ regs) : ∃ r ∈ regs', r.min = reg.min ∧ r.max = reg.max := by
  have hr' : reg.shape ∈ regs'.map LmmRegion.shape := by
    rw [← hs]
    exact List.mem_map_of_mem hr
  obtain ⟨r, hr, he⟩ := List.mem_map.mp hr'
  simp only [LmmRegion.shape, Prod.mk.injEq] at he
  exact ⟨r, hr, he.1, he.2.1⟩

/-- a block is handed out -/
theorem HeapInv.take (hi : HeapInv base h) {blk : Nat × Nat} (hpos : 0 < blk.2) (h0 : 0 < blk.1)
    (ht : Takes h.lmm (blockExtent blk) regs') : HeapInv base ⟨regs', blk :: h.live⟩ := by
  obtain ⟨hok, hshape, hcov, hwas, havail, hlen, hstart, hlow, reg, hreg, hin⟩ := ht.spec hi.ok
  refine ⟨hok, hi.shape.trans hshape, ?_, ?_, ?_, fun b hb => ?_, fun b => ?_, ?_⟩
  · intro e he
    rcases List.mem_cons.mp he with rfl | he
    · exact ⟨hlen, hstart, hlow, reg, hreg, hin⟩
    · obtain ⟨h1, h2, h3, r, hr, h4, h5⟩ := hi.live e he
      obtain ⟨r', hr', h6, h7⟩ := region_of_shape hshape hr
      exact ⟨h1, h2, h3, r', hr', by omega, by omega⟩
  · intro b hb
    rcases List.mem_cons.mp hb with rfl | hb
    · exact ⟨hpos, h0⟩
    · exact hi.sizes b hb
  · apply List.pairwise_cons.mpr
    refine ⟨fun e he => ?_, hi.apart⟩
    -- the block was free memory, and no live block is
    rw [Extent.apart_iff hlen (hi.live e he).1]
    intro b hb heb
    exact hi.excl b (hwas b hb) ⟨e, he, heb⟩
  · obtain ⟨hb, hne⟩ := (hcov b).mp hb
    show ¬ Covered (blockExtent blk :: h.extents) b
    rw [covered_cons]
    exact fun hc => hc.elim hne (hi.excl b hb)
  · show _ ↔ _ ∨ Covered (blockExtent blk :: h.extents) b
    rw [hi.all, covered_cons, hcov]
    have := hwas b
    tauto
  · show availOf regs' + total (blockExtent blk :: h.extents) = _
    rw [total_cons, ← hi.avail, ← havail]
    omega

/-! ## returning a block -/

/-- **lmm_free** of a block that lies in a region and holds no free memory: the free memory is what
it was and the block -/
theorem lmmFree_spec (hl : LmmOk regs) {blk : Nat × Nat} (hpos : 0 < blk.2)
    (hlen : 0 < (blockExtent blk).len) (hstart : 0 < (blockExtent blk).start)
    (hlow : (blockExtent blk).stop ≤ 2^30) (hreg : reg ∈ regs)
    (hmin : reg.min ≤ (blockExtent blk).start) (hmax : (blockExtent blk).stop ≤ reg.max)
    (hfree : ∀ b, Covered (freeOf regs) b → ¬ (blockExtent blk).Has b) :
    ∃ regs', lmmFree regs blk.1 blk.2 = some regs' ∧ LmmOk regs' ∧
      regs.map LmmRegion.shape = regs'.map LmmRegion.shape ∧
      (∀ b, Covered (freeOf regs') b ↔ Covered (freeOf regs) b ∨ (blockExtent blk).Has b) ∧
      availOf regs' = availOf regs + (blockExtent blk).len := by
  obtain ⟨pre, post, rfl⟩ := List.append_of_mem hreg
  have hregOk := hl.regions reg hreg
  have hfreeApart : ∀ x ∈ reg.nodes, x.Apart (blockExtent blk) := by
    intro x hx
    rw [Extent.apart_iff (hregOk.spaced.2 x hx) hlen]
    exact fun b hxb => hfree b (covered_freeOf_mid.mpr (.inl ⟨x, hx, hxb⟩))
  -- the walk goes past the regions before it
  have hpre : ∀ r ∈ pre, ¬ (r.min ≤ alignDown blk.1 ∧ alignDown blk.1 < r.max) := by
    intro r hr hc
    have hstop : alignDown blk.1 < reg.max := by
      have hs : alignDown blk.1 + (blockExtent blk).len ≤ reg.max := hmax
      omega
    have hle : reg.min ≤ alignDown blk.1 := hmin
    rcases hl.apart_mid r (List.mem_append_left _ hr) with h | h <;> omega
  obtain ⟨nodes, hj, hf⟩ := freeRegion_spec hl.regions rfl hpre hlen hstart (alignDown_mod _)
    (alignUp_mod _) hmin hmax hfreeApart
  have hput := hregOk.put hlen hstart (alignDown_mod _) (alignUp_mod _) hmin hmax hj
  refine ⟨pre ++ { reg with nodes := nodes, free := reg.free + (blockExtent blk).len } :: post,
    ?_, hl.replace hput rfl fun x hx => ?_, by simp [LmmRegion.shape], fun b => ?_, ?_⟩
  · have h0 : 0 < blk.1 := by
      change 0 < blk.1 / 8 * 8 at hstart
      omega
    rw [lmmFree, if_neg (by omega)]
    exact hf
  · rcases (hj.ends hx).2 with hs | ⟨y, hy, hs⟩
    · rw [hs]
      exact hlow
    · rw [hs]
      exact hl.low reg hreg y hy
  · rw [covered_freeOf_mid, covered_freeOf_mid]
    show Covered nodes b ∨ _ ↔ _
    rw [hj.covered]
    have he : Extent.Has ⟨alignDown blk.1, alignUp (blk.1 % 8 + blk.2)⟩ b ↔ (blockExtent blk).Has b :=
      Iff.rfl
    tauto
  · rw [availOf_mid, availOf_mid]
    show availOf pre + (reg.free + (blockExtent blk).len + availOf post) = _
    omega

/-- a live block goes back -/
theorem HeapInv.put (hi : HeapInv base h) {blk : Nat × Nat} (hblk : blk ∈ h.live) :
    ∃ regs', lmmFree h.lmm blk.1 blk.2 = some regs' ∧ HeapInv base ⟨regs', h.live.erase blk⟩ := by
  have hext : h.extents.Perm (blockExtent blk :: (h.live.erase blk).map blockExtent) :=
    (List.perm_cons_erase hblk).map blockExtent
  have hcov (b : Nat) : Covered h.extents b ↔
      (blockExtent blk).Has b ∨ Covered ((h.live.erase blk).map blockExtent) b := by
    rw [← covered_cons]
    simp only [Covered, hext.mem_iff]
  obtain ⟨hlen, hstart, hlow, reg, hreg, hmin, hmax⟩ :=
    hi.live _ (List.mem_map_of_mem hblk)
  obtain ⟨hap, happ⟩ := List.pairwise_cons.mp
    ((hext.pairwise_iff fun h => Extent.Apart.symm h).mp hi.apart)
  obtain ⟨regs', hf, hok, hshape, hnew, havail⟩ := lmmFree_spec hi.ok (hi.sizes blk hblk).1 hlen
    hstart hlow hreg hmin hmax fun b hb heb => hi.excl b hb ((hcov b).mpr (.inl heb))
  refine ⟨regs', hf, hok, hi.shape.trans hshape, fun e he => ?_, fun b hb => ?_, happ, fun b hb => ?_,
    fun b => ?_, ?_⟩
  · obtain ⟨h1, h2, h3, r, hr, h4, h5⟩ := hi.live e (hext.mem_iff.mpr (List.mem_cons_of_mem _ he))
    obtain ⟨r', hr', h6, h7⟩ := region_of_shape hshape hr
    exact ⟨h1, h2, h3, r', hr', by omega, by omega⟩
  · exact hi.sizes b ((List.perm_cons_erase hblk).mem_iff.mpr (List.mem_cons_of_mem _ hb))
  · intro hc
    rcases (hnew b).mp hb with hb | hb
    · exact hi.excl b hb ((hcov b).mpr (.inr hc))
    · obtain ⟨e, he, heb⟩ := hc
      exact hb.apart heb (hap e he)
  · show _ ↔ _ ∨ Covered ((h.live.erase blk).map blockExtent) b
    rw [hi.all, hcov, hnew]
    tauto
  · show availOf _ + total ((h.live.erase blk).map blockExtent) = _
    have htot : total h.extents =
        (blockExtent blk).len + total ((h.live.erase blk).map blockExtent) := by
      rw [← total_cons]
      exact (hext.map Extent.len).sum_eq
    rw [← hi.avail, htot, havail]
    omega

/-! ## a call, and a run -/

theorem Takes.start_pos {blk : Nat × Nat} (hl : LmmOk regs)
    (ht : Takes regs (blockExtent blk) regs') : 0 < blk.1 := by
  have hs := (ht.spec hl).2.2.2.2.2.2.1
  change 0 < blk.1 / 8 * 8 at hs
  omega

/-- no assertion fails, and the invariant is kept -/
theorem heapStep_inv (hi : HeapInv base h) (op : HeapOp) (hop : op.InRange) :
    ∃ h', heapStep h op = some h' ∧ HeapInv base h' := by
  cases op with
  | alloc size flags =>
    obtain ⟨h0, hs⟩ := hop
    rw [heapStep, lmmAlloc, if_pos h0]
    rcases allocRegion_spec hi.ok.regions (alignUp size) flags with ⟨hr, -⟩ | ⟨block, regs', hr, hf⟩
    · rw [hr]
      exact ⟨h, rfl, hi⟩
    · have ht := hf.takes hi.ok h0 hs
      rw [hr]
      exact ⟨_, rfl, hi.take h0 (ht.start_pos hi.ok) ht⟩
  | allocGen g =>
    rw [heapStep, lmmAllocGen, if_pos hop.pos]
    rcases genRegion_spec hop (fun reg hr => ⟨hi.ok.regions reg hr, hi.ok.low reg hr⟩) with
      hr | ⟨addr, regs', hr, hg⟩
    · rw [hr]
      exact ⟨h, rfl, hi⟩
    · have ht := hg.takes
      rw [hr]
      exact ⟨_, rfl, hi.take hop.pos (ht.start_pos hi.ok) ht⟩
  | free block size =>
    rw [heapStep]
    split
    · rename_i hmem
      obtain ⟨regs', hf, hi'⟩ := hi.put hmem
      change lmmFree h.lmm block size = some regs' at hf
      rw [hf]
      exact ⟨_, rfl, hi'⟩
    · exact ⟨h, rfl, hi⟩

theorem heapRun_inv (hi : HeapInv base h) (ops : List HeapOp) (hops : ∀ op ∈ ops, op.InRange) :
    ∃ h', heapRun h ops = some h' ∧ HeapInv base h' := by
  induction ops generalizing h with
  | nil => exact ⟨h, rfl, hi⟩
  | cons op ops ih =>
    obtain ⟨h1, hs, hi1⟩ := heapStep_inv hi op (hops op List.mem_cons_self)
    obtain ⟨h2, hr, hi2⟩ := ih hi1 fun op hop => hops op (List.mem_cons_of_mem _ hop)
    refine ⟨h2, ?_, hi2⟩
    rw [heapRun, hs]
    exact hr

/-- a heap of which nothing is handed out yet -/
theorem HeapInv.start (hok : LmmOk base) : HeapInv base ⟨base, []⟩ where
  ok := hok
  shape := rfl
  live := by simp [Heap.extents]
  sizes := by simp
  apart := by simp [Heap.extents]
  excl := by simp [Heap.extents]
  all := by simp [Heap.extents]
  avail := by simp [Heap.extents]

theorem heapRun_start (hok : LmmOk base) {ops : List HeapOp} (hops : ∀ op ∈ ops, op.InRange)
    (hr : heapRun ⟨base, []⟩ ops = some h) : HeapInv base h := by
  obtain ⟨h', hr', hi⟩ := heapRun_inv (.start hok) ops hops
  rw [hr] at hr'
  injection hr' with heq
  rw [heq]
  exact hi

/-- After any run no assertion has failed; the live blocks do not overlap, are no free memory, and
with it they are the memory that was free at the start, also by the counters. -/
theorem heap_run_partition (hok : LmmOk base) (ops : List HeapOp) (hops : ∀ op ∈ ops, op.InRange) :
    ∃ h, heapRun ⟨base, []⟩ ops = some h ∧ h.extents.Pairwise Extent.Apart ∧
      (∀ b, Covered (freeOf h.lmm) b → ¬ Covered h.extents b) ∧
      (∀ b, Covered (freeOf base) b ↔ Covered (freeOf h.lmm) b ∨ Covered h.extents b) ∧
      availOf h.lmm + total h.extents = availOf base := by
  obtain ⟨h, hr, hi⟩ := heapRun_inv (.start hok) ops hops
  exact ⟨h, hr, hi.apart, hi.excl, hi.all, hi.avail⟩

/-- a page of heap -/
def pageHeap : List LmmRegion := [⟨[⟨4096, 4096⟩], 4096, 8192, 0, 0, 4096⟩]

theorem pageHeap_ok : LmmOk pageHeap where
  regions := by
    intro reg hreg
    rw [List.mem_singleton.mp hreg]
    refine ⟨by decide, by decide, by decide, by decide, rfl, by decide, by decide⟩
  apart := List.pairwise_singleton _ _
  low := by decide

def pageOps : List HeapOp :=
  [.alloc 10 0, .allocGen ⟨12, 0, 6, 60, 0, 2^32 - 1⟩, .free 4096 10, .free 4156 12]

theorem pageOps_inRange : ∀ op ∈ pageOps, op.InRange := by
  simp only [pageOps, List.forall_mem_cons, HeapOp.InRange]
  refine ⟨by decide, ⟨by decide, by decide, by decide⟩, trivial, trivial, by simp⟩

theorem heap_run_partition_page : ∃ h, heapRun ⟨pageHeap, []⟩ pageOps = some h ∧
    h.extents.Pairwise Extent.Apart ∧ (∀ b, Covered (freeOf h.lmm) b → ¬ Covered h.extents b) ∧
    (∀ b, Covered (freeOf pageHeap) b ↔ Covered (freeOf h.lmm) b ∨ Covered h.extents b) ∧
    availOf h.lmm + total h.extents = availOf pageHeap :=
  heap_run_partition pageHeap_ok pageOps pageOps_inRange

/-! ## nothing is lost -/

/-- what is free in a region is what was free in it and is not handed out -/
theorem HeapInv.covered_nodes (hbase : LmmOk base) (hi : HeapInv base h) {reg' : LmmRegion}
    (hreg : reg ∈ base) (hreg' : reg' ∈ h.lmm) (hs : reg.shape = reg'.shape) :
    Covered reg'.nodes b ↔ Covered reg.nodes b ∧ ¬ Covered h.extents b := by
  simp only [LmmRegion.shape, Prod.mk.injEq] at hs
  rw [hbase.covered_nodes hreg, hi.ok.covered_nodes hreg', hi.all b, hs.1, hs.2.1]
  have := hi.excl b
  tauto

/-- two lists of regions with the same shapes, and equal where the shapes are -/
theorem eq_of_map_shape (hs : regs.map LmmRegion.shape = regs'.map LmmRegion.shape)
    (heq : ∀ r ∈ regs, ∀ r' ∈ regs', r.shape = r'.shape → r = r') : regs = regs' := by
  induction regs generalizing regs' with
  | nil => exact (List.map_eq_nil_iff.mp hs.symm).symm
  | cons r regs ih =>
    cases regs' with
    | nil => simp at hs
    | cons r' regs' =>
      rw [List.map_cons, List.map_cons, List.cons.injEq] at hs
      rw [heq r List.mem_cons_self r' List.mem_cons_self hs.1]
      congr 1
      apply ih hs.2
      intro s hs s' hs'
      exact heq s (List.mem_cons_of_mem _ hs) s' (List.mem_cons_of_mem _ hs')

/-- When all blocks have come back, in whatever order, the heap is the one of the start: the free
blocks have been joined again. -/
theorem heap_restored (hok : LmmOk base) (ops : List HeapOp) (hops : ∀ op ∈ ops, op.InRange)
    (hr : heapRun ⟨base, []⟩ ops = some h) (hlive : h.live = []) : h.lmm = base := by
  have hi := heapRun_start hok hops hr
  symm
  apply eq_of_map_shape hi.shape
  intro r hr r' hr' hs
  have hcov (b : Nat) : Covered r.nodes b ↔ Covered r'.nodes b := by
    rw [hi.covered_nodes hok hr hr' hs]
    simp [Heap.extents, hlive]
  have h1 := hok.regions r hr
  have h2 := hi.ok.regions r' hr'
  have hnodes := h1.spaced.eq_of_covered h2.spaced hcov
  have hfree : r.free = r'.free := by rw [h1.free, h2.free, hnodes]
  obtain ⟨nodes, min, max, flags, pri, free⟩ := r
  simp only [LmmRegion.shape, Prod.mk.injEq] at hs
  simp only at hnodes hfree
  obtain ⟨rfl, rfl, rfl, rfl⟩ := hs
  rw [hnodes, hfree]

theorem heap_restored_page : ∃ h, heapRun ⟨pageHeap, []⟩ pageOps = some h ∧ h.lmm = pageHeap :=
  ⟨⟨pageHeap, []⟩, by decide,
    heap_restored pageHeap_ok pageOps pageOps_inRange (by decide) rfl⟩

/-- After any run an allocation fails only where no region that serves has that many bytes in a
row that are not handed out. -/
theorem alloc_fails_iff (hok : LmmOk base) (ops : List HeapOp) (hops : ∀ op ∈ ops, op.InRange)
    (hr : heapRun ⟨base, []⟩ ops = some h) {size : Nat} (flags : Nat) (h0 : 0 < size)
    (hsize : size ≤ 2^32 - 8) :
    lmmAlloc h.lmm size flags = some none ↔
      ¬ ∃ reg ∈ base, reg.Serves flags ∧ ∃ a, ∀ b, a ≤ b → b < a + alignUp size →
        Covered reg.nodes b ∧ ¬ Covered h.extents b := by
  have hi := heapRun_start hok hops hr
  have hpos := (alignUp_pos h0 hsize).2
  have hspec := allocRegion_spec hi.ok.regions (alignUp size) flags
  rw [lmmAlloc, if_pos h0]
  constructor
  · rintro hnone ⟨reg, hreg, hs, a, ha⟩
    have hmem : reg.shape ∈ h.lmm.map LmmRegion.shape := by
      rw [← hi.shape]
      exact List.mem_map_of_mem hreg
    obtain ⟨reg', hreg', hshape⟩ := List.mem_map.mp hmem
    -- the bytes lie in one node, for the free list has no two that touch
    obtain ⟨x, hx, h1, h2⟩ := (hi.ok.regions reg' hreg').spaced.exists_extent hpos fun b hb hb' =>
      (hi.covered_nodes hok hreg hreg' hshape.symm).mpr (ha b hb hb')
    have hs' : reg'.Serves flags := by
      simp only [LmmRegion.shape, Prod.mk.injEq] at hshape
      unfold LmmRegion.Serves
      rw [hshape.2.2.1]
      exact hs
    rcases hspec with ⟨-, hno⟩ | ⟨block, regs', hsome, -⟩
    · have := hno reg' hreg' hs' x hx
      unfold Extent.stop at h2
      omega
    · rw [hsome] at hnone
      injection hnone with hc
      cases hc
  · intro hno
    rcases hspec with ⟨hnone, -⟩ | ⟨block, regs', -, hf⟩
    · exact hnone
    · obtain ⟨pre, reg', post, p, x, q, hregs, hn, hs, hx, -⟩ := hf
      have hreg' : reg' ∈ h.lmm := by
        rw [hregs]
        exact List.mem_append_right _ List.mem_cons_self
      have hmem : reg'.shape ∈ base.map LmmRegion.shape := by
        rw [hi.shape]
        exact List.mem_map_of_mem hreg'
      obtain ⟨reg, hreg, hshape⟩ := List.mem_map.mp hmem
      refine absurd ⟨reg, hreg, ?_, x.start, fun b hb hb' => ?_⟩ hno
      · simp only [LmmRegion.shape, Prod.mk.injEq] at hshape
        unfold LmmRegion.Serves
        rw [hshape.2.2.1]
        exact hs
      · apply (hi.covered_nodes hok hreg hreg' hshape).mp
        refine ⟨x, by rw [hn]; exact List.mem_append_right _ List.mem_cons_self, hb, ?_⟩
        unfold Extent.stop
        omega

def pageHeapUsed : Heap := ⟨[⟨[⟨4112, 4080⟩], 4096, 8192, 0, 0, 4080⟩], [(4096, 10)]⟩

theorem alloc_fails_page : lmmAlloc pageHeapUsed.lmm 4081 0 = some none ↔
    ¬ ∃ reg ∈ pageHeap, reg.Serves 0 ∧ ∃ a, ∀ b, a ≤ b → b < a + alignUp 4081 →
      Covered reg.nodes b ∧ ¬ Covered pageHeapUsed.extents b :=
  alloc_fails_iff pageHeap_ok [.alloc 10 0]
    (by simp only [List.forall_mem_cons, HeapOp.InRange]; simp) (by decide) 0 (by decide)
    (by decide)

/-! ## malloc -/

/-- `_malloc`: the size, with its own word, stands before the block -/
def mallocLmm (lmm : List LmmRegion) (size : Nat) : Option (Option (Nat × List LmmRegion)) :=
  (lmmAlloc lmm (u32 (size + 4)) 0).map (Option.map fun r => (u32 (r.1 + 4), r.2))

/-- the loop that looks for the alignment in bits -/
def shiftFor (alignment : Nat) : Nat → Nat → Nat
  | 0, shift => shift
  | fuel + 1, shift => if 2^shift < alignment then shiftFor alignment fuel (shift + 1) else shift

/-- `_memalign` -/
def memalignLmm (lmm : List LmmRegion) (alignment size : Nat) :
    Option (Option (Nat × List LmmRegion)) :=
  let shift := shiftFor alignment 31 0
  (lmmAllocGen lmm ⟨u32 (size + 4), 0, shift, u32sub (2^shift) 4, 0, 2^32 - 1⟩).map
    (Option.map fun r => (u32 (r.1 + 4), r.2))

theorem LmmOk.low_of_covered (hl : LmmOk regs) (hb : Covered (freeOf regs) b) : b < 2^30 := by
  obtain ⟨reg, hreg, x, hx, -, hlt⟩ := covered_freeOf.mp hb
  exact Nat.lt_of_lt_of_le hlt (hl.low reg hreg x hx)

/-- The bytes of a block that `malloc` returns are taken out of the free memory, unless the size is
so near to `2^32` that adding the header and rounding up wraps. -/
theorem malloc_sound_iff (hl : LmmOk regs) {size p : Nat} (hsize : size < 2^32)
    (hm : mallocLmm regs size = some (some (p, regs'))) :
    (∀ b, p ≤ b → b < p + size → Covered (freeOf regs) b ∧ ¬ Covered (freeOf regs') b) ↔
      size ≤ 2^32 - 12 := by
  unfold mallocLmm lmmAlloc at hm
  split at hm
  · rename_i h0
    rcases allocRegion_spec hl.regions (alignUp (u32 (size + 4))) 0 with
      ⟨hr, -⟩ | ⟨block, lmm', hr, hf⟩
    · rw [hr] at hm
      simp at hm
    rw [hr] at hm
    simp only [Option.map_some, Option.some.injEq, Prod.mk.injEq] at hm
    obtain ⟨hp, rfl⟩ := hm
    -- the block starts at the start of a node
    have hblock : block < 2^30 := by
      obtain ⟨pre, reg, post, q, x, q', rfl, hn, -, -, -, -, rfl, -⟩ := hf
      have hreg : reg ∈ pre ++ reg :: post := List.mem_append_right _ List.mem_cons_self
      have hx : x ∈ reg.nodes := by rw [hn]; exact List.mem_append_right _ List.mem_cons_self
      apply hl.low_of_covered
      exact covered_freeOf.mpr ⟨reg, hreg, x, hx, Extent.has_start
        ((hl.regions reg hreg).spaced.2 x hx)⟩
    have hp4 : p = block + 4 := by
      rw [← hp]
      exact Nat.mod_eq_of_lt (by omega)
    constructor
    · intro hall
      by_contra hlarge
      have hlow := hl.low_of_covered (hall (2^30 + 4) (by omega) (by omega)).1
      omega
    · intro hle b hb hb'
      have hu : u32 (size + 4) = size + 4 := Nat.mod_eq_of_lt (by omega)
      rw [hu] at hf
      have ht := hf.takes hl (by omega) (by omega)
      obtain ⟨-, -, hcov, hwas, -, -, hstart, -⟩ := ht.spec hl
      have hround := alignUp_eq (n := size + 4) (by omega)
      have h8 : block % 8 = 0 := by
        obtain ⟨pre, reg, post, q, x, q', rfl, hn, -, -, -, -, rfl, -⟩ := hf
        have hreg := hl.regions reg (List.mem_append_right _ List.mem_cons_self)
        exact (hreg.aligned x (by
          rw [hn]; exact List.mem_append_right _ List.mem_cons_self)).1
      have hhas : (blockExtent (block, size + 4)).Has b := by
        unfold blockExtent alignDown Extent.Has Extent.stop
        dsimp only
        rw [h8, Nat.zero_add, hround]
        omega
      exact ⟨hwas b hhas, fun hc => ((hcov b).mp hc).2 hhas⟩
  · simp at hm

theorem malloc_sound_page : (∀ b, 4100 ≤ b → b < 4100 + (2^32 - 8) →
      Covered (freeOf pageHeap) b ∧ ¬ Covered (freeOf pageHeap) b) ↔ 2^32 - 8 ≤ 2^32 - 12 :=
  malloc_sound_iff pageHeap_ok (by decide) (by decide)

theorem shiftFor_spec {alignment : Nat} (fuel shift : Nat) (h : alignment ≤ 2^(shift + fuel))
    (hmax : alignment ≤ 2^30) (hs : shift ≤ 30) :
    shift ≤ shiftFor alignment fuel shift ∧ shiftFor alignment fuel shift ≤ 30 ∧
      alignment ≤ 2^(shiftFor alignment fuel shift) := by
  induction fuel generalizing shift with
  | zero => exact ⟨Nat.le_refl _, hs, h⟩
  | succ fuel ih =>
    unfold shiftFor
    split
    · rename_i hlt
      have hs' : shift < 30 := by
        by_contra hge
        have heq : shift = 30 := by omega
        rw [heq] at hlt
        omega
      obtain ⟨h1, h2⟩ := ih (shift + 1) (by rw [Nat.add_assoc, Nat.add_comm 1]; exact h) hs'
      exact ⟨by omega, h2⟩
    · exact ⟨Nat.le_refl _, hs, by omega⟩

/-- `memalign` returns memory of its own at an address that is a multiple of the next power of
two, or nothing. -/
theorem memalign_aligned (hl : LmmOk regs) {alignment size : Nat} (ha : alignment ≤ 2^30)
    (hsize : size + 4 < 2^32) :
    memalignLmm regs alignment size = some none ∨
      ∃ p regs' k, memalignLmm regs alignment size = some (some (p, regs')) ∧
        alignment ≤ 2^k ∧ p % 2^k = 0 ∧ LmmOk regs' ∧
        ∀ b, p - 4 ≤ b → b < p + size → Covered (freeOf regs) b ∧ ¬ Covered (freeOf regs') b := by
  obtain ⟨-, hk, hak⟩ := @shiftFor_spec alignment 31 0
    (Nat.le_trans ha (Nat.pow_le_pow_right (by omega) (by omega))) ha (by omega)
  unfold memalignLmm
  dsimp only
  generalize shiftFor alignment 31 0 = k at hk hak
  have hu : u32 (size + 4) = size + 4 := Nat.mod_eq_of_lt hsize
  rw [hu, lmmAllocGen, if_pos (show 0 < size + 4 by omega)]
  have hsmall : GenReq.Small ⟨size + 4, 0, k, u32sub (2^k) 4, 0, 2^32 - 1⟩ :=
    ⟨by show 0 < size + 4; omega, hk, Nat.zero_le _⟩
  rcases genRegion_spec hsmall (fun reg hr => ⟨hl.regions reg hr, hl.low reg hr⟩) with
    hr | ⟨addr, regs', hr, hg⟩
  · rw [hr]
    exact .inl rfl
  right
  obtain ⟨hok, -, hcov, hwas, -, -, -, -⟩ := hg.takes.spec hl
  obtain ⟨pre, reg, post, q, x, q', a, n, -, -, -, hf, -, -, -, -, -, -⟩ := hg
  have hfit := hf.within
  have hstart : a = alignDown addr := hf.start
  have hlen : n = alignUp (addr % 8 + (size + 4)) := hf.len
  have hhas (b : Nat) (h1 : addr ≤ b) (h2 : b < addr + (size + 4)) :
      (blockExtent (addr, size + 4)).Has b := by
    unfold blockExtent Extent.Has Extent.stop
    dsimp only
    rw [← hstart, ← hlen]
    change a ≤ addr ∧ addr + (size + 4) ≤ a + n at hfit
    omega
  have haddr : addr < 2^30 := hl.low_of_covered (hwas addr (hhas addr (Nat.le_refl _) (by omega)))
  have hp : u32 (addr + 4) = addr + 4 := Nat.mod_eq_of_lt (by omega)
  refine ⟨addr + 4, regs', k, by rw [hr]; simp [hp], hak, ?_, hok, fun b h1 h2 => ?_⟩
  · -- the offset is four below a multiple
    have hmod : addr % 2^k = u32sub (2^k) 4 % 2^k := hf.aligned
    have hpow : 2^k ≤ 2^30 := Nat.pow_le_pow_right (by omega) hk
    have hdvd : 2^k ∣ u32sub (2^k) 4 + 4 := by
      have h32 : 2^k ∣ 2^32 := Nat.pow_dvd_pow 2 (by omega)
      have hsub : u32sub (2^k) 4 + 4 = 2^k ∨ u32sub (2^k) 4 + 4 = 2^k + 2^32 := by
        unfold u32sub u32
        omega
      rcases hsub with h | h
      · rw [h]
      · rw [h]
        exact Nat.dvd_add (Nat.dvd_refl _) h32
    rw [Nat.add_mod, hmod, ← Nat.add_mod]
    exact Nat.mod_eq_zero_of_dvd hdvd
  · have hb := hhas b (by omega) (by omega)
    exact ⟨hwas b hb, fun hc => ((hcov b).mp hc).2 hb⟩

theorem memalign_aligned_page : memalignLmm pageHeap 64 100 = some none ∨
    ∃ p regs' k, memalignLmm pageHeap 64 100 = some (some (p, regs')) ∧ 64 ≤ 2^k ∧ p % 2^k = 0 ∧
      LmmOk regs' ∧ ∀ b, p - 4 ≤ b → b < p + 100 →
        Covered (freeOf pageHeap) b ∧ ¬ Covered (freeOf regs') b :=
  memalign_aligned pageHeap_ok (by decide) (by decide)

end Paravirt

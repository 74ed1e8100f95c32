import Paravirt.Lib.Tiling
import Paravirt.Zone

/-!
# The buddy allocator keeps a tiling

`ZoneInv base live z`: the blocks on the free lists of `z` and the blocks `live` that are handed
out tile the blocks `base`; every node on list `i` has `order` field `i`; every counter is the
length of its list.  A block that the code is working on (split, merged, about to be inserted)
counts as live, so that each line of the source is one small step of the invariant:

* `ZoneInv.remove`, `ZoneInv.pushFront`   a node leaves or enters a free list;
* `ZoneInv.split`, `ZoneInv.merge`        a live block is cut, two live neighbours are joined;
* `ZoneInv.setOrder`                      a write into a live block;
* `ZoneInv.get`, `ZoneInv.free`           the two operations, assembled from these.

The merge loop joins ANY two neighbours of equal order, aligned or not; a tiling does not see the
difference.
-/

set_option linter.unusedSectionVars false
set_option linter.unusedVariables false

namespace Paravirt
open Tiling

def VmmZone.freeList (z : VmmZone) (i : Nat) : List Nat := (z.freeAreaList i).freeList

/-- the blocks on the free lists; the merge loop can go one order past `max_order` -/
def VmmZone.freeBlocks (z : VmmZone) : List Block := byOrder z.freeList (z.maxOrder + 1)

/-- the memory a zone may manage: no page twice, none at `NULL`, none past the address space -/
structure GoodBase (base : List Block) : Prop where
  nodup : (allCells pageSize base).Nodup
  pos : ∀ c ∈ allCells pageSize base, 0 < c
  top : ∀ c ∈ allCells pageSize base, c + pageSize ≤ 2^32

structure ZoneInv (base live : List Block) (z : VmmZone) : Prop where
  tiles : Tiles pageSize (z.freeBlocks ++ live) base
  order : ∀ i, ∀ a ∈ z.freeList i, z.order a = i
  numFree : ∀ i, (z.freeAreaList i).numFree = (z.freeList i).length
  bounded : ∀ i, z.maxOrder + 1 < i → z.freeList i = []

/-! ## the two list edits -/

theorem VmmZone.freeList_pushFront (z : VmmZone) (i node : Nat) :
    (z.pushFront i node).freeList = Function.update z.freeList i (node :: z.freeList i) := by
  funext j
  by_cases e : j = i
  · subst e; simp [VmmZone.freeList, VmmZone.pushFront]
  · simp [VmmZone.freeList, VmmZone.pushFront, Function.update_of_ne e]

theorem VmmZone.freeList_remove (z : VmmZone) (i node : Nat) :
    (z.remove i node).freeList = Function.update z.freeList i ((z.freeList i).erase node) := by
  funext j
  by_cases e : j = i
  · subst e; simp [VmmZone.freeList, VmmZone.remove]
  · simp [VmmZone.freeList, VmmZone.remove, Function.update_of_ne e]

@[simp] theorem VmmZone.pushFront_order (z : VmmZone) (i node : Nat) :
    (z.pushFront i node).order = z.order := rfl
@[simp] theorem VmmZone.remove_order (z : VmmZone) (i node : Nat) :
    (z.remove i node).order = z.order := rfl
@[simp] theorem VmmZone.pushFront_maxOrder (z : VmmZone) (i node : Nat) :
    (z.pushFront i node).maxOrder = z.maxOrder := rfl
@[simp] theorem VmmZone.remove_maxOrder (z : VmmZone) (i node : Nat) :
    (z.remove i node).maxOrder = z.maxOrder := rfl
@[simp] theorem VmmZone.setOrder_maxOrder (z : VmmZone) (node k : Nat) :
    (z.setOrder node k).maxOrder = z.maxOrder := rfl
@[simp] theorem VmmZone.setOrder_freeList (z : VmmZone) (node k : Nat) :
    (z.setOrder node k).freeList = z.freeList := rfl
@[simp] theorem VmmZone.setOrder_freeBlocks (z : VmmZone) (node k : Nat) :
    (z.setOrder node k).freeBlocks = z.freeBlocks := rfl
theorem VmmZone.setOrder_self (z : VmmZone) (node k : Nat) : (z.setOrder node k).order node = k :=
  Function.update_self ..
theorem VmmZone.setOrder_of_ne (z : VmmZone) {a node : Nat} (k : Nat) (h : a ≠ node) :
    (z.setOrder node k).order a = z.order a := Function.update_of_ne h ..

theorem VmmZone.mem_freeBlocks {z : VmmZone} {a k : Nat} :
    (a, k) ∈ z.freeBlocks ↔ k ≤ z.maxOrder + 1 ∧ a ∈ z.freeList k := mem_byOrder

namespace ZoneInv
variable {base live live' : List Block} {z : VmmZone} {a k : Nat}

theorem perm (h : ZoneInv base live z) (hp : live.Perm live') : ZoneInv base live' z :=
  { h with tiles := h.tiles.perm (hp.append_left _) }

theorem split (h : ZoneInv base ((a, k+1) :: live) z) :
    ZoneInv base ((a, k) :: (a + pageSize * 2^k, k) :: live) z := by
  have h1 := (h.tiles.perm List.perm_middle).split
  exact { h with tiles := h1.perm (by
    refine (List.Perm.cons _ List.perm_middle.symm).trans List.perm_middle.symm) }

theorem merge (h : ZoneInv base ((a, k) :: (a + pageSize * 2^k, k) :: live) z) :
    ZoneInv base ((a, k+1) :: live) z := by
  have h1 : Tiles pageSize ((a, k) :: (a + pageSize * 2^k, k) :: (z.freeBlocks ++ live)) base :=
    h.tiles.perm (List.perm_middle.trans (List.Perm.cons _ List.perm_middle))
  exact { h with tiles := h1.merge.perm List.perm_middle.symm }

/-- a live block lies in the base, so its end does not pass the address space -/
theorem live_le (h : ZoneInv base live z) (hb : GoodBase base) (hm : (a, k) ∈ live) :
    0 < a ∧ a + pageSize * 2^k ≤ 2^32 := by
  have hmem : ∀ c ∈ cells pageSize (a, k), c ∈ allCells pageSize base := fun c hc =>
    List.Perm.mem_iff h.tiles |>.mp (mem_allCells.mpr ⟨_, List.mem_append_right _ hm, hc⟩)
  have hpos := Nat.two_pow_pos k
  have hlast := hb.top (a + pageSize * (2^k - 1))
    (hmem _ (mem_cells.mpr ⟨2^k - 1, Nat.sub_lt hpos Nat.one_pos, rfl⟩))
  refine ⟨hb.pos a (hmem a (fst_mem_cells _ _)), ?_⟩
  have e : pageSize * 2^k = pageSize * (2^k - 1) + pageSize := by
    rw [← Nat.mul_succ, Nat.succ_eq_add_one, Nat.sub_add_cancel hpos]
  omega

/-- a cell of a live block is no node of a free list -/
theorem not_free (h : ZoneInv base live z) (hb : GoodBase base) {b : Block} (hm : b ∈ live)
    (hc : a ∈ cells pageSize b) (i : Nat) : a ∉ z.freeList i := by
  intro ha
  have hi : i ≤ z.maxOrder + 1 := by
    by_contra hi
    rw [h.bounded i (by omega)] at ha
    exact absurd ha List.not_mem_nil
  have hd := List.pairwise_append.mp (h.tiles.pairwise_disjoint hb.nodup)
  exact hd.2.2 (a, i) (VmmZone.mem_freeBlocks.mpr ⟨hi, ha⟩) b hm (fst_mem_cells _ _) hc

/-- two live blocks have no page in common -/
theorem live_disjoint (h : ZoneInv base live z) (hb : GoodBase base) :
    live.Pairwise fun b c => (cells pageSize b).Disjoint (cells pageSize c) :=
  (List.pairwise_append.mp (h.tiles.pairwise_disjoint hb.nodup)).2.1

/-- a write of an `order` word inside a live block -/
theorem setOrder (h : ZoneInv base live z) (hb : GoodBase base) {b : Block} (hm : b ∈ live)
    (hc : a ∈ cells pageSize b) (v : Nat) : ZoneInv base live (z.setOrder a v) where
  tiles := h.tiles
  order := fun i x hx => by
    have hne : x ≠ a := fun e => h.not_free hb hm hc i (e ▸ hx)
    rw [z.setOrder_of_ne v hne]
    exact h.order i x hx
  numFree := h.numFree
  bounded := h.bounded

theorem pushFront (h : ZoneInv base ((a, k) :: live) z) (ho : z.order a = k)
    (hk : k ≤ z.maxOrder + 1) : ZoneInv base live (z.pushFront k a) where
  tiles := by
    have hp := byOrder_update_cons z.freeList hk a (z.freeList k) (List.Perm.refl _)
    unfold VmmZone.freeBlocks
    rw [VmmZone.freeList_pushFront]
    exact h.tiles.perm (List.perm_middle.trans (hp.symm.append_right live))
  order := fun i x hx => by
    rw [VmmZone.freeList_pushFront] at hx
    by_cases e : i = k
    · subst e
      rw [Function.update_self] at hx
      rcases List.mem_cons.mp hx with rfl | hx
      · exact ho
      · exact h.order i x hx
    · rw [Function.update_of_ne e] at hx
      exact h.order i x hx
  numFree := fun i => by
    rw [VmmZone.freeList_pushFront]
    by_cases e : i = k
    · subst e
      simp [VmmZone.pushFront, h.numFree]
    · simp [VmmZone.pushFront, Function.update_of_ne e, h.numFree]
  bounded := fun i hi => by
    have e : i ≠ k := by
      rw [VmmZone.pushFront_maxOrder] at hi
      omega
    rw [VmmZone.freeList_pushFront, Function.update_of_ne e]
    exact h.bounded i hi

theorem remove (h : ZoneInv base live z) (ha : a ∈ z.freeList k) :
    ZoneInv base ((a, k) :: live) (z.remove k a) where
  tiles := by
    have hk : k ≤ z.maxOrder + 1 := by
      by_contra hk
      rw [h.bounded k (by omega)] at ha
      exact absurd ha List.not_mem_nil
    have hp := byOrder_update_erase z.freeList hk (List.perm_cons_erase ha)
    unfold VmmZone.freeBlocks
    rw [VmmZone.freeList_remove]
    exact h.tiles.perm ((hp.append_right live).trans List.perm_middle.symm)
  order := fun i x hx => by
    rw [VmmZone.freeList_remove] at hx
    by_cases e : i = k
    · subst e
      rw [Function.update_self] at hx
      exact h.order i x (List.mem_of_mem_erase hx)
    · rw [Function.update_of_ne e] at hx
      exact h.order i x hx
  numFree := fun i => by
    rw [VmmZone.freeList_remove]
    by_cases e : i = k
    · subst e
      have hpos : 0 < (z.freeList i).length := List.length_pos_of_mem ha
      simp only [VmmZone.remove, Function.update_self, h.numFree, List.length_erase_of_mem ha]
      omega
    · simp [VmmZone.remove, Function.update_of_ne e, h.numFree]
  bounded := fun i hi => by
    rw [VmmZone.freeList_remove]
    by_cases e : i = k
    · subst e
      rw [h.bounded i hi] at ha
      exact absurd ha List.not_mem_nil
    · rw [Function.update_of_ne e]
      exact h.bounded i hi

end ZoneInv

/-! ## splitting -/

theorem buddyAddr_of_lt {node i : Nat} (h : node + pageSize * 2^i < 2^32) :
    buddyAddr node i = node + pageSize * 2^i := by
  unfold buddyAddr
  rw [Nat.shiftLeft_eq]
  exact u32_of_lt h

theorem splitStep_inv {base live : List Block} {z : VmmZone} {node m : Nat} (hb : GoodBase base)
    (h : ZoneInv base ((node, m+1) :: live) z) (ho : z.order node = m + 1) (hm : m ≤ z.maxOrder) :
    ZoneInv base ((node, m) :: live) (splitStep z node) ∧ (splitStep z node).order node = m ∧
      (splitStep z node).maxOrder = z.maxOrder := by
  have hle := (h.live_le hb List.mem_cons_self).2
  have hpos : 0 < pageSize * 2^m := Nat.mul_pos (by decide) (Nat.two_pow_pos m)
  have e2 : pageSize * 2^(m+1) = pageSize * 2^m + pageSize * 2^m := by
    rw [Nat.pow_succ, Nat.mul_two, Nat.mul_add]
  have hnew : buddyAddr node m = node + pageSize * 2^m := buddyAddr_of_lt (by omega)
  have hk : z.order node - 1 = m := by rw [ho]; rfl
  -- the node and its upper half are live while the header words are written
  have h1 := h.split
  have h2 := h1.setOrder hb List.mem_cons_self (fst_mem_cells pageSize (node, m)) m
  have h3 := h2.setOrder hb (List.mem_cons_of_mem _ List.mem_cons_self)
    (fst_mem_cells pageSize (node + pageSize * 2^m, m)) m
  have hne : node ≠ node + pageSize * 2^m := by omega
  unfold splitStep
  simp only [hk, hnew]
  refine ⟨?_, ?_, rfl⟩
  · refine (h3.perm (List.Perm.swap _ _ _)).pushFront (VmmZone.setOrder_self ..) ?_
    simp only [VmmZone.setOrder_maxOrder]
    omega
  · rw [VmmZone.pushFront_order, VmmZone.setOrder_of_ne _ _ hne, VmmZone.setOrder_self]

theorem splitLoop_inv {base live : List Block} (hb : GoodBase base) (n : Nat) :
    ∀ {z : VmmZone} {node k : Nat}, ZoneInv base ((node, k+n) :: live) z → z.order node = k + n →
      k + n ≤ z.maxOrder + 1 →
      ZoneInv base ((node, k) :: live) (splitLoop n z node) ∧
        (splitLoop n z node).order node = k ∧ (splitLoop n z node).maxOrder = z.maxOrder := by
  induction n with
  | zero => intro z node k h ho _; exact ⟨h, ho, rfl⟩
  | succ n ih =>
    intro z node k h ho hk
    obtain ⟨h1, h2, h3⟩ := splitStep_inv (m := k + n) hb h ho (by omega)
    obtain ⟨h4, h5, h6⟩ := ih h1 h2 (by omega)
    exact ⟨h4, h5, h6.trans h3⟩

theorem buddySplitNode_inv {base live : List Block} {z : VmmZone} {node i k : Nat}
    (hb : GoodBase base) (h : ZoneInv base ((node, i) :: live) z) (ho : z.order node = i)
    (hki : k ≤ i) (hi : i ≤ z.maxOrder + 1) :
    ∃ z', buddySplitNode z node k = (z', some node) ∧ ZoneInv base ((node, k) :: live) z' ∧
      z'.maxOrder = z.maxOrder := by
  obtain ⟨n, rfl⟩ := Nat.exists_eq_add_of_le hki
  obtain ⟨h1, h2, h3⟩ := splitLoop_inv hb n h ho hi
  have hn : z.order node - k = n := by omega
  refine ⟨_, ?_, h1, h3⟩
  unfold buddySplitNode
  simp only [hn, h2, if_true]

/-! ## vmm_buddy_get_free_pages -/

theorem getLoop_inv {base live : List Block} {z : VmmZone} {k : Nat} (hb : GoodBase base)
    (h : ZoneInv base live z) (n : Nat) :
    ∀ i, k ≤ i → i + n = z.maxOrder + 1 →
      (getLoop n i z k = (z, none) ∧ ∀ j, i ≤ j → j ≤ z.maxOrder → z.freeList j = []) ∨
      (∃ z' a, getLoop n i z k = (z', some a) ∧ ZoneInv base ((a, k) :: live) z' ∧
        z'.maxOrder = z.maxOrder) := by
  induction n with
  | zero => intro i _ hi; exact .inl ⟨rfl, fun j hj hj' => by omega⟩
  | succ n ih =>
    intro i hki hi
    unfold getLoop
    by_cases h0 : (z.freeAreaList i).numFree = 0
    · rw [if_pos h0]
      have hnil : z.freeList i = [] := by
        have := h.numFree i
        rw [h0] at this
        exact List.length_eq_zero_iff.mp (by omega)
      rcases ih (i+1) (by omega) (by omega) with ⟨e, hall⟩ | hsome
      · refine .inl ⟨e, fun j hj hj' => ?_⟩
        rcases Nat.eq_or_lt_of_le hj with rfl | hlt
        · exact hnil
        · exact hall j hlt hj'
      · exact .inr hsome
    · rw [if_neg h0]
      refine .inr ?_
      -- the counter is the length of the list, so the list has a front
      have hne : z.freeList i ≠ [] := by
        intro e
        apply h0
        rw [h.numFree i, e]
        rfl
      have hmem : (z.freeAreaList i).freeList.headD 0 ∈ z.freeList i := by
        unfold VmmZone.freeList at hne ⊢
        cases hl : (z.freeAreaList i).freeList with
        | nil => exact absurd hl hne
        | cons a l => exact List.mem_cons_self
      have h1 := h.remove hmem
      have ho := h.order i _ hmem
      obtain ⟨z', he, h2, h3⟩ := buddySplitNode_inv (k := k) hb h1 ho hki
        (by rw [VmmZone.remove_maxOrder]; omega)
      exact ⟨z', _, he, h2, h3⟩

namespace ZoneInv
variable {base live : List Block} {z : VmmZone} {a k : Nat}

/-- **a request fails only when no list of its order or above has a block; otherwise the block it
returns is live from then on** -/
theorem get (h : ZoneInv base live z) (hb : GoodBase base) (k : Nat) :
    (vmmBuddyGetFreePages z k = (z, none) ∧ ∀ j, k ≤ j → j ≤ z.maxOrder → z.freeList j = []) ∨
    (∃ z' a, vmmBuddyGetFreePages z k = (z', some a) ∧ ZoneInv base ((a, k) :: live) z' ∧
      z'.maxOrder = z.maxOrder) := by
  unfold vmmBuddyGetFreePages
  by_cases hk : k ≤ z.maxOrder + 1
  · exact getLoop_inv hb h _ k (Nat.le_refl k) (by omega)
  · have e : z.maxOrder + 1 - k = 0 := by omega
    rw [e]
    exact .inl ⟨rfl, fun j hj hj' => by omega⟩

end ZoneInv

/-! ## vmm_buddy_free_pages -/

theorem scan_merge {i node c m : Nat} {l : List Nat} (h : scanFreeList i node l = .merge c m) :
    c ∈ l ∧ ((m = node ∧ buddyAddr node i = c) ∨ (m = c ∧ buddyAddr c i = node)) := by
  induction l with
  | nil => exact absurd h (by simp [scanFreeList])
  | cons x l ih =>
    unfold scanFreeList at h
    split at h
    · split at h
      · exact ⟨List.mem_cons_of_mem _ (ih h).1, (ih h).2⟩
      · rename_i hx hbud
        cases h
        exact ⟨List.mem_cons_self, .inl ⟨rfl, by simpa using hbud⟩⟩
    · split at h
      · split at h
        · rename_i hbud
          cases h
          exact ⟨List.mem_cons_self, .inr ⟨rfl, hbud⟩⟩
        · exact ⟨List.mem_cons_of_mem _ (ih h).1, (ih h).2⟩
      · cases h

theorem scan_doubleFree {i node : Nat} {l : List Nat} (h : scanFreeList i node l = .doubleFree) :
    node ∈ l := by
  induction l with
  | nil => exact absurd h (by simp [scanFreeList])
  | cons x l ih =>
    unfold scanFreeList at h
    split at h
    · split at h
      · exact List.mem_cons_of_mem _ (ih h)
      · cases h
    · split at h
      · split at h
        · cases h
        · exact List.mem_cons_of_mem _ (ih h)
      · have e : x = node := by omega
        rw [e]
        exact List.mem_cons_self

/-- one merge: the neighbour leaves its list, and the two blocks become one -/
theorem merge_inv {base live : List Block} {z : VmmZone} {node c m i : Nat} (hb : GoodBase base)
    (h : ZoneInv base ((node, i) :: live) z) (ho : z.order node = i)
    (hs : scanFreeList i node (z.freeList i) = .merge c m) :
    ZoneInv base ((m, i+1) :: live) ((z.setOrder m (z.order m + 1)).remove i c) ∧
      ((z.setOrder m (z.order m + 1)).remove i c).order m = i + 1 := by
  obtain ⟨hc, hm⟩ := scan_merge hs
  have h1 := h.remove hc
  have hoc := h.order i c hc
  have hle : ∀ x, (x, i) ∈ ((c, i) :: (node, i) :: live) → ∀ y, buddyAddr x i = y → 0 < y →
      y = x + pageSize * 2^i := by
    intro x hx y hy hy0
    have hx' := (h1.live_le hb hx).2
    rcases Nat.lt_or_eq_of_le hx' with hlt | heq
    · rw [← hy, buddyAddr_of_lt hlt]
    · unfold buddyAddr u32 at hy
      rw [Nat.shiftLeft_eq, heq, Nat.mod_self] at hy
      omega
  have hnode0 := (h1.live_le hb (List.mem_cons_of_mem _ List.mem_cons_self)).1
  have hc0 := (h1.live_le hb List.mem_cons_self).1
  have hjoined : z.order m = i ∧ ZoneInv base ((m, i+1) :: live) (z.remove i c) := by
    rcases hm with ⟨rfl, hbud⟩ | ⟨rfl, hbud⟩
    · refine ⟨ho, ?_⟩
      have e := hle _ (List.mem_cons_of_mem _ List.mem_cons_self) c hbud hc0
      rw [e] at h1 ⊢
      exact (h1.perm (List.Perm.swap _ _ _)).merge
    · refine ⟨hoc, ?_⟩
      have e := hle _ List.mem_cons_self node hbud hnode0
      rw [e] at h1
      exact h1.merge
  have h2 := hjoined.2.setOrder hb List.mem_cons_self (fst_mem_cells pageSize (m, i+1))
    (z.order m + 1)
  refine ⟨h2, ?_⟩
  rw [VmmZone.remove_order, VmmZone.setOrder_self, hjoined.1]

theorem freeLoop_inv {base live : List Block} (hb : GoodBase base) (n : Nat) :
    ∀ {z : VmmZone} {i node : Nat}, ZoneInv base ((node, i) :: live) z → z.order node = i →
      i + n = z.maxOrder + 1 →
      ∃ z' m k, freeLoop n i z node = (z', some m) ∧ ZoneInv base ((m, k) :: live) z' ∧
        z'.order m = k ∧ k ≤ z.maxOrder + 1 ∧ z'.maxOrder = z.maxOrder := by
  induction n with
  | zero => intro z i node h ho hi; exact ⟨z, node, i, rfl, h, ho, by omega, rfl⟩
  | succ n ih =>
    intro z i node h ho hi
    unfold freeLoop
    cases hs : scanFreeList i node (z.freeAreaList i).freeList with
    | nothing => exact ⟨z, node, i, rfl, h, ho, by omega, rfl⟩
    | doubleFree =>
      exact absurd (scan_doubleFree hs)
        (h.not_free hb List.mem_cons_self (fst_mem_cells pageSize (node, i)) i)
    | merge c m =>
      obtain ⟨h1, h2⟩ := merge_inv hb h ho hs
      exact ih h1 h2 (by simp only [VmmZone.remove_maxOrder, VmmZone.setOrder_maxOrder]; omega)

namespace ZoneInv
variable {base live : List Block} {z : VmmZone} {a k : Nat}

/-- **a live block that is freed is live no more, and nothing else changes** -/
theorem free (h : ZoneInv base ((a, k) :: live) z) (hb : GoodBase base) (hk : k ≤ z.maxOrder + 1) :
    ZoneInv base live (vmmBuddyFreePages z a k) ∧
      (vmmBuddyFreePages z a k).maxOrder = z.maxOrder := by
  have h1 := h.setOrder hb List.mem_cons_self (fst_mem_cells pageSize (a, k)) k
  obtain ⟨z', m, j, he, h2, ho, hj, hmax⟩ := freeLoop_inv hb (z.maxOrder + 1 - k) h1
    (VmmZone.setOrder_self ..) (by rw [VmmZone.setOrder_maxOrder]; omega)
  unfold vmmBuddyFreePages
  rw [he]
  simp only [ho]
  rw [VmmZone.setOrder_maxOrder] at hj hmax
  exact ⟨h2.pushFront ho (by omega), hmax⟩

/-- the order of a live block of a one-block base -/
theorem live_order_le {b : Block} (h : ZoneInv [b] live z) (hm : (a, k) ∈ live) : k ≤ b.2 :=
  h.tiles.order_le (List.mem_append_right _ hm)

end ZoneInv

end Paravirt

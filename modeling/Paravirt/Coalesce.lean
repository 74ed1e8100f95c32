import Paravirt.Lib.Dyadic
import Paravirt.ZoneRun

/-!
# Coalescing

`vmm_buddy_free_pages` joins a block with the first neighbour of equal order on the free list, its
buddy or not.

* `Gridded F live z`       all blocks lie on the grid of the first page `F`, and no two free blocks
                           are buddies;
* `Gridded.split`, `Gridded.merge`, …   the small steps, next to those of `ZoneInv`;
* `scan_eq`                what the scan of a free list finds;
* `RightFrom F z i p`      from order `i` on, the neighbours it finds are buddies;
* `freeLoop_right`         the merge loop, by induction on the orders left;
* `buddy_coalesces`        over whole runs.
-/

set_option linter.unusedSectionVars false
set_option linter.unusedVariables false

namespace Paravirt
open Tiling

structure Gridded (F : Nat) (live : List Block) (z : VmmZone) : Prop where
  grid : ∀ b ∈ z.freeBlocks ++ live, OnGrid pageSize F b
  apart : ∀ k a c, a ∈ z.freeList k → c ∈ z.freeList k → ¬ Halves pageSize F k a c

theorem pageSize_pos : 0 < pageSize := by decide

namespace Gridded
variable {F a k : Nat} {base live live' : List Block} {z : VmmZone}

theorem of_live (h : Gridded F live z) {b : Block} (hb : b ∈ live) : OnGrid pageSize F b :=
  h.grid b (List.mem_append_right _ hb)

theorem of_free (h : Gridded F live z) (hi : ZoneInv base live z) (ha : a ∈ z.freeList k) :
    OnGrid pageSize F (a, k) := by
  have hk : k ≤ z.maxOrder + 1 := by
    by_contra hk
    rw [hi.bounded k (by omega)] at ha
    exact absurd ha List.not_mem_nil
  exact h.grid _ (List.mem_append_left _ (VmmZone.mem_freeBlocks.mpr ⟨hk, ha⟩))

/-- other blocks are handed out, and all of them lie on the grid -/
theorem relive (h : Gridded F live z) {live' : List (Nat × Nat)}
    (hl : ∀ b ∈ live', OnGrid pageSize F b) :
    Gridded F live' z where
  grid b hb := (List.mem_append.mp hb).elim (fun hb => h.grid b (List.mem_append_left _ hb)) (hl b)
  apart := h.apart

theorem split (h : Gridded F ((a, k+1) :: live) z) :
    Gridded F ((a, k) :: (a + pageSize * 2^k, k) :: live) z := by
  have hg := h.of_live (List.mem_cons_self ..)
  refine h.relive fun b hb => ?_
  rcases List.mem_cons.mp hb with rfl | hb
  · exact hg.lower
  · rcases List.mem_cons.mp hb with rfl | hb
    · exact hg.upper
    · exact h.of_live (List.mem_cons_of_mem _ hb)

theorem merge {c : Nat} (h : Gridded F live z) (hh : Halves pageSize F k a c)
    (hl : ∀ b ∈ live', b ∈ live) : Gridded F ((a, k+1) :: live') z := by
  refine h.relive fun b hb => ?_
  rcases List.mem_cons.mp hb with rfl | hb
  · exact hh.onGrid
  · exact h.of_live (hl b hb)

theorem setOrder (h : Gridded F live z) (node j : Nat) : Gridded F live (z.setOrder node j) :=
  ⟨h.grid, h.apart⟩

theorem remove (h : Gridded F live z) (hi : ZoneInv base live z) (ha : a ∈ z.freeList k) :
    Gridded F ((a, k) :: live) (z.remove k a) := by
  have hsub : ∀ j x, x ∈ (z.remove k a).freeList j → x ∈ z.freeList j := by
    intro j x hx
    rw [VmmZone.freeList_remove] at hx
    by_cases hj : j = k
    · subst hj
      rw [Function.update_self] at hx
      exact List.mem_of_mem_erase hx
    · rw [Function.update_of_ne hj] at hx
      exact hx
  refine ⟨fun b hb => ?_, fun j x y hx hy => h.apart j x y (hsub j x hx) (hsub j y hy)⟩
  rcases List.mem_append.mp hb with hb | hb
  · obtain ⟨x, j⟩ := b
    exact h.of_free hi (hsub j x (VmmZone.mem_freeBlocks.mp hb).2)
  · rcases List.mem_cons.mp hb with rfl | hb
    · exact h.of_free hi ha
    · exact h.of_live hb

theorem pushFront (h : Gridded F ((a, k) :: live) z)
    (hbud : ∀ c ∈ z.freeList k, ¬ Buddies pageSize F k a c) (hne : ¬ Halves pageSize F k a a) :
    Gridded F live (z.pushFront k a) := by
  have hmem : ∀ j x, x ∈ (z.pushFront k a).freeList j → x ∈ z.freeList j ∨ (j = k ∧ x = a) := by
    intro j x hx
    rw [VmmZone.freeList_pushFront] at hx
    by_cases hj : j = k
    · subst hj
      rw [Function.update_self] at hx
      exact (List.mem_cons.mp hx).elim (fun he => .inr ⟨rfl, he⟩) .inl
    · rw [Function.update_of_ne hj] at hx
      exact .inl hx
  refine ⟨fun b hb => ?_, fun j x y hx hy hh => ?_⟩
  · rcases List.mem_append.mp hb with hb | hb
    · obtain ⟨x, j⟩ := b
      obtain ⟨hj, hx⟩ := VmmZone.mem_freeBlocks.mp hb
      rcases hmem j x hx with hx | ⟨rfl, rfl⟩
      · exact h.grid _ (List.mem_append_left _ (VmmZone.mem_freeBlocks.mpr ⟨hj, hx⟩))
      · exact h.of_live (List.mem_cons_self ..)
    · exact h.of_live (List.mem_cons_of_mem _ hb)
  · rcases hmem j x hx with hx' | ⟨ej, ex⟩
    · rcases hmem j y hy with hy' | ⟨ej, ey⟩
      · exact h.apart j x y hx' hy' hh
      · subst ej ey
        exact hbud x hx' (.inr hh)
    · subst ej ex
      rcases hmem j y hy with hy' | ⟨-, ey⟩
      · exact hbud y hy' (.inl hh)
      · exact hne (ey ▸ hh)

end Gridded

theorem not_halves_self (F k a : Nat) : ¬ Halves pageSize F k a a := by
  rintro ⟨-, h⟩
  have : 0 < pageSize * 2^k := Nat.mul_pos pageSize_pos (Nat.two_pow_pos k)
  omega

section
variable {F : Nat} {base live : List Block} {z : VmmZone} {node m : Nat}

/-! ## splitting -/

theorem splitStep_gridded (hb : GoodBase base) (h : ZoneInv base ((node, m+1) :: live) z)
    (hg : Gridded F ((node, m+1) :: live) z) (ho : z.order node = m + 1) :
    Gridded F ((node, m) :: live) (splitStep z node) := by
  have hle := (h.live_le hb List.mem_cons_self).2
  have hpos : 0 < pageSize * 2^m := Nat.mul_pos pageSize_pos (Nat.two_pow_pos m)
  have e2 : pageSize * 2^(m+1) = pageSize * 2^m + pageSize * 2^m := by ring
  have hnew : buddyAddr node m = node + pageSize * 2^m := buddyAddr_of_lt (by omega)
  have hk : z.order node - 1 = m := by rw [ho]; rfl
  have hon := hg.of_live (List.mem_cons_self ..)
  have hnode : node ∉ z.freeList m :=
    h.not_free hb List.mem_cons_self (fst_mem_cells pageSize (node, m+1)) m
  unfold splitStep
  simp only [hk, hnew]
  have hl : ∀ b ∈ (node + pageSize * 2^m, m) :: (node, m) :: live, OnGrid pageSize F b := by
    intro b hb
    rcases List.mem_cons.mp hb with rfl | hb
    · exact hon.upper
    · rcases List.mem_cons.mp hb with rfl | hb
      · exact hon.lower
      · exact hg.of_live (List.mem_cons_of_mem _ hb)
  have h1 := ((hg.split.setOrder node m).setOrder (node + pageSize * 2^m) m).relive hl
  refine h1.pushFront (fun c hc hbud => ?_) (not_halves_self F m _)
  rcases hbud with hh | hh
  · exact hon.upper_not_lower pageSize_pos c hh
  · -- the lower half is live
    have hcn : c = node := hh.lower_eq rfl
    exact hnode (hcn ▸ hc)

theorem splitLoop_gridded (hb : GoodBase base) (n : Nat) : ∀ {z : VmmZone} {node k : Nat},
    ZoneInv base ((node, k+n) :: live) z → Gridded F ((node, k+n) :: live) z →
    z.order node = k + n → k + n ≤ z.maxOrder + 1 →
    Gridded F ((node, k) :: live) (splitLoop n z node) := by
  induction n with
  | zero => exact fun _ hg _ _ => hg
  | succ n ih =>
    intro z node k h hg ho hk
    obtain ⟨h1, h2, h3⟩ := splitStep_inv (m := k + n) hb h ho (by omega)
    exact ih h1 (splitStep_gridded hb h hg ho) h2 (by omega)

/-! ## vmm_buddy_get_free_pages -/

theorem getLoop_gridded {k : Nat} (hb : GoodBase base) (h : ZoneInv base live z)
    (hg : Gridded F live z) (n : Nat) : ∀ i, k ≤ i → i + n = z.maxOrder + 1 →
    Gridded F live (getLoop n i z k).1 ∧
      ∀ a, (getLoop n i z k).2 = some a → Gridded F ((a, k) :: live) (getLoop n i z k).1 := by
  induction n with
  | zero => exact fun i _ _ => ⟨hg, nofun⟩
  | succ n ih =>
    intro i hki hi
    unfold getLoop
    by_cases h0 : (z.freeAreaList i).numFree = 0
    · rw [if_pos h0]
      exact ih (i+1) (by omega) (by omega)
    · rw [if_neg h0]
      have hne : z.freeList i ≠ [] := by
        intro e
        apply h0
        rw [h.numFree i, e]
        rfl
      have hmem : (z.freeAreaList i).freeList.headD 0 ∈ z.freeList i := by
        unfold VmmZone.freeList at hne ⊢
        cases hl : (z.freeAreaList i).freeList with
        | nil => exact absurd hl hne
        | cons a l => exact List.mem_cons_self
      dsimp only
      generalize (z.freeAreaList i).freeList.headD 0 = node at hmem
      have h1 := h.remove hmem
      have hg1 := hg.remove h hmem
      have ho := h.order i _ hmem
      obtain ⟨d, rfl⟩ := Nat.exists_eq_add_of_le hki
      have hd : (z.remove (k + d) node).order node - k = d := by
        rw [VmmZone.remove_order, ho]
        omega
      have hg2 := splitLoop_gridded hb d h1 hg1 ho (by rw [VmmZone.remove_maxOrder]; omega)
      have hs : (buddySplitNode (z.remove (k + d) node) node k).1
          = splitLoop d (z.remove (k + d) node) node := by
        unfold buddySplitNode
        rw [hd]
      obtain ⟨z', he, -⟩ := buddySplitNode_inv (k := k) hb h1 ho hki
        (by rw [VmmZone.remove_maxOrder]; omega)
      have hz : z' = splitLoop d (z.remove (k + d) node) node := by
        rw [← hs, he]
      rw [he, hz]
      refine ⟨hg2.relive fun b hb => hg2.of_live (List.mem_cons_of_mem _ hb), fun a ha => ?_⟩
      rw [← Option.some.inj ha]
      exact hg2

theorem get_gridded {k : Nat} (hb : GoodBase base) (h : ZoneInv base live z)
    (hg : Gridded F live z) :
    Gridded F live (vmmBuddyGetFreePages z k).1 ∧
      ∀ a, (vmmBuddyGetFreePages z k).2 = some a →
        Gridded F ((a, k) :: live) (vmmBuddyGetFreePages z k).1 := by
  unfold vmmBuddyGetFreePages
  by_cases hk : k ≤ z.maxOrder + 1
  · exact getLoop_gridded hb h hg _ k (Nat.le_refl k) (by omega)
  · have e : z.maxOrder + 1 - k = 0 := by omega
    rw [e]
    exact ⟨hg, nofun⟩

/-! ## what a scan finds -/

/-- the first block of the list that touches the block of order `i` at `node` -/
def firstNeighbour (l : List Nat) (node i : Nat) : Option Nat :=
  l.find? fun c => c = node + pageSize * 2^i ∨ c + pageSize * 2^i = node

theorem buddyAddr_eq_iff {x y i : Nat} (hx : x + pageSize * 2^i ≤ 2^32) (h0 : 0 < y)
    (hy : y < 2^32) : buddyAddr x i = y ↔ x + pageSize * 2^i = y := by
  rcases Nat.lt_or_eq_of_le hx with hlt | heq
  · rw [buddyAddr_of_lt hlt]
  · -- the block ends at the top of the address space: the sum wraps to 0
    have e : buddyAddr x i = 0 := by
      unfold buddyAddr u32
      rw [Nat.shiftLeft_eq, heq, Nat.mod_self]
    rw [e, heq]
    constructor <;> intro he <;> omega

theorem scan_eq {i : Nat} (h0 : 0 < node) (hend : node + pageSize * 2^i ≤ 2^32) (l : List Nat)
    (hnode : node ∉ l) (hl : ∀ c ∈ l, 0 < c ∧ c + pageSize * 2^i ≤ 2^32) :
    scanFreeList i node l = match firstNeighbour l node i with
      | none => .nothing
      | some c => .merge c (min node c) := by
  have hs : 0 < pageSize * 2^i := Nat.mul_pos pageSize_pos (Nat.two_pow_pos i)
  induction l with
  | nil => rfl
  | cons c l ih =>
    obtain ⟨hc0, hcend⟩ := hl c (List.mem_cons_self ..)
    have hne : node ≠ c := fun he => hnode (he ▸ List.mem_cons_self ..)
    have ih := ih (fun hm => hnode (List.mem_cons_of_mem _ hm))
      fun x hx => hl x (List.mem_cons_of_mem _ hx)
    unfold scanFreeList firstNeighbour
    rw [List.find?_cons]
    by_cases hgt : c > node
    · rw [if_pos hgt]
      have hiff := buddyAddr_eq_iff hend hc0 (by omega : c < 2^32)
      by_cases hbud : node + pageSize * 2^i = c
      · have hp : decide (c = node + pageSize * 2^i ∨ c + pageSize * 2^i = node) = true :=
          decide_eq_true (.inl hbud.symm)
        rw [if_neg (fun hn => hn (hiff.mpr hbud)), hp]
        simp only [Nat.min_eq_left (Nat.le_of_lt hgt)]
      · have hp : decide (c = node + pageSize * 2^i ∨ c + pageSize * 2^i = node) = false :=
          decide_eq_false (by omega)
        rw [if_pos (fun he => hbud (hiff.mp he)), hp]
        exact ih
    · have hlt : c < node := by omega
      rw [if_neg hgt, if_pos hlt]
      have hiff := buddyAddr_eq_iff hcend h0 (by omega : node < 2^32)
      by_cases hbud : c + pageSize * 2^i = node
      · have hp : decide (c = node + pageSize * 2^i ∨ c + pageSize * 2^i = node) = true :=
          decide_eq_true (.inr hbud)
        rw [if_pos (hiff.mpr hbud), hp]
        simp only [Nat.min_eq_right (Nat.le_of_lt hlt)]
      · have hp : decide (c = node + pageSize * 2^i ∨ c + pageSize * 2^i = node) = false :=
          decide_eq_false (by omega)
        rw [if_neg (fun he => hbud (hiff.mp he)), hp]
        exact ih

theorem scan_of_inv {i : Nat} (hb : GoodBase base) (h : ZoneInv base ((node, i) :: live) z) :
    scanFreeList i node (z.freeList i) = match firstNeighbour (z.freeList i) node i with
      | none => .nothing
      | some c => .merge c (min node c) := by
  obtain ⟨h0, hend⟩ := h.live_le hb List.mem_cons_self
  refine scan_eq h0 hend _ (h.not_free hb List.mem_cons_self (fst_mem_cells pageSize (node, i)) i)
    fun c hc => ?_
  exact (h.remove hc).live_le hb List.mem_cons_self

/-! ## the merge loop -/

/-- **from order `i` on, the neighbours that the block around `p` is joined with are its buddies**:
at every order the merging reaches, the first neighbour on the free list, if there is one, is the
buddy -/
def RightFrom (F : Nat) (z : VmmZone) (i p : Nat) : Prop :=
  ∀ j, i ≤ j →
    (∀ l, i ≤ l → l < j →
      (firstNeighbour (z.freeList l) (gridAt pageSize F p l) l).isSome = true) →
    ∀ c, firstNeighbour (z.freeList j) (gridAt pageSize F p j) j = some c →
      Buddies pageSize F j (gridAt pageSize F p j) c

/-- the joined block -/
theorem Buddies.min_halves {i c : Nat} (h : Buddies pageSize F i node c) :
    Halves pageSize F i (min node c) (max node c) := by
  rcases h with h | h
  · have hle : node ≤ c := by
      rw [h.2]
      exact Nat.le_add_right ..
    rw [Nat.min_eq_left hle, Nat.max_eq_right hle]
    exact h
  · have hle : c ≤ node := by
      rw [h.2]
      exact Nat.le_add_right ..
    rw [Nat.min_eq_right hle, Nat.max_eq_left hle]
    exact h

theorem freeList_merge {i c m : Nat} (j : Nat) (hj : i < j) :
    ((z.setOrder m (z.order m + 1)).remove i c).freeList j = z.freeList j := by
  rw [VmmZone.freeList_remove, Function.update_of_ne (by omega)]
  rfl

/-- the block around `p` is the same from the next order on, and so are the lists -/
theorem RightFrom.merge {i p p' c m : Nat} (h : RightFrom F z i p)
    (hsome : (firstNeighbour (z.freeList i) (gridAt pageSize F p i) i).isSome = true)
    (hp : gridAt pageSize F p' (i+1) = gridAt pageSize F p (i+1)) :
    RightFrom F ((z.setOrder m (z.order m + 1)).remove i c) (i+1) p' := by
  have hgrid : ∀ j, i < j → gridAt pageSize F p' j = gridAt pageSize F p j := by
    intro j hj
    rw [← gridAt_gridAt pageSize_pos F p' hj, hp, gridAt_gridAt pageSize_pos F p hj]
  intro j hj hreach x hx
  rw [freeList_merge j hj, hgrid j hj] at hx
  rw [hgrid j hj]
  refine h j (by omega) (fun l hl hlj => ?_) x hx
  rcases Nat.eq_or_lt_of_le hl with rfl | hlt
  · exact hsome
  · have := hreach l hlt hlj
    rw [freeList_merge l hlt, hgrid l hlt] at this
    exact this

theorem not_buddies_of_none {i : Nat} {l : List Nat} (h : firstNeighbour l node i = none) :
    ∀ c ∈ l, ¬ Buddies pageSize F i node c := by
  intro c hc hbud
  have hn := List.find?_eq_none.mp h c hc
  rcases hbud with hh | hh
  · exact hn (decide_eq_true (.inl hh.2))
  · exact hn (decide_eq_true (.inr hh.2.symm))

/-- the lists below the order that is reached stay as they are -/
theorem freeLoop_lists (n : Nat) : ∀ (z : VmmZone) (i node j : Nat), j < i →
    (freeLoop n i z node).1.freeList j = z.freeList j := by
  induction n with
  | zero => exact fun _ _ _ _ _ => rfl
  | succ n ih =>
    intro z i node j hj
    have hne : j ≠ i := by omega
    unfold freeLoop
    cases scanFreeList i node (z.freeAreaList i).freeList with
    | nothing => rfl
    | doubleFree => rfl
    | merge c m =>
      refine (ih _ (i+1) m j (by omega)).trans ?_
      rw [VmmZone.freeList_remove, Function.update_of_ne hne, VmmZone.setOrder_freeList]

/-- **the merge loop**, by induction on the orders left -/
theorem freeLoop_right {K : Nat} (hb : GoodBase [(F, K)]) (n : Nat) :
    ∀ {z : VmmZone} {i node : Nat},
    ZoneInv [(F, K)] ((node, i) :: live) z → Gridded F ((node, i) :: live) z → z.order node = i →
    i + n = z.maxOrder + 1 → z.maxOrder = K → RightFrom F z i node →
    ∃ z' m k, freeLoop n i z node = (z', some m) ∧ Gridded F ((m, k) :: live) z' ∧
      z'.order m = k ∧ ∀ c ∈ z'.freeList k, ¬ Buddies pageSize F k m c := by
  induction n with
  | zero =>
    intro z i node h hg ho hi hK hr
    have hle : i ≤ K := h.live_order_le List.mem_cons_self
    omega
  | succ n ih =>
    intro z i node h hg ho hi hK hr
    have hat : gridAt pageSize F node i = node :=
      OnGrid.gridAt_eq pageSize_pos (hg.of_live (List.mem_cons_self ..))
    have hscan := scan_of_inv hb h
    have hri := hr i (Nat.le_refl i) fun l hl hlt => absurd hlt (by omega)
    rw [hat] at hri
    unfold freeLoop
    cases hf : firstNeighbour (z.freeList i) node i with
    | none =>
      rw [hf] at hscan
      have hscan : scanFreeList i node (z.freeAreaList i).freeList = .nothing := hscan
      rw [hscan]
      exact ⟨z, node, i, rfl, hg, ho, not_buddies_of_none hf⟩
    | some c =>
      rw [hf] at hscan
      have hscan : scanFreeList i node (z.freeAreaList i).freeList = .merge c (min node c) := hscan
      have hbud := hri c hf
      have hc : c ∈ z.freeList i := List.mem_of_find?_eq_some hf
      have hh := Buddies.min_halves hbud
      obtain ⟨h1, h2⟩ := merge_inv hb h ho hscan
      have hl : ∀ b ∈ live, b ∈ (c, i) :: (node, i) :: live := fun b hb =>
        List.mem_cons_of_mem _ (List.mem_cons_of_mem _ hb)
      have hg1 := (hg.remove h hc).merge hh hl
      have hp : gridAt pageSize F (min node c) (i+1) = gridAt pageSize F node (i+1) := by
        obtain ⟨e1, e2⟩ := hh.gridAt_eq pageSize_pos
        rcases Nat.le_total node c with hle | hle
        · rw [Nat.min_eq_left hle]
        · rw [Nat.max_eq_left hle] at e2
          rw [e1, e2]
      have hr' := hr.merge (c := c) (m := min node c) (by rw [hat, hf]; rfl) hp
      rw [hscan]
      exact ih h1 ⟨hg1.grid, hg1.apart⟩ h2
        (by simp only [VmmZone.remove_maxOrder, VmmZone.setOrder_maxOrder]; omega) hK hr'

/-- **a block is freed, and joined with its buddies only** -/
theorem free_gridded {K a k : Nat} (hb : GoodBase [(F, K)])
    (h : ZoneInv [(F, K)] ((a, k) :: live) z)
    (hg : Gridded F ((a, k) :: live) z) (hK : z.maxOrder = K) (hr : RightFrom F z k a) :
    Gridded F live (vmmBuddyFreePages z a k) := by
  have hk : k ≤ K := h.live_order_le List.mem_cons_self
  have h1 := h.setOrder hb List.mem_cons_self (fst_mem_cells pageSize (a, k)) k
  obtain ⟨z', m, j, he, h2, ho, hno⟩ := freeLoop_right hb (z.maxOrder + 1 - k) h1 (hg.setOrder a k)
    (VmmZone.setOrder_self ..) (by rw [VmmZone.setOrder_maxOrder]; omega) hK hr
  unfold vmmBuddyFreePages
  rw [he]
  simp only [ho]
  exact h2.pushFront hno (not_halves_self F j m)

end

/-! ## runs -/

/-- a block is freed only where the merging meets no neighbour before the buddy -/
def FreesRight (F : Nat) (s : BuddyState) : BuddyOp → Prop
  | .free p k => RightFrom F s.zone k p
  | _ => True

structure CoalesceInv (F K : Nat) (s : BuddyState) : Prop where
  buddy : BuddyInv (F, K) s
  grid : Gridded F s.live s.zone

theorem CoalesceInv.step {F K : Nat} (hb : GoodBase [(F, K)]) {s t : BuddyState} {op : BuddyOp}
    (h : CoalesceInv F K s) (hr : FreesRight F s op) (hs : BuddyStep s op t) : CoalesceInv F K t := by
  have hbuddy := h.buddy.step hb hs
  refine ⟨hbuddy, ?_⟩
  cases op with
  | get k =>
    obtain ⟨h1, h2⟩ := get_gridded (k := k) hb h.buddy.inv h.grid
    simp only [BuddyStep] at hs
    generalize vmmBuddyGetFreePages s.zone k = r at hs h1 h2
    obtain ⟨z, o⟩ := r
    cases o with
    | none =>
      rw [hs]
      exact h1
    | some a =>
      rw [hs]
      exact h2 a rfl
  | free p k =>
    obtain ⟨hmem, rfl⟩ := hs
    have hp := h.buddy.inv.perm (List.perm_cons_erase hmem)
    have hg : Gridded F ((p, k) :: s.live.erase (p, k)) s.zone := h.grid.relive fun b hb =>
      h.grid.of_live ((List.perm_cons_erase hmem).mem_iff.mpr hb)
    exact free_gridded hb hp hg h.buddy.maxOrder hr
  | store a v =>
    obtain ⟨-, rfl⟩ := hs
    exact h.grid.setOrder a v

/-- nothing is handed out: one free block is left -/
theorem CoalesceInv.whole {F K : Nat} {s : BuddyState} (h : CoalesceInv F K s) (hl : s.live = []) :
    s.zone.freeBlocks = [(F, K)] := by
  have ht := h.buddy.inv.tiles
  have hg := h.grid.grid
  rw [hl, List.append_nil] at ht hg
  refine ht.eq_base pageSize_pos hg fun k a c ha hc => ?_
  exact h.grid.apart k a c (VmmZone.mem_freeBlocks.mp ha).2 (VmmZone.mem_freeBlocks.mp hc).2

/-- the free lists of a zone whose one free block is `(F, K)` -/
theorem freeList_of_whole {z : VmmZone} {base live : List Block} {F K : Nat}
    (hi : ZoneInv base live z) (h : z.freeBlocks = [(F, K)]) (i : Nat) :
    z.freeList i = if i = K then [F] else [] := by
  have hmem : ∀ a, a ∈ z.freeList i → (a, i) = (F, K) := by
    intro a ha
    have hk : i ≤ z.maxOrder + 1 := by
      by_contra hk
      rw [hi.bounded i (by omega)] at ha
      exact absurd ha List.not_mem_nil
    have : (a, i) ∈ z.freeBlocks := VmmZone.mem_freeBlocks.mpr ⟨hk, ha⟩
    rw [h] at this
    exact List.mem_singleton.mp this
  by_cases hi' : i = K
  · subst hi'
    rw [if_pos rfl]
    obtain ⟨hk, hF⟩ := VmmZone.mem_freeBlocks.mp (h ▸ List.mem_singleton_self (F, i))
    -- the list is a part of the one block
    have hlen : (z.freeList i).length ≤ 1 := by
      have hsub : ((z.freeList i).map fun a => (a, i)).Sublist z.freeBlocks :=
        List.sublist_flatten_of_mem
          (List.mem_map_of_mem (List.mem_range.mpr (Nat.lt_succ_of_le hk)))
      have hle := hsub.length_le
      rw [h, List.length_map] at hle
      exact hle
    cases hl : z.freeList i with
    | nil =>
      rw [hl] at hF
      exact absurd hF List.not_mem_nil
    | cons x l =>
      rw [hl, List.length_cons] at hlen
      have hnil : l = [] := List.length_eq_zero_iff.mp (by omega)
      have hx := hmem x (hl ▸ List.mem_cons_self ..)
      have hx : x = F := congrArg Prod.fst hx
      rw [hnil, hx]
  · rw [if_neg hi']
    refine List.eq_nil_iff_forall_not_mem.mpr fun a ha => ?_
    exact hi' (congrArg Prod.snd (hmem a ha))

/-- a request fails if and only if no list of its order or above has a block -/
theorem get_none_iff {z : VmmZone} {base live : List Block} (hb : GoodBase base)
    (hi : ZoneInv base live z) (k : Nat) :
    (vmmBuddyGetFreePages z k).2 = none ↔ ∀ j, k ≤ j → j ≤ z.maxOrder → z.freeList j = [] := by
  have hempty : ∀ n i, (∀ j, i ≤ j → j < i + n → z.freeList j = []) →
      (getLoop n i z k).2 = none := by
    intro n
    induction n with
    | zero => exact fun i _ => rfl
    | succ n ih =>
      intro i h
      have h0 : (z.freeAreaList i).numFree = 0 := by
        rw [hi.numFree i, h i (Nat.le_refl i) (by omega)]
        rfl
      unfold getLoop
      rw [if_pos h0]
      exact ih (i+1) fun j h1 h2 => h j (by omega) (by omega)
  constructor
  · intro h
    rcases hi.get hb k with ⟨-, hall⟩ | ⟨z', a, e, -⟩
    · exact hall
    · rw [e] at h
      exact absurd h (Option.some_ne_none a)
  · exact fun h => hempty _ k fun j h1 h2 => h j h1 (by omega)

/-- the zone is as it was set up -/
structure Coalesced (hdr : Nat → Nat) (start numPages : Nat) (s : BuddyState) : Prop where
  freeAreaList : s.zone.freeAreaList = (vmmZoneInit hdr start numPages).freeAreaList
  maxOrder : s.zone.maxOrder = (vmmZoneInit hdr start numPages).maxOrder
  /-- one block of order `max_order` at the first page -/
  freeList : ∀ i, s.zone.freeList i =
    if i = s.zone.maxOrder then [(buddyInitBlock start numPages).1] else []
  /-- requests fail now if and only if they failed at first -/
  request : ∀ k, (vmmBuddyGetFreePages s.zone k).2 = none ↔
    (vmmBuddyGetFreePages (vmmZoneInit hdr start numPages) k).2 = none

theorem init_freeList (hdr : Nat → Nat) {start numPages f k : Nat}
    (h : buddyInitBlock start numPages = (f, k)) (i : Nat) :
    (vmmZoneInit hdr start numPages).freeList i = if i = k then [f] else [] := by
  rw [vmmZoneInit_eq hdr h, VmmZone.freeList_pushFront]
  by_cases hi : i = k
  · subst hi
    rw [Function.update_self, if_pos rfl]
    simp only [VmmZone.freeList]
    split <;> rfl
  · rw [Function.update_of_ne hi, if_neg hi]
    simp only [VmmZone.freeList]
    split <;> rfl

theorem CoalesceInv.init (hdr : Nat → Nat) {start numPages f k : Nat} (h2 : 2 ≤ numPages)
    (hfit : start + numPages * pageSize ≤ 2^32) (h : buddyInitBlock start numPages = (f, k)) :
    CoalesceInv f k ⟨vmmZoneInit hdr start numPages, []⟩ := by
  have hi := ZoneInv.init hdr h2 hfit
  have hmax := vmmBuddyInit_maxOrder hdr start numPages
  have hlist := init_freeList hdr h
  rw [h] at hi hmax
  refine ⟨⟨hi, hmax⟩, fun b hb => ?_, fun j a c ha hc hh => ?_⟩
  · rw [List.append_nil] at hb
    obtain ⟨a, j⟩ := b
    have ha := (VmmZone.mem_freeBlocks.mp hb).2
    rw [hlist] at ha
    split at ha
    · rw [List.mem_singleton.mp ha]
      exact ⟨0, by simp⟩
    · exact absurd ha List.not_mem_nil
  · rw [hlist] at ha hc
    split at ha
    · rename_i hk
      rw [if_pos hk] at hc
      rw [List.mem_singleton.mp ha, List.mem_singleton.mp hc] at hh
      exact not_halves_self _ _ _ hh
    · exact absurd ha List.not_mem_nil

/-- **the buddy allocator coalesces fully**, over runs on a zone of at least two pages in which no
block is joined with a neighbour that is not its buddy -/
theorem buddy_coalesces {hdr : Nat → Nat} {start numPages : Nat} {ops : List BuddyOp}
    {s : BuddyState}
    (h2 : 2 ≤ numPages) (hfit : start + numPages * pageSize ≤ 2^32)
    (hrun : Steps (fun s op t => FreesRight (buddyInitBlock start numPages).1 s op ∧ BuddyStep s op t)
      ⟨vmmZoneInit hdr start numPages, []⟩ ops s) (hlive : s.live = []) :
    Coalesced hdr start numPages s := by
  obtain ⟨f, k, hblk⟩ : ∃ f k, buddyInitBlock start numPages = (f, k) := ⟨_, _, rfl⟩
  have hb := GoodBase.init h2 hfit
  have h0 := CoalesceInv.init hdr h2 hfit hblk
  rw [hblk] at hb hrun
  have h := hrun.invariant_of (fun s op t hP hC hR => hP.step hb hC hR) h0
  have hmax : s.zone.maxOrder = (vmmZoneInit hdr start numPages).maxOrder :=
    h.buddy.maxOrder.trans h0.buddy.maxOrder.symm
  have hl := freeList_of_whole h.buddy.inv (h.whole hlive)
  have hl0 := freeList_of_whole h0.buddy.inv (h0.whole rfl)
  refine ⟨?_, hmax, fun i => ?_, fun k => ?_⟩
  · funext i
    have e : s.zone.freeList i = (vmmZoneInit hdr start numPages).freeList i := by rw [hl, hl0]
    have en : (s.zone.freeAreaList i).numFree
        = ((vmmZoneInit hdr start numPages).freeAreaList i).numFree := by
      rw [h.buddy.inv.numFree i, h0.buddy.inv.numFree i, e]
    generalize hx : s.zone.freeAreaList i = x at en
    generalize hy : (vmmZoneInit hdr start numPages).freeAreaList i = y at en
    have el : x.freeList = y.freeList := by
      rw [← hx, ← hy]
      exact e
    obtain ⟨nx, lx⟩ := x
    obtain ⟨ny, ly⟩ := y
    simp only at en el
    rw [en, el]
  · rw [hl i, h.buddy.maxOrder, hblk]
  · rw [get_none_iff hb h.buddy.inv, get_none_iff hb h0.buddy.inv, hmax]
    refine forall_congr' fun j => ?_
    rw [hl, hl0]

/-! ## two zones -/

/-- the state after an operation that is possible -/
def BuddyState.next (s : BuddyState) : BuddyOp → BuddyState
  | .get k =>
    match vmmBuddyGetFreePages s.zone k with
    | (z, none) => ⟨z, s.live⟩
    | (z, some a) => ⟨z, (a, k) :: s.live⟩
  | .free p k => ⟨vmmBuddyFreePages s.zone p k, s.live.erase (p, k)⟩
  | .store a v => ⟨s.zone.setOrder a v, s.live⟩

theorem BuddyStep.get (s : BuddyState) (k : Nat) : BuddyStep s (.get k) (s.next (.get k)) := by
  simp only [BuddyStep]
  rfl

theorem BuddyStep.free {s : BuddyState} {p k : Nat} (h : (p, k) ∈ s.live) :
    BuddyStep s (.free p k) (s.next (.free p k)) := ⟨h, rfl⟩

/-- a zone with one block of two pages -/
def pairZone : BuddyState := ⟨vmmZoneInit (fun _ => 0) 0xc2000000 3, []⟩

/-- the lower page is handed out, and freed again -/
theorem pairZone_get :
    (pairZone.next (.get 0)).zone.freeList 0 = [0xc2002000] ∧
      (pairZone.next (.get 0)).zone.freeList 1 = [] ∧
      (0xc2001000, 0) ∈ (pairZone.next (.get 0)).live ∧
      ((pairZone.next (.get 0)).next (.free 0xc2001000 0)).live = [] := by
  decide +kernel

theorem pairZone_block : buddyInitBlock 0xc2000000 3 = (0xc2001000, 1) := by decide

theorem pairZone_buddies :
    Buddies pageSize 0xc2001000 0 (gridAt pageSize 0xc2001000 0xc2001000 0) 0xc2002000 := by
  refine .inl ⟨⟨0, ?_⟩, ?_⟩ <;> decide

theorem pairZone_neighbour :
    firstNeighbour [0xc2002000] (gridAt pageSize 0xc2001000 0xc2001000 0) 0 = some 0xc2002000 := by
  decide

theorem pairZone_inv : CoalesceInv 0xc2001000 1 pairZone :=
  CoalesceInv.init (fun _ => 0) (by decide) (by decide) pairZone_block

theorem pairZone_base : GoodBase [(0xc2001000, 1)] := by
  have h : GoodBase [buddyInitBlock 0xc2000000 3] := GoodBase.init (by decide) (by decide)
  rw [pairZone_block] at h
  exact h

theorem pairZone_free_right :
    FreesRight 0xc2001000 (pairZone.next (.get 0)) (.free 0xc2001000 0) := by
  have hi := pairZone_inv.buddy.step pairZone_base (BuddyStep.get pairZone 0)
  obtain ⟨h0, h1, -⟩ := pairZone_get
  unfold FreesRight RightFrom
  intro j hj hreach c hc
  cases j with
  | zero =>
    rw [h0, pairZone_neighbour] at hc
    rw [← Option.some.inj hc]
    exact pairZone_buddies
  | succ j =>
    have hnil : (pairZone.next (.get 0)).zone.freeList (j + 1) = [] := by
      cases j with
      | zero => exact h1
      | succ j =>
        refine hi.noHigher ?_
        rw [hi.maxOrder]
        exact Nat.succ_lt_succ (Nat.succ_pos j)
    rw [hnil] at hc
    exact nomatch hc

theorem buddy_coalesces_pair :
    Coalesced (fun _ => 0) 0xc2000000 3
      ((pairZone.next (.get 0)).next (.free 0xc2001000 0)) := by
  have e : (buddyInitBlock 0xc2000000 3).1 = 0xc2001000 := congrArg Prod.fst pairZone_block
  have h1 : FreesRight (buddyInitBlock 0xc2000000 3).1 pairZone (.get 0) := trivial
  have h2 : FreesRight (buddyInitBlock 0xc2000000 3).1 (pairZone.next (.get 0))
      (.free 0xc2001000 0) := by
    rw [e]
    exact pairZone_free_right
  obtain ⟨-, -, hmem, hlive⟩ := pairZone_get
  exact buddy_coalesces (by decide) (by decide)
    (.snoc (.snoc .nil ⟨h1, BuddyStep.get pairZone 0⟩) ⟨h2, BuddyStep.free hmem⟩)
    hlive

/-- a zone with one block of eight pages -/
def eightZone : BuddyState := ⟨vmmZoneInit (fun _ => 0) 0xc2000000 9, []⟩

/-- pages 0, 1, 2 and 3 are handed out one by one -/
def eightGot : BuddyState :=
  (((eightZone.next (.get 0)).next (.get 0)).next (.get 0)).next (.get 0)

/-- and freed, the two in the middle first -/
def eightFreed : BuddyState :=
  (((eightGot.next (.free 0xc2002000 0)).next (.free 0xc2003000 0)).next
    (.free 0xc2001000 0)).next (.free 0xc2004000 0)

theorem eightGot_live : (0xc2002000, 0) ∈ eightGot.live ∧
    (0xc2003000, 0) ∈ (eightGot.next (.free 0xc2002000 0)).live ∧
    (0xc2001000, 0) ∈ ((eightGot.next (.free 0xc2002000 0)).next (.free 0xc2003000 0)).live ∧
    (0xc2004000, 0) ∈ (((eightGot.next (.free 0xc2002000 0)).next
      (.free 0xc2003000 0)).next (.free 0xc2001000 0)).live := by
  decide +kernel

theorem eightFreed_run : ∃ ops, Steps BuddyStep eightZone ops eightFreed := by
  obtain ⟨h1, h2, h3, h4⟩ := eightGot_live
  have hgot : ∃ ops, Steps BuddyStep eightZone ops eightGot :=
    ⟨_, .snoc (.snoc (.snoc (.snoc .nil (BuddyStep.get ..)) (BuddyStep.get ..)) (BuddyStep.get ..))
      (BuddyStep.get ..)⟩
  obtain ⟨ops, hrun⟩ := hgot
  exact ⟨_, .snoc (.snoc (.snoc (.snoc hrun (BuddyStep.free h1)) (BuddyStep.free h2))
    (BuddyStep.free h3)) (BuddyStep.free h4)⟩

/-- everything was freed with its own order; pages 1 and 2 are one block, no block has four pages,
and a request for all eight fails -/
theorem buddy_wrong_pair :
    (∃ ops, Steps BuddyStep eightZone ops eightFreed) ∧ eightFreed.live = [] ∧
      eightFreed.zone.freeList 1 = [0xc2002000] ∧ eightFreed.zone.freeList 3 = [] ∧
      (vmmBuddyGetFreePages eightZone.zone 3).2 = some 0xc2001000 ∧
      (vmmBuddyGetFreePages eightFreed.zone 3).2 = none := by
  refine ⟨eightFreed_run, ?_⟩
  decide +kernel

end Paravirt

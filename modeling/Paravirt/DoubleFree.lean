import Paravirt.Coalesce

/-!
# A block freed twice

The merge loop returns without a change when it meets the node itself on the list it walks.  It
walks the list of the order it is given, and higher ones only after a merge: so what is caught is a
block that is still on the list of its own order.

* `NoNeighbours z`           no two nodes of a list lie side by side;
* `get_noNeighbours`, `free_noNeighbours`   a run keeps this, merging or not;
* `scan_caught`              so the walk meets the node before it merges anything;
* `freeLoop_changes`         a merge that was made is not undone;
* `double_free_caught_iff`   the two together, over whole runs.
-/

set_option linter.unusedVariables false

namespace Paravirt
open Tiling

/-- no two free blocks of one order that the merge loop would join -/
def NoNeighbours (z : VmmZone) : Prop :=
  ∀ i, i ≤ z.maxOrder → ∀ a ∈ z.freeList i, ∀ c ∈ z.freeList i, c ≠ a + pageSize * 2^i

/-- all free lists, counters and the orders of the nodes on the lists are the same -/
structure SameZone (z z' : VmmZone) : Prop where
  freeList : ∀ i, z'.freeList i = z.freeList i
  numFree : ∀ i, (z'.freeAreaList i).numFree = (z.freeAreaList i).numFree
  order : ∀ i, ∀ a ∈ z.freeList i, z'.order a = z.order a

/-! ## no neighbours on a list -/

section
variable {base live : List Block} {z : VmmZone} {node i k m : Nat}

theorem blockSize_pos (i : Nat) : 0 < pageSize * 2^i := Nat.mul_pos pageSize_pos (Nat.two_pow_pos i)

theorem NoNeighbours.remove (h : NoNeighbours z) (i node : Nat) :
    NoNeighbours (z.remove i node) := by
  have hsub : ∀ j x, x ∈ (z.remove i node).freeList j → x ∈ z.freeList j := by
    intro j x hx
    rw [VmmZone.freeList_remove] at hx
    by_cases hj : j = i
    · rw [hj, Function.update_self] at hx
      exact hj ▸ List.mem_of_mem_erase hx
    · rw [Function.update_of_ne hj] at hx
      exact hx
  exact fun j hj a ha c hc => h j hj a (hsub j a ha) c (hsub j c hc)

theorem NoNeighbours.setOrder (h : NoNeighbours z) (node v : Nat) :
    NoNeighbours (z.setOrder node v) := h

/-- a node that has no neighbour on the list -/
theorem NoNeighbours.pushFront (h : NoNeighbours z)
    (hno : i ≤ z.maxOrder → ∀ c ∈ z.freeList i,
      c ≠ node + pageSize * 2^i ∧ node ≠ c + pageSize * 2^i) :
    NoNeighbours (z.pushFront i node) := by
  intro j hj a ha c hc
  rw [VmmZone.freeList_pushFront] at ha hc
  by_cases hji : j = i
  · subst hji
    rw [Function.update_self] at ha hc
    have hs := blockSize_pos j
    rcases List.mem_cons.mp ha with ea | ha'
    · rcases List.mem_cons.mp hc with ec | hc'
      · omega
      · exact ea ▸ (hno hj c hc').1
    · rcases List.mem_cons.mp hc with ec | hc'
      · exact ec ▸ (hno hj a ha').2
      · exact h j hj a ha' c hc'
  · rw [Function.update_of_ne hji] at ha hc
    exact h j hj a ha c hc

theorem splitStep_freeList (z : VmmZone) (node : Nat) {m : Nat} (ho : z.order node = m + 1) :
    (splitStep z node).freeList
      = Function.update z.freeList m (buddyAddr node m :: z.freeList m) := by
  have hk : z.order node - 1 = m := by
    rw [ho]
    rfl
  unfold splitStep
  dsimp only
  rw [hk, VmmZone.freeList_pushFront]
  rfl

/-- the lists of the orders that a split goes through are empty before it -/
theorem splitLoop_noNeighbours (hb : GoodBase base) (n : Nat) : ∀ {z : VmmZone} {node k : Nat},
    ZoneInv base ((node, k+n) :: live) z → z.order node = k + n → k + n ≤ z.maxOrder + 1 →
    NoNeighbours z → (∀ j, k ≤ j → j < k + n → z.freeList j = []) →
    NoNeighbours (splitLoop n z node) := by
  induction n with
  | zero => exact fun _ _ _ h _ => h
  | succ n ih =>
    intro z node k h ho hk hno hnil
    obtain ⟨h1, h2, h3⟩ := splitStep_inv (m := k + n) hb h ho (by omega)
    have hl := splitStep_freeList (m := k + n) z node ho
    refine ih h1 h2 (by omega) ?_ fun j hj hlt => ?_
    · intro j hj a ha c hc
      rw [h3] at hj
      rw [hl] at ha hc
      by_cases hjm : j = k + n
      · rw [hjm, Function.update_self, hnil (k + n) (by omega) (by omega)] at ha hc
        have hs := blockSize_pos j
        rw [List.mem_singleton.mp ha, List.mem_singleton.mp hc]
        omega
      · rw [Function.update_of_ne hjm] at ha hc
        exact hno j hj a ha c hc
    · rw [hl, Function.update_of_ne (Nat.ne_of_lt hlt)]
      exact hnil j hj (by omega)

theorem getLoop_noNeighbours {k : Nat} (hb : GoodBase base) (h : ZoneInv base live z)
    (hno : NoNeighbours z) (n : Nat) : ∀ i, k ≤ i → i + n = z.maxOrder + 1 →
    (∀ j, k ≤ j → j < i → z.freeList j = []) → NoNeighbours (getLoop n i z k).1 := by
  induction n with
  | zero => exact fun i _ _ _ => hno
  | succ n ih =>
    intro i hki hi hnil
    unfold getLoop
    by_cases h0 : (z.freeAreaList i).numFree = 0
    · rw [if_pos h0]
      refine ih (i+1) (by omega) (by omega) fun j hj hlt => ?_
      rcases Nat.lt_succ_iff_lt_or_eq.mp hlt with hlt | rfl
      · exact hnil j hj hlt
      · have hlen := h.numFree j
        rw [h0] at hlen
        exact List.length_eq_zero_iff.mp (Int.ofNat_eq_zero.mp hlen.symm)
    · rw [if_neg h0]
      have hmem : (z.freeAreaList i).freeList.headD 0 ∈ z.freeList i := by
        have hlen := h.numFree i
        unfold VmmZone.freeList at hlen ⊢
        cases hl : (z.freeAreaList i).freeList with
        | nil => exact absurd (by rw [hlen, hl]; rfl) h0
        | cons a l => exact List.mem_cons_self
      dsimp only
      generalize (z.freeAreaList i).freeList.headD 0 = node at hmem
      have ho := h.order i _ hmem
      obtain ⟨d, rfl⟩ := Nat.exists_eq_add_of_le hki
      have hd : (z.remove (k + d) node).order node - k = d := by
        rw [VmmZone.remove_order, ho]
        omega
      unfold buddySplitNode
      rw [hd]
      refine splitLoop_noNeighbours hb d (h.remove hmem) ho
        (by rw [VmmZone.remove_maxOrder]; omega) (hno.remove _ _) fun j hj hlt => ?_
      rw [VmmZone.freeList_remove, Function.update_of_ne (Nat.ne_of_lt hlt)]
      exact hnil j hj hlt

theorem get_noNeighbours (hb : GoodBase base) (h : ZoneInv base live z) (hno : NoNeighbours z)
    (k : Nat) : NoNeighbours (vmmBuddyGetFreePages z k).1 := by
  unfold vmmBuddyGetFreePages
  by_cases hk : k ≤ z.maxOrder + 1
  · exact getLoop_noNeighbours hb h hno _ k (Nat.le_refl k) (by omega) fun j h1 h2 => by omega
  · have e : z.maxOrder + 1 - k = 0 := by omega
    rw [e]
    exact hno

/-- the loop stops where the scan finds nothing, so the node it inserts has no neighbour -/
theorem freeLoop_noNeighbours (hb : GoodBase base) (n : Nat) : ∀ {z : VmmZone} {i node : Nat},
    ZoneInv base ((node, i) :: live) z → z.order node = i → i + n = z.maxOrder + 1 →
    NoNeighbours z → ∀ {z' : VmmZone} {m : Nat}, freeLoop n i z node = (z', some m) →
      NoNeighbours (z'.pushFront (z'.order m) m) := by
  induction n with
  | zero =>
    intro z i node h ho hi hno z' m he
    obtain ⟨rfl, rfl⟩ : z = z' ∧ node = m := by
      cases he
      exact ⟨rfl, rfl⟩
    exact hno.pushFront fun hle => by omega
  | succ n ih =>
    intro z i node h ho hi hno z' m he
    have hscan := scan_of_inv hb h
    unfold freeLoop at he
    cases hf : firstNeighbour (z.freeList i) node i with
    | none =>
      rw [hf] at hscan
      have hscan : scanFreeList i node (z.freeAreaList i).freeList = .nothing := hscan
      rw [hscan] at he
      obtain ⟨rfl, rfl⟩ : z = z' ∧ node = m := by
        cases he
        exact ⟨rfl, rfl⟩
      refine hno.pushFront fun _ c hc => ?_
      have hn := List.find?_eq_none.mp hf c (ho ▸ hc)
      rw [ho]
      exact ⟨fun e => hn (decide_eq_true (.inl e)), fun e => hn (decide_eq_true (.inr e.symm))⟩
    | some c =>
      rw [hf] at hscan
      have hscan : scanFreeList i node (z.freeAreaList i).freeList = .merge c (min node c) := hscan
      rw [hscan] at he
      obtain ⟨h1, h2⟩ := merge_inv hb h ho hscan
      exact ih h1 h2 (by simp only [VmmZone.remove_maxOrder, VmmZone.setOrder_maxOrder]; omega)
        ((hno.setOrder _ _).remove i c) he

theorem free_noNeighbours (hb : GoodBase base) (h : ZoneInv base ((node, k) :: live) z)
    (hno : NoNeighbours z) (hk : k ≤ z.maxOrder + 1) :
    NoNeighbours (vmmBuddyFreePages z node k) := by
  have h1 := h.setOrder hb List.mem_cons_self (fst_mem_cells pageSize (node, k)) k
  have hi : k + (z.maxOrder + 1 - k) = (z.setOrder node k).maxOrder + 1 := by
    rw [VmmZone.setOrder_maxOrder]
    omega
  obtain ⟨z', m, j, he, -⟩ := freeLoop_inv hb (z.maxOrder + 1 - k) h1
    (VmmZone.setOrder_self ..) hi
  have h2 := freeLoop_noNeighbours hb _ h1 (VmmZone.setOrder_self ..) hi (hno.setOrder _ _) he
  unfold vmmBuddyFreePages
  rw [he]
  exact h2

/-! ## a node that is still on its list -/

theorem scan_caught {l : List Nat} (hmem : node ∈ l)
    (hl : ∀ c ∈ l, 0 < c ∧ c + pageSize * 2^i ≤ 2^32)
    (hno : ∀ c ∈ l, c ≠ node + pageSize * 2^i ∧ node ≠ c + pageSize * 2^i) :
    scanFreeList i node l = .doubleFree := by
  have hs := blockSize_pos i
  obtain ⟨h0, hend⟩ := hl node hmem
  induction l with
  | nil => exact absurd hmem List.not_mem_nil
  | cons c l ih =>
    obtain ⟨hc0, hcend⟩ := hl c List.mem_cons_self
    obtain ⟨hn1, hn2⟩ := hno c List.mem_cons_self
    have hrest : c ≠ node → scanFreeList i node l = .doubleFree := fun hne =>
      ih ((List.mem_cons.mp hmem).resolve_left hne.symm)
        (fun x hx => hl x (List.mem_cons_of_mem _ hx))
        fun x hx => hno x (List.mem_cons_of_mem _ hx)
    unfold scanFreeList
    by_cases hgt : c > node
    · have hbud : buddyAddr node i ≠ c := fun e =>
        hn1 ((buddyAddr_eq_iff hend hc0 (by omega)).mp e).symm
      rw [if_pos hgt, if_pos hbud]
      exact hrest (Nat.ne_of_gt hgt)
    · rw [if_neg hgt]
      by_cases hlt : c < node
      · have hbud : buddyAddr c i ≠ node := fun e =>
          hn2 ((buddyAddr_eq_iff hcend h0 (by omega)).mp e).symm
        rw [if_pos hlt, if_neg hbud]
        exact hrest (Nat.ne_of_lt hlt)
      · rw [if_neg hlt]

/-- **a block that is still on the list of its order**: the call does nothing -/
theorem free_caught (hb : GoodBase base) (h : ZoneInv base live z) (hno : NoNeighbours z)
    (hk : k ≤ z.maxOrder) (hmem : node ∈ z.freeList k) : vmmBuddyFreePages z node k = z := by
  have hscan : scanFreeList k node (z.freeAreaList k).freeList = .doubleFree :=
    scan_caught hmem (fun c hc => (h.remove hc).live_le hb List.mem_cons_self)
      fun c hc => ⟨hno k hk node hmem c hc, hno k hk c hc node hmem⟩
  have hset : z.setOrder node k = z := by
    have ho := h.order k node hmem
    unfold VmmZone.setOrder
    rw [← ho, Function.update_eq_self]
  obtain ⟨n, hn⟩ : ∃ n, z.maxOrder + 1 - k = n + 1 := ⟨z.maxOrder - k, by omega⟩
  unfold vmmBuddyFreePages
  rw [hset, hn]
  unfold freeLoop
  rw [hscan]

/-! ## a node that is not -/

/-- the node that goes on is the one the scan was made for, or a lower one -/
theorem scan_merge_lower {l : List Nat} {c : Nat} (h : scanFreeList i node l = .merge c m) :
    c ∈ l ∧ (m = node ∨ m = c ∧ c < node) := by
  induction l with
  | nil => cases h
  | cons x l ih =>
    have htail : scanFreeList i node l = .merge c m → c ∈ x :: l ∧ (m = node ∨ m = c ∧ c < node) :=
      fun h => ⟨List.mem_cons_of_mem _ (ih h).1, (ih h).2⟩
    unfold scanFreeList at h
    by_cases hgt : x > node
    · rw [if_pos hgt] at h
      by_cases hbud : buddyAddr node i ≠ x
      · rw [if_pos hbud] at h
        exact htail h
      · rw [if_neg hbud] at h
        cases h
        exact ⟨List.mem_cons_self, .inl rfl⟩
    · rw [if_neg hgt] at h
      by_cases hlt : x < node
      · rw [if_pos hlt] at h
        by_cases hbud : buddyAddr x i = node
        · rw [if_pos hbud] at h
          cases h
          exact ⟨List.mem_cons_self, .inr ⟨rfl, hlt⟩⟩
        · rw [if_neg hbud] at h
          exact htail h
      · rw [if_neg hlt] at h
        cases h

/-- the orders of the nodes below the one that is merged, on the lists still to come -/
def OrderedBelow (z : VmmZone) (i node : Nat) : Prop :=
  ∀ j, i ≤ j → ∀ a ∈ z.freeList j, a < node → z.order a = j

theorem OrderedBelow.merge {c : Nat} (h : OrderedBelow z i node) (ho : z.order node = i)
    (hs : scanFreeList i node (z.freeList i) = .merge c m) :
    OrderedBelow ((z.setOrder m (z.order m + 1)).remove i c) (i+1) m ∧
      ((z.setOrder m (z.order m + 1)).remove i c).order m = i + 1 := by
  obtain ⟨hc, hm⟩ := scan_merge_lower hs
  have hle : m ≤ node := by omega
  constructor
  · intro j hj a ha hlt
    rw [freeList_merge j (by omega)] at ha
    rw [VmmZone.remove_order, VmmZone.setOrder_of_ne _ _ (Nat.ne_of_lt hlt)]
    exact h j (by omega) a ha (by omega)
  · have hom : z.order m = i := by
      rcases hm with rfl | ⟨rfl, hlt⟩
      · exact ho
      · exact h i (Nat.le_refl i) m hc hlt
    rw [VmmZone.remove_order, VmmZone.setOrder_self, hom]

/-- the node that is inserted goes to a list that the loop has reached -/
theorem freeLoop_order_reached (n : Nat) : ∀ {z : VmmZone} {i node : Nat},
    OrderedBelow z i node → z.order node = i → ∀ {z' : VmmZone} {m : Nat},
    freeLoop n i z node = (z', some m) → i ≤ z'.order m := by
  induction n with
  | zero =>
    intro z i node h ho z' m he
    cases he
    exact ho.ge
  | succ n ih =>
    intro z i node h ho z' m he
    unfold freeLoop at he
    cases hs : scanFreeList i node (z.freeAreaList i).freeList with
    | nothing =>
      rw [hs] at he
      cases he
      exact ho.ge
    | doubleFree =>
      rw [hs] at he
      cases he
    | merge c m' =>
      rw [hs] at he
      obtain ⟨h1, h2⟩ := h.merge ho hs
      have := ih h1 h2 he
      omega

/-- **a block that is not on the list of its order**: that list changes -/
theorem free_changes (h : ZoneInv base live z) (hmem : node ∉ z.freeList k) :
    (vmmBuddyFreePages z node k).freeList k ≠ z.freeList k := by
  have hpush : ∀ z' : VmmZone, z'.freeList k = z.freeList k →
      (z'.pushFront k node).freeList k ≠ z.freeList k := by
    intro z' hz' he
    rw [VmmZone.freeList_pushFront, Function.update_self, hz'] at he
    exact List.cons_ne_self _ _ he
  have hset : (z.setOrder node k).order node = k := VmmZone.setOrder_self ..
  unfold vmmBuddyFreePages
  cases hn : z.maxOrder + 1 - k with
  | zero =>
    show ((z.setOrder node k).pushFront _ node).freeList k ≠ _
    rw [hset]
    exact hpush _ rfl
  | succ n =>
    unfold freeLoop
    cases hs : scanFreeList k node ((z.setOrder node k).freeAreaList k).freeList with
    | nothing =>
      show ((z.setOrder node k).pushFront _ node).freeList k ≠ _
      rw [hset]
      exact hpush _ rfl
    | doubleFree => exact absurd (scan_doubleFree hs) hmem
    | merge c m =>
      -- `c` leaves list `k`, and nothing comes back to it
      have hbelow : OrderedBelow (z.setOrder node k) k node := by
        intro j _ a ha hlt
        rw [VmmZone.setOrder_of_ne _ _ (Nat.ne_of_lt hlt)]
        exact h.order j a ha
      obtain ⟨h1, h2⟩ := hbelow.merge hset hs
      have hc : c ∈ z.freeList k := (scan_merge_lower hs).1
      have herase : (z.freeList k).erase c ≠ z.freeList k := by
        intro he
        have hlen := List.length_erase_of_mem hc
        rw [he] at hlen
        have := List.length_pos_of_mem hc
        omega
      dsimp only
      generalize hz1 : ((z.setOrder node k).setOrder m ((z.setOrder node k).order m + 1)).remove k c
        = z1 at h1 h2
      have hl1 : z1.freeList k = (z.freeList k).erase c := by
        rw [← hz1, VmmZone.freeList_remove, Function.update_self]
        rfl
      have hlow := freeLoop_lists n z1 (k+1) m k (Nat.lt_succ_self k)
      cases hr : freeLoop n (k+1) z1 m with
      | mk z' r =>
        rw [hr] at hlow
        cases r with
        | none =>
          show z'.freeList k ≠ _
          rw [hlow, hl1]
          exact herase
        | some m' =>
          have hge := freeLoop_order_reached n h1 h2 hr
          show (z'.pushFront (z'.order m') m').freeList k ≠ _
          rw [VmmZone.freeList_pushFront, Function.update_of_ne (by omega), hlow, hl1]
          exact herase

end

/-! ## runs -/

/-- what a run keeps -/
structure ApartInv (base : Block) (s : BuddyState) : Prop where
  buddy : BuddyInv base s
  apart : NoNeighbours s.zone

theorem ApartInv.step {base : Block} (hb : GoodBase [base]) {s t : BuddyState} {op : BuddyOp}
    (h : ApartInv base s) (hs : BuddyStep s op t) : ApartInv base t := by
  refine ⟨h.buddy.step hb hs, ?_⟩
  have hi := h.buddy.inv
  cases op with
  | get k =>
    have hn := get_noNeighbours hb hi h.apart k
    simp only [BuddyStep] at hs
    generalize vmmBuddyGetFreePages s.zone k = r at hs hn
    obtain ⟨z, o⟩ := r
    cases o with
    | none =>
      cases hs
      exact hn
    | some a =>
      cases hs
      exact hn
  | free p k =>
    obtain ⟨hmem, rfl⟩ := hs
    have hk := hi.live_order_le hmem
    have hmax := h.buddy.maxOrder
    exact free_noNeighbours hb (hi.perm (List.perm_cons_erase hmem)) h.apart (by omega)
  | store a v =>
    obtain ⟨-, rfl⟩ := hs
    exact h.apart

/-- one block has no neighbour -/
theorem ApartInv.init (hdr : Nat → Nat) {start numPages : Nat} (h2 : 2 ≤ numPages)
    (hfit : start + numPages * pageSize ≤ 2^32) :
    ApartInv (buddyInitBlock start numPages) ⟨vmmZoneInit hdr start numPages, []⟩ := by
  refine ⟨⟨ZoneInv.init hdr h2 hfit, vmmBuddyInit_maxOrder hdr start numPages⟩, ?_⟩
  have hlist := init_freeList hdr (Prod.mk.eta.symm : buddyInitBlock start numPages = (_, _))
  intro i _ a ha c hc
  rw [hlist] at ha hc
  have hs := blockSize_pos i
  split at ha
  · next hi =>
    rw [if_pos hi] at hc
    rw [List.mem_singleton.mp ha, List.mem_singleton.mp hc]
    omega
  · exact absurd ha List.not_mem_nil

/-- **a double free is caught exactly while the block is on the list of its own order** -/
theorem double_free_caught_iff {hdr : Nat → Nat} {start numPages : Nat} {ops : List BuddyOp}
    {s : BuddyState} (h2 : 2 ≤ numPages) (hfit : start + numPages * pageSize ≤ 2^32)
    (hrun : Steps BuddyStep ⟨vmmZoneInit hdr start numPages, []⟩ ops s) (p k : Nat) :
    SameZone s.zone (vmmBuddyFreePages s.zone p k) ↔ p ∈ s.zone.freeList k := by
  have hb := GoodBase.init h2 hfit
  have h : ApartInv (buddyInitBlock start numPages) s :=
    hrun.invariant (fun _ _ _ h hs => h.step hb hs) (.init hdr h2 hfit)
  constructor
  · intro hsame
    by_contra hmem
    exact free_changes h.buddy.inv hmem (hsame.freeList k)
  · intro hmem
    have hk : k ≤ s.zone.maxOrder := by
      by_contra hk
      rw [h.buddy.noHigher (by omega)] at hmem
      exact absurd hmem List.not_mem_nil
    rw [free_caught hb h.buddy.inv h.apart hk hmem]
    exact ⟨fun _ => rfl, fun _ => rfl, fun _ _ _ => rfl⟩

/-- the upper page of two, handed out with the lower one in use and freed -/
def pairFreed : BuddyState :=
  ((pairZone.next (.get 0)).next (.get 0)).next (.free 0xc2002000 0)

/-- which pages are in use and which are on the lists when they are freed one after the other -/
theorem pairFreed_pages :
    (0xc2002000, 0) ∈ ((pairZone.next (.get 0)).next (.get 0)).live ∧
      0xc2002000 ∈ pairFreed.zone.freeList 0 ∧ (0xc2001000, 0) ∈ pairFreed.live ∧
      (pairFreed.next (.free 0xc2001000 0)).zone.freeList 0 = [] := by
  decide +kernel

theorem pairFreed_run :
    Steps BuddyStep pairZone [.get 0, .get 0, .free 0xc2002000 0] pairFreed := by
  obtain ⟨hmem, -⟩ := pairFreed_pages
  exact .snoc (.snoc (.snoc .nil (BuddyStep.get ..)) (BuddyStep.get ..)) (BuddyStep.free hmem)

/-- it is freed again -/
theorem double_free_caught_pair :
    SameZone pairFreed.zone (vmmBuddyFreePages pairFreed.zone 0xc2002000 0) ∧
      0xc2002000 ∈ pairFreed.zone.freeList 0 := by
  obtain ⟨-, hmem, -⟩ := pairFreed_pages
  exact ⟨(double_free_caught_iff (by decide) (by decide) pairFreed_run _ _).mpr hmem, hmem⟩

/-- both pages are freed and joined; the upper one is freed again and is on two lists -/
theorem double_free_of_merged :
    Steps BuddyStep pairZone
        [.get 0, .get 0, .free 0xc2002000 0, .free 0xc2001000 0]
        (pairFreed.next (.free 0xc2001000 0)) ∧
      ¬ SameZone (pairFreed.next (.free 0xc2001000 0)).zone
        (vmmBuddyFreePages (pairFreed.next (.free 0xc2001000 0)).zone 0xc2002000 0) ∧
      (vmmBuddyFreePages (pairFreed.next (.free 0xc2001000 0)).zone 0xc2002000 0).freeList 0
        = [0xc2002000] ∧
      (vmmBuddyFreePages (pairFreed.next (.free 0xc2001000 0)).zone 0xc2002000 0).freeList 1
        = [0xc2001000] := by
  obtain ⟨-, -, hmem, hlist⟩ := pairFreed_pages
  obtain ⟨hnew, hold⟩ :
      (vmmBuddyFreePages (pairFreed.next (.free 0xc2001000 0)).zone 0xc2002000 0).freeList 0
          = [0xc2002000] ∧
        (vmmBuddyFreePages (pairFreed.next (.free 0xc2001000 0)).zone 0xc2002000 0).freeList 1
          = [0xc2001000] := by
    decide +kernel
  refine ⟨.snoc pairFreed_run (BuddyStep.free hmem), fun h => ?_, hnew, hold⟩
  exact absurd ((hnew.symm.trans (h.freeList 0)).trans hlist) (List.cons_ne_nil _ _)

end Paravirt

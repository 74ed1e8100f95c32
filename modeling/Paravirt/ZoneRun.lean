import Paravirt.Lib.Steps
import Paravirt.ZoneInv

/-!
# Runs of the buddy allocator on a zone set up by vmm_zone_init

* `vmmFloorLog2_spec`    `vmm_floor_log2` is the floor of the binary logarithm;
* `buddyInitBlock_eq`    from two pages on, `vmm_buddy_init` reserves one page for its table;
* `ZoneInv.init`         the fresh zone is one free block;
* `BuddyStep`            one call by a caller that frees what it was given, and its writes into
                         the blocks it holds (the `order` words lie inside them);
* `buddy_partition_iff`  every run keeps the partition, exactly from two pages on.
-/

set_option linter.unusedVariables false

namespace Paravirt
open Tiling

/-! ## vmm_floor_log2 -/

theorem log2Step_spec {n b : Nat} {s : Nat × Nat} (h1 : s.1 = n >>> s.2) (h2 : s.1 < 2^(2*b))
    (h3 : 0 < s.1) :
    (log2Step b s).1 = n >>> (log2Step b s).2 ∧ (log2Step b s).1 < 2^b ∧ 0 < (log2Step b s).1 := by
  unfold log2Step
  rw [Nat.one_shiftLeft]
  split
  · rename_i hge
    refine ⟨?_, ?_, ?_⟩
    · rw [h1, ← Nat.shiftRight_add]
    · rw [Nat.shiftRight_eq_div_pow]
      apply Nat.div_lt_of_lt_mul
      rw [← Nat.pow_add, ← Nat.two_mul]
      exact h2
    · rw [Nat.shiftRight_eq_div_pow]
      exact Nat.div_pos hge (Nat.two_pow_pos b)
  · exact ⟨h1, by omega, h3⟩

theorem vmmFloorLog2_spec {n : Nat} (hn : 0 < n) (h32 : n < 2^32) :
    2^vmmFloorLog2 n ≤ n ∧ n < 2^(vmmFloorLog2 n + 1) := by
  obtain ⟨a1, a2, a3⟩ := log2Step_spec (n := n) (b := 16) (s := (n, 0)) rfl h32 hn
  obtain ⟨b1, b2, b3⟩ := log2Step_spec (b := 8) a1 a2 a3
  obtain ⟨c1, c2, c3⟩ := log2Step_spec (b := 4) b1 b2 b3
  obtain ⟨d1, d2, d3⟩ := log2Step_spec (b := 2) c1 c2 c3
  unfold vmmFloorLog2
  generalize log2Step 2 (log2Step 4 (log2Step 8 (log2Step 16 (n, 0)))) = s at d1 d2 d3
  obtain ⟨m, pos⟩ := s
  simp only at d1 d2 d3 ⊢
  rw [if_neg (by omega : ¬ m = 0)]
  rw [Nat.shiftRight_eq_div_pow] at d1
  have hpos := Nat.two_pow_pos pos
  have hlo : m * 2^pos ≤ n := by rw [d1]; exact Nat.div_mul_le_self n _
  have hhi : n < (m + 1) * 2^pos := by
    rw [d1, Nat.add_mul, Nat.one_mul]
    exact Nat.lt_div_mul_add hpos
  split
  · rename_i hge
    have h1 : 2 * 2^pos ≤ m * 2^pos := Nat.mul_le_mul_right _ hge
    have h2 : (m + 1) * 2^pos ≤ 4 * 2^pos := Nat.mul_le_mul_right _ (by omega)
    rw [Nat.pow_succ 2 (pos + 1), Nat.pow_succ]
    omega
  · rename_i hlt
    have e : m = 1 := by
      have : m < 2 := Nat.lt_of_not_ge hlt
      omega
    subst e
    rw [Nat.pow_succ]
    omega

theorem vmmFloorLog2_le {n : Nat} (hn : 0 < n) (h32 : n < 2^32) : vmmFloorLog2 n ≤ 31 := by
  have h := (vmmFloorLog2_spec hn h32).1
  by_contra hlt
  have : 2^32 ≤ 2^vmmFloorLog2 n := Nat.pow_le_pow_right (by norm_num) (by omega)
  omega

/-! ## the fresh zone -/

theorem freeAreaStructPages_one {k : Nat} (h1 : 1 ≤ k) (h2 : k ≤ 31) :
    freeAreaStructPages k = 1 := by
  unfold freeAreaStructPages u32 sizeofFreeArea pageShift
  have e : (12 * k + 2^32 - 1) % 2^32 = 12 * k - 1 := by omega
  rw [e, Nat.shiftRight_eq_div_pow]
  omega

/-- from two pages on the table takes one page, and the block is the largest that fits -/
theorem buddyInitBlock_eq {start numPages : Nat} (h2 : 2 ≤ numPages)
    (hfit : start + numPages * pageSize ≤ 2^32) :
    buddyInitBlock start numPages = (start + pageSize, vmmFloorLog2 (numPages - 1)) := by
  have hps : pageSize = 4096 := rfl
  rw [hps] at hfit ⊢
  have hsp : freeAreaStructPages (vmmFloorLog2 (u32 numPages)) = 1 := by
    rw [u32_of_lt (by omega)]
    have hs := vmmFloorLog2_spec (n := numPages) (by omega) (by omega)
    refine freeAreaStructPages_one ?_ (vmmFloorLog2_le (by omega) (by omega))
    by_contra h0
    have e : vmmFloorLog2 numPages = 0 := by omega
    rw [e] at hs
    omega
  unfold buddyInitBlock
  simp only [hsp]
  have e1 : u32 (start + 1 <<< pageShift) = start + 4096 := by
    rw [Nat.shiftLeft_eq]
    exact u32_of_lt (by simp only [pageShift]; omega)
  have e2 : u32 (numPages + 2^32 - 1) = numPages - 1 := by
    unfold u32
    omega
  rw [e1, e2]

theorem vmmZoneInit_eq (hdr : Nat → Nat) {start numPages f k : Nat}
    (h : buddyInitBlock start numPages = (f, k)) :
    vmmZoneInit hdr start numPages = VmmZone.pushFront
      { freeAreaList := fun i => if f = start ∧ i = 0 then ⟨k, []⟩ else ⟨0, []⟩
        order := Function.update hdr f k
        start := start
        numPages := numPages
        maxOrder := k } k f := by
  unfold vmmZoneInit vmmBuddyInit
  rw [h]

theorem vmmBuddyInit_maxOrder (hdr : Nat → Nat) (start numPages : Nat) :
    (vmmZoneInit hdr start numPages).maxOrder = (buddyInitBlock start numPages).2 := rfl

theorem GoodBase.init {start numPages : Nat} (h2 : 2 ≤ numPages)
    (hfit : start + numPages * pageSize ≤ 2^32) :
    GoodBase [buddyInitBlock start numPages] := by
  have hps : pageSize = 4096 := rfl
  have hn : numPages < 2^32 := by
    rw [hps] at hfit
    omega
  have hlog := (vmmFloorLog2_spec (n := numPages - 1) (by omega) (by omega)).1
  have hcell : ∀ c ∈ allCells pageSize [buddyInitBlock start numPages],
      ∃ j, j + 1 < numPages ∧ start + pageSize + pageSize * j = c := by
    intro c hc
    rw [buddyInitBlock_eq h2 hfit, allCells_cons, allCells_nil, List.append_nil] at hc
    obtain ⟨j, hj, e⟩ := mem_cells.mp hc
    exact ⟨j, by simp only at hj; omega, e⟩
  refine ⟨nodup_single (by decide) _, fun c hc => ?_, fun c hc => ?_⟩
  · obtain ⟨j, _, e⟩ := hcell c hc
    omega
  · obtain ⟨j, hj, e⟩ := hcell c hc
    rw [hps] at hfit e ⊢
    omega

theorem ZoneInv.init (hdr : Nat → Nat) {start numPages : Nat} (h2 : 2 ≤ numPages)
    (hfit : start + numPages * pageSize ≤ 2^32) :
    ZoneInv [buddyInitBlock start numPages] [] (vmmZoneInit hdr start numPages) := by
  have hblk := buddyInitBlock_eq h2 hfit
  have hne : ¬ start + pageSize = start := by
    have hps : pageSize = 4096 := rfl
    omega
  rw [vmmZoneInit_eq hdr hblk, hblk]
  simp only [hne, false_and, if_false]
  generalize vmmFloorLog2 (numPages - 1) = k
  -- before the first node is inserted its block is live, and every list is empty
  have h0 : ZoneInv [(start + pageSize, k)] [(start + pageSize, k)]
      { freeAreaList := fun _ => ⟨0, []⟩
        order := Function.update hdr (start + pageSize) k
        start := start
        numPages := numPages
        maxOrder := k } := by
    refine ⟨?_, fun i a ha => absurd ha List.not_mem_nil, fun i => ?_, fun i _ => rfl⟩
    · have e : (byOrder (fun _ => []) (k+1)) = [] := by simp [byOrder]
      show Tiles pageSize (byOrder (fun _ => []) (k+1) ++ _) _
      rw [e]
      exact Tiles.refl _ _
    · simp [VmmZone.freeList]
  exact h0.pushFront (by simp) (Nat.le_succ k)

/-! ## runs -/

inductive BuddyOp where
  | get (order : Nat)
  | free (pgaddr order : Nat)
  /-- the holder of a block writes the word at `a`, which is the `order` field of a node at `a` -/
  | store (a v : Nat)
  deriving DecidableEq, Repr

/-- a zone and the blocks handed out and not freed since -/
structure BuddyState where
  zone : VmmZone
  live : List Block

def BuddyStep (s : BuddyState) : BuddyOp → BuddyState → Prop
  | .get k, t => t = match vmmBuddyGetFreePages s.zone k with
    | (z, none) => ⟨z, s.live⟩
    | (z, some a) => ⟨z, (a, k) :: s.live⟩
  | .free p k, t => (p, k) ∈ s.live ∧ t = ⟨vmmBuddyFreePages s.zone p k, s.live.erase (p, k)⟩
  | .store a v, t => (∃ b ∈ s.live, a ∈ cells pageSize b) ∧ t = ⟨s.zone.setOrder a v, s.live⟩

/-- the partition invariant of a zone whose initial block is `base`, and what the next request
answers -/
structure BuddyPartition (base : Block) (s : BuddyState) : Prop where
  disjoint : (s.zone.freeBlocks ++ s.live).Pairwise fun b c =>
    (cells pageSize b).Disjoint (cells pageSize c)
  cover : ∀ x, (∃ b ∈ s.zone.freeBlocks ++ s.live, x ∈ cells pageSize b) ↔ x ∈ cells pageSize base
  order : ∀ i, ∀ a ∈ s.zone.freeList i, s.zone.order a = i
  numFree : ∀ i, (s.zone.freeAreaList i).numFree = (s.zone.freeList i).length
  noHigher : ∀ i, s.zone.maxOrder < i → s.zone.freeList i = []
  get_some : ∀ k z a, vmmBuddyGetFreePages s.zone k = (z, some a) →
    ∀ b ∈ s.live, (cells pageSize (a, k)).Disjoint (cells pageSize b)
  get_none : ∀ k z, vmmBuddyGetFreePages s.zone k = (z, none) →
    ∀ j, k ≤ j → s.zone.freeList j = []

/-- every run on the zone set up over `numPages` pages from `start` keeps the partition -/
def BuddyKeepsPartition (hdr : Nat → Nat) (start numPages : Nat) : Prop :=
  ∀ ops s, Steps BuddyStep ⟨vmmZoneInit hdr start numPages, []⟩ ops s →
    BuddyPartition (buddyInitBlock start numPages) s

/-- what a run keeps: the invariant of `ZoneInv.lean` over the one initial block -/
structure BuddyInv (base : Block) (s : BuddyState) : Prop where
  inv : ZoneInv [base] s.live s.zone
  maxOrder : s.zone.maxOrder = base.2

theorem BuddyInv.step {base : Block} (hb : GoodBase [base]) {s t : BuddyState} {op : BuddyOp}
    (h : BuddyInv base s) (hs : BuddyStep s op t) : BuddyInv base t := by
  obtain ⟨hi, hm⟩ := h
  cases op with
  | get k =>
    rcases hi.get hb k with ⟨e, _⟩ | ⟨z', a, e, h1, h2⟩
    · simp only [BuddyStep, e] at hs
      subst hs
      exact ⟨hi, hm⟩
    · simp only [BuddyStep, e] at hs
      subst hs
      exact ⟨h1, h2.trans hm⟩
  | free p k =>
    obtain ⟨hmem, rfl⟩ := hs
    have hp := hi.perm (List.perm_cons_erase hmem)
    have hk := hi.live_order_le hmem
    obtain ⟨h1, h2⟩ := hp.free hb (by omega)
    exact ⟨h1, h2.trans hm⟩
  | store a v =>
    obtain ⟨⟨b, hmem, hc⟩, rfl⟩ := hs
    exact ⟨hi.setOrder hb hmem hc v, hm⟩

/-- over one base block no list above `max_order` is used -/
theorem BuddyInv.noHigher {base : Block} {s : BuddyState} (h : BuddyInv base s) {i : Nat}
    (hi : s.zone.maxOrder < i) : s.zone.freeList i = [] := by
  by_cases hi' : i ≤ s.zone.maxOrder + 1
  · apply List.eq_nil_iff_forall_not_mem.mpr
    intro a ha
    have hm : (a, i) ∈ s.zone.freeBlocks := VmmZone.mem_freeBlocks.mpr ⟨hi', ha⟩
    have := h.inv.tiles.order_le (List.mem_append_left _ hm)
    have := h.maxOrder
    simp only at *
    omega
  · exact h.inv.bounded i (by omega)

theorem BuddyInv.partition {base : Block} (hb : GoodBase [base]) {s : BuddyState}
    (h : BuddyInv base s) : BuddyPartition base s where
  disjoint := h.inv.tiles.pairwise_disjoint hb.nodup
  cover := fun x => by
    rw [h.inv.tiles.mem_iff]
    simp
  order := h.inv.order
  numFree := h.inv.numFree
  noHigher := fun i hi => h.noHigher hi
  get_some := fun k z a e b hm => by
    rcases h.inv.get hb k with ⟨e', _⟩ | ⟨z', a', e', h1, _⟩
    · rw [e'] at e
      cases e
    · rw [e'] at e
      cases e
      exact (List.pairwise_cons.mp (h1.live_disjoint hb)).1 b hm
  get_none := fun k z e j hj => by
    rcases h.inv.get hb k with ⟨_, hall⟩ | ⟨z', a', e', _, _⟩
    · by_cases hj' : j ≤ s.zone.maxOrder
      · exact hall j hj hj'
      · exact h.noHigher (by omega)
    · rw [e'] at e
      cases e

theorem buddy_keeps_partition (hdr : Nat → Nat) {start numPages : Nat} (h2 : 2 ≤ numPages)
    (hfit : start + numPages * pageSize ≤ 2^32) : BuddyKeepsPartition hdr start numPages := by
  intro ops s hrun
  have hb := GoodBase.init h2 hfit
  refine BuddyInv.partition hb ?_
  refine hrun.invariant (fun s op t h hs => h.step hb hs) ⟨ZoneInv.init hdr h2 hfit, ?_⟩
  exact vmmBuddyInit_maxOrder hdr start numPages

/-- below two pages the unsigned `sizeof(vmb_free_area_t) * 0 - 1` wraps, the first node lands on
the table, and its header makes the counter of list 0 wrong -/
theorem init_numFree_of_lt_two (hdr : Nat → Nat) {start numPages : Nat} (h2 : numPages < 2)
    (hstart : start < 2^32) :
    ((vmmZoneInit hdr start numPages).freeAreaList 0).numFree = 31 ∧
      (vmmZoneInit hdr start numPages).freeList 0 = [] := by
  have hcases : numPages = 0 ∨ numPages = 1 := by omega
  have hblk : buddyInitBlock start numPages = (start, 31) := by
    have hlog : vmmFloorLog2 (u32 numPages) = 0 := by
      rcases hcases with rfl | rfl <;> decide
    have e1 : u32 (start + freeAreaStructPages 0 <<< pageShift) = start := by
      have e : freeAreaStructPages 0 <<< pageShift = 2^32 := by decide
      rw [e]
      unfold u32
      rw [Nat.add_mod_right]
      exact Nat.mod_eq_of_lt hstart
    have e2 : vmmFloorLog2 (u32 (numPages + 2^32 - freeAreaStructPages 0)) = 31 := by
      rcases hcases with rfl | rfl <;> decide
    unfold buddyInitBlock
    rw [hlog]
    simp only [e1, e2]
  rw [vmmZoneInit_eq hdr hblk]
  simp [VmmZone.pushFront, VmmZone.freeList]

/-- **The buddy allocator keeps its partition over every run exactly when the zone has at least
two pages.** -/
theorem buddy_partition_iff (hdr : Nat → Nat) (start numPages : Nat) (hstart : start < 2^32)
    (hfit : start + numPages * pageSize ≤ 2^32) :
    BuddyKeepsPartition hdr start numPages ↔ 2 ≤ numPages := by
  constructor
  · intro h
    by_contra hlt
    obtain ⟨h1, h2⟩ := init_numFree_of_lt_two hdr (Nat.lt_of_not_le hlt) hstart
    have h3 := (h [] _ .nil).numFree 0
    simp only at h3
    rw [h1, h2] at h3
    exact absurd h3 (by decide)
  · intro h2
    exact buddy_keeps_partition hdr h2 hfit

/-- the himem zone of a machine with 16384 frames -/
theorem buddy_partition_iff_himem :
    BuddyKeepsPartition (fun _ => 0) 0xc3000000 4096 ↔ 2 ≤ 4096 :=
  buddy_partition_iff (fun _ => 0) 0xc3000000 4096 (by decide) (by decide)

/-- a zone of one page -/
theorem buddy_partition_one_page : ¬ BuddyKeepsPartition (fun _ => 0) 0xc2000000 1 := by
  intro h
  have h3 := (h [] _ .nil).numFree 0
  exact absurd h3 (by decide)

end Paravirt

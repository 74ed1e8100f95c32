import Paravirt.Coalesce
import Paravirt.Mm

/-!
# Blocks of several pages (kern/vmm_page.c)

`vmm_ppfs_alloc` asks the lomem zone for the order above the floor of the logarithm, and
`vmm_ppfs_free` gives back a block of the floor.  The himem pair takes the floor on both sides.

* `RoundTrip`             what a pair of operations is to do on a state;
* `ppfs_get_cells`, `ppfs_free_cells`   the pages on the free lists after a request and a release;
* `not_roundTrip_lomem`   a block of the lomem zone comes back as its lower half;
* `ppfs_agree_iff`        both pairs do what they are to do exactly where lomem has no such block.
-/

namespace Paravirt
open Tiling

def Mm.vmmPpfsAlloc (mm : Mm) (numPages : Nat) : Mm × Option Nat :=
  let (z, p) := vmmBuddyGetFreePages mm.lomem (vmmFloorLog2 numPages + 1)
  ({ mm with lomem := z }, p)

/-- the addresses of the pages on the free lists -/
def VmmZone.freeCells (z : VmmZone) : List Nat := allCells pageSize z.freeBlocks

/-- the block that `alloc` returns has `n` pages, if `big`, and `free` returns exactly the pages
that `alloc` took -/
def RoundTrip (zone : Mm → VmmZone) (alloc : Mm → Nat → Mm × Option Nat)
    (free : Mm → Nat → Nat → Mm) (mm : Mm) (n : Nat) (big : Prop) : Prop :=
  ∀ m p, alloc mm n = (m, some p) →
    ∃ k, (zone mm).freeCells.Perm (cells pageSize (p, k) ++ (zone m).freeCells) ∧
      (big → n ≤ 2^k) ∧
      (zone (free m p n)).freeCells.Perm (cells pageSize (p, k) ++ (zone m).freeCells)

/-! ## the pages on the free lists -/

section
variable {base live : List Block} {z : VmmZone}

theorem ZoneInv.cells_perm (h : ZoneInv base live z) :
    (z.freeCells ++ allCells pageSize live).Perm (allCells pageSize base) := by
  unfold VmmZone.freeCells
  rw [← allCells_append]
  exact h.tiles

/-- the pages of a block that becomes live are the ones that leave the free lists -/
theorem ZoneInv.freeCells_cons {z' : VmmZone} {b : Block} (h : ZoneInv base live z)
    (h' : ZoneInv base (b :: live) z') : z.freeCells.Perm (cells pageSize b ++ z'.freeCells) := by
  have h1 := h'.cells_perm
  rw [allCells_cons] at h1
  refine (List.perm_append_right_iff (allCells pageSize live)).mp (h.cells_perm.trans ?_)
  refine h1.symm.trans ?_
  rw [List.append_assoc]
  exact List.perm_append_comm_assoc ..

/-- a request that is granted, and its block -/
theorem ZoneInv.get_some (h : ZoneInv base live z) (hb : GoodBase base) {k p : Nat} {z' : VmmZone}
    (hg : vmmBuddyGetFreePages z k = (z', some p)) :
    ZoneInv base ((p, k) :: live) z' ∧ z'.maxOrder = z.maxOrder ∧ k ≤ z.maxOrder := by
  rcases h.get hb k with ⟨e, -⟩ | ⟨z₁, a, e, h1, h2⟩
  · rw [e] at hg
    cases hg
  · rw [e] at hg
    cases hg
    refine ⟨h1, h2, ?_⟩
    by_contra hk
    have h0 : z.maxOrder + 1 - k = 0 := by omega
    unfold vmmBuddyGetFreePages at e
    rw [h0] at e
    cases e

end

/-! ## the two pairs -/

theorem vmmPpfsAlloc_some {mm : Mm} {n p : Nat}
    (h : (vmmBuddyGetFreePages mm.lomem (vmmFloorLog2 n + 1)).2 = some p) :
    ∃ m, mm.vmmPpfsAlloc n = (m, some p) := by
  unfold Mm.vmmPpfsAlloc
  generalize vmmBuddyGetFreePages mm.lomem (vmmFloorLog2 n + 1) = r at h
  obtain ⟨z, q⟩ := r
  cases h
  exact ⟨_, rfl⟩

theorem vmmPpfsAlloc_zone {mm m : Mm} {n p : Nat} (h : mm.vmmPpfsAlloc n = (m, some p)) :
    vmmBuddyGetFreePages mm.lomem (vmmFloorLog2 n + 1) = (m.lomem, some p) := by
  unfold Mm.vmmPpfsAlloc at h
  generalize vmmBuddyGetFreePages mm.lomem (vmmFloorLog2 n + 1) = r at h ⊢
  obtain ⟨z, q⟩ := r
  cases h
  rfl

theorem vmmPpfsHighmemAlloc_zone {mm m : Mm} {n p : Nat}
    (h : mm.vmmPpfsHighmemAlloc n = (m, some p)) :
    vmmBuddyGetFreePages mm.himem (vmmFloorLog2 n) = (m.himem, some p) := by
  unfold Mm.vmmPpfsHighmemAlloc at h
  generalize vmmBuddyGetFreePages mm.himem (vmmFloorLog2 n) = r at h ⊢
  obtain ⟨z, q⟩ := r
  cases h
  rfl

section
variable {base live : List Block} {mm : Mm} {n : Nat}

/-- **the himem pair**: one order on both sides -/
theorem roundTrip_himem (h : ZoneInv base live mm.himem) (hb : GoodBase base) (hn : 0 < n)
    (h31 : n < 2^31) :
    RoundTrip Mm.himem Mm.vmmPpfsHighmemAlloc Mm.vmmPpfsHighmemFree mm n (∃ j, n = 2^j) := by
  intro m p hg
  obtain ⟨h1, hmax, hk⟩ := h.get_some hb (vmmPpfsHighmemAlloc_zone hg)
  obtain ⟨h2, -⟩ := h1.free hb (by omega)
  refine ⟨vmmFloorLog2 n, h.freeCells_cons h1, fun hj => ?_, ?_⟩
  · obtain ⟨j, rfl⟩ := hj
    have hlog := (vmmFloorLog2_spec hn (by omega)).2
    rw [Nat.pow_lt_pow_iff_right Nat.one_lt_two] at hlog
    exact Nat.pow_le_pow_right Nat.two_pos (Nat.le_of_lt_succ hlog)
  · unfold Mm.vmmPpfsHighmemFree
    dsimp only
    exact h2.freeCells_cons h1

/-- **the lomem pair**: what is freed is the lower half of the block -/
theorem not_roundTrip_lomem (h : ZoneInv base live mm.lomem) (hb : GoodBase base) {m : Mm} {p : Nat}
    (hg : mm.vmmPpfsAlloc n = (m, some p)) (big : Prop) :
    ¬ RoundTrip Mm.lomem Mm.vmmPpfsAlloc Mm.vmmPpfsFree mm n big := by
  intro hr
  obtain ⟨k, htaken, -, hfreed⟩ := hr m p hg
  obtain ⟨h1, hmax, hk⟩ := h.get_some hb (vmmPpfsAlloc_zone hg)
  -- the upper half stays live
  obtain ⟨h2, -⟩ := h1.split.free hb (by omega)
  have h3 := (h.freeCells_cons h2).length_eq
  have h4 := (htaken.trans hfreed.symm).length_eq
  have hpos := Nat.two_pow_pos (vmmFloorLog2 n)
  unfold Mm.vmmPpfsFree at h4
  rw [List.length_append, length_cells] at h3
  dsimp only at h3 h4
  omega

/-- **the two pairs agree exactly where `vmm_ppfs_alloc` has nothing to give** -/
theorem ppfs_agree_iff {hbase hlive : List Block} (hlo : ZoneInv base live mm.lomem)
    (hb : GoodBase base) (hhi : ZoneInv hbase hlive mm.himem) (hbh : GoodBase hbase)
    (hn : 0 < n) (h31 : n < 2^31) :
    (RoundTrip Mm.lomem Mm.vmmPpfsAlloc Mm.vmmPpfsFree mm n True ∧
      RoundTrip Mm.himem Mm.vmmPpfsHighmemAlloc Mm.vmmPpfsHighmemFree mm n (∃ j, n = 2^j)) ↔
    ∀ j, vmmFloorLog2 n < j → j ≤ mm.lomem.maxOrder → mm.lomem.freeList j = [] := by
  have hnone := get_none_iff hb hlo (vmmFloorLog2 n + 1)
  constructor
  · intro h
    refine hnone.mp ?_
    cases hp : (vmmBuddyGetFreePages mm.lomem (vmmFloorLog2 n + 1)).2 with
    | none => rfl
    | some p =>
      obtain ⟨m, hg⟩ := vmmPpfsAlloc_some hp
      exact absurd h.1 (not_roundTrip_lomem hlo hb hg True)
  · intro h
    refine ⟨fun m p hg => ?_, roundTrip_himem hhi hbh hn h31⟩
    have hp := congrArg Prod.snd (vmmPpfsAlloc_zone hg)
    rw [hnone.mpr h] at hp
    exact absurd hp.symm (Option.some_ne_none p)

end

/-- two fresh zones of sixteen pages -/
def sixteenMm : Mm where
  lomem := vmmZoneInit (fun _ => 0) 0x2000000 16
  himem := vmmZoneInit (fun _ => 0) 0xc3000000 16
  kernelPageDir := 0x100000
  word _ _ := 0
  queue := []
  mem _ := 0

theorem sixteenMm_lomem : ZoneInv [buddyInitBlock 0x2000000 16] [] sixteenMm.lomem :=
  .init _ (by decide) (by decide)

theorem sixteenMm_himem : ZoneInv [buddyInitBlock 0xc3000000 16] [] sixteenMm.himem :=
  .init _ (by decide) (by decide)

/-- sixteen pages are more than the zone has -/
theorem ppfs_agree_iff_sixteen :
    (RoundTrip Mm.lomem Mm.vmmPpfsAlloc Mm.vmmPpfsFree sixteenMm 16 True ∧
      RoundTrip Mm.himem Mm.vmmPpfsHighmemAlloc Mm.vmmPpfsHighmemFree sixteenMm 16
        (∃ j, 16 = 2^j)) ↔
    ∀ j, vmmFloorLog2 16 < j → j ≤ sixteenMm.lomem.maxOrder → sixteenMm.lomem.freeList j = [] :=
  ppfs_agree_iff sixteenMm_lomem (.init (by decide) (by decide)) sixteenMm_himem
    (.init (by decide) (by decide)) (by decide) (by decide)

/-- one page of a fresh zone: a block of two pages is taken, and one comes back -/
theorem ppfs_one_page_leaks :
    ¬ RoundTrip Mm.lomem Mm.vmmPpfsAlloc Mm.vmmPpfsFree sixteenMm 1 True := by
  have hb : GoodBase [buddyInitBlock 0x2000000 16] := .init (by decide) (by decide)
  have hblk : buddyInitBlock 0x2000000 16 = (0x2001000, 3) := by decide
  have hlo : sixteenMm.lomem = vmmZoneInit (fun _ => 0) 0x2000000 16 := rfl
  rw [vmmZoneInit_eq _ hblk] at hlo
  have hmax : sixteenMm.lomem.maxOrder = 3 := by
    rw [hlo]
    rfl
  have hlist : sixteenMm.lomem.freeList 3 = [0x2001000] := by
    rw [hlo, VmmZone.freeList_pushFront, Function.update_self]
    rfl
  have hlog : vmmFloorLog2 1 = 0 := by decide
  cases hp : (vmmBuddyGetFreePages sixteenMm.lomem (vmmFloorLog2 1 + 1)).2 with
  | none =>
    have hnil := (get_none_iff hb sixteenMm_lomem _).mp hp 3 (by omega) hmax.ge
    exact absurd (hlist.symm.trans hnil) (List.cons_ne_nil _ _)
  | some p =>
    obtain ⟨m, hg⟩ := vmmPpfsAlloc_some hp
    exact not_roundTrip_lomem sixteenMm_lomem hb hg True

end Paravirt

import Paravirt.MachPage
import Paravirt.MmMap

/-!
# One call of vmm_map_page on machine memory

* `Xen.Wf.mapPageEntry`   the last part: the entry is written unless memory already has the value;
* `Xen.Wf.mapPageTable`   a new table: its frame becomes read-only, nothing else is seen to change;
* `Xen.Wf.mapPage`        both, for the state once the queue is flushed, and an address that is not
                          the hypervisor's.
-/

set_option linter.unusedSectionVars false
set_option linter.unusedVariables false

namespace Paravirt
open Tiling

namespace Xen.Wf
variable {base live : List Block} {dom : Nat → Prop} {dirs : List Nat} {x : Xen} {d va : Nat}

/-- `d', va'` is looked up in the entry of `d, va`, which has a table -/
def SameEntry (x : Xen) (d va d' va' : Nat) : Prop :=
  SamePage va' va ∧
    (d' = d ∨ x.pde d (pdeIndex va) ≠ 0 ∧ x.pde d' (pdeIndex va) = x.pde d (pdeIndex va))

instance (x : Xen) (d va d' va' : Nat) : Decidable (SameEntry x d va d' va') :=
  inferInstanceAs (Decidable (_ ∧ (_ ∨ _ ∧ _)))

theorem SameEntry.pde {d' va' : Nat} (hs : SameEntry x d va d' va') :
    x.pde d' (pdeIndex va') = x.pde d (pdeIndex va) := by
  obtain ⟨⟨e1, -⟩, e3⟩ := hs
  rw [e1]
  rcases e3 with rfl | hk
  · rfl
  · exact hk.2

theorem SameEntry.slot {d' va' : Nat} (hs : SameEntry x d va d' va') :
    x.slot d' va' = x.slot d va := by
  unfold Xen.slot
  rw [hs.pde, hs.1.2]

theorem SameEntry.entry {d' va' : Nat} (hs : SameEntry x d va d' va') :
    x.entry d' va' = x.entry d va := by
  unfold Xen.entry
  rw [hs.pde, hs.slot]

theorem SameEntry.congr {x' : Xen} {d' va' : Nat} (hs : SameEntry x d va d' va')
    (h : x'.pde d (pdeIndex va) = x.pde d (pdeIndex va))
    (h' : x'.pde d' (pdeIndex va) = x.pde d' (pdeIndex va)) : SameEntry x' d va d' va' := by
  unfold SameEntry
  rw [h, h']
  exact hs

/-- one page-table entry is overwritten -/
theorem entry_update (h : x.Wf base live dom dirs) (hd : d ∈ dirs) (ho : OwnPde (pdeIndex va))
    (h0 : x.pde d (pdeIndex va) ≠ 0) (v : Nat) {d' va' : Nat} (hd' : d' ∈ dirs)
    (ho' : OwnPde (pdeIndex va')) :
    ({ x with mem := Function.update x.mem (x.slot d va) v } : Xen).entry d' va' =
      if SameEntry x d va d' va' then v else x.entry d' va' := by
  have hpde : ({ x with mem := Function.update x.mem (x.slot d va) v } : Xen).pde d' (pdeIndex va') =
      x.pde d' (pdeIndex va') :=
    Function.update_of_ne (h.slot_ne_dir hd ho h0 hd' (pdeIndex_lt va')).symm _ _
  have hslot : ({ x with mem := Function.update x.mem (x.slot d va) v } : Xen).slot d' va' =
      x.slot d' va' := Xen.slot_congr hpde
  unfold Xen.entry
  rw [hpde, hslot]
  show (if x.pde d' (pdeIndex va') = 0 then 0 else Function.update x.mem (x.slot d va) v (x.slot d' va')) = _
  by_cases hs : SameEntry x d va d' va'
  · rw [if_pos hs, if_neg (by rw [hs.pde]; exact h0), hs.slot, Function.update_self]
  · rw [if_neg hs]
    by_cases h0' : x.pde d' (pdeIndex va') = 0
    · rw [if_pos h0', if_pos h0']
    · rw [if_neg h0', if_neg h0']
      refine Function.update_of_ne (fun e => hs ?_) _ _
      obtain ⟨e1, e2, e3⟩ := h.slot_inj hd' hd ho' ho h0' h0 e
      rw [e1] at e3
      exact ⟨⟨e1, e2⟩, .inr ⟨h0, e3⟩⟩

/-- what the last part of `vmm_map_page` does: `x'` is the state after it -/
theorem mapPageEntry (h : x.Wf base live dom dirs) (hp : x.Pend dirs) (hd : d ∈ dirs)
    (ho : OwnPde (pdeIndex va)) (h0 : x.pde d (pdeIndex va) ≠ 0) (ppf flags : Nat) :
    (x.mapPageEntry d va ppf flags).Wf base live dom dirs ∧
      (x.mapPageEntry d va ppf flags).Pend dirs ∧
      ∀ d' ∈ dirs, ∀ va', OwnPde (pdeIndex va') → (x.mapPageEntry d va ppf flags).eff.entry d' va' =
        if SameEntry x d va d' va' ∧ x.entry d va ≠ x.mapVal ppf flags then x.mapVal ppf flags
        else x.eff.entry d' va' := by
  have hent : x.entry d va = x.mem (x.slot d va) := if_neg h0
  unfold Xen.mapPageEntry
  simp only
  rw [h.vmmGetPte hd ho h0, h.load_pte hd ho h0, hent]
  by_cases hv : x.mem (x.slot d va) = x.mapVal ppf flags
  · rw [if_neg (fun hn => hn hv)]
    refine ⟨h, hp, fun d' hd' va' _ => ?_⟩
    rw [if_neg (fun hn => hn.2 hv)]
  · rw [if_pos hv]
    obtain ⟨h1, h2⟩ := h.queueSlot hp hd ho h0 (x.mapVal ppf flags)
    refine ⟨h1, h2, fun d' hd' va' ho' => ?_⟩
    have he := h.eff hp
    have h0' : x.eff.pde d (pdeIndex va) ≠ 0 := by
      rw [h.eff_pde hp hd (pdeIndex_lt va)]
      exact h0
    have hu := he.entry_update hd ho h0' (x.mapVal ppf flags) hd' ho'
    rw [h.eff_slot hp hd va] at hu
    rw [Xen.vmmQueueMmuUpdate_eff, hu]
    have hpe := h.eff_pde hp hd (pdeIndex_lt va)
    have hpe' := h.eff_pde hp hd' (pdeIndex_lt va)
    by_cases hs : SameEntry x d va d' va'
    · rw [if_pos (hs.congr hpe hpe'), if_pos ⟨hs, hv⟩]
    · rw [if_neg (fun hn => hs (hn.congr hpe.symm hpe'.symm)), if_neg (fun hn => hs hn.1)]

theorem mapPageEntry_pde (h : x.Wf base live dom dirs) (hp : x.Pend dirs) (hd : d ∈ dirs)
    (ho : OwnPde (pdeIndex va)) (h0 : x.pde d (pdeIndex va) ≠ 0) (ppf flags : Nat) {d' i : Nat}
    (hd' : d' ∈ dirs) (hi : i < 1024) : (x.mapPageEntry d va ppf flags).pde d' i = x.pde d' i := by
  unfold Xen.mapPageEntry
  simp only
  rw [h.vmmGetPte hd ho h0, h.load_pte hd ho h0]
  split
  · exact h.queueSlot_pde hp hd ho h0 _ hd' hi
  · rfl

/-- the state after a new page table `f` was entered in the directory `d` for `va` -/
def newTable (x : Xen) (z : VmmZone) (d va f : Nat) : Xen :=
  { x with
    lomem := z
    queue := []
    mem := Function.update (Function.update
      (fun a => if x.machOf f ≤ a ∧ a < x.machOf f + 4096 then 0 else x.eff.mem a)
      (x.slot d f) (1 ||| x.machOf f)) (x.machOf d + 4 * pdeIndex va) (7 ||| x.machOf f) }

/-- an update of a word outside the page commutes with zeroing the page -/
theorem mmuUpdate_zero {mem : Nat → Nat} {q : List (Nat × Nat)} {m : Nat}
    (h : ∀ u ∈ q, ¬ (m ≤ u.1 ∧ u.1 < m + 4096)) :
    mmuUpdate (fun a => if m ≤ a ∧ a < m + 4096 then 0 else mem a) q =
      fun a => if m ≤ a ∧ a < m + 4096 then 0 else mmuUpdate mem q a := by
  funext a
  by_cases ha : m ≤ a ∧ a < m + 4096
  · rw [if_pos ha, mmuUpdate_of_not_mem _ fun u hu e => h u hu (e ▸ ha), if_pos ha]
  · rw [if_neg ha]
    exact mmuUpdate_congr q (if_neg ha)

/-- the reserved bit is clear in an entry of flags and a machine page -/
theorem and_not_rsvd {k : Nat} (hk : k < 2^20) :
    (7 ||| k * 4096) &&& (0xffffffff ^^^ pdFlagRsvd) = 7 ||| k * 4096 := by
  have e : 7 ||| k * 4096 = k * 4096 + 7 := by
    rw [Nat.or_comm, ← shift_or (b := 7) (by decide), Nat.shiftLeft_eq]
  have e1 : (k * 4096 + 7) &&& 0xffffffff = k * 4096 + 7 := by
    rw [show 0xffffffff = 2^32 - 1 from rfl, Nat.and_two_pow_sub_one_eq_mod]
    omega
  have e2 : (k * 4096 + 7) &&& pdFlagRsvd = 0 := by
    rw [show pdFlagRsvd = (2^1 - 1) <<< 6 from rfl, and_mask]
    omega
  rw [e, Nat.and_xor_distrib_left, e1, e2, Nat.xor_zero]

/-- a frame is taken from the zone -/
theorem alloc (h : x.Wf base live dom dirs) {z : VmmZone} {f : Nat}
    (hz : ZoneInv base ((f, 1) :: live) z) :
    ({ x with lomem := z } : Xen).Wf base ((f, 1) :: live) dom dirs where
  maps := ⟨h.maps.frame, h.maps.inv, h.maps.pos, h.maps.lt⟩
  good := h.good
  cell := h.cell
  low := h.low
  zone := hz
  dir d hd := ⟨(h.dir d hd).1, fun hc => List.mem_cons_of_mem _ ((h.dir d hd).2 hc)⟩
  table d hd i hi hp := by
    obtain ⟨t, ht, e, hne, hl⟩ := h.table d hd i hi hp
    exact ⟨t, ht, e, hne, fun hc => List.mem_cons_of_mem _ (hl hc)⟩
  inj := h.inj
  kmap := h.kmap
  shared := h.shared

/-- a frame that is not a live block is no directory and no table -/
theorem fresh (h : x.Wf base live dom dirs) {f : Nat} (hf : f ∈ allCells pageSize base)
    (hl : (f, 1) ∉ live) :
    f ∉ dirs ∧ ∀ d ∈ dirs, ∀ i, OwnPde i → x.pde d i ≠ 0 → pageAddr (x.pde d i) ≠ x.machOf f := by
  refine ⟨fun hd => hl ((h.dir f hd).2 hf), fun d hd i hi hp e => ?_⟩
  obtain ⟨t, ht, e1, -, h2⟩ := h.table d hd i hi hp
  obtain ⟨rfl, -⟩ := h.maps.machOf_inj ht (h.cell f hf) (i := 0) (j := 0) (by decide) (by decide)
    (by rw [← e1, e])
  exact hl (h2 hf)

theorem slot_not_fresh (h : x.Wf base live dom dirs) {f : Nat} (hf : f ∈ allCells pageSize base)
    (hl : (f, 1) ∉ live) (hd : d ∈ dirs) (ho : OwnPde (pdeIndex va))
    (hp : x.pde d (pdeIndex va) ≠ 0) :
    ¬ (x.machOf f ≤ x.slot d va ∧ x.slot d va < x.machOf f + 4096) := by
  obtain ⟨t, ht, e, e2, -, -⟩ := h.slot_eq hd ho hp
  have hj := pteIndex_lt va
  rintro ⟨h1, h2⟩
  refine (h.fresh hf hl).2 d hd _ ho hp ?_
  obtain ⟨rfl, -⟩ := h.maps.machOf_inj ht (h.cell f hf) (i := 4 * pteIndex va)
    (j := x.slot d va - x.machOf f) (by omega) (by omega) (by omega)
  exact e2

theorem dir_not_fresh (h : x.Wf base live dom dirs) {f i : Nat} (hf : f ∈ allCells pageSize base)
    (hl : (f, 1) ∉ live) (hd : d ∈ dirs) (hi : i < 1024) :
    ¬ (x.machOf f ≤ x.machOf d + 4 * i ∧ x.machOf d + 4 * i < x.machOf f + 4096) := by
  rintro ⟨h1, h2⟩
  obtain ⟨rfl, -⟩ := h.maps.machOf_inj (h.dir d hd).1 (h.cell f hf) (i := 4 * i)
    (j := x.machOf d + 4 * i - x.machOf f) (by omega) (by omega) (by omega)
  exact (h.fresh hf hl).1 hd

/-- a frame is taken from the zone, or there is none -/
theorem vmmPpfAlloc_cases (h : x.Wf base live dom dirs) : x.vmmPpfAlloc = (x, none) ∨
    ∃ z f, x.vmmPpfAlloc = ({ x with lomem := z }, some f) ∧ f ∈ allCells pageSize base ∧
      (f, 1) ∉ live ∧ ZoneInv base ((f, 1) :: live) z := by
  rcases h.zone.get h.good 1 with ⟨e, -⟩ | ⟨z, f, e, h1, -⟩
  · left
    unfold Xen.vmmPpfAlloc
    rw [e]
  · refine .inr ⟨z, f, ?_, ?_, fun hf => ?_, h1⟩
    · unfold Xen.vmmPpfAlloc
      rw [e]
    · exact List.Perm.mem_iff h1.tiles |>.mp (mem_allCells.mpr
        ⟨_, List.mem_append_right _ List.mem_cons_self, fst_mem_cells pageSize (f, 1)⟩)
    · have hdj := (List.pairwise_cons.mp (h1.live_disjoint h.good)).1 (f, 1) hf
      exact hdj (fst_mem_cells _ _) (fst_mem_cells _ _)

section
variable {z : VmmZone} {f : Nat}

/-- the frame, cleared -/
theorem zeroPage_eq (h : x.Wf base live dom dirs) (hf : f ∈ allCells pageSize base) :
    ({ x with lomem := z } : Xen).zeroPage f = { x with
      lomem := z
      mem := fun a => if x.machOf f ≤ a ∧ a < x.machOf f + 4096 then 0 else x.mem a } := by
  rw [← h.maps.physToMach_v2p (h.cell f hf)]
  rfl

theorem zeroPage_pde (h : x.Wf base live dom dirs) (hf : f ∈ allCells pageSize base)
    (hl : (f, 1) ∉ live) {i : Nat} (hd : d ∈ dirs) (hi : i < 1024) :
    (({ x with lomem := z } : Xen).zeroPage f).pde d i = x.pde d i := by
  rw [h.zeroPage_eq hf]
  exact if_neg (h.dir_not_fresh hf hl hd hi)

/-- the entry that maps the frame -/
theorem zeroPage_vmmGetPte (h : x.Wf base live dom dirs) (hd : d ∈ dirs)
    (hf : f ∈ allCells pageSize base) (hl : (f, 1) ∉ live) (hz : ZoneInv base ((f, 1) :: live) z) :
    (({ x with lomem := z } : Xen).zeroPage f).vmmGetPte d f = x.slot d f := by
  have hpde := fun d' (hd' : d' ∈ dirs) i (hi : OwnPde i) =>
    h.zeroPage_pde (z := z) hf hl hd' (Nat.lt_trans hi (show 1008 < 1024 by decide))
  have hw := (h.alloc hz).congr (({ x with lomem := z } : Xen).zeroPage f) rfl rfl rfl hpde
  have hk : (({ x with lomem := z } : Xen).zeroPage f).pde d (pdeIndex f) ≠ 0 := by
    rw [hpde d hd _ (h.low f hf)]
    exact h.kmap d hd f hf
  rw [hw.vmmGetPte hd (h.low f hf) hk]
  exact Xen.slot_congr (hpde d hd _ (h.low f hf))

theorem zeroPage_eff (h : x.Wf base live dom dirs) (hp : x.Pend dirs)
    (hf : f ∈ allCells pageSize base) (hl : (f, 1) ∉ live) :
    (({ x with lomem := z } : Xen).zeroPage f).eff.mem =
      fun a => if x.machOf f ≤ a ∧ a < x.machOf f + 4096 then 0 else x.eff.mem a := by
  rw [h.zeroPage_eq hf]
  refine mmuUpdate_zero fun u hu => ?_
  obtain ⟨d', hd', va', ho, h0, e⟩ := hp u hu
  rw [e]
  exact h.slot_not_fresh hf hl hd' ho h0

end

/-- the branch of `vmm_map_page` for a missing table -/
theorem mapPageTable_eq (h : x.Wf base live dom dirs) (hp : x.Pend dirs) (hd : d ∈ dirs)
    (va : Nat) :
    (x.mapPageTable d va = (x, false) ∧ x.vmmPpfAlloc = (x, none)) ∨
    ∃ z f, x.mapPageTable d va = (newTable x z d va f, true) ∧ f ∈ allCells pageSize base ∧
      (f, 1) ∉ live ∧ ZoneInv base ((f, 1) :: live) z ∧
      x.vmmPpfAlloc = ({ x with lomem := z }, some f) := by
  rcases h.vmmPpfAlloc_cases with hal | ⟨z, f, hal, hf, hl, h1⟩
  · refine .inl ⟨?_, hal⟩
    unfold Xen.mapPageTable
    rw [hal]
  · refine .inr ⟨z, f, ?_, hf, hl, h1, hal⟩
    have hm := h.maps.physToMach_v2p (h.cell f hf)
    have hma : pageAddr (x.machOf f) = x.machOf f := by
      have := (h.maps.pageAddr_or (h.cell f hf) (show 0 < 4096 by decide)).1
      rwa [Nat.zero_or] at this
    have hphys : (({ x with lomem := z } : Xen).zeroPage f).physToMach (v2p f) = x.machOf f := hm
    unfold Xen.mapPageTable
    rw [hal]
    simp only
    rw [h.zeroPage_vmmGetPte hd hf hl h1, hphys, hma, h.p2v_pde hd, h.pde_ma hd,
      show pgtabAttribUsrRw ||| pgFlagPresent ||| x.machOf f = 7 ||| x.machOf f from rfl,
      show pgtabAttribSuRo ||| pgFlagPresent ||| x.machOf f = 1 ||| x.machOf f from rfl]
    have hr : (7 ||| x.machOf f) &&& (0xffffffff ^^^ pdFlagRsvd) = 7 ||| x.machOf f :=
      and_not_rsvd (h.maps.lt f (h.cell f hf))
    rw [hr]
    refine congrArg (·, true) ?_
    show Xen.eff _ = _
    rw [Xen.vmmQueueMmuUpdate_eff, Xen.vmmQueueMmuUpdate_eff, h.zeroPage_eff hp hf hl]
    rfl

section
variable {z : VmmZone} {f : Nat}

theorem newTable_mem (x : Xen) (z : VmmZone) (d va f : Nat) : (newTable x z d va f).mem =
    Function.update (Function.update
      (fun a => if x.machOf f ≤ a ∧ a < x.machOf f + 4096 then 0 else x.eff.mem a)
      (x.slot d f) (1 ||| x.machOf f)) (x.machOf d + 4 * pdeIndex va) (7 ||| x.machOf f) := rfl

theorem newTable_machOf (x : Xen) (z : VmmZone) (d va f : Nat) :
    (newTable x z d va f).machOf = x.machOf := rfl

theorem newTable_pde (z : VmmZone) (va : Nat) (h : x.Wf base live dom dirs) (hp : x.Pend dirs)
    (hd : d ∈ dirs)
    (hf : f ∈ allCells pageSize base) (hl : (f, 1) ∉ live) {d' i : Nat} (hd' : d' ∈ dirs)
    (hi : i < 1024) : (newTable x z d va f).pde d' i =
      if d' = d ∧ i = pdeIndex va then 7 ||| x.machOf f else x.pde d' i := by
  have hva := pdeIndex_lt va
  unfold Xen.pde
  rw [newTable_mem, newTable_machOf]
  by_cases e : d' = d ∧ i = pdeIndex va
  · rw [if_pos e, e.1, e.2, Function.update_self]
  · rw [if_neg e, Function.update_of_ne, Function.update_of_ne]
    · rw [if_neg (h.dir_not_fresh hf hl hd' hi)]
      exact h.eff_pde hp hd' hi
    · exact (h.slot_ne_dir hd (h.low f hf) (h.kmap d hd f hf) hd' hi).symm
    · intro he
      obtain ⟨e1, e2⟩ := h.maps.machOf_inj (h.dir d' hd').1 (h.dir d hd).1 (by omega) (by omega) he
      exact e ⟨e1, by omega⟩

theorem newTable_wf (h : x.Wf base live dom dirs) (hp : x.Pend dirs) (hd : d ∈ dirs)
    (h0 : x.pde d (pdeIndex va) = 0) (hf : f ∈ allCells pageSize base) (hl : (f, 1) ∉ live)
    (hz : ZoneInv base ((f, 1) :: live) z)
    (hs : ¬ UserPde (pdeIndex va) → ∀ d' ∈ dirs, x.pde d' (pdeIndex va) = 0) :
    (newTable x z d va f).Wf base ((f, 1) :: live) dom dirs := by
  have hpde := fun d' (hd' : d' ∈ dirs) i (hi : OwnPde i) =>
    newTable_pde z va h hp hd hf hl hd' (Nat.lt_trans hi (show 1008 < 1024 by decide))
  have hfr := h.fresh hf hl
  have hpa : pageAddr (7 ||| x.machOf f) = x.machOf f :=
    (h.maps.pageAddr_or (h.cell f hf) (by decide)).1
  refine ⟨⟨h.maps.frame, h.maps.inv, h.maps.pos, h.maps.lt⟩, h.good, h.cell, h.low, hz, ?_, ?_, ?_, ?_, ?_⟩
  · exact fun d' hd' => ⟨(h.dir d' hd').1, fun hc => List.mem_cons_of_mem _ ((h.dir d' hd').2 hc)⟩
  · intro d' hd' i hi hp'
    rw [hpde d' hd' i hi] at hp' ⊢
    by_cases e : d' = d ∧ i = pdeIndex va
    · rw [if_pos e]
      exact ⟨f, h.cell f hf, hpa, hfr.1, fun _ => List.mem_cons_self⟩
    · rw [if_neg e] at hp' ⊢
      obtain ⟨t, ht, e1, hne, ht'⟩ := h.table d' hd' i hi hp'
      exact ⟨t, ht, e1, hne, fun hc => List.mem_cons_of_mem _ (ht' hc)⟩
  · intro d1 hd1 d2 hd2 i1 hi1 i2 hi2 hp1 hp2 e
    rw [hpde d1 hd1 i1 hi1] at hp1 e
    rw [hpde d2 hd2 i2 hi2] at hp2 e
    by_cases e1 : d1 = d ∧ i1 = pdeIndex va
    · by_cases e2 : d2 = d ∧ i2 = pdeIndex va
      · exact ⟨e1.2.trans e2.2.symm, .inl (e1.1.trans e2.1.symm)⟩
      · rw [if_pos e1, if_neg e2, hpa] at e
        rw [if_neg e2] at hp2
        exact absurd e.symm (hfr.2 d2 hd2 i2 hi2 hp2)
    · rw [if_neg e1] at hp1 e
      by_cases e2 : d2 = d ∧ i2 = pdeIndex va
      · rw [if_pos e2, hpa] at e
        exact absurd e (hfr.2 d1 hd1 i1 hi1 hp1)
      · rw [if_neg e2] at hp2 e
        exact h.inj d1 hd1 d2 hd2 i1 hi1 i2 hi2 hp1 hp2 e
  · intro d' hd' c hc
    rw [hpde d' hd' _ (h.low c hc)]
    split
    · rename_i e
      exact absurd h0 (by rw [← e.2, ← e.1]; exact h.kmap d' hd' c hc)
    · exact h.kmap d' hd' c hc
  · intro d1 hd1 d2 hd2 i hi hk
    rw [hpde d1 hd1 i hi, hpde d2 hd2 i hi]
    intro hp1 hp2
    by_cases e1 : d1 = d ∧ i = pdeIndex va
    · by_cases e2 : d2 = d ∧ i = pdeIndex va
      · rw [if_pos e1, if_pos e2]
      · rw [if_neg e2] at hp2
        exact absurd (by rw [e1.2]; exact hs (e1.2 ▸ hk) d2 hd2) hp2
    · rw [if_neg e1] at hp1 ⊢
      by_cases e2 : d2 = d ∧ i = pdeIndex va
      · exact absurd (by rw [e2.2]; exact hs (e2.2 ▸ hk) d1 hd1) hp1
      · rw [if_neg e2] at hp2 ⊢
        exact h.shared d1 hd1 d2 hd2 i hi hk hp1 hp2

/-- nobody sees the new table, but its frame is now mapped read-only -/
theorem newTable_entry (h : x.Wf base live dom dirs) (hp : x.Pend dirs) (hd : d ∈ dirs)
    (h0 : x.pde d (pdeIndex va) = 0) (hf : f ∈ allCells pageSize base) (hl : (f, 1) ∉ live)
    {d' va' : Nat} (hd' : d' ∈ dirs) (ho' : OwnPde (pdeIndex va')) :
    (newTable x z d va f).entry d' va' =
      if SamePage va' f then 1 ||| x.machOf f else x.eff.entry d' va' := by
  have hk := h.kmap d hd f hf
  have hne : pdeIndex f ≠ pdeIndex va := fun e => hk (by rw [e]; exact h0)
  have hku := (h.maps.frame f (h.cell f hf)).not_userPde
  have hpde := newTable_pde z va h hp hd hf hl hd' (pdeIndex_lt va')
  have hpe := h.eff_pde hp hd' (pdeIndex_lt va')
  unfold Xen.entry
  rw [hpde, hpe]
  by_cases e : d' = d ∧ pdeIndex va' = pdeIndex va
  · -- the entries of the new table are zero
    have h0' : x.pde d' (pdeIndex va') = 0 := by rw [e.1, e.2, h0]
    have hns : ¬ SamePage va' f := fun hs => hne (hs.1.symm.trans e.2)
    rw [if_pos e, if_pos h0', if_neg hns]
    have hsl : (newTable x z d va f).slot d' va' = x.machOf f + 4 * pteIndex va' := by
      unfold Xen.slot
      rw [hpde, if_pos e, (h.maps.pageAddr_or (h.cell f hf) (by decide)).1]
    have hj := pteIndex_lt va'
    have hva := pdeIndex_lt va
    rw [hsl]
    split
    · rfl
    · rw [newTable_mem, Function.update_of_ne, Function.update_of_ne, if_pos ⟨by omega, by omega⟩]
      · intro he
        exact h.slot_not_fresh hf hl hd (h.low f hf) hk (by rw [← he]; omega)
      · intro he
        exact h.dir_not_fresh hf hl hd hva (by rw [← he]; omega)
  · rw [if_neg e]
    have hsl : (newTable x z d va f).slot d' va' = x.slot d' va' :=
      Xen.slot_congr (hpde.trans (if_neg e))
    have hsle : x.eff.slot d' va' = x.slot d' va' := h.eff_slot hp hd' va'
    rw [hsl, hsle]
    by_cases h0' : x.pde d' (pdeIndex va') = 0
    · rw [if_pos h0', if_pos h0', if_neg]
      intro hs
      exact h.kmap d' hd' f hf (by rw [← hs.1]; exact h0')
    · rw [if_neg h0', if_neg h0']
      rw [newTable_mem, Function.update_of_ne (h.slot_ne_dir hd' ho' h0' hd (pdeIndex_lt va))]
      by_cases hs : SamePage va' f
      · have e4 : x.pde d' (pdeIndex va') = x.pde d (pdeIndex f) := by
          rw [hs.1]
          exact h.shared d' hd' d hd _ (h.low f hf) hku (h.kmap d' hd' f hf) hk
        have e5 : x.slot d' va' = x.slot d f := by
          unfold Xen.slot
          rw [e4, hs.2]
        rw [if_pos hs, e5, Function.update_self]
      · rw [if_neg hs, Function.update_of_ne, if_neg (h.slot_not_fresh hf hl hd' ho' h0')]
        intro he
        obtain ⟨e1, e2, -⟩ := h.slot_inj hd' hd ho' (h.low f hf) h0' hk he
        exact hs ⟨e1, e2⟩

theorem newTable_pde_ne (h : x.Wf base live dom dirs) (hp : x.Pend dirs) (hd : d ∈ dirs)
    (hf : f ∈ allCells pageSize base) (hl : (f, 1) ∉ live) :
    (newTable x z d va f).pde d (pdeIndex va) ≠ 0 := by
  rw [newTable_pde z va h hp hd hf hl hd (pdeIndex_lt va), if_pos ⟨rfl, rfl⟩]
  intro e7
  have := (h.maps.pageAddr_or (h.cell f hf) (show 7 < 4096 by decide)).2
  rw [e7] at this
  exact absurd this (by decide)

/-- no other directory has the new table -/
theorem newTable_sameEntry (h : x.Wf base live dom dirs) (hp : x.Pend dirs) (hd : d ∈ dirs)
    (ho : OwnPde (pdeIndex va)) (h0 : x.pde d (pdeIndex va) = 0) (hf : f ∈ allCells pageSize base)
    (hl : (f, 1) ∉ live) {d' : Nat} (hd' : d' ∈ dirs) (va' : Nat) :
    SameEntry (newTable x z d va f) d va d' va' ↔ SameEntry x d va d' va' := by
  have hpn := newTable_pde z va h hp hd hf hl hd (pdeIndex_lt va)
  have hpn' := newTable_pde z va h hp hd hf hl hd' (pdeIndex_lt va)
  rw [if_pos ⟨rfl, rfl⟩] at hpn
  refine and_congr_right fun _ => ?_
  constructor
  · rintro (rfl | ⟨hne0, he⟩)
    · exact .inl rfl
    · left
      by_contra hne
      have hpt := he
      rw [hpn, hpn', if_neg fun hn => hne hn.1] at hpt
      refine (h.fresh hf hl).2 d' hd' _ ho (fun h00 => hne0 ?_) ?_
      · rw [← he, hpn', if_neg fun hn => hne hn.1, h00]
      · rw [hpt]
        exact (h.maps.pageAddr_or (h.cell f hf) (by decide)).1
  · rintro (rfl | ⟨hne, -⟩)
    · exact .inl rfl
    · exact absurd h0 hne

end

end Xen.Wf

/-! ## one call -/

/-- the frame a call takes for a page table -/
def Xen.tableFrame (x : Xen) (d va : Nat) : Option Nat :=
  if x.load (p2v (vmmGetPde d va)) = 0 then x.vmmPpfAlloc.2 else none

/-- the entry of `va'` once the frame taken for a table is mapped read-only -/
def Xen.tableEntry (x : Xen) (d va va' old : Nat) : Nat :=
  match x.tableFrame d va with
  | some f => if SamePage va' f then 1 ||| x.machOf f else old
  | none => old

/-- entry `i` of the directory `d'` once the frame taken for a table is entered -/
def Xen.tablePde (x : Xen) (d va d' i : Nat) : Nat :=
  match x.tableFrame d va with
  | some f => if d' = d ∧ i = pdeIndex va then 7 ||| x.machOf f else x.pde d' i
  | none => x.pde d' i

/-- memory already has the value that is asked for, but another one is pending -/
def Xen.Stale (x : Xen) (d va ppf flags : Nat) : Prop :=
  x.pde d (pdeIndex va) ≠ 0 ∧ x.entry d va = x.mapVal ppf flags ∧
    x.eff.entry d va ≠ x.mapVal ppf flags

instance (x : Xen) (d va ppf flags : Nat) : Decidable (x.Stale d va ppf flags) :=
  inferInstanceAs (Decidable (_ ∧ _ ∧ _))

/-- what a call that returns 0 leaves, for the state once the queue is flushed -/
structure Xen.Mapped (base : List Block) (dom : Nat → Prop) (dirs : List Nat)
    (d va ppf flags : Nat) (x x' : Xen) : Prop where
  ok : (x.vmmMapPage d va ppf flags) = (x', true)
  mfn : x'.xenMfnList = x.xenMfnList
  pfn : x'.machineToPhysMapping = x.machineToPhysMapping
  frame : ∀ f, x.tableFrame d va = some f → dom f
  pend : x'.Pend dirs
  dir : ∀ d' ∈ dirs, ∀ i < 1024, x'.pde d' i = x.tablePde d va d' i
  entry : ∀ d' ∈ dirs, ∀ va', OwnPde (pdeIndex va') → x'.eff.entry d' va' =
    if Wf.SameEntry x d va d' va' ∧ ¬ x.Stale d va ppf flags then x.mapVal ppf flags
    else x.tableEntry d va va' (x.eff.entry d' va')
  wf : ∃ live', x'.Wf base live' dom dirs

namespace Xen.Wf
variable {base live : List Block} {dom : Nat → Prop} {dirs : List Nat} {x : Xen} {d va : Nat}

theorem mapPageEntry_maps (x : Xen) (d va ppf flags : Nat) :
    (x.mapPageEntry d va ppf flags).xenMfnList = x.xenMfnList ∧
      (x.mapPageEntry d va ppf flags).machineToPhysMapping = x.machineToPhysMapping := by
  unfold Xen.mapPageEntry Xen.vmmQueueMmuUpdate
  simp only
  split
  · split
    · exact ⟨rfl, rfl⟩
    · exact ⟨rfl, rfl⟩
  · exact ⟨rfl, rfl⟩

theorem load_p2v_pde (h : x.Wf base live dom dirs) (hd : d ∈ dirs) (va : Nat) :
    x.load (p2v (vmmGetPde d va)) = x.pde d (pdeIndex va) := by
  rw [h.p2v_pde hd, h.load_pde hd]

/-- a call for an address without a table, for which a frame is taken -/
theorem mapped_new (h : x.Wf base live dom dirs) (hp : x.Pend dirs) (hd : d ∈ dirs)
    (ho : OwnPde (pdeIndex va)) (ppf flags : Nat) (h0 : x.pde d (pdeIndex va) = 0) {z : VmmZone}
    {f : Nat} (e : x.mapPageTable d va = (newTable x z d va f, true))
    (hf : f ∈ allCells pageSize base) (hl : (f, 1) ∉ live) (hz : ZoneInv base ((f, 1) :: live) z)
    (hal : x.vmmPpfAlloc = ({ x with lomem := z }, some f))
    (hs : ¬ UserPde (pdeIndex va) → ∀ d' ∈ dirs, x.pde d' (pdeIndex va) = 0) :
    x.Mapped base dom dirs d va ppf flags ((newTable x z d va f).mapPageEntry d va ppf flags) := by
  have htf : x.tableFrame d va = some f := by
    unfold Xen.tableFrame
    rw [h.load_p2v_pde hd, if_pos h0, hal]
  have hw := h.newTable_wf hp hd h0 hf hl hz hs
  have hne : (newTable x z d va f).pde d (pdeIndex va) ≠ 0 := h.newTable_pde_ne hp hd hf hl
  obtain ⟨w3, p3, ent⟩ := hw.mapPageEntry (Xen.Pend.nil rfl) hd ho hne ppf flags
  obtain ⟨em, ep⟩ := mapPageEntry_maps (newTable x z d va f) d va ppf flags
  refine ⟨?_, em, ep, ?_, p3, ?_, ?_, ⟨_, w3⟩⟩
  · unfold Xen.vmmMapPage
    rw [h.load_p2v_pde hd, if_pos h0, e]
  · intro f' hf'
    rw [htf] at hf'
    cases hf'
    exact h.cell f hf
  · intro d' hd' i hi
    unfold Xen.tablePde
    rw [htf, hw.mapPageEntry_pde (Xen.Pend.nil rfl) hd ho hne ppf flags hd' hi]
    exact newTable_pde z va h hp hd hf hl hd' hi
  · intro d' hd' va' ho'
    have hst : ¬ x.Stale d va ppf flags := fun hst => hst.1 h0
    have hval : (newTable x z d va f).mapVal ppf flags = x.mapVal ppf flags := rfl
    have heff : (newTable x z d va f).eff = newTable x z d va f := Xen.eff_of_nil rfl
    have hse := h.newTable_sameEntry (z := z) hp hd ho h0 hf hl hd' va'
    rw [ent d' hd' va' ho', hval, heff]
    unfold Xen.tableEntry
    rw [htf]
    simp only
    rw [← h.newTable_entry (z := z) hp hd h0 hf hl hd' ho']
    by_cases hsame : SameEntry x d va d' va'
    · by_cases hv : (newTable x z d va f).entry d va = x.mapVal ppf flags
      · rw [if_neg (fun hn => hn.2 hv), (hse.mpr hsame).entry, hv, if_pos ⟨hsame, hst⟩]
      · rw [if_pos ⟨hse.mpr hsame, hv⟩, if_pos ⟨hsame, hst⟩]
    · rw [if_neg (fun hn => hsame (hse.mp hn.1)), if_neg (fun hn => hsame hn.1)]

/-- a call for an address with a table -/
theorem mapped_old (h : x.Wf base live dom dirs) (hp : x.Pend dirs) (hd : d ∈ dirs)
    (ho : OwnPde (pdeIndex va)) (ppf flags : Nat) (h0 : x.pde d (pdeIndex va) ≠ 0) :
    x.Mapped base dom dirs d va ppf flags (x.mapPageEntry d va ppf flags) := by
  have htf : x.tableFrame d va = none := by
    unfold Xen.tableFrame
    rw [h.load_p2v_pde hd, if_neg h0]
  obtain ⟨w3, p3, ent⟩ := h.mapPageEntry hp hd ho h0 ppf flags
  obtain ⟨em, ep⟩ := mapPageEntry_maps x d va ppf flags
  refine ⟨?_, em, ep, ?_, p3, ?_, ?_, ⟨_, w3⟩⟩
  · unfold Xen.vmmMapPage
    rw [h.load_p2v_pde hd, if_neg h0]
  · intro f' hf'
    rw [htf] at hf'
    cases hf'
  · intro d' hd' i hi
    unfold Xen.tablePde
    rw [htf]
    exact h.mapPageEntry_pde hp hd ho h0 ppf flags hd' hi
  · intro d' hd' va' ho'
    rw [ent d' hd' va' ho']
    unfold Xen.tableEntry
    rw [htf]
    simp only
    by_cases hsame : SameEntry x d va d' va'
    · have hpe := h.eff_pde hp hd (pdeIndex_lt va)
      have hpe' := h.eff_pde hp hd' (pdeIndex_lt va)
      have he := (hsame.congr hpe hpe').entry
      by_cases hv : x.entry d va = x.mapVal ppf flags
      · rw [if_neg (fun hn => hn.2 hv), he]
        by_cases hv2 : x.eff.entry d va = x.mapVal ppf flags
        · rw [if_pos ⟨hsame, fun hst => hst.2.2 hv2⟩, hv2]
        · rw [if_neg (fun hn => hn.2 ⟨h0, hv, hv2⟩)]
      · rw [if_pos ⟨hsame, hv⟩, if_pos ⟨hsame, fun hst => hv hst.2.1⟩]
    · rw [if_neg (fun hn => hsame hn.1), if_neg (fun hn => hsame hn.1)]

/-- **one call** for an address of the domain's own -/
theorem mapPage (h : x.Wf base live dom dirs) (hp : x.Pend dirs) (hd : d ∈ dirs)
    (ho : OwnPde (pdeIndex va)) (ppf flags : Nat) (hs : ¬ UserPde (pdeIndex va) →
      x.pde d (pdeIndex va) = 0 → ∀ d' ∈ dirs, x.pde d' (pdeIndex va) = 0) :
    (x.vmmMapPage d va ppf flags = (x, false) ∧ x.tableFrame d va = none) ∨
    ∃ x', x.Mapped base dom dirs d va ppf flags x' := by
  by_cases h0 : x.pde d (pdeIndex va) = 0
  · rcases h.mapPageTable_eq hp hd va with ⟨e, hal⟩ | ⟨z, f, e, hf, hl, hz, hal⟩
    · refine .inl ⟨?_, ?_⟩
      · unfold Xen.vmmMapPage
        rw [h.load_p2v_pde hd, if_pos h0, e]
      · unfold Xen.tableFrame
        rw [h.load_p2v_pde hd, if_pos h0, hal]
    · exact .inr ⟨_, h.mapped_new hp hd ho ppf flags h0 e hf hl hz hal fun hk => hs hk h0⟩
  · exact .inr ⟨_, h.mapped_old hp hd ho ppf flags h0⟩

end Xen.Wf

end Paravirt

import Paravirt.MapLookup

/-!
# Machine pages and pseudo-physical pages

`Mm` and `Xen` both have `vmm_map_page`.  On a user page they do the same: the map from machine pages
to pseudo-physical ones makes of the one state what the other one has.

* `Shows`            the same zone, the same tables, the same mappings;
* `Shows.mapPage`    a call keeps it, and returns the same.
-/

set_option linter.unusedSectionVars false

namespace Paravirt
open Tiling

/-- the user half of the directories, as the kernel sees it on machine memory and without it -/
structure Shows (dirs : List Nat) (x : Xen) (mm : Mm) : Prop where
  lomem : x.lomem = mm.lomem
  table : ∀ d ∈ dirs, ∀ i, UserPde i → (x.pde d i = 0 ↔ mm.word d i = 0)
  mapping : ∀ d ∈ dirs, ∀ va, UserPde (pdeIndex va) → x.vmmGetMapping d va = mm.vmmGetMapping d va

theorem UserPde.ownPde {i : Nat} (h : UserPde i) : OwnPde i := Nat.lt_trans h.2 (by decide)

theorem mappingOf_eq (ppf flags : Nat) : mappingOf ppf flags = entryVal ppf flags := by
  unfold mappingOf entryVal
  rw [Nat.or_comm]

/-! ## the zone and the result -/

section
variable {d va ppf flags : Nat}

theorem Xen.vmmQueueMmuUpdate_lomem (x : Xen) (a v : Nat) :
    (x.vmmQueueMmuUpdate a v).lomem = x.lomem := by
  unfold Xen.vmmQueueMmuUpdate
  simp only
  split
  · rfl
  · rfl

theorem Xen.mapPageEntry_lomem (x : Xen) (d va ppf flags : Nat) :
    (x.mapPageEntry d va ppf flags).lomem = x.lomem := by
  unfold Xen.mapPageEntry
  simp only
  split
  · exact Xen.vmmQueueMmuUpdate_lomem ..
  · rfl

theorem Xen.vmmMapPage_zone (x : Xen) (d va ppf flags : Nat) :
    ((x.vmmMapPage d va ppf flags).2, (x.vmmMapPage d va ppf flags).1.lomem) =
      if x.load (p2v (vmmGetPde d va)) = 0 then
        ((vmmBuddyGetFreePages x.lomem 1).2.isSome, (vmmBuddyGetFreePages x.lomem 1).1)
      else (true, x.lomem) := by
  unfold Xen.vmmMapPage
  split
  · unfold Xen.mapPageTable Xen.vmmPpfAlloc
    rcases vmmBuddyGetFreePages x.lomem 1 with ⟨z, _ | f⟩
    · rfl
    · dsimp only
      rw [Xen.mapPageEntry_lomem]
      show (true, Xen.lomem (Xen.vmmQueueMmuUpdate _ _ _)) = _
      rw [Xen.vmmQueueMmuUpdate_lomem, Xen.vmmQueueMmuUpdate_lomem]
      rfl
  · rw [Xen.mapPageEntry_lomem]

theorem Mm.vmmMapPage_zone (mm : Mm) (d va ppf flags : Nat) :
    ((mm.vmmMapPage d va ppf flags).2, (mm.vmmMapPage d va ppf flags).1.lomem) =
      if mm.word d (pdeIndex va) = 0 then
        ((vmmBuddyGetFreePages mm.lomem 1).2.isSome, (vmmBuddyGetFreePages mm.lomem 1).1)
      else (true, mm.lomem) := by
  unfold Mm.vmmMapPage
  split
  · unfold Mm.mapPageTable Mm.vmmPpfAlloc
    rcases vmmBuddyGetFreePages mm.lomem 1 with ⟨z, _ | f⟩
    · rfl
    · dsimp only
      rw [Mm.mapPageEntry_lomem]
      show (true, Mm.lomem (Mm.vmmQueueMmuUpdate _ _ _)) = _
      rw [Mm.vmmQueueMmuUpdate_lomem, Mm.vmmQueueMmuUpdate_lomem]
      rfl
  · rw [Mm.mapPageEntry_lomem]

end

/-! ## one call -/

section
variable {base live base' live' : List Block} {dom : Nat → Prop} {dirs : List Nat} {x : Xen} {mm : Mm}
  {d va ppf flags : Nat}

/-- a user page is looked up in one directory only, and is no frame of a table -/
theorem Xen.Mapped.getMapping_user {x' : Xen} (hx : x.Mapped base dom dirs d va ppf flags x')
    (h : x.Wf base live dom dirs) (hq : x.queue = []) (hd : d ∈ dirs) (hva : UserPde (pdeIndex va))
    (hppf : ppf = 0 ∨ dom ppf) (hfl : flags < 4096) {d' b : Nat} (hd' : d' ∈ dirs)
    (hb : UserPde (pdeIndex b)) : x'.eff.vmmGetMapping d' b =
      if d' = d ∧ SamePage b va then entryVal ppf flags else x.vmmGetMapping d' b := by
  have hse : Xen.Wf.SameEntry x d va d' b ↔ d' = d ∧ SamePage b va := by
    constructor
    · rintro ⟨hs, rfl | ⟨h0, he⟩⟩
      · exact ⟨rfl, hs⟩
      · have hinj := h.inj d' hd' d hd _ hva.ownPde _ hva.ownPde (by rw [he]; exact h0) h0 (by rw [he])
        exact ⟨hinj.2.resolve_right fun hk => hk hva, hs⟩
    · rintro ⟨rfl, hs⟩
      exact ⟨hs, .inl rfl⟩
  have htab : x.tableMapping d va d' b = x.vmmGetMapping d' b := by
    unfold Xen.tableMapping
    cases htf : x.tableFrame d va with
    | none => rfl
    | some f =>
      have hf := (h.maps.frame f (hx.frame f htf)).not_userPde
      have hns : ¬ SamePage b f := fun hs => hf (hs.1 ▸ hb)
      exact if_neg hns
  rw [hx.getMapping h hq hppf hfl hd' hb.ownPde, if_congr hse rfl rfl, htab, mappingOf_eq]

theorem Mm.vmmGetMapping_samePage (mm : Mm) (d : Nat) {a b : Nat} (h : SamePage a b) :
    mm.vmmGetMapping d a = mm.vmmGetMapping d b := by
  unfold Mm.vmmGetMapping Mm.vmmGetPte
  rw [h.1, h.2]

/-- the tables of the directories after a call -/
theorem Xen.Mapped.dir_eq_zero {x' : Xen} (hx : x.Mapped base dom dirs d va ppf flags x')
    (h : x.Wf base live dom dirs) (hd : d ∈ dirs) {d' i : Nat} (hd' : d' ∈ dirs) (hi : i < 1024) :
    x'.eff.pde d' i = 0 ↔ x.pde d' i = 0 ∧ ¬ (d' = d ∧ i = pdeIndex va) := by
  obtain ⟨live', hw⟩ := hx.wf
  rw [hw.eff_pde hx.pend hd' hi, hx.dir d' hd' i hi]
  unfold Xen.tablePde
  cases htf : x.tableFrame d va with
  | none =>
    -- no frame was needed
    refine ⟨fun e0 => ⟨e0, ?_⟩, And.left⟩
    rintro ⟨rfl, rfl⟩
    have hz := congrArg Prod.fst (x.vmmMapPage_zone d' va ppf flags)
    unfold Xen.tableFrame Xen.vmmPpfAlloc at htf
    rw [hx.ok, h.load_p2v_pde hd, if_pos e0] at hz
    rw [h.load_p2v_pde hd, if_pos e0] at htf
    dsimp only at hz htf
    rw [htf] at hz
    exact nomatch hz
  | some f =>
    have hne : 7 ||| x.machOf f ≠ 0 := by
      intro e7
      have hdiv := (h.maps.pageAddr_or (hx.frame f htf) (show 7 < 4096 by decide)).2
      rw [e7] at hdiv
      exact absurd hdiv (by decide)
    show (if d' = d ∧ i = pdeIndex va then 7 ||| x.machOf f else x.pde d' i) = 0 ↔ _
    by_cases he : d' = d ∧ i = pdeIndex va
    · rw [if_pos he]
      exact ⟨fun e0 => absurd e0 hne, fun hn => absurd he hn.2⟩
    · rw [if_neg he]
      exact (and_iff_left he).symm

/-- **a call** on a user page returns the same in both models, and once the queues are flushed the
states show the same, with both invariants -/
theorem Shows.mapPage (h : Shows dirs x mm) (hx : x.Wf base live dom dirs)
    (hm : MmInv base' live' dirs mm) (hqx : x.queue = []) (hqm : mm.queue = []) (hd : d ∈ dirs)
    (hva : UserPde (pdeIndex va)) (hppf : ppf = 0 ∨ dom ppf) (hfl : flags < 4096)
    (hv : pageAddr (entryVal ppf flags) ≠ 0 → (p2v (pageAddr (entryVal ppf flags)), 1) ∈ live' ∧
      ∀ u, Uses mm.word dirs u (p2v (pageAddr (entryVal ppf flags))) →
        u = .page d (pdeIndex va) (pteIndex va)) :
    ∃ x' mm' ok, x.vmmMapPage d va ppf flags = (x', ok) ∧ mm.vmmMapPage d va ppf flags = (mm', ok) ∧
      Shows dirs x'.vmmFlushMmuUpdateQueue mm'.vmmFlushMmuUpdateQueue ∧
      (∃ live, x'.vmmFlushMmuUpdateQueue.Wf base live dom dirs) ∧
      ∃ live, MmInv base' live dirs mm'.vmmFlushMmuUpdateQueue := by
  have hm0 : mm.eff = mm := Mm.eff_of_nil hqm
  have hx0 : x.eff = x := Xen.eff_of_nil hqx
  have hzone : ((x.vmmMapPage d va ppf flags).2, (x.vmmMapPage d va ppf flags).1.lomem) =
      ((mm.vmmMapPage d va ppf flags).2, (mm.vmmMapPage d va ppf flags).1.lomem) := by
    rw [x.vmmMapPage_zone, mm.vmmMapPage_zone, hx.load_p2v_pde hd, h.lomem,
      if_congr (h.table d hd _ hva) rfl rfl]
  have hret := congrArg Prod.fst hzone
  have hlomem := congrArg Prod.snd hzone
  have hme : MmInv base' live' dirs mm.eff := hm0.symm ▸ hm
  rcases hx.mapPage (Xen.Pend.nil hqx) hd hva.ownPde ppf flags fun hk => absurd hva hk with
    ⟨ex, -⟩ | ⟨x', hmap⟩ <;>
  rcases hme.mapPage_user hd (.nil hqm d []) hva (by simp) ppf flags (hm0.symm ▸ hv) with
    ⟨em, -⟩ | ⟨mm', live₂, em, hinv, -, -, hsame, -, hself, -, -, htab⟩
  · -- no frame for a table
    refine ⟨x, mm, false, ex, em, ?_, ⟨live, ?_⟩, live', ?_⟩
    · show Shows dirs x.eff mm.eff
      rwa [hx0, hm0]
    · show x.eff.Wf base live dom dirs
      rwa [hx0]
    · exact hme
  · rw [ex, em] at hret
    exact nomatch hret
  · rw [hmap.ok, em] at hret
    exact nomatch hret
  · rw [hmap.ok, em] at hlomem
    obtain ⟨live₁, hw⟩ := hmap.wf
    refine ⟨x', mm', true, hmap.ok, em, ⟨hlomem, fun d' hd' i hi => ?_, fun d' hd' b hb => ?_⟩,
      ⟨live₁, hw.eff hmap.pend⟩, live₂, hinv⟩
    · show x'.eff.pde d' i = 0 ↔ mm'.eff.word d' i = 0
      rw [hmap.dir_eq_zero hx hd hd' (Nat.lt_trans hi.ownPde (by decide)), htab d' hd' i, hm0,
        h.table d' hd' i hi]
    · show x'.eff.vmmGetMapping d' b = mm'.eff.vmmGetMapping d' b
      rw [hmap.getMapping_user hx hqx hd hva hppf hfl hd' hb]
      by_cases hs : d' = d ∧ SamePage b va
      · rw [if_pos hs, hs.1, mm'.eff.vmmGetMapping_samePage d hs.2, hself]
      · have hkeep : mm'.eff.vmmGetMapping d' b = mm.eff.vmmGetMapping d' b := by
          refine hsame.mapping d' hd' b hb fun e a ha hba => ?_
          rw [List.mem_singleton.mp ha] at hba
          exact hs ⟨e, hba⟩
        rw [if_neg hs, h.mapping d' hd' b hb, hkeep, hm0]

end

end Paravirt

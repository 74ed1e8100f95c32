import Paravirt.MapBatch

/-!
# Mapping a page and looking it up

* `Xen.lookup`             what `vmm_get_mapping` makes of an entry;
* `Xen.Wf.getMapping`      `vmm_get_mapping` reads the entry of the address;
* `map_page_get_mapping`   every mapping in every directory after one call.
-/

set_option linter.unusedSectionVars false

namespace Paravirt
open Tiling

/-- the machine page of an entry turned back into a pseudo-physical one -/
def Xen.lookup (x : Xen) (e : Nat) : Nat :=
  (if pageAddr e ≠ 0 then x.machToPhys (pageAddr e) else 0) ||| pageDiv e

theorem Xen.lookup_zero (x : Xen) : x.lookup 0 = 0 := by
  have e : pageAddr 0 = 0 := Nat.zero_and _
  unfold Xen.lookup
  rw [e, if_neg (fun hn => hn rfl)]
  rfl

theorem Xen.FrameMaps.lookup {x : Xen} {dom : Nat → Prop} {f flags : Nat} (h : x.FrameMaps dom)
    (hf : dom f) (hfl : flags < 4096) : x.lookup (flags ||| x.machOf f) = v2p f ||| flags := by
  obtain ⟨h1, h2⟩ := h.pageAddr_or hf hfl
  unfold Xen.lookup
  rw [h1, h2, if_pos (h.machOf_pos hf), h.machToPhys_page hf]

namespace Xen.Wf
variable {base live : List Block} {dom : Nat → Prop} {dirs : List Nat} {x : Xen} {d va : Nat}

theorem getMapping (h : x.Wf base live dom dirs) (hd : d ∈ dirs) (ho : OwnPde (pdeIndex va)) :
    x.vmmGetMapping d va = x.lookup (x.entry d va) := by
  unfold Xen.vmmGetMapping
  rw [h.p2v_pde hd, h.load_pde hd]
  by_cases h0 : x.pde d (pdeIndex va) = 0
  · have he : x.entry d va = 0 := if_pos h0
    rw [if_pos h0, he, Xen.lookup_zero]
  · have he : x.entry d va = x.mem (x.slot d va) := if_neg h0
    have hne : x.slot d va ≠ 0 := by
      obtain ⟨t, ht, e, -, -, -⟩ := h.slot_eq hd ho h0
      have := h.maps.machOf_pos ht
      omega
    simp only
    rw [if_neg h0, h.vmmGetPte hd ho h0, if_neg hne, h.load_pte hd ho h0, he]
    rfl

theorem not_stale (hq : x.queue = []) (ppf flags : Nat) : ¬ x.Stale d va ppf flags := by
  rintro ⟨-, h1, h2⟩
  rw [Xen.eff_of_nil hq] at h2
  exact h2 h1

end Xen.Wf

/-- the directories' kernel halves are the same, up to the hypervisor's entries -/
def Xen.SharedKernel (x : Xen) (dirs : List Nat) : Prop :=
  ∀ d ∈ dirs, ∀ d' ∈ dirs, ∀ i, OwnPde i → ¬ UserPde i → x.pde d i = x.pde d' i

/-- a mapping as an unparavirtualised kernel has it; a `NULL` page is no mapping -/
def mappingOf (ppf flags : Nat) : Nat := if ppf ≠ 0 then v2p ppf ||| flags else 0

/-- `va'` in `d'` goes through the entry the call is for: in the same directory, or in a kernel
table the directories share -/
def Xen.Aliases (x : Xen) (d va d' va' : Nat) : Prop :=
  SamePage va' va ∧ (d' = d ∨ ¬ UserPde (pdeIndex va) ∧ x.pde d (pdeIndex va) ≠ 0)

instance (x : Xen) (d va d' va' : Nat) : Decidable (x.Aliases d va d' va') :=
  inferInstanceAs (Decidable (_ ∧ (_ ∨ ¬ _ ∧ _)))

/-- the mapping of `va'` before the call, but for a frame the call takes for a table -/
def Xen.tableMapping (x : Xen) (d va d' va' : Nat) : Nat :=
  match x.tableFrame d va with
  | some f => if SamePage va' f then v2p f ||| pgtabAttribSuRo else x.vmmGetMapping d' va'
  | none => x.vmmGetMapping d' va'

section
variable {base live : List Block} {dom : Nat → Prop} {dirs : List Nat} {x x' : Xen}
  {d d' va va' ppf flags : Nat}

theorem sameEntry_iff_aliases (h : x.Wf base live dom dirs) (hs : x.SharedKernel dirs)
    (hd : d ∈ dirs) (hd' : d' ∈ dirs) (ho : OwnPde (pdeIndex va)) :
    Xen.Wf.SameEntry x d va d' va' ↔ x.Aliases d va d' va' := by
  refine and_congr_right fun _ => ?_
  by_cases e : d' = d
  · simp [e]
  · constructor
    · rintro (e' | ⟨h0, he⟩)
      · exact absurd e' e
      · refine .inr ⟨?_, h0⟩
        have h1 := (h.inj d' hd' d hd _ ho _ ho (by rw [he]; exact h0) h0 (by rw [he])).2
        rcases h1 with e' | hk
        · exact absurd e' e
        · exact hk
    · rintro (e' | ⟨hk, h0⟩)
      · exact absurd e' e
      · exact .inr ⟨h0, (hs d hd d' hd' _ ho hk).symm⟩

/-- what is looked up after a call with an empty queue -/
theorem Xen.Mapped.getMapping (hx : x.Mapped base dom dirs d va ppf flags x')
    (h : x.Wf base live dom dirs) (hq : x.queue = []) (hppf : ppf = 0 ∨ dom ppf)
    (hfl : flags < 4096) (hd' : d' ∈ dirs) (ho' : OwnPde (pdeIndex va')) :
    x'.eff.vmmGetMapping d' va' = if Xen.Wf.SameEntry x d va d' va' then mappingOf ppf flags
      else x.tableMapping d va d' va' := by
  obtain ⟨live', hw⟩ := hx.wf
  have hlook : x'.eff.lookup = x.lookup := by
    have em : x'.eff.machineToPhysMapping = x.machineToPhysMapping := hx.pfn
    unfold Xen.lookup Xen.machToPhys
    rw [em]
  rw [(hw.eff hx.pend).getMapping hd' ho', hlook, hx.entry d' hd' va' ho', Xen.eff_of_nil hq]
  by_cases hse : Xen.Wf.SameEntry x d va d' va'
  · rw [if_pos ⟨hse, Xen.Wf.not_stale hq ppf flags⟩, if_pos hse]
    unfold Xen.mapVal mappingOf
    rcases hppf with rfl | hf
    · rw [if_neg (fun hn => hn rfl), if_neg (fun hn => hn rfl), Xen.lookup_zero]
    · have hne := (h.maps.frame ppf hf).pos
      rw [if_pos hne, if_pos hne, h.maps.physToMach_v2p hf, h.maps.lookup hf hfl]
  · rw [if_neg (fun hn => hse hn.1), if_neg hse]
    unfold Xen.tableEntry Xen.tableMapping
    cases htf : x.tableFrame d va with
    | none => exact (h.getMapping hd' ho').symm
    | some f =>
      by_cases hsf : SamePage va' f
      · simp only
        rw [if_pos hsf, if_pos hsf]
        exact h.maps.lookup (hx.frame f htf) (by decide)
      · simp only
        rw [if_neg hsf, if_neg hsf, h.getMapping hd' ho']

/-- `vmm_map_page` with an empty queue either returns -1 and changes nothing, or, once the queue is
flushed, gives the address its mapping and leaves the others. -/
theorem map_page_get_mapping (ppf flags : Nat) (h : x.Wf base live dom dirs)
    (hs : x.SharedKernel dirs) (hq : x.queue = []) (hd : d ∈ dirs) (ho : OwnPde (pdeIndex va))
    (hppf : ppf = 0 ∨ dom ppf) (hfl : flags < 4096) :
    x.vmmMapPage d va ppf flags = (x, false) ∨
    ∃ x', x.vmmMapPage d va ppf flags = (x', true) ∧
      ∀ d' ∈ dirs, ∀ va', OwnPde (pdeIndex va') →
        x'.vmmFlushMmuUpdateQueue.vmmGetMapping d' va' =
          if x.Aliases d va d' va' then mappingOf ppf flags else x.tableMapping d va d' va' := by
  have hshare : ¬ UserPde (pdeIndex va) → x.pde d (pdeIndex va) = 0 →
      ∀ d' ∈ dirs, x.pde d' (pdeIndex va) = 0 := by
    intro hk h0 d' hd'
    rw [← hs d hd d' hd' _ ho hk, h0]
  rcases h.mapPage (Xen.Pend.nil hq) hd ho ppf flags hshare with ⟨e, -⟩ | ⟨x', hx⟩
  · exact .inl e
  · refine .inr ⟨x', hx.ok, fun d' hd' va' ho' => ?_⟩
    have hget := hx.getMapping h hq hppf hfl hd' ho'
    rwa [if_congr (sameEntry_iff_aliases h hs hd hd' ho) rfl rfl] at hget

end

theorem twoDirs_shared : twoDirs.SharedKernel [0xc0001000, 0xc0003000] := by
  intro d hd d' hd' i hi _
  rw [twoDirs_pde hd hi, twoDirs_pde hd' hi]

/-- a call for a user address, for which a table is set up: the page is mapped in one directory, and
the table's frame becomes read-only -/
theorem map_page_get_mapping_user :
    (twoDirs.vmmMapPage 0xc0001000 0x1000000 0xc0004000 7).2 = true ∧
      ∀ x', (twoDirs.vmmMapPage 0xc0001000 0x1000000 0xc0004000 7).1 = x' →
        x'.vmmFlushMmuUpdateQueue.vmmGetMapping 0xc0001000 0x1000000 = 0x4007 ∧
        x'.vmmFlushMmuUpdateQueue.vmmGetMapping 0xc0003000 0x1000000 = 0 ∧
        x'.vmmFlushMmuUpdateQueue.vmmGetMapping 0xc0003000 0xc0009000 = 0x9001 := by
  rcases map_page_get_mapping 0xc0004000 7 twoDirs_wf twoDirs_shared rfl List.mem_cons_self
    (show OwnPde (pdeIndex 0x1000000) by decide)
    (.inr ⟨⟨by decide, by decide, by decide⟩, by decide⟩) (by decide) with e | ⟨x', e, h⟩
  · exact absurd (congrArg Prod.snd e) (by decide)
  · rw [e]
    refine ⟨rfl, ?_⟩
    rintro _ rfl
    have hmem : 0xc0003000 ∈ [0xc0001000, 0xc0003000] := List.mem_cons_of_mem _ List.mem_cons_self
    rw [h _ List.mem_cons_self _ (by decide), h _ hmem _ (by decide), h _ hmem _ (by decide)]
    decide

/-- a call for a kernel address changes what the OTHER directory maps there -/
theorem map_page_changes_other_dir :
    twoDirs.vmmGetMapping 0xc0003000 0xc0200000 = 0 ∧
      (twoDirs.vmmMapPage 0xc0001000 0xc0200000 0xc0004000 3).2 = true ∧
      (twoDirs.vmmMapPage 0xc0001000 0xc0200000 0xc0004000 3).1.vmmFlushMmuUpdateQueue.vmmGetMapping
        0xc0003000 0xc0200000 = 0x4003 := by
  decide

end Paravirt

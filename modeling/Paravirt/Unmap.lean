import Paravirt.Fault

/-!
# Unmapping an area (kern/vm_area.c: `vm_area_unmap`)

* `unmapPage`       one turn of the loop on a page that is present;
* `Unmapped`        the state after the loop has passed over a list of user pages;
* `unmapLoop_user`  the loop: the pages of the list are gone, everything else is as before;
* `free_serves`     a frame that was given back can be requested again;
* `Unmapped.returned`  the frames given back are those behind the pages of the list.
-/

set_option linter.unusedSectionVars false
set_option linter.unusedVariables false

namespace Paravirt
open Tiling

/-! ## a freed block can be requested -/

/-- the block that is put on a list has the order of the freed block, or a higher one -/
theorem freeLoop_order_ge {base live : List Block} (hb : GoodBase base) (n : Nat) :
    ∀ {z z' : VmmZone} {i node m : Nat}, ZoneInv base ((node, i) :: live) z → z.order node = i →
      freeLoop n i z node = (z', some m) → i ≤ z'.order m := by
  induction n with
  | zero =>
    intro z z' i node m h ho he
    cases he
    exact Nat.le_of_eq ho.symm
  | succ n ih =>
    intro z z' i node m h ho he
    unfold freeLoop at he
    cases hs : scanFreeList i node (z.freeAreaList i).freeList with
    | nothing =>
      rw [hs] at he
      cases he
      exact Nat.le_of_eq ho.symm
    | doubleFree =>
      rw [hs] at he
      cases he
    | merge c x =>
      rw [hs] at he
      obtain ⟨h1, h2⟩ := merge_inv hb h ho hs
      exact (Nat.le_succ i).trans (ih h1 h2 he)

namespace ZoneInv
variable {base live : List Block} {z : VmmZone} {a k : Nat}

/-- the zone has no room for a block of an order past the last free list -/
def Fits (base : List Block) (z : VmmZone) : Prop :=
  (allCells pageSize base).length < 2^(z.maxOrder + 1)

theorem order_le (h : ZoneInv base live z) (hb : GoodBase base) (hf : Fits base z) {b : Block}
    (hm : b ∈ live) : b.2 ≤ z.maxOrder := by
  by_contra hk
  have hlen := h.tiles.length_le (List.mem_append_right _ hm)
  have hpow : 2^(z.maxOrder + 1) ≤ 2^b.2 := Nat.pow_le_pow_right Nat.two_pos (by omega)
  unfold Fits at hf
  omega

/-- **what was freed can be requested again** -/
theorem free_serves (h : ZoneInv base ((a, k) :: live) z) (hb : GoodBase base) (hf : Fits base z) :
    ∃ z' f, vmmBuddyGetFreePages (vmmBuddyFreePages z a k) k = (z', some f) := by
  have hk : k ≤ z.maxOrder := h.order_le hb hf List.mem_cons_self
  obtain ⟨hfree, hmax⟩ := h.free hb (by omega)
  rcases hfree.get hb k with ⟨-, hnil⟩ | ⟨z', f, e, -, -⟩
  · exfalso
    have h1 := h.setOrder hb List.mem_cons_self (fst_mem_cells pageSize (a, k)) k
    obtain ⟨z1, m, j, he, h2, ho, hj, hmax1⟩ := freeLoop_inv hb (z.maxOrder + 1 - k) h1
      (VmmZone.setOrder_self ..) (by rw [VmmZone.setOrder_maxOrder]; omega)
    have hge := freeLoop_order_ge hb _ h1 (VmmZone.setOrder_self ..) he
    have hfit : Fits base z1 := by
      unfold Fits
      rw [hmax1]
      exact hf
    have hle : j ≤ z1.maxOrder := h2.order_le hb hfit List.mem_cons_self
    have hz : vmmBuddyFreePages z a k = z1.pushFront (z1.order m) m := by
      unfold vmmBuddyFreePages
      rw [he]
    rw [hmax, hz, ho] at hnil
    rw [VmmZone.setOrder_maxOrder] at hmax1
    have hmem : m ∈ (z1.pushFront j m).freeList j := by
      unfold VmmZone.freeList VmmZone.pushFront
      dsimp only
      rw [Function.update_self]
      exact List.mem_cons_self
    rw [hnil j (by omega) (by omega)] at hmem
    exact absurd hmem List.not_mem_nil
  · exact ⟨z', f, e⟩

end ZoneInv

/-! ## one page -/

theorem frameAt_eq_none {mm : Mm} {pd a : Nat} (h : pageAddr (mm.vmmGetMapping pd a) = 0) :
    frameAt mm pd a = none := if_pos h

namespace MmInv
variable {base live : List Block} {dirs : List Nat} {mm : Mm} {d a : Nat}

/-- an entry of a user page is no entry of a kernel page -/
theorem mappingAt_setPage_kernel (h : MmInv base live dirs mm) (hd : d ∈ dirs)
    (ha : UserPde (pdeIndex a)) (h0 : mm.word d (pdeIndex a) ≠ 0) (v : Nat) {d' b : Nat}
    (hd' : d' ∈ dirs) (hb : ¬ UserPde (pdeIndex b)) :
    mappingAt (setWord mm.word (tableAt mm.word d (pdeIndex a), pteIndex a) v) d' b =
      mappingAt mm.word d' b := by
  have e1 : setWord mm.word (tableAt mm.word d (pdeIndex a), pteIndex a) v d' = mm.word d' :=
    setWord_table_of_ne _ v (h.dir_ne_table hd' hd ha h0)
  have e2 : tableAt mm.word d' (pdeIndex b) ≠ tableAt mm.word d (pdeIndex a) := by
    intro e
    have hu := Uses.table hd ha h0
    rw [← e] at hu
    exact h.not_uses_ktab hd' hb _ hu
  unfold mappingAt
  unfold tableAt at e1 e2 ⊢
  rw [e1, setWord_table_of_ne _ v e2]

end MmInv

/-- no block is live twice -/
theorem ZoneInv.nodup_live {base live : List Block} {z : VmmZone} (h : ZoneInv base live z)
    (hb : GoodBase base) : live.Nodup := by
  refine (h.live_disjoint hb).imp fun hd e => ?_
  subst e
  exact hd (fst_mem_cells _ _) (fst_mem_cells _ _)

/-- the state after the pages of `l` were unmapped: their frames are live no more -/
structure Unmapped (base live live' : List Block) (dirs : List Nat) (pd : Nat) (l : List Nat)
    (mm mm' : Mm) : Prop where
  ready : Ready base live' dirs mm'
  mem : mm'.mem = mm.mem
  himem : mm'.himem = mm.himem
  maxOrder : mm'.lomem.maxOrder = mm.lomem.maxOrder
  tables : ∀ d ∈ dirs, mm'.word d = mm.word d
  mapping : ∀ d ∈ dirs, ∀ b, ¬ (d = pd ∧ ∃ a ∈ l, SamePage b a) →
    mm'.vmmGetMapping d b = mm.vmmGetMapping d b
  frame : ∀ d ∈ dirs, ∀ b, frameAt mm' d b =
    if d = pd ∧ ∃ a ∈ l, SamePage b a then none else frameAt mm d b
  live : ∀ x, x ∈ live' ↔ x ∈ live ∧ ¬ ∃ a ∈ l, ∃ f, frameAt mm pd a = some f ∧ x = (f, 1)
  serves : ZoneInv.Fits base mm.lomem →
    CanServe 1 mm.lomem ∨ (∃ a ∈ l, frameAt mm pd a ≠ none) → CanServe 1 mm'.lomem

section
variable {base live : List Block} {dirs : List Nat} {mm : Mm} {pd a f : Nat}

theorem table_of_frameAt (hd : pd ∈ dirs) (ha : UserPde (pdeIndex a)) (hf : frameAt mm pd a = some f) :
    mm.word pd (pdeIndex a) ≠ 0 := by
  cases MmInv.uses_of_frameAt hd ha hf with
  | page _ _ h0 _ => exact h0

/-- the entry of a mapped page is cleared -/
def Mm.clearPage (mm : Mm) (pd a : Nat) : Mm :=
  { mm with word := setWord mm.word (tableAt mm.word pd (pdeIndex a), pteIndex a) 0 }

/-- a page is mapped to nothing, and the queue is flushed -/
theorem vmmMapPage_zero (h : Ready base live dirs mm) (h0 : mm.word pd (pdeIndex a) ≠ 0) :
    (mm.vmmMapPage pd a 0 0).1.vmmFlushMmuUpdateQueue = mm.clearPage pd a := by
  unfold Mm.vmmMapPage
  rw [if_neg h0, Mm.flush_eq, Mm.mapPageEntry_eff 0 0 (by rw [h.eff_eq]) (by rw [h.eff_eq]),
    h.eff_eq]
  rfl

/-- then the page is mapped nowhere, and the others where they were -/
theorem mapping_clearPage (h : Ready base live dirs mm) (hd : pd ∈ dirs)
    (ha : UserPde (pdeIndex a)) (h0 : mm.word pd (pdeIndex a) ≠ 0) {d : Nat} (hd' : d ∈ dirs) (b : Nat) :
    (mm.clearPage pd a).vmmGetMapping d b =
      if d = pd ∧ SamePage b a then 0 else mm.vmmGetMapping d b := by
  rw [Mm.vmmGetMapping_eq, Mm.vmmGetMapping_eq]
  by_cases hb : UserPde (pdeIndex b)
  · exact h.inv.mappingAt_setPage hd ha h0 0 hd' hb
  · have hne : ¬ (d = pd ∧ SamePage b a) := by
      rintro ⟨-, hs⟩
      rw [hs.1] at hb
      exact hb ha
    rw [if_neg hne]
    exact h.inv.mappingAt_setPage_kernel hd ha h0 0 hd' hb

/-- nobody uses its frame any more, which goes back -/
theorem ready_clearPage (h : Ready base live dirs mm) (hd : pd ∈ dirs) (ha : UserPde (pdeIndex a))
    (hf : frameAt mm pd a = some f) :
    Ready base (live.erase (f, 1)) dirs ((mm.clearPage pd a).vmmPpfFree f) := by
  have h0 := table_of_frameAt hd ha hf
  have huse := MmInv.uses_of_frameAt hd ha hf
  have hinv : MmInv base live dirs (mm.clearPage pd a) :=
    h.inv.setPage hd ha h0 (pteIndex a) (v := 0) fun hne => absurd rfl hne
  have hgone : ∀ u, ¬ Uses (mm.clearPage pd a).word dirs u f := by
    intro u hu
    rcases h.inv.uses_setPage hd ha h0 (pteIndex a) 0 hu with ⟨-, hne, -⟩ | ⟨hne, hold⟩
    · exact hne rfl
    · exact hne (h.inv.inj u _ f hold huse)
  have hready : Ready base live dirs (mm.clearPage pd a) := ⟨hinv, h.queue⟩
  have hfree := (hready.eff_eq.symm ▸ hinv).free (h.inv.live_of_use _ _ huse)
    (hready.eff_eq.symm ▸ hgone)
  refine ⟨?_, h.queue⟩
  convert hfree using 1
  exact (Mm.eff_of_nil (by exact h.queue)).symm

/-- **one page is unmapped and its frame given back** -/
theorem unmapPage (h : Ready base live dirs mm) (hd : pd ∈ dirs) (ha : UserPde (pdeIndex a))
    (hf : frameAt mm pd a = some f) :
    Unmapped base live (live.erase (f, 1)) dirs pd [a] mm
      ((mm.vmmMapPage pd a 0 0).1.vmmFlushMmuUpdateQueue.vmmPpfFree f) := by
  have h0 := table_of_frameAt hd ha hf
  have hlive : (f, 1) ∈ live := h.inv.live_of_use _ _ (MmInv.uses_of_frameAt hd ha hf)
  have hz := h.inv.zone.perm (List.perm_cons_erase hlive)
  have hm : ∀ d ∈ dirs, ∀ b, ((mm.clearPage pd a).vmmPpfFree f).vmmGetMapping d b
      = if d = pd ∧ SamePage b a then 0 else mm.vmmGetMapping d b :=
    fun d hd' b => mapping_clearPage h hd ha h0 hd' b
  rw [vmmMapPage_zero h h0]
  constructor
  case ready => exact ready_clearPage h hd ha hf
  case mem => rfl
  case himem => rfl
  case maxOrder => exact (hz.free h.inv.good (Nat.le_add_left 1 _)).2
  case tables =>
    intro d hd'
    exact setWord_table_of_ne _ 0 (h.inv.dir_ne_table hd' hd ha h0)
  case mapping =>
    intro d hd' b hne
    rw [hm d hd' b, if_neg fun hc => hne ⟨hc.1, a, List.mem_singleton_self a, hc.2⟩]
  case frame =>
    intro d hd' b
    have hiff : (d = pd ∧ ∃ x ∈ [a], SamePage b x) ↔ d = pd ∧ SamePage b a := by
      simp only [List.mem_singleton, exists_eq_left]
    rw [if_congr hiff rfl rfl]
    unfold frameAt
    rw [hm d hd' b]
    by_cases hc : d = pd ∧ SamePage b a
    · rw [if_pos hc, if_pos hc]
      rfl
    · rw [if_neg hc, if_neg hc]
  case live =>
    intro x
    rw [(h.inv.zone.nodup_live h.inv.good).mem_erase_iff]
    constructor
    · rintro ⟨hne, hx⟩
      refine ⟨hx, ?_⟩
      rintro ⟨y, hy, g, hg, rfl⟩
      rw [List.mem_singleton.mp hy, hf] at hg
      cases hg
      exact hne rfl
    · rintro ⟨hx, hne⟩
      exact ⟨fun e => hne ⟨a, List.mem_singleton_self a, f, hf, e⟩, hx⟩
  case serves =>
    intro hfit _
    obtain ⟨z', g, e⟩ := hz.free_serves h.inv.good hfit
    exact ⟨z', g, e, trivial⟩

theorem Unmapped.nil (h : Ready base live dirs mm) : Unmapped base live live dirs pd [] mm mm where
  ready := h
  mem := rfl
  himem := rfl
  maxOrder := rfl
  tables _ _ := rfl
  mapping _ _ _ _ := rfl
  frame d _ b := by
    rw [if_neg]
    rintro ⟨-, x, hx, -⟩
    exact absurd hx List.not_mem_nil
  live x := by
    refine ⟨fun hx => ⟨hx, ?_⟩, fun hx => hx.1⟩
    rintro ⟨y, hy, -⟩
    exact absurd hy List.not_mem_nil
  serves _ := by
    rintro (hc | ⟨x, hx, -⟩)
    · exact hc
    · exact absurd hx List.not_mem_nil

theorem Unmapped.frame_of_ne {live' : List Block} {mm' : Mm} {b : Nat}
    (h : Unmapped base live live' dirs pd [a] mm mm') (hd : pd ∈ dirs) (hs : ¬ SamePage b a) :
    frameAt mm' pd b = frameAt mm pd b := by
  rw [h.frame pd hd, if_neg]
  rintro ⟨-, x, hx, hs'⟩
  rw [List.mem_singleton.mp hx] at hs'
  exact hs hs'

/-- **the page of `a`, then those of `l`** -/
theorem Unmapped.cons {live1 live2 l : _} {m1 m2 : Mm}
    (h1 : Unmapped base live live1 dirs pd [a] mm m1)
    (h2 : Unmapped base live1 live2 dirs pd l m1 m2) (hd : pd ∈ dirs) :
    Unmapped base live live2 dirs pd (a :: l) mm m2 where
  ready := h2.ready
  mem := h2.mem.trans h1.mem
  himem := h2.himem.trans h1.himem
  maxOrder := h2.maxOrder.trans h1.maxOrder
  tables d hd' := (h2.tables d hd').trans (h1.tables d hd')
  mapping d hd' b hne := by
    rw [h2.mapping d hd' b, h1.mapping d hd' b]
    · rintro ⟨e, x, hx, hs⟩
      rw [List.mem_singleton.mp hx] at hs
      exact hne ⟨e, a, List.mem_cons_self, hs⟩
    · rintro ⟨e, x, hx, hs⟩
      exact hne ⟨e, x, List.mem_cons_of_mem _ hx, hs⟩
  frame d hd' b := by
    rw [h2.frame d hd', h1.frame d hd']
    by_cases hl : d = pd ∧ ∃ x ∈ l, SamePage b x
    · obtain ⟨e, x, hx, hs⟩ := hl
      rw [if_pos ⟨e, x, hx, hs⟩, if_pos ⟨e, x, List.mem_cons_of_mem _ hx, hs⟩]
    · rw [if_neg hl]
      refine if_congr ?_ rfl rfl
      constructor
      · rintro ⟨e, x, hx, hs⟩
        rw [List.mem_singleton.mp hx] at hs
        exact ⟨e, a, List.mem_cons_self, hs⟩
      · rintro ⟨e, x, hx, hs⟩
        rcases List.mem_cons.mp hx with rfl | hx
        · exact ⟨e, x, List.mem_singleton_self x, hs⟩
        · exact absurd ⟨e, x, hx, hs⟩ hl
  live x := by
    rw [h2.live, h1.live]
    constructor
    · rintro ⟨⟨hx, hna⟩, hnl⟩
      refine ⟨hx, ?_⟩
      rintro ⟨y, hy, f, hf, rfl⟩
      by_cases hs : SamePage y a
      · rw [hs.frameAt] at hf
        exact hna ⟨a, List.mem_singleton_self a, f, hf, rfl⟩
      · rcases List.mem_cons.mp hy with rfl | hy
        · exact hs (SamePage.refl y)
        · refine hnl ⟨y, hy, f, ?_, rfl⟩
          rw [h1.frame_of_ne hd hs]
          exact hf
    · rintro ⟨hx, hn⟩
      refine ⟨⟨hx, ?_⟩, ?_⟩
      · rintro ⟨y, hy, f, hf, e⟩
        rw [List.mem_singleton.mp hy] at hf
        exact hn ⟨a, List.mem_cons_self, f, hf, e⟩
      · rintro ⟨y, hy, f, hf, e⟩
        refine hn ⟨y, List.mem_cons_of_mem _ hy, f, ?_, e⟩
        rw [h1.frame pd hd] at hf
        split at hf
        · cases hf
        · exact hf
  serves hfit hc := by
    have hfit1 : ZoneInv.Fits base m1.lomem := by
      unfold ZoneInv.Fits
      rw [h1.maxOrder]
      exact hfit
    refine h2.serves hfit1 ?_
    rcases hc with hc | ⟨x, hx, hf⟩
    · exact .inl (h1.serves hfit (.inl hc))
    · by_cases hs : SamePage x a
      · rw [hs.frameAt] at hf
        exact .inl (h1.serves hfit (.inr ⟨a, List.mem_singleton_self a, hf⟩))
      · rcases List.mem_cons.mp hx with rfl | hx
        · exact absurd (SamePage.refl x) hs
        · refine .inr ⟨x, hx, ?_⟩
          rw [h1.frame_of_ne hd hs]
          exact hf

/-- a page that is not present is passed over -/
theorem Unmapped.skip {live' l : _} {mm' : Mm} (h : Unmapped base live live' dirs pd l mm mm')
    (h0 : frameAt mm pd a = none) : Unmapped base live live' dirs pd (a :: l) mm mm' :=
  { h with
    mapping := by
      intro d hd b hne
      refine h.mapping d hd b ?_
      rintro ⟨e, x, hx, hs⟩
      exact hne ⟨e, x, List.mem_cons_of_mem _ hx, hs⟩
    frame := by
      intro d hd b
      rw [h.frame d hd]
      by_cases hl : d = pd ∧ ∃ x ∈ l, SamePage b x
      · obtain ⟨e, x, hx, hs⟩ := hl
        rw [if_pos ⟨e, x, hx, hs⟩, if_pos ⟨e, x, List.mem_cons_of_mem _ hx, hs⟩]
      · rw [if_neg hl]
        by_cases hc : d = pd ∧ ∃ x ∈ a :: l, SamePage b x
        · rw [if_pos hc]
          obtain ⟨rfl, x, hx, hs⟩ := hc
          rcases List.mem_cons.mp hx with rfl | hx
          · rw [hs.frameAt]
            exact h0
          · exact absurd ⟨rfl, x, hx, hs⟩ hl
        · rw [if_neg hc]
    live := by
      intro x
      rw [h.live]
      refine and_congr_right fun _ => not_congr ⟨?_, ?_⟩
      · rintro ⟨y, hy, hf⟩
        exact ⟨y, List.mem_cons_of_mem _ hy, hf⟩
      · rintro ⟨y, hy, f, hf, e⟩
        rcases List.mem_cons.mp hy with rfl | hy
        · rw [h0] at hf
          cases hf
        · exact ⟨y, hy, f, hf, e⟩
    serves := by
      rintro hfit (hc | ⟨x, hx, hf⟩)
      · exact h.serves hfit (.inl hc)
      · rcases List.mem_cons.mp hx with rfl | hx
        · exact absurd h0 hf
        · exact h.serves hfit (.inr ⟨x, hx, hf⟩) }

/-- **the loop of `vm_area_unmap` over user pages** -/
theorem unmapLoop_user {type : VmaType} (ht : type ≠ .kernelStack) (hd : pd ∈ dirs) (l : List Nat) :
    ∀ {live : List Block} {mm : Mm}, Ready base live dirs mm → (∀ a ∈ l, UserPde (pdeIndex a)) →
      ∃ live', Unmapped base live live' dirs pd l mm (vmAreaUnmapLoop pd type l mm) := by
  induction l with
  | nil => intro live mm h _; exact ⟨live, .nil h⟩
  | cons a l ih =>
    intro live mm h hu
    have ha := hu a List.mem_cons_self
    have hl : ∀ x ∈ l, UserPde (pdeIndex x) := fun x hx => hu x (List.mem_cons_of_mem _ hx)
    unfold vmAreaUnmapLoop
    dsimp only
    by_cases h0 : pageAddr (mm.vmmGetMapping pd a) = 0
    · rw [if_neg fun hc => hc.1 h0]
      obtain ⟨live', h'⟩ := ih h hl
      exact ⟨live', h'.skip (frameAt_eq_none h0)⟩
    · have hf : frameAt mm pd a = some (p2v (pageAddr (mm.vmmGetMapping pd a))) := if_neg h0
      rw [if_pos ⟨h0, ht⟩]
      have h1 := unmapPage h hd ha hf
      obtain ⟨live', h'⟩ := ih h1.ready hl
      exact ⟨live', h1.cons h' hd⟩

end

theorem unmapLoop_append (pd : Nat) (type : VmaType) (l l' : List Nat) :
    ∀ mm : Mm, vmAreaUnmapLoop pd type (l ++ l') mm =
      vmAreaUnmapLoop pd type l' (vmAreaUnmapLoop pd type l mm) := by
  induction l with
  | nil => exact fun mm => rfl
  | cons a l ih =>
    intro mm
    rw [List.cons_append, vmAreaUnmapLoop, vmAreaUnmapLoop]
    split
    · exact ih _
    · exact ih _

/-- only a kernel stack is treated in another way -/
theorem unmapLoop_type (pd : Nat) {type type' : VmaType} (h : type ≠ .kernelStack)
    (h' : type' ≠ .kernelStack) (l : List Nat) :
    ∀ mm : Mm, vmAreaUnmapLoop pd type l mm = vmAreaUnmapLoop pd type' l mm := by
  induction l with
  | nil => exact fun mm => rfl
  | cons a l ih =>
    intro mm
    unfold vmAreaUnmapLoop
    dsimp only
    by_cases h0 : pageAddr (mm.vmmGetMapping pd a) = 0
    · rw [if_neg fun hc => hc.1 h0, if_neg fun hc => hc.1 h0]
      exact ih mm
    · rw [if_pos ⟨h0, h⟩, if_pos ⟨h0, h'⟩]
      exact ih _

/-- areas unmapped one after the other -/
theorem foldl_unmapLoop {pd : Nat} {free : Mm → VmArea → Mm} {vmas : List VmArea}
    (h : ∀ v ∈ vmas, ∀ mm, free mm v =
      vmAreaUnmapLoop pd .file (vmPages v.startAddress v.size) mm) :
    ∀ mm, vmas.foldl free mm =
      vmAreaUnmapLoop pd .file (vmas.flatMap fun v => vmPages v.startAddress v.size) mm := by
  induction vmas with
  | nil => exact fun mm => rfl
  | cons v vmas ih =>
    intro mm
    rw [List.foldl_cons, List.flatMap_cons, unmapLoop_append, h v List.mem_cons_self]
    exact ih (fun w hw => h w (List.mem_cons_of_mem _ hw)) _

/-! ## what goes back to the zone -/

/-- a page of the zone is free if and only if it is in no live block -/
theorem ZoneInv.mem_free_iff {base live : List Block} {z : VmmZone} (h : ZoneInv base live z)
    (hb : GoodBase base) {c : Nat} : c ∈ allCells pageSize z.freeBlocks ↔
      c ∈ allCells pageSize base ∧ c ∉ allCells pageSize live := by
  have hmem : c ∈ allCells pageSize base ↔
      c ∈ allCells pageSize z.freeBlocks ∨ c ∈ allCells pageSize live := by
    rw [← List.mem_append, ← allCells_append]
    exact (List.Perm.mem_iff h.tiles).symm
  have hdisj : (allCells pageSize z.freeBlocks).Disjoint (allCells pageSize live) := by
    have hn := h.tiles.nodup hb.nodup
    rw [allCells_append] at hn
    exact (List.nodup_append'.mp hn).2.2
  rw [hmem]
  constructor
  · exact fun hc => ⟨.inl hc, fun hl => hdisj hc hl⟩
  · rintro ⟨hc | hc, hl⟩
    · exact hc
    · exact absurd hc hl

/-- **the frames given back are those behind the pages unmapped** -/
theorem Unmapped.returned {base live live' : List Block} {dirs l : List Nat} {pd : Nat}
    {mm mm' : Mm} {taken : List (Nat × Nat)} (hu : Unmapped base live live' dirs pd l mm mm')
    (h : Ready base live dirs mm)
    (ht : ∀ x : Block, (∃ a ∈ l, ∃ f, frameAt mm pd a = some f ∧ x = (f, 1)) ↔
      ∃ p ∈ taken, x = (p.2, 1))
    (hlive : ∀ p ∈ taken, (p.2, 1) ∈ live) {c : Nat} :
    c ∈ allCells pageSize mm'.lomem.freeBlocks ↔
      c ∈ allCells pageSize mm.lomem.freeBlocks ∨ ∃ p ∈ taken, c ∈ cells pageSize (p.2, 1) := by
  have hgood := h.inv.good
  rw [hu.ready.inv.zone.mem_free_iff hgood, h.inv.zone.mem_free_iff hgood]
  have hlive' : ∀ x, x ∈ live' ↔ x ∈ live ∧ ¬ ∃ p ∈ taken, x = (p.2, 1) := fun x => by
    rw [hu.live, ht x]
  constructor
  · rintro ⟨hc, hn⟩
    by_cases hl : c ∈ allCells pageSize live
    · obtain ⟨x, hx, hcx⟩ := mem_allCells.mp hl
      by_cases hp : ∃ p ∈ taken, x = (p.2, 1)
      · obtain ⟨p, hp, rfl⟩ := hp
        exact .inr ⟨p, hp, hcx⟩
      · exact absurd (mem_allCells.mpr ⟨x, (hlive' x).mpr ⟨hx, hp⟩, hcx⟩) hn
    · exact .inl ⟨hc, hl⟩
  · rintro (⟨hc, hl⟩ | ⟨p, hp, hcp⟩)
    · refine ⟨hc, fun hl' => hl ?_⟩
      obtain ⟨x, hx, hcx⟩ := mem_allCells.mp hl'
      exact mem_allCells.mpr ⟨x, ((hlive' x).mp hx).1, hcx⟩
    · have hpl := hlive p hp
      refine ⟨?_, fun hl' => ?_⟩
      · exact (List.Perm.mem_iff h.inv.zone.tiles).mp
          (mem_allCells.mpr ⟨_, List.mem_append_right _ hpl, hcp⟩)
      · obtain ⟨x, hx, hcx⟩ := mem_allCells.mp hl'
        obtain ⟨hxl, hno⟩ := (hlive' x).mp hx
        -- two live blocks have no page in common
        have : Std.Symm fun b c : Block => (cells pageSize b).Disjoint (cells pageSize c) :=
          ⟨fun _ _ hd => List.disjoint_symm hd⟩
        by_cases e : x = (p.2, 1)
        · exact hno ⟨p, hp, e⟩
        · exact (h.inv.zone.live_disjoint hgood).forall hxl hpl e hcx hcp

end Paravirt

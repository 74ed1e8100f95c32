import Paravirt.MmInv

/-!
# What vmm_map_page does

Within one operation updates may be pending, all of them for entries of one directory's tables
(`Pending mm d done`: for the pages of the addresses `done`).  The entry of a page that is not among
them can be read from memory.

* `mappingAt`          `vmm_get_mapping` as a function of the table words;
* `mapPage_user`       `vmm_map_page` on a user page: either no page table could be allocated and
                       nothing happened, or the page's entry is set and no other entry changes.
-/

set_option linter.unusedSectionVars false
set_option linter.unusedVariables false

namespace Paravirt
open Tiling

/-! ## reading entries -/

def mappingAt (w : Nat → Nat → Nat) (d va : Nat) : Nat :=
  if w d (pdeIndex va) = 0 then 0 else w (tableAt w d (pdeIndex va)) (pteIndex va)

theorem Mm.vmmGetMapping_eq (mm : Mm) (d va : Nat) :
    mm.vmmGetMapping d va = mappingAt mm.word d va := rfl

theorem Mm.vmmGetPte_eq (mm : Mm) (d va : Nat) :
    mm.vmmGetPte d va = (tableAt mm.word d (pdeIndex va), pteIndex va) := rfl

/-- two addresses in one page -/
def SamePage (a b : Nat) : Prop := pdeIndex a = pdeIndex b ∧ pteIndex a = pteIndex b

instance (a b : Nat) : Decidable (SamePage a b) := inferInstanceAs (Decidable (_ ∧ _))

theorem SamePage.refl (a : Nat) : SamePage a a := ⟨rfl, rfl⟩

theorem SamePage.symm {a b : Nat} (h : SamePage a b) : SamePage b a := ⟨h.1.symm, h.2.symm⟩

theorem SamePage.trans {a b c : Nat} (h : SamePage a b) (h' : SamePage b c) : SamePage a c :=
  ⟨h.1.trans h'.1, h.2.trans h'.2⟩

theorem IsFrame.entryVal {f : Nat} (h : IsFrame f) (flags : Nat) :
    entryVal f flags = flags ||| Paravirt.v2p f := by
  unfold Paravirt.entryVal
  rw [if_pos h.pos]

namespace MmInv
variable {base live : List Block} {dirs : List Nat} {mm : Mm}

/-- a page written outside all tables in use changes no user mapping -/
theorem mappingAt_setUnused {w w' : Nat → Nat → Nat} {t : Nat}
    (ht : ∀ u, ¬ Uses w dirs u t) (hw : ∀ s, s ≠ t → w' s = w s) {d va : Nat} (hd : d ∈ dirs)
    (hva : UserPde (pdeIndex va)) : mappingAt w' d va = mappingAt w d va := by
  have e1 : w' d = w d := hw d fun e => ht (.dir d) (by rw [← e]; exact .dir hd)
  unfold mappingAt tableAt
  rw [e1]
  split
  · rfl
  · rename_i h0
    have hne : p2v (pageAddr (w d (pdeIndex va))) ≠ t := fun e =>
      ht (.table d (pdeIndex va)) (by rw [← e]; exact .table hd hva h0)
    rw [hw _ hne]

theorem mappingAt_setPage (h : MmInv base live dirs mm) {d va : Nat} (hd : d ∈ dirs)
    (hva : UserPde (pdeIndex va)) (h0 : mm.word d (pdeIndex va) ≠ 0) (v : Nat) {d' b : Nat}
    (hd' : d' ∈ dirs) (hb : UserPde (pdeIndex b)) :
    mappingAt (setWord mm.word (tableAt mm.word d (pdeIndex va), pteIndex va) v) d' b =
      if d' = d ∧ SamePage b va then v else mappingAt mm.word d' b := by
  have e1 : setWord mm.word (tableAt mm.word d (pdeIndex va), pteIndex va) v d' = mm.word d' :=
    setWord_table_of_ne _ v (h.dir_ne_table hd' hd hva h0)
  unfold mappingAt
  have e2 : tableAt (setWord mm.word (tableAt mm.word d (pdeIndex va), pteIndex va) v) d'
      (pdeIndex b) = tableAt mm.word d' (pdeIndex b) := by
    unfold tableAt at e1 ⊢
    rw [e1]
  rw [e1, e2]
  by_cases hc : d' = d ∧ SamePage b va
  · obtain ⟨rfl, hpd, hpt⟩ := hc
    have hc' : d' = d' ∧ SamePage b va := ⟨rfl, hpd, hpt⟩
    rw [if_pos hc', hpd, hpt, if_neg h0]
    exact setWord_self mm.word (tableAt mm.word d' (pdeIndex va), pteIndex va) v
  · rw [if_neg hc]
    split
    · rfl
    · rename_i h0'
      refine setWord_of_ne _ v fun e => hc ?_
      have et : tableAt mm.word d' (pdeIndex b) = tableAt mm.word d (pdeIndex va) :=
        congrArg Prod.fst e
      have h1 := Uses.table hd' hb h0'
      rw [et] at h1
      have h2 := h.inj _ _ _ h1 (.table hd hva h0)
      injection h2 with h3 h4
      exact ⟨h3, h4, congrArg Prod.snd e⟩

theorem mappingAt_newTable (h : MmInv base live dirs mm) {d i pt e : Nat} (hd : d ∈ dirs)
    (h0 : mm.word d i = 0) (hfresh : ∀ u, ¬ Uses mm.word dirs u pt)
    (he : p2v (pageAddr e) = pt) {d' b : Nat} (hd' : d' ∈ dirs) (hb : UserPde (pdeIndex b)) :
    mappingAt (setWord (Function.update mm.word pt fun _ => 0) (d, i) e) d' b =
      mappingAt mm.word d' b := by
  have hdpt : ∀ x ∈ dirs, x ≠ pt := fun x hx e => hfresh (.dir x) (by rw [← e]; exact .dir hx)
  by_cases heq : (d', pdeIndex b) = (d, i)
  · cases heq
    have ew : setWord (Function.update mm.word pt fun _ => 0) (d, pdeIndex b) e d (pdeIndex b) = e :=
      setWord_self _ (d, pdeIndex b) e
    have et : setWord (Function.update mm.word pt fun _ => 0) (d, pdeIndex b) e pt = fun _ => 0 := by
      rw [setWord_table_of_ne _ e (hdpt d hd).symm, Function.update_self]
    unfold mappingAt tableAt
    rw [ew, he, et, if_pos h0]
    split <;> rfl
  · have ew : setWord (Function.update mm.word pt fun _ => 0) (d, i) e d' (pdeIndex b)
        = mm.word d' (pdeIndex b) := by
      rw [setWord_of_ne _ e heq, Function.update_of_ne (hdpt d' hd')]
    unfold mappingAt tableAt
    rw [ew]
    split
    · rfl
    · rename_i h0'
      have hu := Uses.table hd' hb h0'
      have hne : p2v (pageAddr (mm.word d' (pdeIndex b))) ≠ d := fun e =>
        h.dir_ne_table hd hd' hb h0' e.symm
      have hne' : p2v (pageAddr (mm.word d' (pdeIndex b))) ≠ pt := fun e =>
        hfresh _ (by rw [← e]; exact hu)
      rw [setWord_table_of_ne _ e hne, Function.update_of_ne hne']

/-- a mapped user page is in use -/
theorem uses_of_mapping {d va : Nat} {w : Nat → Nat → Nat} (hd : d ∈ dirs)
    (hva : UserPde (pdeIndex va)) (h0 : pageAddr (mappingAt w d va) ≠ 0) :
    Uses w dirs (.page d (pdeIndex va) (pteIndex va)) (p2v (pageAddr (mappingAt w d va))) := by
  unfold mappingAt at h0 ⊢
  split at h0
  · exact absurd (show pageAddr 0 = 0 by decide) h0
  · rename_i hne
    rw [if_neg hne]
    exact .page hd hva hne h0

end MmInv

/-! ## pending updates -/

def Pending (mm : Mm) (d : Nat) (done : List Nat) : Prop :=
  ∀ u ∈ mm.queue, ∃ a ∈ done, mm.eff.word d (pdeIndex a) ≠ 0 ∧ u.1 = mm.eff.vmmGetPte d a

theorem Pending.nil {mm : Mm} (h : mm.queue = []) (d : Nat) (done : List Nat) :
    Pending mm d done := by
  intro u hu
  rw [h] at hu
  exact absurd hu List.not_mem_nil

theorem Pending.eff (mm : Mm) (d : Nat) (done : List Nat) : Pending mm.eff d done :=
  .nil rfl d done

namespace MmInv
variable {base live : List Block} {dirs : List Nat} {mm : Mm} {d : Nat} {done : List Nat}

/-- no update of a directory is pending -/
theorem word_dir (h : MmInv base live dirs mm.eff) (hd : d ∈ dirs) (hp : Pending mm d done)
    {d' : Nat} (hd' : d' ∈ dirs) (i : Nat) : mm.word d' i = mm.eff.word d' i := by
  refine (applyUpdates_of_not_mem mm.word fun u hu e => ?_).symm
  obtain ⟨a, _, h0, ha⟩ := hp u hu
  have et : d' = tableAt mm.eff.word d (pdeIndex a) := by
    rw [e] at ha
    exact congrArg Prod.fst ha
  by_cases hua : UserPde (pdeIndex a)
  · exact h.dir_ne_table hd' hd hua h0 et
  · refine h.not_uses_ktab hd hua (.dir d') ?_
    rw [← et]
    exact .dir hd'

/-- the entry of a page without pending update -/
theorem word_page (h : MmInv base live dirs mm.eff) (hd : d ∈ dirs) (hp : Pending mm d done)
    {va : Nat} (hva : UserPde (pdeIndex va)) (hnd : ∀ a ∈ done, ¬ SamePage a va)
    (h0 : mm.eff.word d (pdeIndex va) ≠ 0) :
    mm.word (tableAt mm.eff.word d (pdeIndex va)) (pteIndex va)
      = mm.eff.word (tableAt mm.eff.word d (pdeIndex va)) (pteIndex va) := by
  refine (applyUpdates_of_not_mem mm.word fun u hu e => ?_).symm
  obtain ⟨a, hmem, h0a, ha⟩ := hp u hu
  rw [e] at ha
  have et : tableAt mm.eff.word d (pdeIndex va) = tableAt mm.eff.word d (pdeIndex a) :=
    congrArg Prod.fst ha
  have ej : pteIndex va = pteIndex a := congrArg Prod.snd ha
  have hu' := Uses.table hd hva h0
  by_cases hua : UserPde (pdeIndex a)
  · rw [et] at hu'
    have h2 := h.inj _ _ _ hu' (.table hd hua h0a)
    injection h2 with _ h4
    exact hnd a hmem ⟨h4.symm, ej.symm⟩
  · rw [et] at hu'
    exact h.not_uses_ktab hd hua _ hu'

end MmInv

/-! ## vmm_map_page -/

theorem IsFrame.not_userPde {f : Nat} (h : IsFrame f) : ¬ UserPde (pdeIndex f) := by
  have h1 := h.base
  have h2 := h.top
  unfold vmmKernelBase at h1
  rw [pdeIndex_eq]
  unfold UserPde
  omega

theorem Mm.mapPageEntry_mem (mm : Mm) (d va ppf flags : Nat) :
    (mm.mapPageEntry d va ppf flags).mem = mm.mem := by
  unfold mapPageEntry
  dsimp only
  split
  · exact vmmQueueMmuUpdate_mem ..
  · rfl

theorem Mm.mapPageEntry_lomem (mm : Mm) (d va ppf flags : Nat) :
    (mm.mapPageEntry d va ppf flags).lomem = mm.lomem := by
  unfold mapPageEntry
  dsimp only
  split
  · exact vmmQueueMmuUpdate_lomem ..
  · rfl

/-- the entry is set, now or at the flush -/
theorem Mm.mapPageEntry_eff {mm : Mm} {d va : Nat} (ppf flags : Nat)
    (h1 : mm.vmmGetPte d va = mm.eff.vmmGetPte d va)
    (h2 : mm.word (mm.eff.vmmGetPte d va).1 (mm.eff.vmmGetPte d va).2
      = mm.eff.word (mm.eff.vmmGetPte d va).1 (mm.eff.vmmGetPte d va).2) :
    (mm.mapPageEntry d va ppf flags).eff =
      { mm.eff with word := setWord mm.eff.word (mm.eff.vmmGetPte d va) (entryVal ppf flags) } := by
  unfold mapPageEntry
  dsimp only
  rw [h1]
  split
  · exact vmmQueueMmuUpdate_eff ..
  · rename_i hne
    have e : mm.eff.word (mm.eff.vmmGetPte d va).1 (mm.eff.vmmGetPte d va).2
        = entryVal ppf flags := by
      rw [← h2]
      exact not_not.mp hne
    rw [setWord_eq_self _ _ e]

theorem Mm.mem_queue_mapPageEntry {mm : Mm} {d va ppf flags : Nat} {u : (Nat × Nat) × Nat}
    (h : u ∈ (mm.mapPageEntry d va ppf flags).queue) : u ∈ mm.queue ∨ u.1 = mm.vmmGetPte d va := by
  unfold mapPageEntry at h
  dsimp only at h
  split at h
  · exact mem_queue_vmmQueueMmuUpdate h
  · exact .inl h

namespace MmInv
variable {base live : List Block} {dirs : List Nat} {mm : Mm} {d : Nat} {done : List Nat}

/-- what an operation on the directory `d` leaves unchanged: memory contents, and the mappings of
all user pages but those of the addresses `except` -/
structure Same (dirs : List Nat) (d : Nat) (except : List Nat) (mm mm' : Mm) : Prop where
  mem : mm'.mem = mm.mem
  mapping : ∀ d' ∈ dirs, ∀ b, UserPde (pdeIndex b) → (d' = d → ∀ a ∈ except, ¬ SamePage b a) →
    mm'.eff.vmmGetMapping d' b = mm.eff.vmmGetMapping d' b

theorem Same.refl (dirs : List Nat) (d : Nat) (except : List Nat) (mm : Mm) :
    Same dirs d except mm mm := ⟨rfl, fun _ _ _ _ _ => rfl⟩

theorem Same.trans {e1 e2 : List Nat} {m1 m2 m3 : Mm} (h1 : Same dirs d e1 m1 m2)
    (h2 : Same dirs d e2 m2 m3) : Same dirs d (e1 ++ e2) m1 m3 := by
  refine ⟨h2.mem.trans h1.mem, fun d' hd' b hb hne => ?_⟩
  rw [h2.mapping d' hd' b hb fun e a ha => hne e a (List.mem_append_right _ ha)]
  exact h1.mapping d' hd' b hb fun e a ha => hne e a (List.mem_append_left _ ha)

theorem Same.weaken {e1 e2 : List Nat} {m1 m2 : Mm} (h : Same dirs d e1 m1 m2)
    (hs : ∀ a ∈ e1, a ∈ e2) : Same dirs d e2 m1 m2 :=
  ⟨h.mem, fun d' hd' b hb hne => h.mapping d' hd' b hb fun e a ha => hne e a (hs a ha)⟩

/-- the directories have the tables they had, and `d` one for the address `va` -/
def Tabled (dirs : List Nat) (d va : Nat) (mm mm' : Mm) : Prop :=
  ∀ d' ∈ dirs, ∀ i, mm'.eff.word d' i = 0 ↔ mm.eff.word d' i = 0 ∧ ¬ (d' = d ∧ i = pdeIndex va)

theorem Tabled.set {mm' : Mm} {va : Nat} (h : Tabled dirs d va mm mm') (hd : d ∈ dirs) :
    mm'.eff.word d (pdeIndex va) ≠ 0 := fun e => ((h d hd _).mp e).2 ⟨rfl, rfl⟩

theorem Tabled.keep {mm' : Mm} {va : Nat} (h : Tabled dirs d va mm mm') {d' : Nat} (hd' : d' ∈ dirs)
    (i : Nat) (hi : mm.eff.word d' i ≠ 0) : mm'.eff.word d' i ≠ 0 :=
  fun e => hi ((h d' hd' i).mp e).1

/-- the tables once the cleared page `pt` is marked read-only and entered in the directory -/
def tableWord (w : Nat → Nat → Nat) (d va pt : Nat) : Nat → Nat → Nat :=
  setWord (Function.update (setWord w (tableAt w d (pdeIndex pt), pteIndex pt)
    (pgtabAttribSuRo ||| pgFlagPresent ||| v2p pt)) pt fun _ => 0) (d, pdeIndex va)
    (pgtabAttribUsrRw ||| pgFlagPresent ||| v2p pt)

section
variable {pt va : Nat}

/-- a kernel page table is no frame of the zone -/
theorem ktab_ne_frame (h : MmInv base live dirs mm) (hd : d ∈ dirs)
    (hb : pt ∈ allCells pageSize base) {i : Nat} (hi : ¬ UserPde i) : tableAt mm.word d i ≠ pt := by
  intro e
  have e1 : tableAt mm.word mm.kernelPageDir i = tableAt mm.word d i := by
    unfold tableAt
    rw [h.kdir d hd i hi]
  refine (h.ktab i hi).1 ?_
  rw [e1, e]
  exact hb

/-- nothing is pending for a page that is not in use -/
theorem queue_ne_frame (h : MmInv base live dirs mm.eff) (hd : d ∈ dirs) (hp : Pending mm d done)
    (hb : pt ∈ allCells pageSize base) (hu : ∀ u, ¬ Uses mm.eff.word dirs u pt) :
    ∀ u ∈ mm.queue, u.1.1 ≠ pt := by
  intro u hmem
  obtain ⟨a, _, ha0, ha⟩ := hp u hmem
  rw [ha]
  show tableAt mm.eff.word d (pdeIndex a) ≠ pt
  by_cases hua : UserPde (pdeIndex a)
  · exact fun e => hu _ (by rw [← e]; exact .table hd hua ha0)
  · exact h.ktab_ne_frame hd hb hua

/-- both updates are made when the queue is flushed -/
theorem mapPageTable_eq (h : MmInv base live dirs mm.eff) (hd : d ∈ dirs) (hp : Pending mm d done)
    {z : VmmZone} (e : mm.vmmPpfAlloc = ({ mm with lomem := z }, some pt)) (hf : IsFrame pt)
    (hb : pt ∈ allCells pageSize base) (hu : ∀ u, ¬ Uses mm.eff.word dirs u pt) (va : Nat) :
    mm.mapPageTable d va =
      ({ mm with lomem := z, word := tableWord mm.eff.word d va pt, queue := [] }, true) := by
  have hks := h.ktab_ne_frame hd hb hf.not_userPde
  have hdpt : d ≠ pt := fun e => hu (.dir d) (by rw [← e]; exact .dir hd)
  let kslot := (tableAt mm.eff.word d (pdeIndex pt), pteIndex pt)
  let kv := pgtabAttribSuRo ||| pgFlagPresent ||| v2p pt
  let m0 : Mm := { mm with lomem := z, word := Function.update mm.word pt fun _ => 0 }
  have hpte : m0.vmmGetPte d pt = kslot := by
    show (p2v (pageAddr (Function.update mm.word pt (fun _ => 0) d (pdeIndex pt))), pteIndex pt) = _
    rw [Function.update_of_ne hdpt, h.word_dir hd hp hd]
    rfl
  have hw0 : m0.eff.word = Function.update mm.eff.word pt fun _ => 0 :=
    applyUpdates_update mm.word _ (h.queue_ne_frame hd hp hb hu)
  have hcomm : setWord (Function.update mm.eff.word pt fun _ => 0) kslot kv
      = Function.update (setWord mm.eff.word kslot kv) pt fun _ => 0 := by
    show Function.update (Function.update mm.eff.word pt fun _ => 0) kslot.1
        (Function.update (Function.update mm.eff.word pt (fun _ => 0) kslot.1) kslot.2 kv) = _
    rw [Function.update_of_ne hks, Function.update_comm hks.symm]
    rfl
  unfold Mm.mapPageTable
  rw [e]
  show (((m0.vmmQueueMmuUpdate (m0.vmmGetPte d pt) kv).vmmQueueMmuUpdate
    (d, pdeIndex va) _).vmmFlushMmuUpdateQueue, true) = _
  rw [hpte, Mm.flush_eq, Mm.vmmQueueMmuUpdate_eff, Mm.vmmQueueMmuUpdate_eff, hw0]
  dsimp only
  rw [hcomm]
  rfl

theorem tableEntry_eq (hf : IsFrame pt) :
    p2v (pageAddr (pgtabAttribUsrRw ||| pgFlagPresent ||| v2p pt)) = pt ∧
      pgtabAttribUsrRw ||| pgFlagPresent ||| v2p pt ≠ 0 := by
  have hev : p2v (pageAddr (pgtabAttribUsrRw ||| pgFlagPresent ||| v2p pt)) = pt := by
    show p2v (pageAddr (7 ||| v2p pt)) = pt
    rw [hf.pageAddr_or (by decide), hf.p2v_v2p]
  refine ⟨hev, fun e0 => ?_⟩
  have hb := hf.base
  rw [← hev, e0] at hb
  exact absurd hb (by decide)

/-- the words of the directories -/
theorem tableWord_dir (h : MmInv base live dirs mm) (hd : d ∈ dirs) (hf : IsFrame pt)
    (hu : ∀ u, ¬ Uses mm.word dirs u pt) {d' : Nat} (hd' : d' ∈ dirs) (i : Nat) :
    tableWord mm.word d va pt d' i = if d' = d ∧ i = pdeIndex va
      then pgtabAttribUsrRw ||| pgFlagPresent ||| v2p pt else mm.word d' i := by
  have hne : d' ≠ tableAt mm.word d (pdeIndex pt) := fun e =>
    h.not_uses_ktab hd hf.not_userPde (.dir d') (by rw [← e]; exact .dir hd')
  have hdpt : d' ≠ pt := fun e => hu (.dir d') (by rw [← e]; exact .dir hd')
  unfold tableWord
  by_cases e : d' = d ∧ i = pdeIndex va
  · rw [if_pos e, e.1, e.2]
    exact setWord_self _ (d, pdeIndex va) _
  · rw [if_neg e, setWord_of_ne _ _ fun hc => e ⟨congrArg Prod.fst hc, congrArg Prod.snd hc⟩,
      Function.update_of_ne hdpt, setWord_table_of_ne _ _ hne]

/-- the entry that marks the page read-only lies in a kernel page table -/
theorem markRo (h : MmInv base live dirs mm) (hd : d ∈ dirs) (hf : IsFrame pt) (v : Nat) :
    MmInv base live dirs
        { mm with word := setWord mm.word (tableAt mm.word d (pdeIndex pt), pteIndex pt) v } ∧
      (∀ u f, Uses (setWord mm.word (tableAt mm.word d (pdeIndex pt), pteIndex pt) v) dirs u f ↔
        Uses mm.word dirs u f) ∧
      ∀ d' ∈ dirs, ∀ b, UserPde (pdeIndex b) →
        mappingAt (setWord mm.word (tableAt mm.word d (pdeIndex pt), pteIndex pt) v) d' b =
          mappingAt mm.word d' b := by
  have hku := hf.not_userPde
  have hset : ∀ s, s ≠ tableAt mm.word d (pdeIndex pt) →
      setWord mm.word (tableAt mm.word d (pdeIndex pt), pteIndex pt) v s = mm.word s :=
    fun s hs => setWord_table_of_ne _ v hs
  exact ⟨h.setKernel (.inl hd) hku _ _,
    uses_iff_of_unused (fun u => h.not_uses_ktab hd hku u) hset,
    fun d' hd' b hb => mappingAt_setUnused (fun u => h.not_uses_ktab hd hku u) hset hd' hb⟩

/-- the state with the new table: its invariant, its mappings and its uses -/
theorem tableWord_inv (h : MmInv base live dirs mm) (hd : d ∈ dirs) (hva : UserPde (pdeIndex va))
    (h0 : mm.word d (pdeIndex va) = 0) (hpt : (pt, 1) ∈ live)
    (hu : ∀ u, ¬ Uses mm.word dirs u pt) :
    MmInv base live dirs { mm with word := tableWord mm.word d va pt } ∧
      (∀ d' ∈ dirs, ∀ b, UserPde (pdeIndex b) →
        mappingAt (tableWord mm.word d va pt) d' b = mappingAt mm.word d' b) ∧
      ∀ u f, Uses (tableWord mm.word d va pt) dirs u f → f = pt ∨ Uses mm.word dirs u f := by
  have hf := (h.isFrame_of_live hpt).1
  obtain ⟨h1, huse, hmap⟩ := h.markRo hd hf (pgtabAttribSuRo ||| pgFlagPresent ||| v2p pt)
  have hu1 := fun u hc => hu u ((huse u pt).mp hc)
  have he := (tableEntry_eq hf).1
  have hne : d ≠ tableAt mm.word d (pdeIndex pt) := fun e =>
    h.not_uses_ktab hd hf.not_userPde (.dir d) (by rw [← e]; exact .dir hd)
  have h10 : setWord mm.word (tableAt mm.word d (pdeIndex pt), pteIndex pt)
      (pgtabAttribSuRo ||| pgFlagPresent ||| v2p pt) d (pdeIndex va) = 0 := by
    rw [setWord_table_of_ne _ _ hne]
    exact h0
  refine ⟨h1.newTable hd hva hpt hu1 he, fun d' hd' b hb => ?_, fun u f hc => ?_⟩
  · exact (h1.mappingAt_newTable hd h10 hu1 he hd' hb).trans (hmap d' hd' b hb)
  · rcases h1.uses_newTable hd hu1 he hc with ⟨-, rfl⟩ | hc
    · exact .inl rfl
    · exact .inr ((huse u f).mp hc)

end

/-- **a page table is set up when the directory has none for the address** -/
theorem mapPageTable (h : MmInv base live dirs mm.eff) (hd : d ∈ dirs) (hp : Pending mm d done)
    {va : Nat} (hva : UserPde (pdeIndex va)) (h0 : mm.word d (pdeIndex va) = 0) :
    (mm.mapPageTable d va = (mm, false) ∧ ¬ CanServe 1 mm.lomem) ∨
    ∃ mm' live', mm.mapPageTable d va = (mm', true) ∧ MmInv base live' dirs mm'.eff ∧
      mm'.queue = [] ∧ (∀ b ∈ live, b ∈ live') ∧ Same dirs d [] mm mm' ∧ mm'.himem = mm.himem ∧
      Tabled dirs d va mm mm' ∧
      (∀ n, CanServe (n+1) mm.lomem → CanServe n mm'.lomem) ∧
      ∀ u f, Uses mm'.eff.word dirs u f → (f, 1) ∈ live → Uses mm.eff.word dirs u f := by
  rcases h.alloc with ⟨e, hcan⟩ | ⟨z, pt, e, h1, hfresh, hcan⟩
  · left
    refine ⟨?_, hcan⟩
    unfold Mm.mapPageTable
    rw [e]
  · right
    have hptl : (pt, 1) ∈ (pt, 1) :: live := List.mem_cons_self
    obtain ⟨hf, hb⟩ := h1.isFrame_of_live hptl
    have hu : ∀ u, ¬ Uses mm.eff.word dirs u pt := h.not_uses_of_not_live hfresh
    have hd0 : mm.eff.word d (pdeIndex va) = 0 := by
      rw [← h.word_dir hd hp hd]
      exact h0
    obtain ⟨hinv, hmap, huse⟩ := h1.tableWord_inv hd hva hd0 hptl hu
    refine ⟨_, _, h.mapPageTable_eq hd hp e hf hb hu va, hinv, rfl,
      fun b hb => List.mem_cons_of_mem _ hb, ⟨rfl, fun d' hd' b hb _ => hmap d' hd' b hb⟩, rfl,
      fun d' hd' i => ?_, hcan, fun u f hc hl => ?_⟩
    · show tableWord mm.eff.word d va pt d' i = 0 ↔ _
      rw [h.tableWord_dir hd hf hu hd' i]
      by_cases he : d' = d ∧ i = pdeIndex va
      · rw [if_pos he]
        exact ⟨fun e0 => absurd e0 (tableEntry_eq hf).2, fun hn => absurd he hn.2⟩
      · rw [if_neg he]
        exact (and_iff_left he).symm
    · rcases huse u f hc with rfl | hc
      · exact absurd hl hfresh
      · exact hc

/-- the entry of a user page whose table exists -/
theorem mapPageEntry_user (h : MmInv base live dirs mm.eff) (hd : d ∈ dirs)
    (hp : Pending mm d done) {va : Nat} (hva : UserPde (pdeIndex va))
    (hnd : ∀ a ∈ done, ¬ SamePage a va) (h0 : mm.eff.word d (pdeIndex va) ≠ 0) (ppf flags : Nat)
    (hv : pageAddr (entryVal ppf flags) ≠ 0 → (p2v (pageAddr (entryVal ppf flags)), 1) ∈ live ∧
      ∀ u, Uses mm.eff.word dirs u (p2v (pageAddr (entryVal ppf flags))) →
        u = .page d (pdeIndex va) (pteIndex va)) :
    MmInv base live dirs (mm.mapPageEntry d va ppf flags).eff ∧
      Pending (mm.mapPageEntry d va ppf flags) d (va :: done) ∧
      Same dirs d [va] mm (mm.mapPageEntry d va ppf flags) ∧
      (mm.mapPageEntry d va ppf flags).eff.vmmGetMapping d va = entryVal ppf flags ∧
      ∀ d' ∈ dirs, ∀ i, (mm.mapPageEntry d va ppf flags).eff.word d' i = mm.eff.word d' i := by
  have e1 : mm.vmmGetPte d va = mm.eff.vmmGetPte d va := by
    rw [Mm.vmmGetPte_eq, Mm.vmmGetPte_eq]
    unfold tableAt
    rw [h.word_dir hd hp hd]
  have heff := Mm.mapPageEntry_eff ppf flags e1 (h.word_page hd hp hva hnd h0)
  have hmap : ∀ d' ∈ dirs, ∀ b, UserPde (pdeIndex b) →
      (mm.mapPageEntry d va ppf flags).eff.vmmGetMapping d' b =
        if d' = d ∧ SamePage b va then entryVal ppf flags else mm.eff.vmmGetMapping d' b := by
    intro d' hd' b hb
    rw [heff]
    exact h.mappingAt_setPage hd hva h0 _ hd' hb
  have hwords : ∀ d' ∈ dirs, ∀ i,
      (mm.mapPageEntry d va ppf flags).eff.word d' i = mm.eff.word d' i := by
    intro d' hd' i
    rw [heff]
    show setWord mm.eff.word (tableAt mm.eff.word d (pdeIndex va), _) _ d' i = _
    rw [setWord_table_of_ne _ _ (h.dir_ne_table hd' hd hva h0)]
  have hword := hwords d hd
  refine ⟨?_, ?_, ⟨Mm.mapPageEntry_mem .., ?_⟩, ?_, hwords⟩
  · rw [heff]
    exact h.setPage hd hva h0 _ hv
  · have hpte : ∀ a, (mm.mapPageEntry d va ppf flags).eff.vmmGetPte d a = mm.eff.vmmGetPte d a := by
      intro a
      rw [Mm.vmmGetPte_eq, Mm.vmmGetPte_eq]
      unfold tableAt
      rw [hword]
    intro u hu
    rcases Mm.mem_queue_mapPageEntry hu with hu | hu
    · obtain ⟨a, ha, ha0, e⟩ := hp u hu
      exact ⟨a, List.mem_cons_of_mem _ ha, by rw [hword]; exact ha0, by rw [hpte]; exact e⟩
    · exact ⟨va, List.mem_cons_self, by rw [hword]; exact h0, by rw [hpte, hu, e1]⟩
  · intro d' hd' b hb hne
    rw [hmap d' hd' b hb, if_neg]
    rintro ⟨e, hs⟩
    exact hne e va List.mem_cons_self hs
  · rw [hmap d hd va hva, if_pos ⟨rfl, rfl, rfl⟩]

/-- **`vmm_map_page` on a user page** -/
theorem mapPage_user (h : MmInv base live dirs mm.eff) (hd : d ∈ dirs) (hp : Pending mm d done)
    {va : Nat} (hva : UserPde (pdeIndex va)) (hnd : ∀ a ∈ done, ¬ SamePage a va) (ppf flags : Nat)
    (hv : pageAddr (entryVal ppf flags) ≠ 0 → (p2v (pageAddr (entryVal ppf flags)), 1) ∈ live ∧
      ∀ u, Uses mm.eff.word dirs u (p2v (pageAddr (entryVal ppf flags))) →
        u = .page d (pdeIndex va) (pteIndex va)) :
    (mm.vmmMapPage d va ppf flags = (mm, false) ∧ ¬ CanServe 1 mm.lomem ∧
      mm.eff.word d (pdeIndex va) = 0) ∨
    ∃ mm' live', mm.vmmMapPage d va ppf flags = (mm', true) ∧ MmInv base live' dirs mm'.eff ∧
      Pending mm' d (va :: done) ∧ (∀ b ∈ live, b ∈ live') ∧ Same dirs d [va] mm mm' ∧
      mm'.himem = mm.himem ∧ mm'.eff.vmmGetMapping d va = entryVal ppf flags ∧
      (∀ n, CanServe (n+1) mm.lomem → CanServe n mm'.lomem) ∧
      (mm.eff.word d (pdeIndex va) ≠ 0 → mm'.lomem = mm.lomem) ∧
      Tabled dirs d va mm mm' := by
  have hw := h.word_dir hd hp hd (pdeIndex va)
  have hhimem : ∀ m : Mm, (m.mapPageEntry d va ppf flags).himem = m.himem := by
    intro m
    unfold Mm.mapPageEntry Mm.vmmQueueMmuUpdate
    dsimp only
    split
    · split <;> rfl
    · rfl
  unfold Mm.vmmMapPage
  by_cases h0 : mm.word d (pdeIndex va) = 0
  · rw [if_pos h0]
    rcases h.mapPageTable hd hp hva h0 with ⟨e, hcan⟩ |
      ⟨m1, live1, e, h1, hq, hl, hs, hh, htab, hcan, hu⟩
    · left
      rw [e]
      exact ⟨rfl, hcan, by rw [← hw]; exact h0⟩
    · right
      have hv1 : pageAddr (entryVal ppf flags) ≠ 0 →
          (p2v (pageAddr (entryVal ppf flags)), 1) ∈ live1 ∧
          ∀ u, Uses m1.eff.word dirs u (p2v (pageAddr (entryVal ppf flags))) →
            u = .page d (pdeIndex va) (pteIndex va) := by
        intro hne'
        obtain ⟨hmem, huse⟩ := hv hne'
        exact ⟨hl _ hmem, fun u hu' => huse u (hu u _ hu' hmem)⟩
      obtain ⟨r1, r2, r3, r4, r5⟩ := h1.mapPageEntry_user hd (.nil hq d []) hva (by simp)
        (htab.set hd) ppf flags hv1
      refine ⟨m1.mapPageEntry d va ppf flags, live1, by rw [e], r1, ?_, hl,
        (hs.trans r3).weaken (by simp), (hhimem m1).trans hh, r4, ?_, ?_, ?_⟩
      · intro u hu'
        obtain ⟨a, ha, rest⟩ := r2 u hu'
        exact ⟨a, List.mem_cons.mpr (.inl (by simpa using ha)), rest⟩
      · rw [Mm.mapPageEntry_lomem]
        exact hcan
      · intro hne'
        exact absurd (hw.symm.trans h0) hne'
      · intro d' hd' i
        rw [r5 d' hd']
        exact htab d' hd' i
  · right
    rw [if_neg h0]
    have h0' : mm.eff.word d (pdeIndex va) ≠ 0 := by
      rw [← hw]
      exact h0
    obtain ⟨r1, r2, r3, r4, r5⟩ := h.mapPageEntry_user hd hp hva hnd h0' ppf flags hv
    refine ⟨_, live, rfl, r1, r2, fun b hb => hb, r3, hhimem mm, r4, ?_, fun _ => ?_,
      fun d' hd' i => ?_⟩
    · rw [Mm.mapPageEntry_lomem]
      exact fun n hn => hn.pred
    · exact Mm.mapPageEntry_lomem ..
    · rw [r5 d' hd']
      refine ⟨fun e0 => ⟨e0, ?_⟩, And.left⟩
      rintro ⟨rfl, rfl⟩
      exact h0' e0

end MmInv

end Paravirt

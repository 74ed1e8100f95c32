import Paravirt.NewPages

/-!
# vmm_task_copy (kern/vmm.c, kern/vm_area.c: `vm_area_copy`)

A run of the copy loop with the frames it takes, where each `vmm_ppf_alloc` has a frame (the loop
copies into the result without a test).

* `CopyRun`, `TaskCopyRun`   the loop over the pages of an area, and the loop over the areas;
* `childAreas`               the areas of the child, which `vm_area_remove_all` removes again;
* `Taken`                    the child's pages are the frames taken, the last one of each page;
* `copy_leak_free_iff`       every frame taken is in use at the end and given back when the child's
                             areas are removed, if and only if no present page of the parent belongs
                             to two areas.
-/

set_option linter.unusedSectionVars false
set_option linter.unusedVariables false

namespace Paravirt
open Tiling

/-! ## runs -/

/-- a run of `vmAreaCopyLoop` that succeeds; the list holds the pages copied with the frames taken,
the latest first -/
inductive CopyRun (dstPd srcPd : Nat) : List Nat → Mm → List (Nat × Nat) → Mm → Prop
  | nil (mm : Mm) : CopyRun dstPd srcPd [] mm [] mm.vmmFlushMmuUpdateQueue
  | absent {vpf : Nat} {vpfs : List Nat} {mm mm1 mm' : Mm} {taken : List (Nat × Nat)}
      (h0 : pageAddr (mm.vmmGetMapping srcPd vpf) = 0)
      (hm : mm.vmmMapPage dstPd vpf 0 (pageDiv (mm.vmmGetMapping srcPd vpf)) = (mm1, true))
      (hr : CopyRun dstPd srcPd vpfs mm1 taken mm') : CopyRun dstPd srcPd (vpf :: vpfs) mm taken mm'
  | copied {vpf f : Nat} {vpfs : List Nat} {mm mm1 mm2 mm' : Mm} {taken : List (Nat × Nat)}
      (h0 : pageAddr (mm.vmmGetMapping srcPd vpf) ≠ 0) (ha : mm.vmmPpfAlloc = (mm1, some f))
      (hm : mm1.vmmMapPage dstPd vpf f (pageDiv (mm.vmmGetMapping srcPd vpf)) = (mm2, true))
      (hr : CopyRun dstPd srcPd vpfs
        (mm2.memcpy f (p2v (pageAddr (mm.vmmGetMapping srcPd vpf))) pageSize) taken mm') :
      CopyRun dstPd srcPd (vpf :: vpfs) mm (taken ++ [(vpf, f)]) mm'

/-- it is one -/
theorem CopyRun.loop {dstPd srcPd : Nat} {l : List Nat} {mm mm' : Mm} {taken : List (Nat × Nat)}
    (h : CopyRun dstPd srcPd l mm taken mm') :
    vmAreaCopyLoop dstPd srcPd l mm = (mm', true) := by
  induction h with
  | nil mm => rfl
  | absent h0 hm hr ih =>
    unfold vmAreaCopyLoop
    dsimp only
    rw [if_pos h0, hm]
    exact ih
  | copied h0 ha hm hr ih =>
    unfold vmAreaCopyLoop
    dsimp only
    rw [if_neg h0, ha]
    dsimp only
    rw [Option.getD_some, hm]
    exact ih

/-- the areas `vmm_task_copy` copies -/
def VmArea.copied (vma : VmArea) : Bool := vma.type ≠ .direct ∧ vma.type ≠ .kernelStack

/-- `vmm_task_copy` into the task `dst`; `addr` gives the address of an area of the source -/
def vmmTaskCopy (dst dstPd srcPd : Nat) (addr : VmArea → Nat) :
    List VmArea → VmaState → Option (VmaState × Bool)
  | [], s => some (s, true)
  | curpos :: l, s =>
    if curpos.copied then
      match vmAreaAlloc s dst dstPd curpos.startAddress curpos.size curpos.flags .copy curpos.vmaFlags
          (.vma (addr curpos) srcPd curpos) with
      | some (s, true) => vmmTaskCopy dst dstPd srcPd addr l s
      | r => r
    else vmmTaskCopy dst dstPd srcPd addr l s

/-- the runs of `vm_area_copy` in a run of `vmm_task_copy` -/
inductive TaskCopyRun (dstPd srcPd : Nat) : List VmArea → Mm → List (Nat × Nat) → Mm → Prop
  | nil (mm : Mm) : TaskCopyRun dstPd srcPd [] mm [] mm
  | skip {vma : VmArea} {l : List VmArea} {mm mm' : Mm} {taken : List (Nat × Nat)}
      (hc : vma.copied = false) (hr : TaskCopyRun dstPd srcPd l mm taken mm') :
      TaskCopyRun dstPd srcPd (vma :: l) mm taken mm'
  | area {vma : VmArea} {l : List VmArea} {mm mm1 mm' : Mm} {t1 t2 : List (Nat × Nat)}
      (hc : vma.copied = true)
      (ha : CopyRun dstPd srcPd (vmPages vma.startAddress vma.size) mm t1 mm1)
      (hr : TaskCopyRun dstPd srcPd l mm1 t2 mm') :
      TaskCopyRun dstPd srcPd (vma :: l) mm (t2 ++ t1) mm'

/-! ## the areas of the child -/

/-- what `vm_area_init_copy` makes of an area of the parent -/
def copiedArea (task : Nat) (addr : VmArea → Nat) (v : VmArea) : VmArea :=
  { vmAreaInit task v.startAddress v.size v.flags .copy v.vmaFlags with
    type := v.type
    nopage := v.nopage
    pagewrite := v.pagewrite
    src := ⟨if v.type = .file ∨ v.type = .copy ∨ v.type = .cow then v.src.ptr else addr v, 0⟩ }

/-- the child's list after the copies of `vmas` -/
def childAreas (task : Nat) (addr : VmArea → Nat) (vmas l : List VmArea) : List VmArea :=
  (vmas.filter VmArea.copied).foldl (fun l v => vmAreaAdd (copiedArea task addr v) l) l

theorem childAreas_perm (task : Nat) (addr : VmArea → Nat) (vmas : List VmArea) :
    ∀ l, (childAreas task addr vmas l).Perm
      (((vmas.filter VmArea.copied).map (copiedArea task addr)) ++ l) := by
  unfold childAreas
  induction vmas.filter VmArea.copied with
  | nil => exact fun l => List.Perm.refl l
  | cons v vs ih =>
    intro l
    rw [List.foldl_cons, List.map_cons, List.cons_append]
    have hadd := vmAreaAdd_perm (copiedArea task addr v) l
    exact (ih _).trans ((hadd.append_left _).trans List.perm_middle)

theorem vmAreaInitCopy_ok {mm mm' : Mm} {pd srcPd : Nat} {v : VmArea}
    (h : vmAreaCopy mm pd srcPd v.startAddress v.size = (mm', true)) (task : Nat)
    (addr : VmArea → Nat) :
    vmAreaInitCopy mm pd (vmAreaInit task v.startAddress v.size v.flags .copy v.vmaFlags) (addr v)
      srcPd v = (mm', some (copiedArea task addr v)) := by
  unfold vmAreaInitCopy
  dsimp only
  rw [h]
  dsimp only
  rw [if_pos rfl]
  unfold copiedArea
  by_cases hf : v.type = .file
  · rw [if_pos hf, if_pos (.inl hf)]
    rfl
  · rw [if_neg hf]
    by_cases hc : v.type = .copy ∨ v.type = .cow
    · rw [if_pos hc, if_pos (.inr hc)]
      rfl
    · rw [if_neg hc, if_neg fun h => h.elim hf hc]
      rfl

/-- `vm_area_remove_all` -/
def vmAreaRemoveAll (count : VmArea → Nat) (mm : Mm) (pd : Nat) (vmas : List VmArea) : Mm :=
  vmas.foldl (fun mm vma => vmAreaPut (count vma) mm pd vma) mm

/-- every frame taken is behind a present page of the child, and `vm_area_remove_all` gives these
frames back and no others; the child's list holds the only reference to each of its areas -/
structure CopyLeakFree (mm : Mm) (dstPd : Nat) (child : List VmArea) (taken : List (Nat × Nat)) :
    Prop where
  behind : ∀ p ∈ taken, ∃ b, b < 2^32 ∧ UserPde (pdeIndex b) ∧ frameAt mm dstPd b = some p.2
  returned : ∀ c,
    c ∈ allCells pageSize (vmAreaRemoveAll (fun _ => 1) mm dstPd child).lomem.freeBlocks ↔
      c ∈ allCells pageSize mm.lomem.freeBlocks ∨ ∃ p ∈ taken, c ∈ cells pageSize (p.2, 1)

/-! ## the frames of the child -/

namespace MmInv
variable {base live : List Block} {dirs : List Nat} {mm : Mm} {d d' : Nat} {done : List Nat}

/-- while updates of one directory's tables are pending, another directory's mappings can be read -/
theorem getMapping_other (h : MmInv base live dirs mm.eff) (hd : d ∈ dirs) (hp : Pending mm d done)
    (hd' : d' ∈ dirs) (hne : d' ≠ d) {va : Nat} (hva : UserPde (pdeIndex va)) :
    mm.vmmGetMapping d' va = mm.eff.vmmGetMapping d' va := by
  have e := h.word_dir hd hp hd' (pdeIndex va)
  rw [Mm.vmmGetMapping_eq, Mm.vmmGetMapping_eq]
  unfold mappingAt
  rw [e]
  split
  · rfl
  · rename_i h0
    have et : tableAt mm.word d' (pdeIndex va) = tableAt mm.eff.word d' (pdeIndex va) := by
      unfold tableAt
      rw [e]
    rw [et]
    refine (applyUpdates_of_not_mem mm.word fun u hu e => ?_).symm
    obtain ⟨a, -, h0a, ha⟩ := hp u hu
    rw [e] at ha
    have et' : tableAt mm.eff.word d' (pdeIndex va) = tableAt mm.eff.word d (pdeIndex a) :=
      congrArg Prod.fst ha
    have hu' := Uses.table hd' hva h0
    rw [et'] at hu'
    by_cases hua : UserPde (pdeIndex a)
    · have h2 := h.inj _ _ _ hu' (.table hd hua h0a)
      injection h2 with h3 _
      exact hne h3
    · exact h.not_uses_ktab hd hua _ hu'

end MmInv

/-- the last frame taken for the page of `b` -/
def lastTaken (taken : List (Nat × Nat)) (b : Nat) : Option Nat :=
  (taken.find? fun p => decide (SamePage b p.1)).map Prod.snd

theorem lastTaken_cons (p : Nat × Nat) (taken : List (Nat × Nat)) (b : Nat) :
    lastTaken (p :: taken) b = if SamePage b p.1 then some p.2 else lastTaken taken b := by
  unfold lastTaken
  rw [List.find?_cons]
  by_cases hs : SamePage b p.1
  · rw [decide_eq_true hs, if_pos hs]
    rfl
  · rw [decide_eq_false hs, if_neg hs]

theorem SamePage.lastTaken {a b : Nat} (h : SamePage a b) (taken : List (Nat × Nat)) :
    Paravirt.lastTaken taken a = Paravirt.lastTaken taken b := by
  unfold Paravirt.lastTaken
  congr 2
  funext p
  exact decide_eq_decide.mpr ⟨fun hx => h.symm.trans hx, fun hx => h.trans hx⟩

/-- the frames taken are different live ones, and the child's pages are the last ones; `m0` is the
state in which the copy began -/
structure Taken (base live : List Block) (dirs : List Nat) (dst src : Nat) (m0 : Mm)
    (taken : List (Nat × Nat)) (mm : Mm) : Prop where
  inv : MmInv base live dirs mm.eff
  nodup : (taken.map Prod.snd).Nodup
  live : ∀ p ∈ taken, (p.2, 1) ∈ live
  user : ∀ p ∈ taken, p.1 < 2^32 ∧ UserPde (pdeIndex p.1)
  child : ∀ b, UserPde (pdeIndex b) → frameAt mm.eff dst b = lastTaken taken b
  parent : ∀ b, UserPde (pdeIndex b) → mm.eff.vmmGetMapping src b = m0.vmmGetMapping src b

section
variable {base live : List Block} {dirs : List Nat} {dst src : Nat} {m0 mm mm' : Mm}
  {taken : List (Nat × Nat)} {done : List Nat}

theorem pageDiv_lt (a : Nat) : pageDiv a < 4096 := by
  rw [pageDiv_eq]
  omega

/-- a page of the parent is absent: the child has none either -/
theorem Taken.absent {a : Nat} (h : Taken base live dirs dst src m0 taken mm) (hdst : dst ∈ dirs)
    (hsrc : src ∈ dirs) (hne : src ≠ dst) (hp : Pending mm dst done) (hu : UserPde (pdeIndex a))
    (hnd : ∀ x ∈ done, ¬ SamePage x a) (h0 : frameAt m0 src a = none)
    (hT : ∀ p ∈ taken, frameAt m0 src p.1 ≠ none) {flags : Nat}
    (hm : mm.vmmMapPage dst a 0 flags = (mm', true)) :
    ∃ live', Taken base live' dirs dst src m0 taken mm' ∧ Pending mm' dst (a :: done) := by
  have hval : entryVal 0 flags = 0 := if_neg fun hc => hc rfl
  have hnull : pageAddr (entryVal 0 flags) = 0 := by
    rw [hval]
    rfl
  rcases h.inv.mapPage_user hdst hp hu hnd 0 flags (fun hc => absurd hnull hc) with
    ⟨e, -⟩ | ⟨m1, live1, e, r1, r2, r3, r4, -, r6, -⟩
  · rw [hm] at e
    cases e
  · rw [hm] at e
    cases e
    have hlast : lastTaken taken a = none := by
      unfold lastTaken
      rw [Option.map_eq_none_iff, List.find?_eq_none]
      intro p hp' hs
      have hs' : SamePage a p.1 := of_decide_eq_true hs
      rw [hs'.frameAt] at h0
      exact hT p hp' h0
    refine ⟨live1, ⟨r1, h.nodup, fun p hp' => r3 _ (h.live p hp'), h.user, ?_, ?_⟩, r2⟩
    · intro b hb
      by_cases hs : SamePage b a
      · rw [hs.lastTaken, hlast, hs.frameAt]
        exact frameAt_eq_none (by rw [r6]; exact hnull)
      · rw [← h.child b hb]
        unfold frameAt
        rw [r4.mapping dst hdst b hb fun _ x hx => by rw [List.mem_singleton.mp hx]; exact hs]
    · intro b hb
      rw [r4.mapping src hsrc b hb fun e => absurd e hne]
      exact h.parent b hb

/-- **a page of the parent is copied to a new frame** -/
theorem Taken.copied {a f : Nat} {m1 : Mm} (h : Taken base live dirs dst src m0 taken mm)
    (hdst : dst ∈ dirs) (hsrc : src ∈ dirs) (hne : src ≠ dst) (hp : Pending mm dst done)
    (ha : a < 2^32) (hu : UserPde (pdeIndex a)) (hnd : ∀ x ∈ done, ¬ SamePage x a) {flags : Nat}
    (hfl : flags < 4096) (hal : mm.vmmPpfAlloc = (m1, some f))
    (hm : m1.vmmMapPage dst a f flags = (mm', true)) :
    ∃ live', Taken base live' dirs dst src m0 ((a, f) :: taken) mm' ∧ Pending mm' dst (a :: done) := by
  rcases h.inv.alloc with ⟨e, -⟩ | ⟨z, g, e, h1, hfresh, -⟩
  · rw [hal] at e
    cases e
  · rw [hal] at e
    cases e
    have hlive : (f, 1) ∈ (f, 1) :: live := List.mem_cons_self
    have hfr := (h1.isFrame_of_live hlive).1
    have hunused : ∀ u, ¬ Uses ({ mm with lomem := z } : Mm).eff.word dirs u f :=
      h.inv.not_uses_of_not_live hfresh
    have hp1 : Pending { mm with lomem := z } dst done := hp
    rcases h1.mapPage_user hdst hp1 hu hnd f flags (fun _ => by
        rw [hfr.entryVal, hfr.pageAddr_or hfl, hfr.p2v_v2p]
        exact ⟨hlive, fun u hu' => absurd hu' (hunused u)⟩) with
      ⟨e, -⟩ | ⟨m2, live2, e, r1, r2, r3, r4, -, r6, -⟩
    · rw [hm] at e
      cases e
    · rw [hm] at e
      cases e
      rw [hfr.entryVal] at r6
      refine ⟨live2, ⟨r1, ?_, ?_, ?_, ?_, ?_⟩, r2⟩
      · rw [List.map_cons, List.nodup_cons]
        refine ⟨fun hx => ?_, h.nodup⟩
        obtain ⟨p, hp', e⟩ := List.mem_map.mp hx
        have hl := h.live p hp'
        rw [e] at hl
        exact hfresh hl
      · intro p hp'
        rcases List.mem_cons.mp hp' with rfl | hp'
        · exact r3 _ hlive
        · exact r3 _ (List.mem_cons_of_mem _ (h.live p hp'))
      · intro p hp'
        rcases List.mem_cons.mp hp' with rfl | hp'
        · exact ⟨ha, hu⟩
        · exact h.user p hp'
      · intro b hb
        rw [lastTaken_cons]
        by_cases hs : SamePage b a
        · rw [if_pos hs, hs.frameAt]
          exact frameAt_of_mapping hfr hfl r6
        · rw [if_neg hs, ← h.child b hb]
          unfold frameAt
          rw [r4.mapping dst hdst b hb fun _ x hx => by rw [List.mem_singleton.mp hx]; exact hs]
          rfl
      · intro b hb
        rw [r4.mapping src hsrc b hb fun e => absurd e hne]
        exact h.parent b hb

/-- contents do not matter -/
theorem Taken.memcpy (h : Taken base live dirs dst src m0 taken mm) (x y n : Nat) :
    Taken base live dirs dst src m0 taken (mm.memcpy x y n) where
  inv := h.inv.congr rfl rfl rfl
  nodup := h.nodup
  live := h.live
  user := h.user
  child := h.child
  parent := h.parent

/-- whether the parent has the page -/
def presentIn (m0 : Mm) (src a : Nat) : Bool := (frameAt m0 src a).isSome

/-- **the loop over the pages of one area** -/
theorem CopyRun.keeps {l : List Nat} {t : List (Nat × Nat)} (hr : CopyRun dst src l mm t mm')
    (hdst : dst ∈ dirs) (hsrc : src ∈ dirs) (hne : src ≠ dst) :
    ∀ {live done taken : List _}, Taken base live dirs dst src m0 taken mm → Pending mm dst done →
      (∀ a ∈ l, a < 2^32 ∧ UserPde (pdeIndex a)) → l.Pairwise (fun a b => ¬ SamePage a b) →
      (∀ a ∈ l, ∀ x ∈ done, ¬ SamePage x a) → (∀ p ∈ taken, frameAt m0 src p.1 ≠ none) →
      (∃ live', Taken base live' dirs dst src m0 (t ++ taken) mm') ∧ mm'.queue = [] ∧
        t.map Prod.fst = (l.filter (presentIn m0 src)).reverse := by
  induction hr with
  | nil mm =>
    intro live done taken h _ _ _ _ _
    exact ⟨⟨live, h.inv, h.nodup, h.live, h.user, h.child, h.parent⟩, rfl, rfl⟩
  | @absent a l mm m1 mm' t h0 hm hr ih =>
    intro live done taken h hp hu hpw hnd hT
    obtain ⟨ha, hpw⟩ := List.pairwise_cons.mp hpw
    obtain ⟨halt, hua⟩ := hu a List.mem_cons_self
    have hmap : mm.vmmGetMapping src a = m0.vmmGetMapping src a :=
      (h.inv.getMapping_other hdst hp hsrc hne hua).trans (h.parent a hua)
    rw [hmap] at h0
    have hf : frameAt m0 src a = none := frameAt_eq_none h0
    obtain ⟨live', h', hp'⟩ := h.absent hdst hsrc hne hp hua (hnd a List.mem_cons_self) hf hT hm
    have hnd' : ∀ x ∈ l, ∀ y ∈ a :: done, ¬ SamePage y x := by
      intro x hx y hy
      rcases List.mem_cons.mp hy with rfl | hy
      · exact ha x hx
      · exact hnd x (List.mem_cons_of_mem _ hx) y hy
    obtain ⟨r1, r2, r3⟩ := ih h' hp' (fun x hx => hu x (List.mem_cons_of_mem _ hx)) hpw hnd' hT
    refine ⟨r1, r2, ?_⟩
    have hno : ¬ presentIn m0 src a = true := by
      unfold presentIn
      rw [hf]
      decide
    rw [List.filter_cons_of_neg hno]
    exact r3
  | @copied a f l mm m1 m2 mm' t h0 hal hm hr ih =>
    intro live done taken h hp hu hpw hnd hT
    obtain ⟨ha, hpw⟩ := List.pairwise_cons.mp hpw
    obtain ⟨halt, hua⟩ := hu a List.mem_cons_self
    have hmap : mm.vmmGetMapping src a = m0.vmmGetMapping src a :=
      (h.inv.getMapping_other hdst hp hsrc hne hua).trans (h.parent a hua)
    rw [hmap] at h0
    have hf : frameAt m0 src a = some (p2v (pageAddr (m0.vmmGetMapping src a))) := if_neg h0
    obtain ⟨live', h', hp'⟩ := h.copied hdst hsrc hne hp halt hua (hnd a List.mem_cons_self)
      (pageDiv_lt _) hal hm
    have hnd' : ∀ x ∈ l, ∀ y ∈ a :: done, ¬ SamePage y x := by
      intro x hx y hy
      rcases List.mem_cons.mp hy with rfl | hy
      · exact ha x hx
      · exact hnd x (List.mem_cons_of_mem _ hx) y hy
    have hT' : ∀ p ∈ (a, f) :: taken, frameAt m0 src p.1 ≠ none := by
      intro p hp
      rcases List.mem_cons.mp hp with rfl | hp
      · rw [hf]
        exact Option.some_ne_none _
      · exact hT p hp
    obtain ⟨r1, r2, r3⟩ := ih (h'.memcpy _ _ _) hp'
      (fun x hx => hu x (List.mem_cons_of_mem _ hx)) hpw hnd' hT'
    refine ⟨?_, r2, ?_⟩
    · rw [List.append_assoc]
      exact r1
    · have hyes : presentIn m0 src a = true := by
        unfold presentIn
        rw [hf]
        rfl
      rw [List.filter_cons_of_pos hyes, List.reverse_cons, List.map_append, r3]
      rfl

/-- the present pages of the areas that are copied, area by area -/
def copiedPages (m0 : Mm) (src : Nat) (vmas : List VmArea) : List Nat :=
  (vmas.filter VmArea.copied).flatMap fun vma =>
    (vmPages vma.startAddress vma.size).filter (presentIn m0 src)

/-- **the loop over the areas** -/
theorem TaskCopyRun.keeps {vmas : List VmArea} {t : List (Nat × Nat)}
    (hr : TaskCopyRun dst src vmas mm t mm') (hdst : dst ∈ dirs) (hsrc : src ∈ dirs)
    (hne : src ≠ dst) (hok : ∀ v ∈ vmas, v.Ok)
    (hu : ∀ v ∈ vmas, v.copied = true → v.nopage ≠ .default) :
    ∀ {live taken : List _}, Taken base live dirs dst src m0 taken mm → mm.queue = [] →
      (∀ p ∈ taken, frameAt m0 src p.1 ≠ none) →
      (∃ live', Taken base live' dirs dst src m0 (t ++ taken) mm') ∧ mm'.queue = [] ∧
        t.map Prod.fst = (copiedPages m0 src vmas).reverse := by
  induction hr with
  | nil mm =>
    intro live taken h hq _
    exact ⟨⟨live, h⟩, hq, rfl⟩
  | @skip v l mm mm' t hc hr ih =>
    intro live taken h hq hT
    obtain ⟨r1, r2, r3⟩ := ih (fun w hw => hok w (List.mem_cons_of_mem _ hw))
      (fun w hw => hu w (List.mem_cons_of_mem _ hw)) h hq hT
    refine ⟨r1, r2, ?_⟩
    have hno : ¬ v.copied = true := by
      rw [hc]
      decide
    unfold copiedPages at r3 ⊢
    rw [List.filter_cons_of_neg hno]
    exact r3
  | @area v l mm m1 mm' t1 t2 hc ha hr ih =>
    intro live taken h hq hT
    have hv := hok v List.mem_cons_self
    have huser : ∀ a ∈ vmPages v.startAddress v.size, a < 2^32 ∧ UserPde (pdeIndex a) := by
      intro a ha'
      obtain ⟨ea, hca⟩ := hv.mem_vmPages.mp ha'
      have hlt : a < 2^32 := ea ▸ pageAddr_lt a
      exact ⟨hlt, (hv.userPde (hu v List.mem_cons_self hc) hlt hca).1⟩
    obtain ⟨⟨live1, h1⟩, hq1, e1⟩ := ha.keeps hdst hsrc hne h (.nil hq dst []) huser
      hv.vmPages_pairwise (fun _ _ _ hx => absurd hx List.not_mem_nil) hT
    have hT1 : ∀ p ∈ t1 ++ taken, frameAt m0 src p.1 ≠ none := by
      intro p hp
      rcases List.mem_append.mp hp with hp | hp
      · have hp1 := List.mem_map_of_mem (f := Prod.fst) hp
        rw [e1, List.mem_reverse, List.mem_filter] at hp1
        exact Option.isSome_iff_ne_none.mp hp1.2
      · exact hT p hp
    obtain ⟨r1, r2, r3⟩ := ih (fun w hw => hok w (List.mem_cons_of_mem _ hw))
      (fun w hw => hu w (List.mem_cons_of_mem _ hw)) h1 hq1 hT1
    refine ⟨?_, r2, ?_⟩
    · rw [List.append_assoc]
      exact r1
    · unfold copiedPages at r3 ⊢
      rw [List.filter_cons_of_pos hc, List.flatMap_cons, List.reverse_append, List.map_append, r3, e1]

end

/-! ## the pages of the child's areas are unmapped -/

/-- `vm_area_remove_all` unmaps the pages of all areas, one after the other -/
theorem vmAreaRemoveAll_eq {pd : Nat} {vmas : List VmArea}
    (h : ∀ v ∈ vmas, v.type ≠ .direct ∧ v.type ≠ .kernelStack) (mm : Mm) :
    vmAreaRemoveAll (fun _ => 1) mm pd vmas = vmAreaUnmapLoop pd .file
      (vmas.flatMap fun v => vmPages v.startAddress v.size) mm := by
  refine foldl_unmapLoop (fun v hv mm => ?_) mm
  obtain ⟨hd, hk⟩ := h v hv
  unfold vmAreaPut vmAreaFreeResources vmAreaUnmap
  dsimp only
  rw [if_pos rfl, if_pos hd, if_neg hk]
  exact unmapLoop_type pd hk (by decide) _ mm

/-! ## frames that are in use -/

theorem lastTaken_mem {t : List (Nat × Nat)} {b f : Nat} (h : lastTaken t b = some f) :
    ∃ p ∈ t, p.2 = f ∧ SamePage b p.1 := by
  unfold lastTaken at h
  obtain ⟨p, hp, e⟩ := Option.map_eq_some_iff.mp h
  have hs : decide (SamePage b p.1) = true := by simpa using List.find?_some hp
  exact ⟨p, List.mem_of_find?_eq_some hp, e, of_decide_eq_true hs⟩

/-- **each frame is the last of its page** if and only if no page was copied twice -/
theorem lastTaken_onto_iff {t : List (Nat × Nat)} (hn : (t.map Prod.snd).Nodup) :
    (∀ p ∈ t, ∃ b, lastTaken t b = some p.2) ↔ t.Pairwise fun p q => ¬ SamePage p.1 q.1 := by
  induction t with
  | nil =>
    refine ⟨fun _ => List.Pairwise.nil, fun _ p hp => ?_⟩
    exact absurd hp List.not_mem_nil
  | cons q t ih =>
    rw [List.map_cons, List.nodup_cons] at hn
    have hfresh : ∀ p ∈ t, p.2 ≠ q.2 := fun p hp e => hn.1 (e ▸ List.mem_map_of_mem hp)
    rw [List.pairwise_cons, ← ih hn.2]
    constructor
    · intro h
      have hlast : ∀ p ∈ t, ∃ b, ¬ SamePage b q.1 ∧ lastTaken t b = some p.2 := by
        intro p hp
        obtain ⟨b, hb⟩ := h p (List.mem_cons_of_mem _ hp)
        rw [lastTaken_cons] at hb
        by_cases hs : SamePage b q.1
        · rw [if_pos hs, Option.some.injEq] at hb
          exact absurd hb.symm (hfresh p hp)
        · rw [if_neg hs] at hb
          exact ⟨b, hs, hb⟩
      refine ⟨fun p hp hs => ?_, fun p hp => ?_⟩
      · obtain ⟨b, hbq, hb⟩ := hlast p hp
        obtain ⟨r, hr, e, hbr⟩ := lastTaken_mem hb
        have hrp : r = p := List.inj_on_of_nodup_map hn.2 hr hp e
        rw [hrp] at hbr
        exact hbq (hbr.trans hs.symm)
      · obtain ⟨b, -, hb⟩ := hlast p hp
        exact ⟨b, hb⟩
    · rintro ⟨hq, hall⟩ p hp
      rcases List.mem_cons.mp hp with rfl | hp
      · exact ⟨p.1, by rw [lastTaken_cons, if_pos (SamePage.refl _)]⟩
      · obtain ⟨b, hb⟩ := hall p hp
        obtain ⟨r, hr, e, hbr⟩ := lastTaken_mem hb
        refine ⟨b, ?_⟩
        rw [lastTaken_cons, if_neg fun hs => hq r hr (hs.symm.trans hbr)]
        exact hb

section
variable {base live : List Block} {dirs : List Nat} {dst src : Nat} {m0 mm' : Mm}
  {vmas : List VmArea} {t : List (Nat × Nat)}

/-- the pages copied are different ones where no present page belongs to two areas -/
theorem copiedPages_pairwise (hok : ∀ v ∈ vmas, v.Ok) :
    (copiedPages m0 src vmas).Pairwise (fun a b => ¬ SamePage a b) ↔
      (vmas.filter VmArea.copied).Pairwise fun v w =>
        ∀ b, v.covers b = true → w.covers b = true → frameAt m0 src b = none := by
  unfold copiedPages
  rw [List.pairwise_flatMap]
  have hself : ∀ v ∈ vmas.filter VmArea.copied,
      ((vmPages v.startAddress v.size).filter (presentIn m0 src)).Pairwise
        fun a b => ¬ SamePage a b := fun v hv =>
    (hok v (List.mem_filter.mp hv).1).vmPages_pairwise.sublist List.filter_sublist
  rw [and_iff_right hself]
  refine List.Pairwise.iff_of_mem fun {v w} hv hw => ?_
  have hv' := hok v (List.mem_filter.mp hv).1
  have hw' := hok w (List.mem_filter.mp hw).1
  constructor
  · intro h b hbv hbw
    obtain ⟨x, hx, hsx⟩ := (hv'.samePage_vmPages b).mpr hbv
    obtain ⟨y, hy, hsy⟩ := (hw'.samePage_vmPages b).mpr hbw
    by_contra hf
    have hpx : presentIn m0 src x = true :=
      Option.isSome_iff_ne_none.mpr (hsx.frameAt m0 src ▸ hf)
    have hpy : presentIn m0 src y = true :=
      Option.isSome_iff_ne_none.mpr (hsy.frameAt m0 src ▸ hf)
    exact h x (List.mem_filter.mpr ⟨hx, hpx⟩) y (List.mem_filter.mpr ⟨hy, hpy⟩) (hsx.symm.trans hsy)
  · intro h x hx y hy hs
    obtain ⟨hx, hpx⟩ := List.mem_filter.mp hx
    obtain ⟨hy, -⟩ := List.mem_filter.mp hy
    have hbv := (hv'.samePage_vmPages x).mp ⟨x, hx, SamePage.refl x⟩
    have hbw := (hw'.samePage_vmPages x).mp ⟨y, hy, hs⟩
    exact Option.isSome_iff_ne_none.mp hpx (h x hbv hbw)

/-- the state after the copy -/
theorem TaskCopyRun.ends (h : TaskAreas base live dirs m0 src vmas) (hdst : dst ∈ dirs)
    (hne : src ≠ dst) (hfresh : ∀ b, UserPde (pdeIndex b) → frameAt m0 dst b = none)
    (hr : TaskCopyRun dst src vmas m0 t mm') :
    (∃ live', Taken base live' dirs dst src m0 t mm') ∧ mm'.queue = [] ∧
      t.map Prod.fst = (copiedPages m0 src vmas).reverse := by
  have hbegin : Taken base live dirs dst src m0 [] m0 := by
    refine ⟨by rw [h.ready.eff_eq]; exact h.ready.inv, List.nodup_nil, ?_, ?_, ?_, ?_⟩
    · exact fun p hp => absurd hp List.not_mem_nil
    · exact fun p hp => absurd hp List.not_mem_nil
    · intro b hb
      rw [h.ready.eff_eq]
      exact hfresh b hb
    · intro b _
      rw [h.ready.eff_eq]
  have hu : ∀ v ∈ vmas, v.copied = true → v.nopage ≠ .default := fun v hv hc =>
    h.nopage_ne hv (of_decide_eq_true hc).2
  have hk := hr.keeps hdst h.dir hne h.ok hu hbegin h.ready.queue
    fun p hp => absurd hp List.not_mem_nil
  rw [List.append_nil] at hk
  exact hk

/-- a frame is behind a page of the child if and only if it is the last one taken for that page -/
theorem Taken.frame {live' : List Block} (ht : Taken base live' dirs dst src m0 t mm')
    (hq : mm'.queue = []) {b : Nat} (hb : UserPde (pdeIndex b)) :
    frameAt mm' dst b = lastTaken t b := by
  have hc := ht.child b hb
  rw [Mm.eff_of_nil hq] at hc
  exact hc

/-- every frame taken is in use if and only if each is the last of its page -/
theorem Taken.behind_iff {live' : List Block} (ht : Taken base live' dirs dst src m0 t mm')
    (hq : mm'.queue = []) :
    (∀ p ∈ t, ∃ b, b < 2^32 ∧ UserPde (pdeIndex b) ∧ frameAt mm' dst b = some p.2) ↔
      ∀ p ∈ t, ∃ b, lastTaken t b = some p.2 := by
  constructor
  · intro hl p hp
    obtain ⟨b, -, hb, hf⟩ := hl p hp
    exact ⟨b, by rw [← ht.frame hq hb]; exact hf⟩
  · intro hl p hp
    obtain ⟨b, hb⟩ := hl p hp
    obtain ⟨r, hr, -, hs⟩ := lastTaken_mem hb
    obtain ⟨hlt, hur⟩ := ht.user r hr
    refine ⟨r.1, hlt, hur, ?_⟩
    rw [ht.frame hq hur, ← hs.lastTaken]
    exact hb

/-- the pages of the child's areas are those of the areas copied -/
theorem mem_childPages {task a : Nat} {addr : VmArea → Nat} :
    a ∈ (childAreas task addr vmas []).flatMap (fun v => vmPages v.startAddress v.size) ↔
      ∃ v ∈ vmas, v.copied = true ∧ a ∈ vmPages v.startAddress v.size := by
  rw [List.mem_flatMap]
  have hp := childAreas_perm task addr vmas []
  rw [List.append_nil] at hp
  constructor
  · rintro ⟨w, hw, ha⟩
    obtain ⟨v, hv, rfl⟩ := List.mem_map.mp (hp.mem_iff.mp hw)
    obtain ⟨hv, hc⟩ := List.mem_filter.mp hv
    exact ⟨v, hv, hc, ha⟩
  · rintro ⟨v, hv, hc, ha⟩
    have hw := List.mem_map_of_mem (f := copiedArea task addr) (List.mem_filter.mpr ⟨hv, hc⟩)
    exact ⟨_, hp.mem_iff.mpr hw, ha⟩

/-- **`vm_area_remove_all` gives back the frames behind the child's pages**: those taken, where each
of them is in use -/
theorem Taken.returned {live' : List Block} (ht : Taken base live' dirs dst src m0 t mm')
    (hq : mm'.queue = []) (hdst : dst ∈ dirs) (h : TaskAreas base live dirs m0 src vmas)
    (hpages : ∀ p ∈ t, ∃ v ∈ vmas, v.copied = true ∧ p.1 ∈ vmPages v.startAddress v.size)
    (hlast : ∀ p ∈ t, ∃ b, lastTaken t b = some p.2) (task : Nat) (addr : VmArea → Nat) (c : Nat) :
    c ∈ allCells pageSize
        (vmAreaRemoveAll (fun _ => 1) mm' dst (childAreas task addr vmas [])).lomem.freeBlocks ↔
      c ∈ allCells pageSize mm'.lomem.freeBlocks ∨ ∃ p ∈ t, c ∈ cells pageSize (p.2, 1) := by
  have hready : Ready base live' dirs mm' := ⟨Mm.eff_of_nil hq ▸ ht.inv, hq⟩
  have hkind : ∀ w ∈ childAreas task addr vmas [], w.type ≠ .direct ∧ w.type ≠ .kernelStack := by
    intro w hw
    have hp := childAreas_perm task addr vmas []
    rw [List.append_nil] at hp
    obtain ⟨v, hv, rfl⟩ := List.mem_map.mp (hp.mem_iff.mp hw)
    exact of_decide_eq_true (List.mem_filter.mp hv).2
  have huser : ∀ a ∈ (childAreas task addr vmas []).flatMap
      (fun v => vmPages v.startAddress v.size), UserPde (pdeIndex a) := by
    intro a ha
    obtain ⟨v, hv, hc, ha⟩ := mem_childPages.mp ha
    obtain ⟨ea, hca⟩ := (h.ok v hv).mem_vmPages.mp ha
    exact ((h.ok v hv).userPde (h.nopage_ne hv (of_decide_eq_true hc).2) (ea ▸ pageAddr_lt a) hca).1
  rw [vmAreaRemoveAll_eq hkind]
  obtain ⟨live2, hu⟩ := unmapLoop_user (by decide : VmaType.file ≠ .kernelStack) hdst _ hready huser
  refine hu.returned hready (fun x => ?_) ht.live
  constructor
  · rintro ⟨a, ha, f, hf, rfl⟩
    rw [ht.frame hq (huser a ha)] at hf
    obtain ⟨p, hp, rfl, -⟩ := lastTaken_mem hf
    exact ⟨p, hp, rfl⟩
  · rintro ⟨p, hp, rfl⟩
    obtain ⟨b, hb⟩ := hlast p hp
    obtain ⟨r, hr, e, hs⟩ := lastTaken_mem hb
    refine ⟨r.1, mem_childPages.mpr (hpages r hr), p.2, ?_, rfl⟩
    rw [ht.frame hq (ht.user r hr).2, ← hs.lastTaken]
    exact hb

/-- a copy leaks no frame if and only if it meets no page twice -/
theorem leakFree_iff_pages (h : TaskAreas base live dirs m0 src vmas) (hdst : dst ∈ dirs)
    (hne : src ≠ dst) (hfresh : ∀ b, UserPde (pdeIndex b) → frameAt m0 dst b = none)
    (hr : TaskCopyRun dst src vmas m0 t mm') (task : Nat) (addr : VmArea → Nat) :
    CopyLeakFree mm' dst (childAreas task addr vmas []) t ↔
      (copiedPages m0 src vmas).Pairwise fun a b => ¬ SamePage a b := by
  obtain ⟨⟨live', ht⟩, hq, hpages⟩ := hr.ends h hdst hne hfresh
  have hmem : ∀ p ∈ t, ∃ v ∈ vmas, v.copied = true ∧ p.1 ∈ vmPages v.startAddress v.size := by
    intro p hp
    have hp1 := List.mem_map_of_mem (f := Prod.fst) hp
    rw [hpages, List.mem_reverse] at hp1
    obtain ⟨v, hv, ha⟩ := List.mem_flatMap.mp hp1
    obtain ⟨hv, hc⟩ := List.mem_filter.mp hv
    exact ⟨v, hv, hc, (List.mem_filter.mp ha).1⟩
  have hleak : CopyLeakFree mm' dst (childAreas task addr vmas []) t ↔
      ∀ p ∈ t, ∃ b, lastTaken t b = some p.2 := by
    constructor
    · exact fun hl => (ht.behind_iff hq).mp hl.behind
    · exact fun hl => ⟨(ht.behind_iff hq).mpr hl, ht.returned hq hdst h hmem hl task addr⟩
  rw [hleak, lastTaken_onto_iff ht.nodup]
  have hmap : (t.Pairwise fun p q => ¬ SamePage p.1 q.1) ↔
      (t.map Prod.fst).Pairwise fun a b => ¬ SamePage a b := by
    rw [List.pairwise_map]
  rw [hmap, hpages, List.pairwise_reverse]
  exact List.Pairwise.iff fun {a b} => not_congr ⟨SamePage.symm, SamePage.symm⟩

/-- **a copy leaks no frame** if and only if no present page of the parent belongs to two of the areas
that are copied -/
theorem copy_leak_free_iff (h : TaskAreas base live dirs m0 src vmas) (hdst : dst ∈ dirs)
    (hne : src ≠ dst) (hfresh : ∀ b, UserPde (pdeIndex b) → frameAt m0 dst b = none)
    (hr : TaskCopyRun dst src vmas m0 t mm') (task : Nat) (addr : VmArea → Nat) :
    CopyLeakFree mm' dst (childAreas task addr vmas []) t ↔
      (vmas.filter VmArea.copied).Pairwise fun v w =>
        ∀ b, v.covers b = true → w.covers b = true → frameAt m0 src b = none := by
  rw [leakFree_iff_pages h hdst hne hfresh hr]
  exact copiedPages_pairwise h.ok

/-- a run of the copy loops is one of `vmm_task_copy`, whose calls of `malloc` succeed; it leaves the
areas of the child on its list -/
theorem TaskCopyRun.taskCopy {mm : Mm} (hr : TaskCopyRun dst src vmas mm t mm') (task : Nat)
    (addr : VmArea → Nat) :
    ∀ (s : VmaState), s.mm = mm → (∀ x ∈ s.heap, x ≠ 0) → vmas.length ≤ s.heap.length →
      ∃ heap, vmmTaskCopy task dst src addr vmas s =
        some (⟨heap, mm', childAreas task addr vmas s.vmas⟩, true) := by
  induction hr with
  | nil mm =>
    intro s hs _ _
    exact ⟨s.heap, by rw [← hs]; rfl⟩
  | @skip v l mm mm' t hc hr ih =>
    intro s hs hheap hlen
    have hno : ¬ v.copied = true := by
      rw [hc]
      decide
    have hch : childAreas task addr (v :: l) s.vmas = childAreas task addr l s.vmas := by
      unfold childAreas
      rw [List.filter_cons_of_neg hno]
    unfold vmmTaskCopy
    rw [if_neg hno, hch]
    exact ih s hs hheap (by rw [List.length_cons] at hlen; omega)
  | @area v l mm m1 mm' t1 t2 hc ha hr ih =>
    intro s hs hheap hlen
    obtain ⟨heap, mm0, vmas0⟩ := s
    cases heap with
    | nil =>
      rw [List.length_cons] at hlen
      exact absurd hlen (Nat.not_succ_le_zero _)
    | cons x heap =>
      have hx : (malloc (x :: heap)).1 ≠ 0 := hheap x List.mem_cons_self
      have hs : mm0 = mm := hs
      subst hs
      have hinit : vmAreaInitType mm0 dst (vmAreaInit task v.startAddress v.size v.flags .copy
          v.vmaFlags) .copy (.vma (addr v) src v) = some (m1, some (copiedArea task addr v)) :=
        congrArg some (vmAreaInitCopy_ok ha.loop task addr)
      have halloc : vmAreaAlloc ⟨x :: heap, mm0, vmas0⟩ task dst v.startAddress v.size v.flags .copy
          v.vmaFlags (.vma (addr v) src v) =
          some (⟨heap, m1, vmAreaAdd (copiedArea task addr v) vmas0⟩, true) := by
        unfold vmAreaAlloc
        rw [if_neg hx, hinit]
        rfl
      have hch : childAreas task addr (v :: l) vmas0 =
          childAreas task addr l (vmAreaAdd (copiedArea task addr v) vmas0) := by
        unfold childAreas
        rw [List.filter_cons_of_pos hc, List.foldl_cons]
      unfold vmmTaskCopy
      rw [if_pos hc, halloc, hch]
      exact ih ⟨heap, m1, vmAreaAdd (copiedArea task addr v) vmas0⟩ rfl
        (fun y hy => hheap y (List.mem_cons_of_mem _ hy)) (by
          rw [List.length_cons, List.length_cons] at hlen
          exact Nat.le_of_succ_le_succ hlen)

end

/-! ## a page with two areas is copied twice -/

/-- one page is copied, and the queue flushed -/
def copyPage (dst src a f : Nat) (mm : Mm) : Mm :=
  ((mm.vmmPpfAlloc.1.vmmMapPage dst a f (pageDiv (mm.vmmGetMapping src a))).1.memcpy f
    (p2v (pageAddr (mm.vmmGetMapping src a))) pageSize).vmmFlushMmuUpdateQueue

theorem CopyRun.page {dst src a f : Nat} {mm : Mm} (h0 : pageAddr (mm.vmmGetMapping src a) ≠ 0)
    (ha : mm.vmmPpfAlloc.2 = some f)
    (hm : (mm.vmmPpfAlloc.1.vmmMapPage dst a f (pageDiv (mm.vmmGetMapping src a))).2 = true) :
    CopyRun dst src [a] mm [(a, f)] (copyPage dst src a f mm) :=
  .copied h0 (Prod.ext rfl ha) (Prod.ext rfl hm) (.nil _)

/-- the copies of the page of `sharedMm`, for the first and for the second area -/
def sharedCopy1 : Mm := copyPage 0xc0406000 0xc0400000 0x01000000 0xc0408000 sharedMm
def sharedCopy2 : Mm := copyPage 0xc0406000 0xc0400000 0x01000000 0xc040c000 sharedCopy1

theorem shared_copyRun : TaskCopyRun 0xc0406000 0xc0400000 smallVmas sharedMm
    [(0x01000000, 0xc040c000), (0x01000000, 0xc0408000)] sharedCopy2 := by
  have e1 : vmPages 0x01000010 0x100 = [0x01000000] := by decide
  have e2 : vmPages 0x01000110 0x200 = [0x01000000] := by decide
  have r1 : CopyRun 0xc0406000 0xc0400000 (vmPages 0x01000010 0x100) sharedMm
      [(0x01000000, 0xc0408000)] sharedCopy1 := by
    rw [e1]
    exact .page (by decide) (by decide) (by decide)
  have r2 : CopyRun 0xc0406000 0xc0400000 (vmPages 0x01000110 0x200) sharedCopy1
      [(0x01000000, 0xc040c000)] sharedCopy2 := by
    rw [e2]
    exact .page (by decide) (by decide) (by decide)
  have r : TaskCopyRun 0xc0406000 0xc0400000 smallVmas sharedMm
      (([] ++ [(0x01000000, 0xc040c000)]) ++ [(0x01000000, 0xc0408000)]) sharedCopy2 := by
    unfold smallVmas
    exact TaskCopyRun.area rfl r1 (TaskCopyRun.area rfl r2 (TaskCopyRun.nil _))
  exact r

theorem sharedMm_child (b : Nat) (hb : UserPde (pdeIndex b)) :
    frameAt sharedMm 0xc0406000 b = none := by
  refine frameAt_eq_none ?_
  have h0 : sharedMm.word 0xc0406000 (pdeIndex b) = 0 := by
    have hne : ¬ ((0xc0406000 : Nat) = 0xc0400000 ∧ pdeIndex b = 4) := fun hc =>
      absurd hc.1 (by decide)
    rw [sharedMm_else hne (by decide), if_pos hb]
  have hm : sharedMm.vmmGetMapping 0xc0406000 b = 0 := if_pos h0
  rw [hm]
  rfl

/-- the areas of the child of `smallVmas`, as `vmm_task_copy` leaves them -/
def smallChild : List VmArea := childAreas 2 (fun _ => 0xc1800000) smallVmas []

theorem copy_leak_free_iff_shared :
    CopyLeakFree sharedCopy2 0xc0406000 smallChild
        [(0x01000000, 0xc040c000), (0x01000000, 0xc0408000)] ↔
      (smallVmas.filter VmArea.copied).Pairwise fun v w => ∀ b, v.covers b = true →
        w.covers b = true → frameAt sharedMm 0xc0400000 b = none :=
  copy_leak_free_iff sharedMm_task (by decide) (by decide) sharedMm_child shared_copyRun 2 _

/-- the first frame taken for the page is behind no page of the child -/
theorem copy_leaks_frame :
    TaskCopyRun 0xc0406000 0xc0400000 smallVmas sharedMm
        [(0x01000000, 0xc040c000), (0x01000000, 0xc0408000)] sharedCopy2 ∧
      ¬ CopyLeakFree sharedCopy2 0xc0406000 smallChild
        [(0x01000000, 0xc040c000), (0x01000000, 0xc0408000)] := by
  refine ⟨shared_copyRun, ?_⟩
  unfold smallChild
  rw [leakFree_iff_pages sharedMm_task (by decide) (by decide) sharedMm_child shared_copyRun]
  have e : copiedPages sharedMm 0xc0400000 smallVmas = [0x01000000, 0x01000000] := by decide
  rw [e]
  intro hp
  exact (List.pairwise_cons.mp hp).1 0x01000000 (List.mem_singleton_self _) (SamePage.refl _)

end Paravirt

import Paravirt.Fault
import Paravirt.Ppfs

/-!
# The life of a page directory (kern/vmm_page.c)

A directory starts as a copy of the kernel's, gets page tables for user addresses one at a time, and
is given up.  What it owns is known from the index alone: the tables of the user entries.

* `PgdirInv`           the directory `d`, and the tables it was given, each with its entry;
* `PgdirInv.mapPage`   a call of `vmm_map_page` adds at most one table;
* `freeCalls`          the calls of `vmm_ppf_free` that `vmm_free_pgdir` makes, each with the state
                       that it finds;
* `PgdirInv.release`   the entry is cleared and the table is writable when its page is freed;
* `free_pgdir_releases`   the whole life.
-/

set_option linter.unusedSectionVars false
set_option linter.unusedVariables false

namespace Paravirt
open Tiling

/-! ## the pending updates -/

/-- no update of the table `t` is pending -/
def Mm.Quiet (m : Mm) (t : Nat) : Prop := ∀ u ∈ m.queue, u.1.1 ≠ t

section
variable {m : Mm} {t : Nat} {slot : Nat × Nat} {v : Nat}

theorem Mm.Quiet.queue (h : m.Quiet t) (hs : slot.1 ≠ t) : (m.vmmQueueMmuUpdate slot v).Quiet t := by
  intro u hu
  rcases mem_queue_vmmQueueMmuUpdate hu with hu | hu
  · exact h u hu
  · rw [hu]
    exact hs

theorem Mm.Quiet.eff_word (h : m.Quiet t) : m.eff.word t = m.word t := by
  funext i
  exact applyUpdates_of_not_mem _ fun u hu hc => h u hu (congrArg Prod.fst hc)

/-- other entries, flushed or not -/
theorem Mm.Quiet.queue_word (h : m.Quiet t) {i : Nat} (hs : (t, i) ≠ slot) :
    (m.vmmQueueMmuUpdate slot v).word t i = m.word t i := by
  unfold vmmQueueMmuUpdate
  dsimp only
  split
  · show applyUpdates m.word (m.queue ++ [(slot, v)]) t i = _
    rw [applyUpdates_append]
    show setWord (applyUpdates m.word m.queue) slot v t i = _
    rw [setWord_of_ne _ _ hs]
    exact congrFun h.eff_word i
  · rfl

theorem Mm.Quiet.queue_table (h : m.Quiet t) (hs : slot.1 ≠ t) :
    (m.vmmQueueMmuUpdate slot v).word t = m.word t := by
  funext i
  exact h.queue_word fun hc => hs (congrArg Prod.fst hc).symm

end

/-! ## the invariant -/

/-- the memory of the lomem zone, the kernel's part of a directory, and the directories that are
there already -/
structure PgdirBase (base live : List Block) (dirs : List Nat) (K : Nat → Nat) : Prop where
  good : GoodBase base
  frame : ∀ c ∈ allCells pageSize base, IsFrame c
  ktab : ∀ i, ¬ UserPde i → p2v (pageAddr (K i)) ∉ allCells pageSize base
  dirs : ∀ d ∈ dirs, (d, 1) ∈ live

/-- the directory `d`, whose user entries are the tables `tabs`, each with its index; `W` are the
words of the directories that are there already -/
structure PgdirInv (base live : List Block) (dirs : List Nat) (W : Nat → Nat → Nat) (K : Nat → Nat)
    (d : Nat) (tabs : List (Nat × Nat)) (m : Mm) : Prop where
  zone : ZoneInv base ((d, 1) :: ((tabs.map fun t => (t.2, 1)) ++ live)) m.lomem
  keys : (tabs.map Prod.fst).Nodup
  user : ∀ t ∈ tabs, UserPde t.1
  absent : ∀ i, UserPde i → i ∉ tabs.map Prod.fst → m.word d i = 0
  entry : ∀ t ∈ tabs, ∃ flags, flags < 4096 ∧ m.word d t.1 = flags ||| v2p t.2
  kern : ∀ i, ¬ UserPde i → m.word d i = K i
  pend : ∀ u ∈ m.queue, ∃ t ∈ tabs, u.1.1 = t.2
  others : ∀ d' ∈ dirs, m.word d' = W d'

theorem ZoneInv.live_nodup {base live : List Block} {z : VmmZone} (h : ZoneInv base live z)
    (hb : GoodBase base) : (live.map Prod.fst).Nodup := by
  refine List.Pairwise.map _ (fun b c hd he => ?_) (h.live_disjoint hb)
  exact hd (fst_mem_cells pageSize b) (he ▸ fst_mem_cells pageSize c)

theorem ZoneInv.live_base {base live : List Block} {z : VmmZone} (h : ZoneInv base live z)
    {b : Block} (hb : b ∈ live) : b.1 ∈ allCells pageSize base :=
  List.Perm.mem_iff h.tiles |>.mp
    (mem_allCells.mpr ⟨b, List.mem_append_right _ hb, fst_mem_cells pageSize b⟩)

section
variable {base live : List Block} {dirs : List Nat} {W : Nat → Nat → Nat} {K : Nat → Nat}
  {d : Nat} {tabs : List (Nat × Nat)} {m : Mm} {t : Nat × Nat} {i v : Nat} {slot : Nat × Nat}

namespace PgdirInv

section
variable (hB : PgdirBase base live dirs K) (h : PgdirInv base live dirs W K d tabs m)
include hB h

/-- the directory, its tables and what is live besides are all different -/
theorem nodup : (d :: (tabs.map Prod.snd ++ live.map Prod.fst)).Nodup := by
  have hn := h.zone.live_nodup hB.good
  rw [List.map_cons, List.map_append, List.map_map] at hn
  exact hn

theorem table_ne (ht : t ∈ tabs) : t.2 ≠ d := fun he =>
  (List.nodup_cons.mp (h.nodup hB)).1
    (List.mem_append_left _ (he ▸ List.mem_map_of_mem ht))

theorem table_frame (ht : t ∈ tabs) : IsFrame t.2 := by
  refine hB.frame _ (h.zone.live_base (b := (t.2, 1)) (List.mem_cons_of_mem _ ?_))
  exact List.mem_append_left _ (List.mem_map_of_mem (f := fun t => (t.2, 1)) ht)

theorem dir_frame : IsFrame d := hB.frame _ (h.zone.live_base (b := (d, 1)) List.mem_cons_self)

theorem other_ne {d' : Nat} (hd : d' ∈ dirs) : d' ≠ d ∧ ∀ t ∈ tabs, t.2 ≠ d' := by
  have hl : d' ∈ live.map Prod.fst := List.mem_map_of_mem (hB.dirs d' hd)
  have hn := List.nodup_cons.mp (h.nodup hB)
  refine ⟨fun he => hn.1 (List.mem_append_right _ (he ▸ hl)), fun t ht he => ?_⟩
  exact (List.nodup_append.mp hn.2).2.2 _ (List.mem_map_of_mem ht) _ hl he

theorem quiet : m.Quiet d := by
  intro u hu he
  obtain ⟨t, ht, hut⟩ := h.pend u hu
  exact h.table_ne hB ht (hut.symm.trans he)

theorem quiet_other {d' : Nat} (hd : d' ∈ dirs) : m.Quiet d' := by
  intro u hu he
  obtain ⟨t, ht, hut⟩ := h.pend u hu
  exact (h.other_ne hB hd).2 t ht (hut.symm.trans he)

theorem pageAddr_entry (ht : t ∈ tabs) : pageAddr (m.word d t.1) = v2p t.2 := by
  obtain ⟨flags, hfl, he⟩ := h.entry t ht
  rw [he, (h.table_frame hB ht).pageAddr_or hfl]

/-- the entry of a table in the kernel's map lies in a table of the kernel -/
theorem kernel_slot {f : Nat} (hf : IsFrame f) :
    m.vmmGetPte d f = (p2v (pageAddr (K (pdeIndex f))), pteIndex f) := by
  unfold Mm.vmmGetPte
  rw [h.kern _ hf.not_userPde]

/-- an update of a table of the directory -/
theorem queueTable (ht : t ∈ tabs) (hs : slot.1 = t.2) :
    PgdirInv base live dirs W K d tabs (m.vmmQueueMmuUpdate slot v) := by
  have hd : (m.vmmQueueMmuUpdate slot v).word d = m.word d :=
    (h.quiet hB).queue_table (hs ▸ h.table_ne hB ht)
  refine ⟨?_, h.keys, h.user, ?_, ?_, ?_, fun u hu => ?_, fun d' hd' => ?_⟩
  · rw [Mm.vmmQueueMmuUpdate_lomem]
    exact h.zone
  · rw [hd]
    exact h.absent
  · rw [hd]
    exact h.entry
  · rw [hd]
    exact h.kern
  · rcases Mm.mem_queue_vmmQueueMmuUpdate hu with hu | hu
    · exact h.pend u hu
    · exact ⟨t, ht, (congrArg Prod.fst hu).trans hs⟩
  · rw [(h.quiet_other hB hd').queue_table (hs ▸ (h.other_ne hB hd').2 t ht)]
    exact h.others d' hd'

/-- the entry of an address whose table is there -/
theorem mapEntry (ht : t ∈ tabs) {va : Nat} (hva : pdeIndex va = t.1) (ppf flags : Nat) :
    PgdirInv base live dirs W K d tabs (m.mapPageEntry d va ppf flags) := by
  have hs : (m.vmmGetPte d va).1 = t.2 := by
    show p2v (pageAddr (m.word d (pdeIndex va))) = t.2
    rw [hva, h.pageAddr_entry hB ht, (h.table_frame hB ht).p2v_v2p]
  unfold Mm.mapPageEntry
  dsimp only
  split
  · exact h.queueTable hB ht hs
  · exact h

/-- a page that the zone gives out for a table is a frame, and no directory -/
theorem table_fresh {z : VmmZone} {pt : Nat} (hz : ZoneInv base
    ((pt, 1) :: (d, 1) :: ((tabs.map fun t => (t.2, 1)) ++ live)) z) :
    IsFrame pt ∧ d ≠ pt ∧ ∀ d' ∈ dirs, d' ≠ pt := by
  have hptb : pt ∈ allCells pageSize base := hz.live_base (b := (pt, 1)) List.mem_cons_self
  have hn : (pt :: d :: (tabs.map Prod.snd ++ live.map Prod.fst)).Nodup := by
    have hn := hz.live_nodup hB.good
    rw [List.map_cons, List.map_cons, List.map_append, List.map_map] at hn
    exact hn
  refine ⟨hB.frame pt hptb, ?_, ?_⟩
  · exact fun he => (List.nodup_cons.mp hn).1 (he ▸ List.mem_cons_self)
  · intro d' hd' he
    exact (List.nodup_cons.mp hn).1 (List.mem_cons_of_mem _ (List.mem_append_right _
      (he ▸ List.mem_map_of_mem (hB.dirs d' hd'))))

/-- the words of the tables in use after a page table was set up: the page is zeroed, then its entry
in the kernel's map and its entry in the directory are set -/
theorem mapTable_word (va : Nat) {z : VmmZone} {pt : Nat} (hpt : IsFrame pt) (hpd : d ≠ pt)
    (hg : m.vmmPpfAlloc = ({ m with lomem := z }, some pt)) :
    ∃ m', m.mapPageTable d va = (m', true) ∧ m'.lomem = z ∧ m'.queue = [] ∧
      ∀ t, t ∈ allCells pageSize base → t ≠ pt → m.Quiet t → ∀ j,
        m'.word t j = if (t, j) = (d, pdeIndex va) then 7 ||| v2p pt else m.word t j := by
  obtain ⟨m1, hm1⟩ : ∃ m1 : Mm, { m with lomem := z, word := Function.update m.word pt fun _ => 0 }
    = m1 := ⟨_, rfl⟩
  have hw : ∀ t, t ≠ pt → m1.word t = m.word t := by
    intro t ht
    rw [← hm1]
    exact Function.update_of_ne ht _ _
  have hslot : m1.vmmGetPte d pt = (p2v (pageAddr (K (pdeIndex pt))), pteIndex pt) := by
    unfold Mm.vmmGetPte
    rw [hw d hpd, h.kern _ hpt.not_userPde]
  obtain ⟨slot, hs⟩ : ∃ slot, (p2v (pageAddr (K (pdeIndex pt))), pteIndex pt) = slot := ⟨_, rfl⟩
  have hsb : slot.1 ∉ allCells pageSize base := by
    rw [← hs]
    exact hB.ktab _ hpt.not_userPde
  have hq : m1.queue = m.queue := by rw [← hm1]
  have hq1 : ∀ t, m.Quiet t → m1.Quiet t := fun t ht u hu => ht u (hq ▸ hu)
  obtain ⟨m2, hm2⟩ : ∃ m2, m1.vmmQueueMmuUpdate slot
    (pgtabAttribSuRo ||| pgFlagPresent ||| v2p pt) = m2 := ⟨_, rfl⟩
  obtain ⟨m3, hm3⟩ : ∃ m3, (m2.vmmQueueMmuUpdate (d, pdeIndex va)
    (pgtabAttribUsrRw ||| pgFlagPresent ||| v2p pt)).vmmFlushMmuUpdateQueue = m3 := ⟨_, rfl⟩
  refine ⟨m3, ?_, ?_, ?_, ?_⟩
  · unfold Mm.mapPageTable
    rw [hg]
    show (((Mm.vmmQueueMmuUpdate { m with
      lomem := z, word := Function.update m.word pt fun _ => 0 } _ _).vmmQueueMmuUpdate _ _)
      |>.vmmFlushMmuUpdateQueue, true) = _
    rw [hm1, hslot, hs, hm2, hm3]
  · rw [← hm3, Mm.flush_eq, Mm.eff_lomem, Mm.vmmQueueMmuUpdate_lomem, ← hm2,
      Mm.vmmQueueMmuUpdate_lomem, ← hm1]
  · rw [← hm3]
    rfl
  · intro t htb htp hqt j
    have hst : slot.1 ≠ t := fun he => hsb (he ▸ htb)
    have e2 : m2.eff.word t = m.word t := by
      rw [← hm2, ((hq1 t hqt).queue hst).eff_word, (hq1 t hqt).queue_table hst, hw t htp]
    have e3 : m3.word = setWord m2.eff.word (d, pdeIndex va) (7 ||| v2p pt) := by
      rw [← hm3, Mm.flush_eq, Mm.vmmQueueMmuUpdate_eff]
      rfl
    rw [e3]
    split
    · next he =>
      rw [← he]
      exact setWord_self _ (t, j) _
    · next hne =>
      rw [setWord_of_ne _ _ hne, e2]

/-- a page table is set up -/
theorem mapTable {va : Nat} (hva : UserPde (pdeIndex va)) (hi : pdeIndex va ∉ tabs.map Prod.fst)
    {z : VmmZone} {pt : Nat} (hz : ZoneInv base
      ((pt, 1) :: (d, 1) :: ((tabs.map fun t => (t.2, 1)) ++ live)) z)
    (hg : m.vmmPpfAlloc = ({ m with lomem := z }, some pt)) :
    ∃ m', m.mapPageTable d va = (m', true) ∧
      PgdirInv base live dirs W K d ((pdeIndex va, pt) :: tabs) m' := by
  obtain ⟨hpt, hpd, hpo⟩ := h.table_fresh hB hz
  obtain ⟨m3, heq, hl, hq, hword⟩ := h.mapTable_word hB va hpt hpd hg
  have hdb : d ∈ allCells pageSize base := h.zone.live_base (b := (d, 1)) List.mem_cons_self
  have hwd := hword d hdb hpd (h.quiet hB)
  refine ⟨m3, heq, ?_, ?_, ?_, ?_, ?_, ?_, ?_, ?_⟩
  · rw [hl]
    exact hz.perm (List.Perm.swap _ _ _)
  · exact List.nodup_cons.mpr ⟨hi, h.keys⟩
  · intro t ht
    rcases List.mem_cons.mp ht with rfl | ht
    · exact hva
    · exact h.user t ht
  · intro i hu hni
    rw [List.map_cons, List.mem_cons, not_or] at hni
    rw [hwd, if_neg fun he => hni.1 (congrArg Prod.snd he)]
    exact h.absent i hu hni.2
  · intro t ht
    rcases List.mem_cons.mp ht with rfl | ht
    · refine ⟨7, by decide, ?_⟩
      rw [hwd, if_pos rfl]
    · obtain ⟨flags, hfl, he⟩ := h.entry t ht
      refine ⟨flags, hfl, ?_⟩
      have hne : t.1 ≠ pdeIndex va := fun hc => hi (hc ▸ List.mem_map_of_mem ht)
      rw [hwd, if_neg fun hc => hne (congrArg Prod.snd hc), he]
  · intro i hni
    have hne : i ≠ pdeIndex va := fun hc => hni (hc ▸ hva)
    rw [hwd, if_neg fun hc => hne (congrArg Prod.snd hc), h.kern i hni]
  · rw [hq]
    exact fun u hu => absurd hu List.not_mem_nil
  · intro d' hd'
    have hb' : d' ∈ allCells pageSize base :=
      h.zone.live_base (b := (d', 1)) (List.mem_cons_of_mem _
        (List.mem_append_right _ (hB.dirs d' hd')))
    rw [← h.others d' hd']
    funext j
    rw [hword d' hb' (hpo d' hd') (h.quiet_other hB hd') j]
    exact if_neg fun hc => (h.other_ne hB hd').1 (congrArg Prod.fst hc)

end
end PgdirInv

/-! ## calls of vmm_map_page -/

/-- the table a call allocates, with its index -/
def Mm.tablesOfCall (m : Mm) (d va : Nat) : List (Nat × Nat) :=
  if m.word d (pdeIndex va) = 0 then (m.vmmPpfAlloc.2.map fun pt => (pdeIndex va, pt)).toList else []

structure MapCall where
  vaddr : Nat
  ppf : Nat
  flags : Nat
  deriving DecidableEq, Repr

def Mm.mapCalls (d : Nat) : List MapCall → Mm → Mm
  | [], m => m
  | c :: cs, m => Mm.mapCalls d cs (m.vmmMapPage d c.vaddr c.ppf c.flags).1

/-- the tables that the calls allocate, the last first -/
def Mm.tablesOfCalls (d : Nat) : List MapCall → Mm → List (Nat × Nat)
  | [], _ => []
  | c :: cs, m => Mm.tablesOfCalls d cs (m.vmmMapPage d c.vaddr c.ppf c.flags).1
      ++ m.tablesOfCall d c.vaddr

theorem PgdirInv.mapPage (hB : PgdirBase base live dirs K)
    (h : PgdirInv base live dirs W K d tabs m) {va : Nat} (hva : UserPde (pdeIndex va))
    (ppf flags : Nat) :
    PgdirInv base live dirs W K d (m.tablesOfCall d va ++ tabs)
      (m.vmmMapPage d va ppf flags).1 := by
  unfold Mm.vmmMapPage Mm.tablesOfCall
  by_cases h0 : m.word d (pdeIndex va) = 0
  · rw [if_pos h0, if_pos h0]
    have hi : pdeIndex va ∉ tabs.map Prod.fst := by
      intro hi
      obtain ⟨t, ht, hti⟩ := List.mem_map.mp hi
      have hp := h.pageAddr_entry hB ht
      rw [hti, h0] at hp
      exact (h.table_frame hB ht).v2p_pos hp.symm
    rcases h.zone.get hB.good 1 with ⟨e, -⟩ | ⟨z, pt, e, hz, -⟩
    · have hg : m.vmmPpfAlloc = (m, none) := by
        unfold Mm.vmmPpfAlloc
        rw [e]
      have ht : m.mapPageTable d va = (m, false) := by
        unfold Mm.mapPageTable
        rw [hg]
      rw [ht, hg]
      exact h
    · have hg : m.vmmPpfAlloc = ({ m with lomem := z }, some pt) := by
        unfold Mm.vmmPpfAlloc
        rw [e]
      obtain ⟨m', hm', h'⟩ := h.mapTable hB hva hi hz hg
      rw [hm', hg]
      exact h'.mapEntry hB List.mem_cons_self rfl ppf flags
  · rw [if_neg h0, if_neg h0]
    have hi : pdeIndex va ∈ tabs.map Prod.fst := by
      by_contra hi
      exact h0 (h.absent _ hva hi)
    obtain ⟨t, ht, hti⟩ := List.mem_map.mp hi
    exact h.mapEntry hB ht hti.symm ppf flags

/-- an address of `[USER_MEM_START, VMM_KERNEL_BASE)` -/
theorem userPde_of_userAddr {va : Nat} (h1 : userMemStart ≤ va) (h2 : va < vmmKernelBase) :
    UserPde (pdeIndex va) := by
  unfold userMemStart at h1
  unfold vmmKernelBase at h2
  rw [pdeIndex_eq]
  unfold UserPde
  omega

theorem PgdirInv.mapCalls (hB : PgdirBase base live dirs K) (cs : List MapCall) :
    ∀ {tabs : List (Nat × Nat)} {m : Mm}, PgdirInv base live dirs W K d tabs m →
    (∀ c ∈ cs, userMemStart ≤ c.vaddr ∧ c.vaddr < vmmKernelBase) →
    PgdirInv base live dirs W K d (Mm.tablesOfCalls d cs m ++ tabs) (Mm.mapCalls d cs m) := by
  induction cs with
  | nil => exact fun h _ => h
  | cons c cs ih =>
    intro tabs m h hcs
    obtain ⟨h1, h2⟩ := hcs c List.mem_cons_self
    have hstep := h.mapPage hB (userPde_of_userAddr h1 h2) c.ppf c.flags
    have hrest := ih hstep fun c hc => hcs c (List.mem_cons_of_mem _ hc)
    unfold Mm.tablesOfCalls Mm.mapCalls
    rw [List.append_assoc]
    exact hrest

/-! ## vmm_free_pgdir -/

/-- the state on which the page table of entry `i` is freed -/
def Mm.releaseTable (m : Mm) (pgdir i : Nat) : Mm :=
  let pgtab := pageAddr (m.word pgdir i)
  let m := m.vmmQueueMmuUpdate (pgdir, i) 0
  (m.vmmQueueMmuUpdate (m.vmmGetPte pgdir (p2v pgtab)) (pgtab ||| pgtabAttribSuRw))
    |>.vmmFlushMmuUpdateQueue

/-- the state on which the directory itself is freed -/
def Mm.releaseDir (m : Mm) (pgdir : Nat) : Mm :=
  (m.vmmQueueMmuUpdate (m.vmmGetPte pgdir pgdir) (v2p pgdir ||| pgtabAttribSuRw))
    |>.vmmFlushMmuUpdateQueue

/-- the calls of `vmm_ppf_free` from the entries `l` on: the state that each finds, and the page -/
def Mm.freeCallsFrom (pgdir : Nat) : List Nat → Mm → List (Mm × Nat)
  | [], m => [(m.releaseDir pgdir, pgdir)]
  | i :: l, m =>
    if pageAddr (m.word pgdir i) = 0 then Mm.freeCallsFrom pgdir l m
    else (m.releaseTable pgdir i, p2v (pageAddr (m.word pgdir i))) ::
      Mm.freeCallsFrom pgdir l ((m.releaseTable pgdir i).vmmPpfFree (p2v (pageAddr (m.word pgdir i))))

def Mm.freeCalls (m : Mm) (pgdir : Nat) : List (Mm × Nat) := Mm.freeCallsFrom pgdir userPdes m

theorem Mm.freePgdirEntry_eq (m : Mm) (pgdir i : Nat) : m.freePgdirEntry pgdir i =
    if pageAddr (m.word pgdir i) = 0 then m
    else (m.releaseTable pgdir i).vmmPpfFree (p2v (pageAddr (m.word pgdir i))) := rfl

theorem Mm.releaseTable_lomem (m : Mm) (pgdir i : Nat) : (m.releaseTable pgdir i).lomem = m.lomem := by
  unfold releaseTable
  dsimp only
  rw [flush_eq, eff_lomem, vmmQueueMmuUpdate_lomem, vmmQueueMmuUpdate_lomem]

theorem Mm.releaseDir_lomem (m : Mm) (pgdir : Nat) : (m.releaseDir pgdir).lomem = m.lomem := by
  unfold releaseDir
  rw [flush_eq, eff_lomem, vmmQueueMmuUpdate_lomem]

/-- the loop and the end of `vmm_free_pgdir` from the entries `l` on -/
def Mm.freePgdirFrom (pgdir : Nat) (l : List Nat) (m : Mm) : Mm :=
  let m := l.foldl (fun m i => m.freePgdirEntry pgdir i) m
  (m.releaseDir pgdir).vmmPpfFree pgdir

theorem Mm.vmmFreePgdir_eq (m : Mm) (pgdir : Nat) :
    m.vmmFreePgdir pgdir = Mm.freePgdirFrom pgdir userPdes m := rfl

/-- **these are the calls**: the zone is what they leave of it -/
theorem Mm.freePgdirFrom_lomem (pgdir : Nat) (l : List Nat) : ∀ m : Mm,
    (Mm.freePgdirFrom pgdir l m).lomem = (Mm.freeCallsFrom pgdir l m).foldl
      (fun z c => vmmBuddyFreePages z c.2 1) m.lomem := by
  induction l with
  | nil =>
    intro m
    show vmmBuddyFreePages (m.releaseDir pgdir).lomem pgdir 1 = _
    rw [releaseDir_lomem]
    rfl
  | cons i l ih =>
    intro m
    have hstep : Mm.freePgdirFrom pgdir (i :: l) m
        = Mm.freePgdirFrom pgdir l (m.freePgdirEntry pgdir i) := rfl
    rw [hstep, freePgdirEntry_eq]
    unfold freeCallsFrom
    split
    · exact ih m
    · rw [ih, List.foldl_cons]
      congr 1
      unfold vmmPpfFree
      dsimp only
      rw [releaseTable_lomem]

/-- the entry for the page `f` in the map that all directories share with the kernel's -/
def kernelSlot (K : Nat → Nat) (f : Nat) : Nat × Nat :=
  (p2v (pageAddr (K (pdeIndex f))), pteIndex f)

/-- the kernel's entry for the page is writable, and nothing is pending -/
def Mm.Writable (m : Mm) (K : Nat → Nat) (f : Nat) : Prop :=
  m.queue = [] ∧ m.word (kernelSlot K f).1 (kernelSlot K f).2 = v2p f ||| pgtabAttribSuRw

theorem PgdirInv.perm {tabs' : List (Nat × Nat)} (h : PgdirInv base live dirs W K d tabs m)
    (hp : tabs.Perm tabs') : PgdirInv base live dirs W K d tabs' m where
  zone := h.zone.perm (List.Perm.cons _ ((hp.map _).append_right _))
  keys := ((hp.map _).nodup_iff).mp h.keys
  user t ht := h.user t (hp.mem_iff.mpr ht)
  absent i hu hi := h.absent i hu fun hi' => hi ((hp.map _).mem_iff.mp hi')
  entry t ht := h.entry t (hp.mem_iff.mpr ht)
  kern := h.kern
  pend u hu := (h.pend u hu).imp fun t ht => ⟨hp.mem_iff.mp ht.1, ht.2⟩
  others := h.others

section
variable (hB : PgdirBase base live dirs K)
include hB

/-- the two words that the release of a table writes: its entry in the directory, and the entry of
its page in the kernel's map -/
theorem PgdirInv.releaseTable_word (h : PgdirInv base live dirs W K d (t :: tabs) m) :
    (m.releaseTable d t.1).queue = [] ∧ (m.releaseTable d t.1).word =
      setWord (setWord m.eff.word (d, t.1) 0) (kernelSlot K t.2) (v2p t.2 ||| pgtabAttribSuRw) := by
  have ht : t ∈ t :: tabs := List.mem_cons_self
  have hf := h.table_frame hB ht
  -- the slot is found through the directory, whose entry was just cleared
  have hslot : (m.vmmQueueMmuUpdate (d, t.1) 0).vmmGetPte d t.2 = kernelSlot K t.2 := by
    have hne : (d, pdeIndex t.2) ≠ (d, t.1) := by
      intro he
      have hi : pdeIndex t.2 = t.1 := congrArg Prod.snd he
      exact hf.not_userPde (hi ▸ h.user t ht)
    unfold Mm.vmmGetPte
    rw [(h.quiet hB).queue_word hne, h.kern _ hf.not_userPde]
    rfl
  have hrel : m.releaseTable d t.1 = ((m.vmmQueueMmuUpdate (d, t.1) 0).vmmQueueMmuUpdate
      (kernelSlot K t.2) (v2p t.2 ||| pgtabAttribSuRw)).eff := by
    unfold Mm.releaseTable
    dsimp only
    rw [h.pageAddr_entry hB ht, hf.p2v_v2p, hslot]
    rfl
  rw [hrel]
  refine ⟨rfl, ?_⟩
  rw [Mm.vmmQueueMmuUpdate_eff, Mm.vmmQueueMmuUpdate_eff]

/-- **one table**: its entry is cleared, it is writable, and nothing else changes -/
theorem PgdirInv.release (h : PgdirInv base live dirs W K d (t :: tabs) m) :
    (m.releaseTable d t.1).Writable K t.2 ∧ (m.releaseTable d t.1).word d t.1 = 0 ∧
      PgdirInv base live dirs W K d tabs ((m.releaseTable d t.1).vmmPpfFree t.2) := by
  have ht : t ∈ t :: tabs := List.mem_cons_self
  have hf := h.table_frame hB ht
  have hdb : d ∈ allCells pageSize base := h.zone.live_base (b := (d, 1)) List.mem_cons_self
  have hsb : (kernelSlot K t.2).1 ∉ allCells pageSize base := hB.ktab _ hf.not_userPde
  have hsd : (kernelSlot K t.2).1 ≠ d := fun he => hsb (he ▸ hdb)
  have hkeys := List.nodup_cons.mp h.keys
  obtain ⟨hqueue, hw⟩ := h.releaseTable_word hB
  have hlomem := Mm.releaseTable_lomem m d t.1
  obtain ⟨r, hr⟩ : ∃ r, m.releaseTable d t.1 = r := ⟨_, rfl⟩
  rw [hr] at hlomem hqueue hw ⊢
  have hwd : ∀ j, r.word d j = if j = t.1 then 0 else m.word d j := by
    intro j
    rw [hw, setWord_table_of_ne _ _ hsd.symm]
    split
    · next he =>
      rw [he]
      exact setWord_self _ (d, t.1) 0
    · next hne =>
      rw [setWord_of_ne _ _ fun he => hne (congrArg Prod.snd he), (h.quiet hB).eff_word]
  refine ⟨⟨hqueue, ?_⟩, ?_, ⟨?_, hkeys.2, fun t' ht' => h.user t' (List.mem_cons_of_mem _ ht'),
    fun i hu hi => ?_, fun t' ht' => ?_, fun i hi => ?_, fun u hu => ?_, fun d' hd' => ?_⟩⟩
  · rw [hw]
    exact setWord_self _ _ _
  · rw [hwd, if_pos rfl]
  · have hz := h.zone.perm (List.Perm.swap (t.2, 1) (d, 1) _)
    have hfree := (hz.free hB.good (Nat.le_add_left 1 _)).1
    show ZoneInv _ _ (vmmBuddyFreePages r.lomem t.2 1)
    rw [hlomem]
    exact hfree
  · show r.word d i = 0
    rw [hwd]
    split
    · rfl
    · next hne =>
      refine h.absent i hu fun hi' => ?_
      rcases List.mem_cons.mp hi' with he | hi'
      · exact hne he
      · exact hi hi'
  · obtain ⟨flags, hfl, he⟩ := h.entry t' (List.mem_cons_of_mem _ ht')
    refine ⟨flags, hfl, ?_⟩
    have hne : t'.1 ≠ t.1 := fun hc => hkeys.1 (hc ▸ List.mem_map_of_mem ht')
    show r.word d t'.1 = _
    rw [hwd, if_neg hne, he]
  · have hne : i ≠ t.1 := fun hc => hi (hc ▸ h.user t ht)
    show r.word d i = _
    rw [hwd, if_neg hne, h.kern i hi]
  · have hu' : u ∈ r.queue := hu
    rw [hqueue] at hu'
    exact absurd hu' List.not_mem_nil
  · have hb' : d' ∈ allCells pageSize base :=
      h.zone.live_base (b := (d', 1)) (List.mem_cons_of_mem _
        (List.mem_append_right _ (hB.dirs d' hd')))
    show r.word d' = _
    rw [hw, setWord_table_of_ne _ _ fun he => hsb (he ▸ hb'),
      setWord_table_of_ne _ _ (h.other_ne hB hd').1, (h.quiet_other hB hd').eff_word, h.others d' hd']

/-- the directory itself -/
theorem PgdirInv.releaseDir (h : PgdirInv base live dirs W K d [] m) :
    (m.releaseDir d).Writable K d ∧ ZoneInv base live ((m.releaseDir d).vmmPpfFree d).lomem := by
  have hf := h.dir_frame hB
  have hslot : m.vmmGetPte d d = kernelSlot K d := h.kernel_slot hB hf
  have hlomem := Mm.releaseDir_lomem m d
  constructor
  · unfold Mm.releaseDir
    rw [hslot, Mm.flush_eq, Mm.vmmQueueMmuUpdate_eff]
    exact ⟨rfl, setWord_self _ _ _⟩
  · have hfree := (h.zone.free hB.good (Nat.le_add_left 1 _)).1
    show ZoneInv _ _ (vmmBuddyFreePages (m.releaseDir d).lomem d 1)
    rw [hlomem]
    exact hfree

/-- **the loop**, by induction on the entries left; all tables left are under one of them -/
theorem PgdirInv.freeCallsFrom (l : List Nat) : ∀ {tabs : List (Nat × Nat)} {m : Mm},
    PgdirInv base live dirs W K d tabs m → (∀ t ∈ tabs, t.1 ∈ l) → (∀ i ∈ l, UserPde i) →
    ((Mm.freeCallsFrom d l m).map Prod.snd).Perm (d :: tabs.map Prod.snd) ∧
      ZoneInv base live (Mm.freePgdirFrom d l m).lomem ∧
      (∀ c ∈ Mm.freeCallsFrom d l m, c.1.Writable K c.2 ∧
        ∀ t ∈ tabs, t.2 = c.2 → c.1.word d t.1 = 0) := by
  induction l with
  | nil =>
    intro tabs m h hl _
    obtain rfl : tabs = [] := List.eq_nil_iff_forall_not_mem.mpr fun t ht =>
      absurd (hl t ht) List.not_mem_nil
    obtain ⟨h1, h2⟩ := h.releaseDir hB
    refine ⟨List.Perm.refl _, h2, fun c hc => ?_⟩
    obtain rfl : c = (m.releaseDir d, d) := List.mem_singleton.mp hc
    exact ⟨h1, fun t ht => absurd ht List.not_mem_nil⟩
  | cons i l ih =>
    intro tabs m h hl huser
    have huser' : ∀ i ∈ l, UserPde i := fun i hi => huser i (List.mem_cons_of_mem _ hi)
    have hstep : Mm.freePgdirFrom d (i :: l) m = Mm.freePgdirFrom d l (m.freePgdirEntry d i) := rfl
    rw [hstep, Mm.freePgdirEntry_eq]
    unfold Mm.freeCallsFrom
    by_cases hi : i ∈ tabs.map Prod.fst
    · obtain ⟨t, ht, rfl⟩ := List.mem_map.mp hi
      have hf := h.table_frame hB ht
      have hpa := h.pageAddr_entry hB ht
      have hne : pageAddr (m.word d t.1) ≠ 0 := fun he => hf.v2p_pos (hpa.symm.trans he)
      have hp := List.perm_cons_erase ht
      have h' := h.perm hp
      obtain ⟨h1, h2, h3⟩ := h'.release hB
      have hl' : ∀ t' ∈ tabs.erase t, t'.1 ∈ l := by
        intro t' ht'
        have hne' : t'.1 ≠ t.1 := fun hc =>
          (List.nodup_cons.mp h'.keys).1 (hc ▸ List.mem_map_of_mem ht')
        exact (List.mem_cons.mp (hl t' (List.mem_of_mem_erase ht'))).resolve_left hne'
      obtain ⟨i1, i2, i3⟩ := ih h3 hl' huser'
      rw [if_neg hne, if_neg hne, hpa, hf.p2v_v2p]
      refine ⟨?_, i2, fun c hc => ?_⟩
      · refine (List.Perm.cons _ i1).trans ((List.Perm.swap _ _ _).trans (List.Perm.cons _ ?_))
        exact (hp.map Prod.snd).symm
      · have hn := h'.nodup hB
        rcases List.mem_cons.mp hc with rfl | hc
        · refine ⟨h1, fun t' ht' he => ?_⟩
          rcases List.mem_cons.mp (hp.mem_iff.mp ht') with rfl | ht'
          · exact h2
          · -- no other table has its page
            have hn' := (List.nodup_cons.mp (List.nodup_cons.mp hn).2).1
            exact absurd (List.mem_append_left _ (he ▸ List.mem_map_of_mem ht')) hn'
        · refine ⟨(i3 c hc).1, fun t' ht' he => ?_⟩
          rcases List.mem_cons.mp (hp.mem_iff.mp ht') with rfl | ht'
          · -- its page is not freed a second time
            have hmem : c.2 ∈ d :: (tabs.erase t').map Prod.snd :=
              i1.mem_iff.mp (List.mem_map_of_mem hc)
            rw [← he] at hmem
            rcases List.mem_cons.mp hmem with hd | hm
            · exact absurd hd (h.table_ne hB ht)
            · have hn' := (List.nodup_cons.mp (List.nodup_cons.mp hn).2).1
              exact absurd (List.mem_append_left _ hm) hn'
          · exact (i3 c hc).2 t' ht' he
    · have h0 : pageAddr (m.word d i) = 0 := by
        rw [h.absent i (huser i List.mem_cons_self) hi]
        rfl
      rw [if_pos h0, if_pos h0]
      refine ih h (fun t ht => ?_) huser'
      exact (List.mem_cons.mp (hl t ht)).resolve_left fun hc => hi (hc ▸ List.mem_map_of_mem ht)

end

/-! ## vmm_create_pgdir -/

section
variable {mm : Mm} {cur : Nat}

theorem Ready.pgdirBase (h : Ready base live dirs mm) :
    PgdirBase base live dirs (mm.word mm.kernelPageDir) where
  good := h.inv.good
  frame := h.inv.frame
  ktab i hi := (h.inv.ktab i hi).1
  dirs d hd := h.inv.live_of_use (.dir d) d (.dir hd)

/-- the words of the frames after a directory was created: its page is a copy of the kernel's
directory -/
theorem vmmCreatePgdir_word (h : Ready base live dirs mm) (hcur : cur ∈ dirs ∨ cur = mm.kernelPageDir)
    {z : VmmZone} {f : Nat} (hz : ZoneInv base ((f, 1) :: live) z)
    (hg : mm.vmmPpfAlloc = ({ mm with lomem := z }, some f)) :
    ∃ m', mm.vmmCreatePgdir cur = (m', some f) ∧ m'.lomem = z ∧ m'.queue = [] ∧
      ∀ t ∈ allCells pageSize base,
        m'.word t = if t = f then mm.word mm.kernelPageDir else mm.word t := by
  have hB := h.pgdirBase
  have hfb : f ∈ allCells pageSize base := hz.live_base (b := (f, 1)) List.mem_cons_self
  have hf : IsFrame f := hB.frame f hfb
  have hn := List.nodup_cons.mp (hz.live_nodup hB.good)
  have hcf : cur ≠ f := by
    rcases hcur with hc | rfl
    · exact fun he => hn.1 (he ▸ List.mem_map_of_mem (hB.dirs cur hc))
    · exact fun he => h.inv.kpd (he ▸ hfb)
  obtain ⟨m0, hm0⟩ : ∃ m0 : Mm, { mm with
    lomem := z, word := Function.update mm.word f (mm.word mm.kernelPageDir) } = m0 := ⟨_, rfl⟩
  have hw0 : ∀ t, m0.word t = if t = f then mm.word mm.kernelPageDir else mm.word t := by
    intro t
    rw [← hm0]
    exact Function.update_apply ..
  -- the kernel's part of the running directory is the kernel's
  have hkern : m0.word cur (pdeIndex f) = mm.word mm.kernelPageDir (pdeIndex f) := by
    rw [hw0 cur, if_neg hcf]
    rcases hcur with hc | rfl
    · exact h.inv.kdir cur hc _ hf.not_userPde
    · rfl
  have hne0 : m0.word cur (pdeIndex f) ≠ 0 := hkern ▸ h.inv.kmap f hfb
  have hq : ∀ t, m0.Quiet t := by
    intro t u hu
    rw [← hm0] at hu
    exact absurd (h.queue ▸ hu) List.not_mem_nil
  have hslot : (m0.vmmGetPte cur f).1 ∉ allCells pageSize base := by
    unfold Mm.vmmGetPte
    rw [hkern]
    exact hB.ktab _ hf.not_userPde
  obtain ⟨m1, hm1⟩ : ∃ m1, m0.mapPageEntry cur f (v2p f) (pgtabAttribUsrRo ||| pgFlagPresent) = m1 :=
    ⟨_, rfl⟩
  refine ⟨m1.eff, ?_, ?_, rfl, fun t ht => ?_⟩
  · unfold Mm.vmmCreatePgdir
    rw [hg]
    dsimp only
    rw [hm0]
    unfold Mm.vmmMapPage
    rw [if_neg hne0, hm1]
    rfl
  · rw [Mm.eff_lomem, ← hm1, Mm.mapPageEntry_lomem, ← hm0]
  · have hst : (m0.vmmGetPte cur f).1 ≠ t := fun he => hslot (he ▸ ht)
    rw [← hw0, ← hm1]
    unfold Mm.mapPageEntry
    dsimp only
    split
    · rw [((hq t).queue hst).eff_word, (hq t).queue_table hst]
    · exact (hq t).eff_word

/-- **a new directory** owns no table -/
theorem PgdirInv.create (h : Ready base live dirs mm) (hcur : cur ∈ dirs ∨ cur = mm.kernelPageDir)
    (hd : (mm.vmmCreatePgdir cur).2 = some d) :
    PgdirInv base live dirs mm.word (mm.word mm.kernelPageDir) d []
      (mm.vmmCreatePgdir cur).1 := by
  have hB := h.pgdirBase
  rcases h.inv.zone.get hB.good 1 with ⟨e, -⟩ | ⟨z, f, e, hz, -⟩
  · have hg : mm.vmmPpfAlloc = (mm, none) := by
      unfold Mm.vmmPpfAlloc
      rw [e]
    unfold Mm.vmmCreatePgdir at hd
    rw [hg] at hd
    exact absurd hd.symm (Option.some_ne_none d)
  have hg : mm.vmmPpfAlloc = ({ mm with lomem := z }, some f) := by
    unfold Mm.vmmPpfAlloc
    rw [e]
  obtain ⟨m', hcreate, hlomem, hqueue, hword⟩ := vmmCreatePgdir_word h hcur hz hg
  have hfb : f ∈ allCells pageSize base := hz.live_base (b := (f, 1)) List.mem_cons_self
  have hn := List.nodup_cons.mp (hz.live_nodup hB.good)
  rw [hcreate] at hd ⊢
  obtain rfl : f = d := Option.some.inj hd
  dsimp only
  have hwf := hword f hfb
  rw [if_pos rfl] at hwf
  refine ⟨?_, List.nodup_nil, fun t ht => absurd ht List.not_mem_nil, fun i hi _ => ?_,
    fun t ht => absurd ht List.not_mem_nil, fun i hi => ?_, fun u hu => ?_, fun d' hd' => ?_⟩
  · rw [hlomem]
    exact hz
  · rw [hwf]
    exact h.inv.kuser i hi
  · rw [hwf]
  · rw [hqueue] at hu
    exact absurd hu List.not_mem_nil
  · have hdf : d' ≠ f := fun he => hn.1 (he ▸ List.mem_map_of_mem (hB.dirs d' hd'))
    rw [hword d' (h.inv.zone.live_base (hB.dirs d' hd')), if_neg hdf]

end

/-! ## the whole life -/

/-- what `vmm_free_pgdir` does to the directory `d` with the tables `tabs` in the state `m`; `mm` is
the state in which the directory was created, and `dirs` are the directories of that time -/
structure ReleasesOwn (dirs : List Nat) (mm : Mm) (d : Nat) (tabs : List (Nat × Nat)) (m : Mm) :
    Prop where
  /-- the pages that are freed: each once, and these only -/
  frees : ((m.freeCalls d).map Prod.snd).Perm (d :: tabs.map Prod.snd)
  once : (d :: tabs.map Prod.snd).Nodup
  calls : (m.vmmFreePgdir d).lomem
    = (m.freeCalls d).foldl (fun z c => vmmBuddyFreePages z c.2 1) m.lomem
  freeLists : (m.vmmFreePgdir d).lomem.freeCells.Perm
    (allCells pageSize ((d, 1) :: tabs.map fun t => (t.2, 1)) ++ m.lomem.freeCells)
  /-- no page of the kernel or of another directory -/
  kernel : ∀ f ∈ d :: tabs.map Prod.snd, f ≠ mm.kernelPageDir ∧
    ∀ i, ¬ UserPde i → f ≠ tableAt mm.word mm.kernelPageDir i
  others : ∀ f ∈ d :: tabs.map Prod.snd, ∀ d' ∈ dirs, m.word d' = mm.word d' ∧ f ≠ d' ∧
    ∀ i, UserPde i → m.word d' i ≠ 0 → f ≠ tableAt m.word d' i
  /-- each page is freed when its entry is cleared and its mapping is writable, both flushed -/
  order : ∀ c ∈ m.freeCalls d, c.1.Writable (mm.word mm.kernelPageDir) c.2 ∧
    ∀ t ∈ tabs, t.2 = c.2 → c.1.word d t.1 = 0

/-- **the tables of a page directory are released with it, and nothing else is** -/
theorem free_pgdir_releases {mm : Mm} {cur : Nat} (h : Ready base live dirs mm)
    (hcur : cur ∈ dirs ∨ cur = mm.kernelPageDir) (hd : (mm.vmmCreatePgdir cur).2 = some d)
    {cs : List MapCall} (hcs : ∀ c ∈ cs, userMemStart ≤ c.vaddr ∧ c.vaddr < vmmKernelBase) :
    ReleasesOwn dirs mm d (Mm.tablesOfCalls d cs (mm.vmmCreatePgdir cur).1)
      (Mm.mapCalls d cs (mm.vmmCreatePgdir cur).1) := by
  have hB := h.pgdirBase
  have h2 := (PgdirInv.create h hcur hd).mapCalls hB cs hcs
  rw [List.append_nil] at h2
  generalize Mm.tablesOfCalls d cs (mm.vmmCreatePgdir cur).1 = tabs at h2 ⊢
  generalize Mm.mapCalls d cs (mm.vmmCreatePgdir cur).1 = m at h2 ⊢
  obtain ⟨h3, h4, h5⟩ := h2.freeCallsFrom hB userPdes (fun t ht => mem_userPdes.mpr (h2.user t ht))
    fun i hi => mem_userPdes.mp hi
  have hn := h2.nodup hB
  have hn' : ((d :: tabs.map Prod.snd) ++ live.map Prod.fst).Nodup := hn
  have hbase : ∀ f ∈ d :: tabs.map Prod.snd, f ∈ allCells pageSize base := by
    intro f hf
    rcases List.mem_cons.mp hf with rfl | hf
    · exact h2.zone.live_base (b := (f, 1)) List.mem_cons_self
    · obtain ⟨t, ht, rfl⟩ := List.mem_map.mp hf
      exact h2.zone.live_base (b := (t.2, 1)) (List.mem_cons_of_mem _
        (List.mem_append_left _ (List.mem_map_of_mem (f := fun t => (t.2, 1)) ht)))
  have hlive : ∀ f ∈ d :: tabs.map Prod.snd, ∀ g, (g, 1) ∈ live → f ≠ g := fun f hf g hg =>
    (List.nodup_append.mp hn').2.2 f hf g (List.mem_map_of_mem (f := Prod.fst) hg)
  refine ⟨h3, (List.nodup_append.mp hn').1, ?_, ?_, fun f hf => ⟨fun he => ?_, fun i hi he => ?_⟩,
    fun f hf d' hd' => ⟨h2.others d' hd', hlive f hf d' (hB.dirs d' hd'), fun i hi h0 => ?_⟩, h5⟩
  · rw [Mm.vmmFreePgdir_eq]
    exact Mm.freePgdirFrom_lomem d userPdes m
  · rw [Mm.vmmFreePgdir_eq]
    have e1 := h4.cells_perm
    have e2 := h2.zone.cells_perm
    rw [← List.cons_append, allCells_append] at e2
    refine (List.perm_append_right_iff (allCells pageSize live)).mp ((e1.trans e2.symm).trans ?_)
    rw [← List.append_assoc]
    exact List.perm_append_comm.append_right _
  · exact h.inv.kpd (he ▸ hbase f hf)
  · exact (h.inv.ktab i hi).1 (he ▸ hbase f hf)
  · have hu : Uses mm.word dirs (.table d' i) (tableAt mm.word d' i) := by
      rw [h2.others d' hd'] at h0
      exact .table hd' hi h0
    have he : tableAt m.word d' i = tableAt mm.word d' i := by
      unfold tableAt
      rw [h2.others d' hd']
    rw [he]
    exact hlive f hf _ (h.inv.live_of_use _ _ hu)

/-- a directory with tables for two regions on a machine of eight frames, at once full -/
theorem free_pgdir_releases_small :
    ReleasesOwn [0xc0400000] smallMm 0xc0402000
      (Mm.tablesOfCalls 0xc0402000 [⟨0x1000000, 0, 4⟩, ⟨0x8048000, 0, 4⟩, ⟨0x8049000, 0, 4⟩]
        (smallMm.vmmCreatePgdir 0xc0400000).1)
      (Mm.mapCalls 0xc0402000 [⟨0x1000000, 0, 4⟩, ⟨0x8048000, 0, 4⟩, ⟨0x8049000, 0, 4⟩]
        (smallMm.vmmCreatePgdir 0xc0400000).1) :=
  free_pgdir_releases smallMm_ready (.inl (List.mem_singleton_self _)) (by decide)
    (by decide)

end
end Paravirt

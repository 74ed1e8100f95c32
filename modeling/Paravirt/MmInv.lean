import Paravirt.Mm
import Paravirt.ZoneInv

/-!
# Who uses a page frame

* `Mm.eff`           the state once the pending updates are applied; all invariants speak of it;
* `Uses w dirs u f`  the page `f` is in use as `u`: a page directory of `dirs`, a page table of one,
                     or the target of a user-range entry of one;
* `CanServe n z`     the zone `z` can serve `n` more requests for a page;
* `MmInv`            every page in use is a live block of the lomem zone, and no page has two uses;
* `MmInv.setPage`, `MmInv.newTable`, `MmInv.alloc`, `MmInv.free`, `MmInv.setKernel`
                     one lemma for each change the code makes.
-/

set_option linter.unusedSectionVars false
set_option linter.unusedVariables false

namespace Paravirt
open Tiling

/-! ## masks as arithmetic -/

theorem and_mask (a n lo : Nat) :
    a &&& ((2^n - 1) <<< lo) = (a / 2^lo % 2^n) * 2^lo := by
  rw [← Nat.shiftLeft_eq (a / 2^lo % 2^n), ← Nat.and_two_pow_sub_one_eq_mod,
    ← Nat.shiftRight_eq_div_pow]
  apply Nat.eq_of_testBit_eq
  intro i
  simp only [Nat.testBit_and, Nat.testBit_shiftLeft, Nat.testBit_shiftRight]
  by_cases h : lo ≤ i
  · simp [h]
  · simp [h]

theorem pageAddr_eq (a : Nat) : pageAddr a = a / 4096 % 2^20 * 4096 := and_mask a 20 12
theorem pageDiv_eq (a : Nat) : pageDiv a = a % 4096 := Nat.and_two_pow_sub_one_eq_mod a 12
theorem v2p_eq (a : Nat) : v2p a = a % 2^30 := Nat.and_two_pow_sub_one_eq_mod a 30

theorem pdeIndex_eq (a : Nat) : pdeIndex a = a / 2^22 % 2^10 := by
  unfold pdeIndex
  rw [show 0xffc00000 = (2^10 - 1) <<< 22 from rfl, and_mask, Nat.shiftRight_eq_div_pow]
  exact Nat.mul_div_cancel _ (Nat.two_pow_pos 22)

theorem pteIndex_eq (a : Nat) : pteIndex a = a / 2^12 % 2^10 := by
  unfold pteIndex
  rw [show 0x003ff000 = (2^10 - 1) <<< 12 from rfl, and_mask, Nat.shiftRight_eq_div_pow]
  exact Nat.mul_div_cancel _ (Nat.two_pow_pos 12)

theorem p2v_eq {a : Nat} (h : a < 2^30) : p2v a = a + 0xc0000000 := by
  unfold p2v
  rw [Nat.or_comm, Nat.add_comm]
  exact (Nat.two_pow_add_eq_or_of_lt (i := 30) h 3).symm

/-- the kernel virtual address of a page other than page 0 -/
structure IsFrame (f : Nat) : Prop where
  base : vmmKernelBase < f
  top : f < 2^32
  dvd : f % 4096 = 0

theorem IsFrame.v2p {f : Nat} (h : IsFrame f) : v2p f = f - 0xc0000000 := by
  have h1 := h.base
  have h2 := h.top
  unfold vmmKernelBase at h1
  rw [v2p_eq]
  omega

theorem IsFrame.p2v_v2p {f : Nat} (h : IsFrame f) : p2v (Paravirt.v2p f) = f := by
  have h1 := h.base
  have h2 := h.top
  unfold vmmKernelBase at h1
  rw [h.v2p, p2v_eq (by omega)]
  omega

theorem IsFrame.pos {f : Nat} (h : IsFrame f) : f ≠ 0 := by
  have h1 := h.base
  unfold vmmKernelBase at h1
  omega

/-- an entry made of flags and a page -/
theorem IsFrame.or_eq {f flags : Nat} (h : IsFrame f) (hf : flags < 4096) :
    flags ||| Paravirt.v2p f = Paravirt.v2p f + flags := by
  have h3 := h.dvd
  have h1 := h.base
  unfold vmmKernelBase at h1
  have e : Paravirt.v2p f = 2^12 * (Paravirt.v2p f / 4096) := by
    rw [h.v2p]
    omega
  rw [Nat.or_comm]
  conv_lhs => rw [e]
  conv_rhs => rw [e]
  exact (Nat.two_pow_add_eq_or_of_lt (i := 12) hf _).symm

theorem IsFrame.pageAddr_or {f flags : Nat} (h : IsFrame f) (hf : flags < 4096) :
    pageAddr (flags ||| Paravirt.v2p f) = Paravirt.v2p f := by
  have h1 := h.base
  have h2 := h.top
  have h3 := h.dvd
  unfold vmmKernelBase at h1
  rw [h.or_eq hf, pageAddr_eq, h.v2p]
  omega

theorem IsFrame.v2p_pos {f : Nat} (h : IsFrame f) : Paravirt.v2p f ≠ 0 := by
  have h1 := h.base
  unfold vmmKernelBase at h1
  rw [h.v2p]
  omega

/-! ## applying the queue -/

/-- the state once the pending updates are applied -/
def Mm.eff (mm : Mm) : Mm := mm.vmmFlushMmuUpdateQueue

@[simp] theorem Mm.eff_lomem (mm : Mm) : mm.eff.lomem = mm.lomem := rfl
@[simp] theorem Mm.eff_himem (mm : Mm) : mm.eff.himem = mm.himem := rfl
@[simp] theorem Mm.eff_mem (mm : Mm) : mm.eff.mem = mm.mem := rfl
@[simp] theorem Mm.eff_queue (mm : Mm) : mm.eff.queue = [] := rfl
@[simp] theorem Mm.eff_kernelPageDir (mm : Mm) : mm.eff.kernelPageDir = mm.kernelPageDir := rfl
@[simp] theorem Mm.eff_eff (mm : Mm) : mm.eff.eff = mm.eff := rfl
@[simp] theorem Mm.flush_eff (mm : Mm) : mm.vmmFlushMmuUpdateQueue.eff = mm.eff := rfl
theorem Mm.flush_eq (mm : Mm) : mm.vmmFlushMmuUpdateQueue = mm.eff := rfl

theorem Mm.eff_of_nil {mm : Mm} (h : mm.queue = []) : mm.eff = mm := by
  show { mm with word := applyUpdates mm.word mm.queue, queue := [] } = mm
  rw [h, applyUpdates, ← h]

theorem setWord_self (w : Nat → Nat → Nat) (slot : Nat × Nat) (v : Nat) :
    setWord w slot v slot.1 slot.2 = v := by
  unfold setWord
  rw [Function.update_self, Function.update_self]

theorem setWord_of_ne (w : Nat → Nat → Nat) {slot : Nat × Nat} (v : Nat) {t i : Nat}
    (h : (t, i) ≠ slot) : setWord w slot v t i = w t i := by
  unfold setWord
  by_cases e : t = slot.1
  · subst e
    have hi : i ≠ slot.2 := fun e => h (by rw [e])
    rw [Function.update_self, Function.update_of_ne hi]
  · rw [Function.update_of_ne e]

theorem setWord_table_of_ne (w : Nat → Nat → Nat) {slot : Nat × Nat} (v : Nat) {t : Nat}
    (h : t ≠ slot.1) : setWord w slot v t = w t := Function.update_of_ne h _ _

theorem setWord_eq_self (w : Nat → Nat → Nat) (slot : Nat × Nat) {v : Nat}
    (h : w slot.1 slot.2 = v) : setWord w slot v = w := by
  unfold setWord
  rw [← h, Function.update_eq_self, Function.update_eq_self]

theorem applyUpdates_append (w : Nat → Nat → Nat) (p q : List ((Nat × Nat) × Nat)) :
    applyUpdates w (p ++ q) = applyUpdates (applyUpdates w p) q := by
  induction p generalizing w with
  | nil => rfl
  | cons u p ih => exact ih _

/-- an entry with no pending update -/
theorem applyUpdates_of_not_mem {q : List ((Nat × Nat) × Nat)} {t i : Nat} (w : Nat → Nat → Nat)
    (h : ∀ u ∈ q, u.1 ≠ (t, i)) : applyUpdates w q t i = w t i := by
  induction q generalizing w with
  | nil => rfl
  | cons u q ih =>
    have h1 := ih (setWord w u.1 u.2) (fun v hv => h v (List.mem_cons_of_mem _ hv))
    show applyUpdates (setWord w u.1 u.2) q t i = w t i
    rw [h1]
    exact setWord_of_ne w u.2 (h u List.mem_cons_self).symm

/-- a table with no pending update may be filled before or after the flush -/
theorem applyUpdates_update {q : List ((Nat × Nat) × Nat)} {t : Nat} (w : Nat → Nat → Nat)
    (r : Nat → Nat) (h : ∀ u ∈ q, u.1.1 ≠ t) :
    applyUpdates (Function.update w t r) q = Function.update (applyUpdates w q) t r := by
  induction q generalizing w with
  | nil => rfl
  | cons u q ih =>
    show applyUpdates (setWord (Function.update w t r) u.1 u.2) q = _
    have hne := h u List.mem_cons_self
    have e : setWord (Function.update w t r) u.1 u.2
        = Function.update (setWord w u.1 u.2) t r := by
      unfold setWord
      rw [Function.update_of_ne hne, Function.update_comm hne]
    rw [e]
    exact ih _ (fun v hv => h v (List.mem_cons_of_mem _ hv))

@[simp] theorem Mm.vmmQueueMmuUpdate_eff (mm : Mm) (slot : Nat × Nat) (v : Nat) :
    (mm.vmmQueueMmuUpdate slot v).eff = { mm.eff with word := setWord mm.eff.word slot v } := by
  have h : applyUpdates mm.word (mm.queue ++ [(slot, v)])
      = setWord (applyUpdates mm.word mm.queue) slot v := applyUpdates_append _ _ _
  unfold vmmQueueMmuUpdate
  simp only
  split
  · show ({ mm with queue := mm.queue ++ [(slot, v)] } : Mm).eff = _
    show ({ mm with word := applyUpdates mm.word (mm.queue ++ [(slot, v)]), queue := [] } : Mm) = _
    rw [h]
    rfl
  · show ({ mm with word := applyUpdates mm.word (mm.queue ++ [(slot, v)]), queue := [] } : Mm) = _
    rw [h]
    rfl

@[simp] theorem Mm.vmmQueueMmuUpdate_lomem (mm : Mm) (slot : Nat × Nat) (v : Nat) :
    (mm.vmmQueueMmuUpdate slot v).lomem = mm.lomem := by
  unfold vmmQueueMmuUpdate
  dsimp only
  split <;> rfl

@[simp] theorem Mm.vmmQueueMmuUpdate_mem (mm : Mm) (slot : Nat × Nat) (v : Nat) :
    (mm.vmmQueueMmuUpdate slot v).mem = mm.mem := by
  unfold vmmQueueMmuUpdate
  dsimp only
  split <;> rfl

/-- the requests that may be pending after one more is queued -/
theorem Mm.mem_queue_vmmQueueMmuUpdate {mm : Mm} {slot : Nat × Nat} {v : Nat}
    {u : (Nat × Nat) × Nat} (h : u ∈ (mm.vmmQueueMmuUpdate slot v).queue) :
    u ∈ mm.queue ∨ u.1 = slot := by
  unfold vmmQueueMmuUpdate at h
  simp only at h
  split at h
  · exact absurd h List.not_mem_nil
  · rcases List.mem_append.mp h with h | h
    · exact .inl h
    · rw [List.mem_singleton.mp h]
      exact .inr rfl

/-! ## requests a zone can serve -/

def CanServe : Nat → VmmZone → Prop
  | 0, _ => True
  | n+1, z => ∃ z' a, vmmBuddyGetFreePages z 1 = (z', some a) ∧ CanServe n z'

theorem CanServe.pred {n : Nat} {z : VmmZone} (h : CanServe (n+1) z) : CanServe n z := by
  induction n generalizing z with
  | zero => trivial
  | succ n ih =>
    obtain ⟨z', a, e, h'⟩ := h
    exact ⟨z', a, e, ih h'⟩

theorem CanServe.mono {m n : Nat} (hmn : m ≤ n) {z : VmmZone} (h : CanServe n z) :
    CanServe m z := by
  induction hmn with
  | refl => exact h
  | step _ ih => exact ih h.pred

/-! ## uses of a page -/

/-- the directory entries of `[USER_MEM_START, VMM_KERNEL_BASE)` -/
def UserPde (i : Nat) : Prop := 4 ≤ i ∧ i < 768

instance (i : Nat) : Decidable (UserPde i) := inferInstanceAs (Decidable (_ ∧ _))

theorem mem_userPdes {i : Nat} : i ∈ userPdes ↔ UserPde i := by
  have e : userPdes = List.range' 4 764 := by decide +kernel
  rw [e, List.mem_range'_1]
  exact Iff.rfl

inductive Use where
  | dir (d : Nat)
  | table (d i : Nat)
  | page (d i j : Nat)
  deriving DecidableEq, Repr

/-- the table a directory word points to -/
def tableAt (w : Nat → Nat → Nat) (d i : Nat) : Nat := p2v (pageAddr (w d i))

inductive Uses (w : Nat → Nat → Nat) (dirs : List Nat) : Use → Nat → Prop where
  | dir {d : Nat} : d ∈ dirs → Uses w dirs (.dir d) d
  | table {d i : Nat} : d ∈ dirs → UserPde i → w d i ≠ 0 → Uses w dirs (.table d i) (tableAt w d i)
  | page {d i j : Nat} : d ∈ dirs → UserPde i → w d i ≠ 0 → pageAddr (w (tableAt w d i) j) ≠ 0 →
      Uses w dirs (.page d i j) (p2v (pageAddr (w (tableAt w d i) j)))

theorem Uses.mono {w : Nat → Nat → Nat} {dirs dirs' : List Nat} {u : Use} {f : Nat}
    (hu : Uses w dirs' u f) (hs : ∀ d ∈ dirs', d ∈ dirs) : Uses w dirs u f := by
  cases hu with
  | dir hd => exact .dir (hs _ hd)
  | table hd hi h0 => exact .table (hs _ hd) hi h0
  | page hd hi h0 hj => exact .page (hs _ hd) hi h0 hj

structure MmInv (base live : List Block) (dirs : List Nat) (mm : Mm) : Prop where
  good : GoodBase base
  frame : ∀ c ∈ allCells pageSize base, IsFrame c
  zone : ZoneInv base live mm.lomem
  live_of_use : ∀ u f, Uses mm.word dirs u f → (f, 1) ∈ live
  inj : ∀ u v f, Uses mm.word dirs u f → Uses mm.word dirs v f → u = v
  kdir : ∀ d ∈ dirs, ∀ i, ¬ UserPde i → mm.word d i = mm.word mm.kernelPageDir i
  kuser : ∀ i, UserPde i → mm.word mm.kernelPageDir i = 0
  ktab : ∀ i, ¬ UserPde i → tableAt mm.word mm.kernelPageDir i ∉ allCells pageSize base ∧
    tableAt mm.word mm.kernelPageDir i ≠ mm.kernelPageDir
  kpd : mm.kernelPageDir ∉ allCells pageSize base
  kmap : ∀ c ∈ allCells pageSize base, mm.word mm.kernelPageDir (pdeIndex c) ≠ 0

/-! ## the uses after one change -/

namespace MmInv
variable {base live : List Block} {dirs : List Nat} {mm : Mm}

theorem isFrame_of_live (h : MmInv base live dirs mm) {f : Nat} (hf : (f, 1) ∈ live) :
    IsFrame f ∧ f ∈ allCells pageSize base := by
  have hmem : f ∈ allCells pageSize base :=
    List.Perm.mem_iff h.zone.tiles |>.mp
      (mem_allCells.mpr ⟨_, List.mem_append_right _ hf, fst_mem_cells pageSize (f, 1)⟩)
  exact ⟨h.frame f hmem, hmem⟩

theorem isFrame_of_use (h : MmInv base live dirs mm) {u : Use} {f : Nat}
    (hu : Uses mm.word dirs u f) : IsFrame f ∧ f ∈ allCells pageSize base :=
  h.isFrame_of_live (h.live_of_use u f hu)

/-- a kernel page table is not in use -/
theorem not_uses_ktab (h : MmInv base live dirs mm) {d i : Nat} (hd : d ∈ dirs)
    (hi : ¬ UserPde i) (u : Use) : ¬ Uses mm.word dirs u (tableAt mm.word d i) := by
  intro hu
  refine (h.ktab i hi).1 ?_
  have e : tableAt mm.word mm.kernelPageDir i = tableAt mm.word d i := by
    unfold tableAt
    rw [h.kdir d hd i hi]
  rw [e]
  exact (h.isFrame_of_use hu).2

end MmInv

/-- a page that is not in use may hold anything -/
theorem uses_iff_of_unused {w w' : Nat → Nat → Nat} {dirs : List Nat} {t : Nat}
    (ht : ∀ u, ¬ Uses w dirs u t) (hw : ∀ s, s ≠ t → w' s = w s) (u : Use) (f : Nat) :
    Uses w' dirs u f ↔ Uses w dirs u f := by
  have hdir : ∀ d ∈ dirs, w' d = w d := fun d hd =>
    hw d fun e => ht (.dir d) (by rw [← e]; exact .dir hd)
  have htab : ∀ d ∈ dirs, ∀ i, tableAt w' d i = tableAt w d i := fun d hd i => by
    unfold tableAt
    rw [hdir d hd]
  have hpage : ∀ d ∈ dirs, ∀ i, UserPde i → w d i ≠ 0 →
      w' (tableAt w' d i) = w (tableAt w d i) := fun d hd i hi h0 => by
    rw [htab d hd]
    exact hw _ fun e => ht (.table d i) (by rw [← e]; exact .table hd hi h0)
  constructor
  · intro hu
    cases hu with
    | dir hd => exact .dir hd
    | table hd hi h0 =>
      rw [htab _ hd]
      rw [hdir _ hd] at h0
      exact .table hd hi h0
    | page hd hi h0 hj =>
      rw [hdir _ hd] at h0
      rw [hpage _ hd _ hi h0] at hj ⊢
      exact .page hd hi h0 hj
  · intro hu
    cases hu with
    | dir hd => exact .dir hd
    | table hd hi h0 =>
      rw [← htab _ hd]
      rw [← hdir _ hd] at h0
      exact .table hd hi h0
    | page hd hi h0 hj =>
      rw [← hpage _ hd _ hi h0] at hj ⊢
      rw [← hdir _ hd] at h0
      exact .page hd hi h0 hj

namespace MmInv
variable {base live : List Block} {dirs : List Nat} {mm mm' : Mm}

/-- what `MmInv` reads of the state -/
theorem congr (h : MmInv base live dirs mm) (hz : mm'.lomem = mm.lomem) (hw : mm'.word = mm.word)
    (hk : mm'.kernelPageDir = mm.kernelPageDir) : MmInv base live dirs mm' := by
  refine ⟨h.good, h.frame, hz ▸ h.zone, ?_, ?_, ?_, ?_, ?_, ?_, ?_⟩
  · rw [hw]; exact h.live_of_use
  · rw [hw]; exact h.inj
  · rw [hw, hk]; exact h.kdir
  · rw [hw, hk]; exact h.kuser
  · rw [hw, hk]; exact h.ktab
  · rw [hk]; exact h.kpd
  · rw [hw, hk]; exact h.kmap

/-- fewer directories -/
theorem mono (h : MmInv base live dirs mm) {dirs' : List Nat} (hs : ∀ d ∈ dirs', d ∈ dirs) :
    MmInv base live dirs' mm := by
  exact { h with
    live_of_use := fun u f hf => h.live_of_use u f (hf.mono hs)
    inj := fun u v f h1 h2 => h.inj u v f (h1.mono hs) (h2.mono hs)
    kdir := fun d hd => h.kdir d (hs d hd) }

/-- a write into a page that is not in use and is no part of the kernel's directory -/
theorem setUnused (h : MmInv base live dirs mm) {t : Nat} (ht : ∀ u, ¬ Uses mm.word dirs u t)
    (hk : t ≠ mm.kernelPageDir) (hw : ∀ s, s ≠ t → mm'.word s = mm.word s)
    (hz : mm'.lomem = mm.lomem) (hk' : mm'.kernelPageDir = mm.kernelPageDir) :
    MmInv base live dirs mm' := by
  have hu := uses_iff_of_unused ht hw
  have hkw : mm'.word mm'.kernelPageDir = mm.word mm.kernelPageDir := by
    rw [hk']
    exact hw _ hk.symm
  have hd : ∀ d ∈ dirs, mm'.word d = mm.word d := fun d hd =>
    hw d fun e => ht (.dir d) (by rw [← e]; exact .dir hd)
  refine ⟨h.good, h.frame, hz ▸ h.zone, ?_, ?_, ?_, ?_, ?_, ?_, ?_⟩
  · exact fun u f hf => h.live_of_use u f ((hu u f).mp hf)
  · exact fun u v f h1 h2 => h.inj u v f ((hu u f).mp h1) ((hu v f).mp h2)
  · intro d hd' i hi
    rw [hd d hd', hkw]
    exact h.kdir d hd' i hi
  · rw [hkw]; exact h.kuser
  · unfold tableAt
    rw [hkw, hk']
    exact h.ktab
  · rw [hk']; exact h.kpd
  · rw [hkw]; exact h.kmap

/-- **an entry of a kernel page table changes** -/
theorem setKernel (h : MmInv base live dirs mm) {d i : Nat} (hd : d ∈ dirs ∨ d = mm.kernelPageDir)
    (hi : ¬ UserPde i) (j v : Nat) :
    MmInv base live dirs { mm with word := setWord mm.word (tableAt mm.word d i, j) v } := by
  have e : tableAt mm.word d i = tableAt mm.word mm.kernelPageDir i := by
    rcases hd with hd | rfl
    · unfold tableAt
      rw [h.kdir d hd i hi]
    · rfl
  rw [e]
  refine h.setUnused (t := tableAt mm.word mm.kernelPageDir i) ?_ (h.ktab i hi).2 ?_ rfl rfl
  · intro u hu
    exact (h.ktab i hi).1 (h.isFrame_of_use hu).2
  · intro s hs
    exact setWord_table_of_ne _ v hs

theorem dir_ne_table (h : MmInv base live dirs mm) {d' d i : Nat} (hd' : d' ∈ dirs) (hd : d ∈ dirs)
    (hi : UserPde i) (h0 : mm.word d i ≠ 0) : d' ≠ tableAt mm.word d i := by
  intro e
  have h1 : Uses mm.word dirs (.dir d') d' := .dir hd'
  have h2 : Uses mm.word dirs (.table d i) d' := by
    rw [e]
    exact .table hd hi h0
  exact absurd (h.inj _ _ _ h1 h2) (by simp)

/-- the uses once the entry of one user page is overwritten -/
theorem uses_setPage (h : MmInv base live dirs mm) {d i : Nat} (hd : d ∈ dirs) (hi : UserPde i)
    (h0 : mm.word d i ≠ 0) (j v : Nat) {u : Use} {f : Nat}
    (hu : Uses (setWord mm.word (tableAt mm.word d i, j) v) dirs u f) :
    (u = .page d i j ∧ pageAddr v ≠ 0 ∧ f = p2v (pageAddr v)) ∨
      (u ≠ .page d i j ∧ Uses mm.word dirs u f) := by
  have hdir : ∀ d' ∈ dirs, setWord mm.word (tableAt mm.word d i, j) v d' = mm.word d' := by
    intro d' hd'
    exact setWord_table_of_ne _ v (h.dir_ne_table hd' hd hi h0)
  have htab : ∀ d' ∈ dirs, ∀ i', tableAt (setWord mm.word (tableAt mm.word d i, j) v) d' i'
      = tableAt mm.word d' i' := by
    intro d' hd' i'
    unfold tableAt at hdir ⊢
    rw [hdir d' hd']
  cases hu with
  | dir hd' => exact .inr ⟨by simp, .dir hd'⟩
  | table hd' hi' h0' =>
    rw [htab _ hd']
    rw [hdir _ hd'] at h0'
    exact .inr ⟨by simp, .table hd' hi' h0'⟩
  | @page d' i' j' hd' hi' h0' hj' =>
    rw [hdir _ hd'] at h0'
    rw [htab _ hd'] at hj' ⊢
    by_cases e : (tableAt mm.word d' i', j') = (tableAt mm.word d i, j)
    · have e1 : tableAt mm.word d' i' = tableAt mm.word d i := congrArg Prod.fst e
      have e2 : j' = j := congrArg Prod.snd e
      have h1 := Uses.table hd' hi' h0'
      rw [e1] at h1
      have h2 := h.inj _ _ _ h1 (.table hd hi h0)
      cases h2
      subst e2
      have hself := setWord_self mm.word (tableAt mm.word d i, j') v
      rw [hself] at hj' ⊢
      exact .inl ⟨rfl, hj', rfl⟩
    · rw [setWord_of_ne _ v e] at hj' ⊢
      refine .inr ⟨fun e' => e ?_, .page hd' hi' h0' hj'⟩
      cases e'
      rfl

/-- **the entry of a user page changes**: it maps nothing, or a live page without another use -/
theorem setPage (h : MmInv base live dirs mm) {d i : Nat} (hd : d ∈ dirs) (hi : UserPde i)
    (h0 : mm.word d i ≠ 0) (j : Nat) {v : Nat}
    (hv : pageAddr v ≠ 0 → (p2v (pageAddr v), 1) ∈ live ∧
      ∀ u, Uses mm.word dirs u (p2v (pageAddr v)) → u = .page d i j) :
    MmInv base live dirs { mm with word := setWord mm.word (tableAt mm.word d i, j) v } := by
  have htab := Uses.table hd hi h0
  have hkne : mm.kernelPageDir ≠ tableAt mm.word d i := fun e =>
    h.kpd (by rw [e]; exact (h.isFrame_of_use htab).2)
  have hkw : setWord mm.word (tableAt mm.word d i, j) v mm.kernelPageDir
      = mm.word mm.kernelPageDir := setWord_table_of_ne _ v hkne
  refine ⟨h.good, h.frame, h.zone, ?_, ?_, ?_, ?_, ?_, h.kpd, ?_⟩
  · intro u f hu
    rcases h.uses_setPage hd hi h0 j v hu with ⟨_, hne, rfl⟩ | ⟨_, hu'⟩
    · exact (hv hne).1
    · exact h.live_of_use u f hu'
  · intro u u' f hu hu'
    rcases h.uses_setPage hd hi h0 j v hu with ⟨rfl, hne, rfl⟩ | ⟨hne, h1⟩ <;>
      rcases h.uses_setPage hd hi h0 j v hu' with ⟨rfl, hne', e⟩ | ⟨hne', h2⟩
    · rfl
    · exact ((hv hne).2 u' h2).symm
    · subst e
      exact (hv hne').2 u h1
    · exact h.inj u u' f h1 h2
  · intro d' hd' i' hi'
    show setWord mm.word _ v d' i' = setWord mm.word _ v mm.kernelPageDir i'
    rw [hkw]
    rw [setWord_table_of_ne _ v (h.dir_ne_table hd' hd hi h0)]
    exact h.kdir d' hd' i' hi'
  · show ∀ i, UserPde i → setWord mm.word _ v mm.kernelPageDir i = 0
    rw [hkw]
    exact h.kuser
  · show ∀ i, ¬ UserPde i → tableAt (setWord mm.word _ v) mm.kernelPageDir i ∉ _ ∧
      tableAt (setWord mm.word _ v) mm.kernelPageDir i ≠ mm.kernelPageDir
    unfold tableAt at hkw ⊢
    rw [hkw]
    exact h.ktab
  · show ∀ c ∈ _, setWord mm.word _ v mm.kernelPageDir (pdeIndex c) ≠ 0
    rw [hkw]
    exact h.kmap

/-- the uses once a cleared page is entered in a directory as a page table -/
theorem uses_newTable (h : MmInv base live dirs mm) {d i pt e : Nat} (hd : d ∈ dirs)
    (hfresh : ∀ u, ¬ Uses mm.word dirs u pt) (he : p2v (pageAddr e) = pt) {u : Use} {f : Nat}
    (hu : Uses (setWord (Function.update mm.word pt fun _ => 0) (d, i) e) dirs u f) :
    (u = .table d i ∧ f = pt) ∨ Uses mm.word dirs u f := by
  have hdpt : ∀ x ∈ dirs, x ≠ pt := fun x hx e => hfresh (.dir x) (by rw [← e]; exact .dir hx)
  have hword : ∀ d' ∈ dirs, ∀ i', (d', i') ≠ (d, i) →
      setWord (Function.update mm.word pt fun _ => 0) (d, i) e d' i' = mm.word d' i' := by
    intro d' hd' i' hne
    rw [setWord_of_ne _ e hne, Function.update_of_ne (hdpt d' hd')]
  have htab : tableAt (setWord (Function.update mm.word pt fun _ => 0) (d, i) e) d i = pt := by
    show p2v (pageAddr (setWord _ (d, i) e d i)) = pt
    rw [setWord_self _ (d, i) e, he]
  have htabne : ∀ d' ∈ dirs, ∀ i', (d', i') ≠ (d, i) →
      tableAt (setWord (Function.update mm.word pt fun _ => 0) (d, i) e) d' i'
        = tableAt mm.word d' i' := by
    intro d' hd' i' hne
    unfold tableAt
    rw [hword d' hd' i' hne]
  cases hu with
  | dir hd' => exact .inr (.dir hd')
  | @table d' i' hd' hi' h0' =>
    by_cases heq : (d', i') = (d, i)
    · cases heq
      exact .inl ⟨rfl, htab⟩
    · rw [htabne d' hd' i' heq]
      rw [hword d' hd' i' heq] at h0'
      exact .inr (.table hd' hi' h0')
  | @page d' i' j' hd' hi' h0' hj' =>
    by_cases heq : (d', i') = (d, i)
    · cases heq
      rw [htab, setWord_table_of_ne _ e (hdpt d hd).symm, Function.update_self] at hj'
      exact absurd (show pageAddr 0 = 0 by decide) hj'
    · rw [hword d' hd' i' heq] at h0'
      have hne : tableAt mm.word d' i' ≠ d := (h.dir_ne_table hd hd' hi' h0').symm
      have hne' : tableAt mm.word d' i' ≠ pt := fun e =>
        hfresh _ (by rw [← e]; exact .table hd' hi' h0')
      rw [htabne d' hd' i' heq] at hj' ⊢
      rw [setWord_table_of_ne _ e hne, Function.update_of_ne hne'] at hj' ⊢
      exact .inr (.page hd' hi' h0' hj')

/-- **a page table is set up**: the page is cleared and entered in the directory -/
theorem newTable (h : MmInv base live dirs mm) {d i pt e : Nat} (hd : d ∈ dirs) (hi : UserPde i)
    (hpt : (pt, 1) ∈ live) (hfresh : ∀ u, ¬ Uses mm.word dirs u pt) (he : p2v (pageAddr e) = pt) :
    MmInv base live dirs
      { mm with word := setWord (Function.update mm.word pt fun _ => 0) (d, i) e } := by
  have hptb := (h.isFrame_of_live hpt).2
  have hdb : d ∈ allCells pageSize base := (h.isFrame_of_use (Uses.dir hd)).2
  have hkpt : mm.kernelPageDir ≠ pt := fun e => h.kpd (by rw [e]; exact hptb)
  have hkd : mm.kernelPageDir ≠ d := fun e => h.kpd (by rw [e]; exact hdb)
  have hkw : setWord (Function.update mm.word pt fun _ => 0) (d, i) e mm.kernelPageDir
      = mm.word mm.kernelPageDir := by
    rw [setWord_table_of_ne _ e hkd, Function.update_of_ne hkpt]
  have hdpt : ∀ x ∈ dirs, x ≠ pt := fun x hx e => hfresh (.dir x) (by rw [← e]; exact .dir hx)
  refine ⟨h.good, h.frame, h.zone, ?_, ?_, ?_, ?_, ?_, h.kpd, ?_⟩
  · intro u f hu
    rcases h.uses_newTable hd hfresh he hu with ⟨_, rfl⟩ | hu'
    · exact hpt
    · exact h.live_of_use u f hu'
  · intro u v f hu hv
    rcases h.uses_newTable hd hfresh he hu with ⟨rfl, rfl⟩ | hu' <;>
      rcases h.uses_newTable hd hfresh he hv with ⟨rfl, hf⟩ | hv'
    · rfl
    · exact absurd hv' (hfresh v)
    · exact absurd (hf ▸ hu') (hfresh u)
    · exact h.inj u v f hu' hv'
  · intro d' hd' i' hi'
    show setWord _ (d, i) e d' i' = setWord _ (d, i) e mm.kernelPageDir i'
    have hne : (d', i') ≠ (d, i) := fun e => hi' (by cases e; exact hi)
    rw [hkw, setWord_of_ne _ e hne, Function.update_of_ne (hdpt d' hd')]
    exact h.kdir d' hd' i' hi'
  · show ∀ i', UserPde i' → setWord _ (d, i) e mm.kernelPageDir i' = 0
    rw [hkw]
    exact h.kuser
  · show ∀ i', ¬ UserPde i' → tableAt (setWord _ (d, i) e) mm.kernelPageDir i' ∉ _ ∧
      tableAt (setWord _ (d, i) e) mm.kernelPageDir i' ≠ mm.kernelPageDir
    unfold tableAt
    rw [hkw]
    exact h.ktab
  · show ∀ c ∈ _, setWord _ (d, i) e mm.kernelPageDir (pdeIndex c) ≠ 0
    rw [hkw]
    exact h.kmap

/-- **a page is requested**: it is live from then on, and was not live before -/
theorem alloc (h : MmInv base live dirs mm.eff) :
    (mm.vmmPpfAlloc = (mm, none) ∧ ¬ CanServe 1 mm.lomem) ∨
    ∃ z f, mm.vmmPpfAlloc = ({ mm with lomem := z }, some f) ∧
      MmInv base ((f, 1) :: live) dirs ({ mm with lomem := z } : Mm).eff ∧ (f, 1) ∉ live ∧
      ∀ n, CanServe (n+1) mm.lomem → CanServe n z := by
  rcases h.zone.get h.good 1 with ⟨e, _⟩ | ⟨z', f, e, h1, _⟩
  · rw [Mm.eff_lomem] at e
    refine .inl ⟨?_, ?_⟩
    · unfold Mm.vmmPpfAlloc
      rw [e]
    · rintro ⟨z', a, e', _⟩
      rw [e] at e'
      cases e'
  · rw [Mm.eff_lomem] at e
    refine .inr ⟨z', f, ?_, ?_, ?_, ?_⟩
    · unfold Mm.vmmPpfAlloc
      rw [e]
    · exact { h with
        zone := h1
        live_of_use := fun u g hu => List.mem_cons_of_mem _ (h.live_of_use u g hu) }
    · intro hf
      have hd := (List.pairwise_cons.mp (h1.live_disjoint h.good)).1 (f, 1) hf
      exact hd (fst_mem_cells _ _) (fst_mem_cells _ _)
    · rintro n ⟨z2, a, e', hn⟩
      rw [e] at e'
      cases e'
      exact hn

theorem not_uses_of_not_live (h : MmInv base live dirs mm) {f : Nat} (hf : (f, 1) ∉ live)
    (u : Use) :
    ¬ Uses mm.word dirs u f := fun hu => hf (h.live_of_use u f hu)

/-- **a live page without a use is returned** -/
theorem free (h : MmInv base live dirs mm.eff) {f : Nat} (hf : (f, 1) ∈ live)
    (hu : ∀ u, ¬ Uses mm.eff.word dirs u f) :
    MmInv base (live.erase (f, 1)) dirs (mm.vmmPpfFree f).eff := by
  have hz := h.zone.perm (List.perm_cons_erase hf)
  have h1 := (hz.free h.good (Nat.le_add_left 1 _)).1
  refine { h with zone := h1, live_of_use := fun u g hg => ?_ }
  have hne : (g, 1) ≠ (f, 1) := fun e => by
    cases e
    exact hu u hg
  exact (List.mem_erase_of_ne hne).mpr (h.live_of_use u g hg)

end MmInv

end Paravirt

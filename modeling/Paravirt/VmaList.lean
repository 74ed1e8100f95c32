import Paravirt.UserStack
import Paravirt.Kstack
import Paravirt.Pgdir

/-!
# The list of areas (kern/vm_area.c: `vm_area_add`, kern/mm.c, kern/task.c)

The runs are those of `UserStack`.  A kernel stack is a page of the himem zone, which only its own
creation takes from.

* `vmmMapPage_himem`, ...     what leaves the himem zone alone;
* `Sorted`, `AreasApart`      the two halves of the invariant: the order, which `vm_area_add` keeps,
                              and the areas as such, in any order;
* `VmArea.Sound`              where an area may lie, by its kind;
* `ListsInv.step`             one call;
* `schedStart_listInv`        the list of a task that is started at boot;
* `vma_list_invariant`        in every run whose programs lie below `VMM_KERNEL_BASE` each list is
                              sorted and its areas are apart; the loader does not ask for that.
-/

namespace Paravirt
open Tiling

/-! ## what leaves the himem zone alone -/

theorem goodBase_nil : GoodBase [] where
  nodup := List.nodup_nil
  pos _ hc := absurd hc List.not_mem_nil
  top _ hc := absurd hc List.not_mem_nil

theorem Mm.vmmMapPage_himem (mm : Mm) (pd va ppf flags : Nat) :
    (mm.vmmMapPage pd va ppf flags).1.himem = mm.himem :=
  (LomemOnly.vmmMapPage goodBase_nil mm pd va ppf flags).himem

theorem Mm.vmmQueueMmuUpdate_himem (mm : Mm) (slot : Nat × Nat) (v : Nat) :
    (mm.vmmQueueMmuUpdate slot v).himem = mm.himem :=
  (@LomemOnly.vmmQueueMmuUpdate [] mm slot v).himem

theorem createNullLoop_himem (pd : Nat) (l : List Nat) (mm : Mm) :
    (vmAreaCreateNullLoop pd l mm).1.himem = mm.himem := by
  induction l generalizing mm with
  | nil => rfl
  | cons vpf l ih =>
    have h := mm.vmmMapPage_himem pd vpf 0 pgFlagUsr
    unfold vmAreaCreateNullLoop
    generalize mm.vmmMapPage pd vpf 0 pgFlagUsr = r at h
    obtain ⟨m1, _ | _⟩ := r
    · exact h
    · exact (ih m1).trans h

theorem unmapLoop_himem (pd : Nat) (type : VmaType) (l : List Nat) (mm : Mm) :
    (vmAreaUnmapLoop pd type l mm).himem = mm.himem := by
  induction l generalizing mm with
  | nil => rfl
  | cons vpf l ih =>
    unfold vmAreaUnmapLoop
    dsimp only
    split
    · exact (ih _).trans (mm.vmmMapPage_himem pd vpf 0 0)
    · exact ih mm

theorem copyLoop_himem (dstPd srcPd : Nat) (l : List Nat) (mm : Mm) :
    (vmAreaCopyLoop dstPd srcPd l mm).1.himem = mm.himem := by
  induction l generalizing mm with
  | nil => rfl
  | cons vpf l ih =>
    unfold vmAreaCopyLoop
    dsimp only
    split
    · have h := mm.vmmMapPage_himem dstPd vpf 0 (pageDiv (mm.vmmGetMapping srcPd vpf))
      generalize mm.vmmMapPage dstPd vpf 0 _ = r at h
      obtain ⟨m1, _ | _⟩ := r
      · exact h
      · exact (ih m1).trans h
    · have h := mm.vmmPpfAlloc.1.vmmMapPage_himem dstPd vpf (mm.vmmPpfAlloc.2.getD 0)
        (pageDiv (mm.vmmGetMapping srcPd vpf))
      generalize mm.vmmPpfAlloc.1.vmmMapPage dstPd vpf _ _ = r at h
      obtain ⟨m1, _ | _⟩ := r
      · exact h
      · exact (ih _).trans h

theorem zeroLoop_himem (pd length : Nat) (l : List Nat) (pgOffset : Nat) (mm : Mm) :
    (vmAreaZeroLoop pd length l pgOffset mm).himem = mm.himem := by
  induction l generalizing pgOffset mm with
  | nil => rfl
  | cons vpf l ih =>
    unfold vmAreaZeroLoop
    dsimp only
    split
    · exact ih 0 _
    · exact ih 0 mm

theorem vmAreaZero_himem (mm : Mm) (pd : Nat) (vma : VmArea) (addr length : Nat) :
    (vmAreaZero mm pd vma addr length).1.himem = mm.himem := by
  unfold vmAreaZero
  split
  · rfl
  · exact zeroLoop_himem pd length _ _ mm

theorem writeUser_himem {pd : Nat} {ws : List (Nat × Nat)} {mm mm' : Mm}
    (h : writeUser pd ws mm = some mm') : mm'.himem = mm.himem := by
  induction ws generalizing mm with
  | nil => exact congrArg Mm.himem (Option.some.inj h).symm
  | cons w ws ih =>
    unfold writeUser at h
    dsimp only at h
    split at h
    · exact absurd h.symm (Option.some_ne_none mm')
    · have h1 := ih h
      exact h1

theorem freeAreas_himem (pd : Nat) (l : List VmArea) (mm : Mm) :
    (l.foldl (vmAreaFree pd) mm).himem = mm.himem := by
  induction l generalizing mm with
  | nil => rfl
  | cons v l ih =>
    refine (ih _).trans ?_
    unfold vmAreaFree
    split
    · rfl
    · exact unmapLoop_himem pd v.type _ mm

theorem freePgdirEntries_himem (pgdir : Nat) (l : List Nat) (mm : Mm) :
    (l.foldl (fun mm i => mm.freePgdirEntry pgdir i) mm).himem = mm.himem := by
  induction l generalizing mm with
  | nil => rfl
  | cons i l ih =>
    refine (ih _).trans ?_
    unfold Mm.freePgdirEntry
    dsimp only
    split
    · rfl
    · exact (Mm.vmmQueueMmuUpdate_himem _ _ _).trans (Mm.vmmQueueMmuUpdate_himem _ _ _)

theorem vmmFreePgdir_himem (mm : Mm) (pgdir : Nat) : (mm.vmmFreePgdir pgdir).himem = mm.himem := by
  have h := freePgdirEntries_himem pgdir userPdes mm
  unfold Mm.vmmFreePgdir
  generalize userPdes.foldl (fun mm i => mm.freePgdirEntry pgdir i) mm = m1 at h
  exact (m1.vmmQueueMmuUpdate_himem _ _).trans h

theorem vmmCreatePgdir_himem (mm : Mm) (cur : Nat) :
    (mm.vmmCreatePgdir cur).1.himem = mm.himem := by
  unfold Mm.vmmCreatePgdir
  have h : mm.vmmPpfAlloc.1.himem = mm.himem := rfl
  generalize mm.vmmPpfAlloc = r at h
  obtain ⟨m1, _ | p⟩ := r
  · exact h
  · exact (Mm.vmmMapPage_himem _ _ _ _ _).trans h

theorem Mm.vmmPpfsFree_himem (mm : Mm) (pgaddr numPages : Nat) :
    (mm.vmmPpfsFree pgaddr numPages).himem = mm.himem := by
  unfold Mm.vmmPpfsFree
  rfl

theorem vmAreaPut_himem (count : Nat) (mm : Mm) (pd : Nat) (vma : VmArea) :
    (vmAreaPut count mm pd vma).himem = mm.himem := by
  have hunmap : (vmAreaUnmap mm pd vma).himem = mm.himem := unmapLoop_himem pd vma.type _ mm
  unfold vmAreaPut vmAreaFreeResources
  generalize vmAreaUnmap mm pd vma = m1 at hunmap
  dsimp only
  by_cases h1 : count = 1
  · rw [if_pos h1]
    by_cases h2 : vma.type ≠ .direct
    · rw [if_pos h2]
      by_cases h3 : vma.type = .kernelStack
      · rw [if_pos h3, Mm.vmmPpfsFree_himem]
        exact hunmap
      · rw [if_neg h3]
        exact hunmap
    · rw [if_neg h2]
  · rw [if_neg h1]

/-! ## sorted lists -/

/-- the order of `vm_area_add` -/
def Sorted (vmas : List VmArea) : Prop :=
  vmas.Pairwise fun v w => v.startAddress ≤ w.startAddress

theorem Sorted.add {vmas : List VmArea} (h : Sorted vmas) (v : VmArea) :
    Sorted (vmAreaAdd v vmas) := by
  induction vmas with
  | nil => exact List.pairwise_singleton _ v
  | cons w l ih =>
    obtain ⟨hw, hl⟩ := List.pairwise_cons.mp h
    unfold vmAreaAdd
    split
    · rename_i hlt
      refine List.pairwise_cons.mpr ⟨fun u hu => ?_, h⟩
      rcases List.mem_cons.mp hu with rfl | hu
      · exact Nat.le_of_lt hlt
      · exact Nat.le_trans (Nat.le_of_lt hlt) (hw u hu)
    · rename_i hge
      refine List.pairwise_cons.mpr ⟨fun u hu => ?_, ih hl⟩
      rcases List.mem_cons.mp ((vmAreaAdd_perm v l).mem_iff.mp hu) with rfl | hu
      · exact Nat.le_of_not_lt hge
      · exact hw u hu

/-- what `vm_area_alloc` and the functions that call it do, kernel stacks apart -/
structure Adding (s s' : VmaState) : Prop where
  himem : s'.mm.himem = s.mm.himem
  sorted : Sorted s.vmas → Sorted s'.vmas

theorem Adding.refl (s : VmaState) : Adding s s := ⟨rfl, id⟩

theorem Adding.trans {s₁ s₂ s₃ : VmaState} (h : Adding s₁ s₂) (h' : Adding s₂ s₃) : Adding s₁ s₃ :=
  ⟨h'.himem.trans h.himem, fun hs => h'.sorted (h.sorted hs)⟩

section
variable {s s' : VmaState} {task pd start size flags vmaFlags : Nat} {type : VmaType}
  {src : VmAreaSrcArg} {ok : Bool}

theorem vmAreaUnmap_himem (mm : Mm) (pd : Nat) (vma : VmArea) :
    (vmAreaUnmap mm pd vma).himem = mm.himem := unmapLoop_himem pd vma.type _ mm

theorem vmAreaCreateNull_himem (mm : Mm) (pd : Nat) (vma : VmArea) :
    (vmAreaCreateNull mm pd vma).1.himem = mm.himem := by
  unfold vmAreaCreateNull
  exact createNullLoop_himem pd _ mm

theorem vmAreaInitNull_himem {mm mm' : Mm} {pd : Nat} {vma : VmArea} {v : Option VmArea}
    (h : vmAreaInitNull mm pd vma = (mm', v)) : mm'.himem = mm.himem := by
  have h1 := vmAreaCreateNull_himem mm pd vma
  unfold vmAreaInitNull at h
  generalize vmAreaCreateNull mm pd vma = r at h h1
  by_cases hr : r.2 = true
  · rw [if_pos hr] at h
    cases h
    exact h1
  · rw [if_neg hr] at h
    cases h
    exact (vmAreaUnmap_himem r.1 pd vma).trans h1

theorem vmAreaInitCopy_himem {mm mm' : Mm} {pd : Nat} {vma src : VmArea} {addr srcPd : Nat}
    {v : Option VmArea} (h : vmAreaInitCopy mm pd vma addr srcPd src = (mm', v)) :
    mm'.himem = mm.himem := by
  have h1 : (vmAreaCopy mm pd srcPd src.startAddress src.size).1.himem = mm.himem := by
    unfold vmAreaCopy
    exact copyLoop_himem pd srcPd _ mm
  unfold vmAreaInitCopy at h
  dsimp only at h
  generalize vmAreaCopy mm pd srcPd src.startAddress src.size = r at h h1
  by_cases hr : r.2 = true
  · rw [if_pos hr] at h
    split at h
    · cases h
      exact h1
    · cases h
      exact h1
  · rw [if_neg hr] at h
    cases h
    exact (vmAreaUnmap_himem r.1 pd _).trans h1

theorem vmAreaInitDirect_himem {mm mm' : Mm} {pd paddr : Nat} {vma : VmArea} {v : Option VmArea}
    (h : vmAreaInitDirect mm pd vma paddr = (mm', v)) : mm'.himem = mm.himem := by
  have h1 : ∀ w : VmArea, (vmAreaCreateIdentity mm pd w).1.himem = mm.himem := by
    intro w
    unfold vmAreaCreateIdentity
    exact (LomemOnly.createIdentityLoop goodBase_nil pd w.flags _ mm).himem
  unfold vmAreaInitDirect at h
  dsimp only at h
  have h2 := h1 { vma with src := ⟨paddr, 0⟩, nopage := .default }
  generalize vmAreaCreateIdentity mm pd { vma with src := ⟨paddr, 0⟩, nopage := .default } = r
    at h h2
  by_cases hr : r.2 = true
  · rw [if_pos hr] at h
    cases h
    exact h2
  · rw [if_neg hr] at h
    cases h
    exact h2

theorem vmAreaInitType_himem {mm mm' : Mm} {vma : VmArea} {v : Option VmArea}
    (hty : type ≠ .kernelStack) (h : vmAreaInitType mm pd vma type src = some (mm', v)) :
    mm'.himem = mm.himem := by
  unfold vmAreaInitType at h
  split at h
  · exact vmAreaInitCopy_himem (Option.some.inj h)
  · exact vmAreaInitNull_himem (Option.some.inj h)
  · exact vmAreaInitNull_himem (Option.some.inj h)
  · exact vmAreaInitNull_himem (Option.some.inj h)
  · exact vmAreaInitDirect_himem (Option.some.inj h)
  · exact absurd rfl hty
  · exact absurd h.symm (Option.some_ne_none _)

theorem vmAreaAlloc_adding (hty : type ≠ .kernelStack)
    (h : vmAreaAlloc s task pd start size flags type vmaFlags src = some (s', ok)) :
    Adding s s' := by
  unfold vmAreaAlloc at h
  split at h
  · cases h
    exact ⟨rfl, id⟩
  · generalize hi : vmAreaInitType _ _ _ _ _ = r at h
    obtain _ | ⟨mm, _ | v⟩ := r
    · cases h
    · cases h
      exact ⟨vmAreaInitType_himem hty hi, id⟩
    · cases h
      exact ⟨vmAreaInitType_himem hty hi, fun hs => hs.add v⟩

theorem vmmTaskCopy_adding {dst dstPd srcPd : Nat} {addr : VmArea → Nat} (l : List VmArea)
    (h : vmmTaskCopy dst dstPd srcPd addr l s = some (s', ok)) : Adding s s' := by
  induction l generalizing s with
  | nil =>
    cases h
    exact .refl _
  | cons v l ih =>
    unfold vmmTaskCopy at h
    split at h
    · generalize ha : vmAreaAlloc s dst dstPd _ _ _ _ _ _ = r at h
      obtain _ | ⟨s1, _ | _⟩ := r
      · cases h
      · cases h
        exact vmAreaAlloc_adding (by decide) ha
      · exact (vmAreaAlloc_adding (by decide) ha).trans (ih h)
    · exact ih h

theorem loadSegments_adding {loads : List (VmaState → Option (VmaState × Bool))}
    (hl : ∀ load ∈ loads, ∀ s s' ok, load s = some (s', ok) → Adding s s')
    (h : loadSegments loads s = some (s', ok)) : Adding s s' := by
  induction loads generalizing s with
  | nil =>
    cases h
    exact .refl _
  | cons load loads ih =>
    unfold loadSegments at h
    generalize ha : load s = r at h
    have h1 := hl load List.mem_cons_self s
    obtain _ | ⟨s1, _ | _⟩ := r
    · cases h
    · cases h
      exact h1 _ _ ha
    · exact (h1 _ _ ha).trans (ih (fun load hm => hl load (List.mem_cons_of_mem _ hm)) h)

theorem loadFileSegment_adding {off len file : Nat}
    (h : loadFileSegment task pd off len start flags file s = some (s', ok)) : Adding s s' := by
  unfold loadFileSegment at h
  split at h
  · cases h
    exact .refl s
  · exact vmAreaAlloc_adding (by decide) h

theorem taskLoad_adding {f : Option ExecFile} {t t' : TaskVm}
    (h : taskLoad task pd f t = some (t', ok)) : Adding t.vm t'.vm := by
  unfold taskLoad at h
  dsimp only at h
  split at h
  · cases h
    exact ⟨rfl, id⟩
  split at h
  · cases h
  · cases h
    exact ⟨rfl, id⟩
  rename_i heap se _
  split at h
  · cases h
  generalize hl : loadSegments _ _ = r at h
  have hadd : ∀ vm b, r = some (vm, b) → Adding t.vm vm := by
    intro vm b hr
    rw [hr] at hl
    have h1 := loadSegments_adding ?_ hl
    · exact ⟨h1.himem, h1.sorted⟩
    · intro load hm s s' ok h
      simp only [List.mem_cons, List.not_mem_nil, or_false] at hm
      rcases hm with rfl | rfl | rfl | rfl
      · unfold vmmLoadText at h
        split at h
        · cases h
          exact .refl s
        · exact vmAreaAlloc_adding (by decide) h
      · exact loadFileSegment_adding h
      · exact loadFileSegment_adding h
      · unfold vmmLoadBss at h
        split at h
        · cases h
          exact .refl s
        · exact vmAreaAlloc_adding (by decide) h
  obtain _ | ⟨vm, _ | _⟩ := r
  · cases h
  · cases h
    exact hadd vm _ rfl
  · cases h
    exact hadd vm _ rfl

end

/-! ## areas that are apart -/

/-- no byte in common -/
def VmArea.Apart (v w : VmArea) : Prop :=
  v.startAddress + v.size ≤ w.startAddress ∨ w.startAddress + w.size ≤ v.startAddress

theorem VmArea.Apart.symm {v w : VmArea} (h : v.Apart w) : w.Apart v := Or.symm h

/-- kernel stacks lie above `VMM_KERNEL_BASE`, the other areas below; of these, only the user stack
is kept by `exec` -/
structure VmArea.Sound (v : VmArea) : Prop where
  pos : 0 < v.size
  noWrap : v.startAddress + v.size ≤ 2^32
  kernel : v.copied = false → vmmKernelBase ≤ v.startAddress
  user : v.copied = true → v.startAddress + v.size ≤ vmmKernelBase
  stack : v.copied = true → v.vmaFlags &&& vmaFlagStack ≠ 0 →
    v.startAddress = userStackStart ∧ v.size = threadDefaultStackSize

structure AreasApart (vmas : List VmArea) : Prop where
  apart : vmas.Pairwise VmArea.Apart
  sound : ∀ v ∈ vmas, v.Sound

namespace AreasApart
variable {vmas vmas' l : List VmArea}

theorem perm (h : AreasApart vmas) (hp : vmas'.Perm vmas) : AreasApart vmas' where
  apart := (hp.pairwise_iff fun {_ _} => VmArea.Apart.symm).mpr h.apart
  sound v hv := h.sound v (hp.mem_iff.mp hv)

theorem append (h : AreasApart vmas) (hl : AreasApart l) (hlv : ∀ v ∈ l, ∀ w ∈ vmas, v.Apart w) :
    AreasApart (l ++ vmas) where
  apart := List.pairwise_append.mpr ⟨hl.apart, h.apart, hlv⟩
  sound v hv := (List.mem_append.mp hv).elim (hl.sound v) (h.sound v)

theorem cons (h : AreasApart vmas) {v : VmArea} (hs : v.Sound) (hv : ∀ w ∈ vmas, v.Apart w) :
    AreasApart (v :: vmas) where
  apart := List.pairwise_cons.mpr ⟨hv, h.apart⟩
  sound w hw := (List.mem_cons.mp hw).elim (fun he => he ▸ hs) (h.sound w)

theorem sublist (h : AreasApart vmas) (hs : l.Sublist vmas) : AreasApart l where
  apart := h.apart.sublist hs
  sound v hv := h.sound v (hs.subset hv)

/-- a child's copies lie where the areas of its parent do -/
theorem copy (h : AreasApart vmas) (dst : Nat) (addr : VmArea → Nat) :
    AreasApart ((vmas.filter VmArea.copied).map (copyArea dst addr)) where
  apart := List.pairwise_map.mpr (h.apart.sublist List.filter_sublist)
  sound v hv := by
    obtain ⟨w, hw, rfl⟩ := List.mem_map.mp hv
    have hs := h.sound w (List.mem_of_mem_filter hw)
    exact ⟨hs.pos, hs.noWrap, hs.kernel, hs.user, hs.stack⟩

/-- what `exec` keeps is apart from a segment of a program -/
theorem kept (h : AreasApart vmas) {v w : VmArea} (hw : w ∈ vmas) (hk : w.keptByReload = true)
    (hend : v.startAddress + v.size ≤ vmmKernelBase)
    (hstack : v.startAddress + v.size ≤ userStackStart ∨
      userStackStart + threadDefaultStackSize ≤ v.startAddress) : v.Apart w := by
  have hs := h.sound w hw
  cases hc : w.copied with
  | false =>
    have := hs.kernel hc
    exact .inl (by omega)
  | true =>
    have hflag : w.vmaFlags &&& vmaFlagStack ≠ 0 := by
      unfold VmArea.keptByReload at hk
      unfold VmArea.copied at hc
      have hc' := of_decide_eq_true hc
      exact ((of_decide_eq_true hk).resolve_left hc'.2).resolve_left hc'.1
    obtain ⟨h1, h2⟩ := hs.stack hc hflag
    unfold VmArea.Apart
    rw [h1, h2]
    exact hstack

end AreasApart

/-! ## kernel stacks -/

/-- the pages of the himem zone are mapped above `VMM_KERNEL_BASE` -/
structure KernelZone (base : Block) : Prop where
  good : GoodBase [base]
  kernel : ∀ c ∈ allCells pageSize [base], vmmKernelBase ≤ c

structure HimemOk (base : Block) (mm : Mm) : Prop where
  zone : ∃ live, ZoneInv [base] live mm.himem
  maxOrder : mm.himem.maxOrder = base.2

theorem HimemOk.congr {base : Block} {mm mm' : Mm} (h : HimemOk base mm)
    (he : mm'.himem = mm.himem) : HimemOk base mm' := by
  refine ⟨?_, ?_⟩
  · rw [he]
    exact h.zone
  · rw [he]
    exact h.maxOrder

theorem vmAreaInitKernelStack_size {mm mm' : Mm} {pd : Nat} {vma v : VmArea}
    (h : vmAreaInitKernelStack mm pd vma = (mm', some v)) : v.size = vma.size := by
  unfold vmAreaInitKernelStack at h
  dsimp only at h
  split at h
  · exact absurd (congrArg Prod.snd h).symm (Option.some_ne_none v)
  · split at h
    · rw [← Option.some.inj (congrArg Prod.snd h)]
    · exact absurd (congrArg Prod.snd h).symm (Option.some_ne_none v)

section
variable {base : Block} {s s' : VmaState} {task pd : Nat} {ok : Bool}

/-- **a kernel stack** is a page of the himem zone -/
theorem vmmKernelStackInit_cases (hb : KernelZone base) (h : HimemOk base s.mm)
    (hs : vmmKernelStackInit s task pd = some (s', ok)) :
    HimemOk base s'.mm ∧ (s'.vmas = s.vmas ∨
      ∃ v : VmArea, v.Sound ∧ v.copied = false ∧ s'.vmas = vmAreaAdd v s.vmas) := by
  unfold vmmKernelStackInit vmAreaAlloc at hs
  split at hs
  · cases hs
    exact ⟨h, .inl rfl⟩
  obtain ⟨live, hz⟩ := h.zone
  generalize hv : vmAreaInit task 0 vmmKernelThreadStackSize pgtabAttribSuRw .kernelStack
    vmaFlagStack = vma at hs
  have hty : vma.type = .kernelStack := by
    rw [← hv]
    rfl
  have hsize : vma.size = 4096 := by
    rw [← hv]
    rfl
  obtain ⟨m, r, he, hmax, -, -, hr⟩ :=
    initKernelStack_cases hb.good goodBase_nil pd hty rfl hz h.maxOrder
  have hi : vmAreaInitType s.mm pd vma .kernelStack .none = some (m, r) := congrArg some he
  rw [hi] at hs
  rcases hr with ⟨rfl, hz'⟩ | ⟨v, rfl, htv, -, hz'⟩
  · cases hs
    exact ⟨⟨⟨live, hz'⟩, hmax⟩, .inl rfl⟩
  · cases hs
    have hsv := vmAreaInitKernelStack_size he
    have hcell : v.startAddress ∈ allCells pageSize [base] := hz'.live_base List.mem_cons_self
    have htop := hb.good.top _ hcell
    have hc := copied_kernelStack htv
    unfold pageSize at htop
    refine ⟨⟨⟨_, hz'⟩, hmax⟩, .inr ⟨v, ?_, hc, rfl⟩⟩
    exact
      { pos := by omega
        noWrap := by omega
        kernel := fun _ => hb.kernel _ hcell
        user := fun h => absurd (hc.symm.trans h) Bool.false_ne_true
        stack := fun h => absurd (hc.symm.trans h) Bool.false_ne_true }

/-! ## the calls -/

structure ListInv (vmas : List VmArea) : Prop where
  sorted : Sorted vmas
  areas : AreasApart vmas

theorem ListInv.add {vmas : List VmArea} (h : ListInv vmas) {v : VmArea} (hs : v.Sound)
    (hv : ∀ w ∈ vmas, v.Apart w) : ListInv (vmAreaAdd v vmas) :=
  ⟨h.sorted.add v, (h.areas.cons hs hv).perm (vmAreaAdd_perm v vmas)⟩

theorem ListInv.sublist {vmas l : List VmArea} (h : ListInv vmas) (hs : l.Sublist vmas) :
    ListInv l :=
  ⟨h.sorted.sublist hs, h.areas.sublist hs⟩

/-- **`find_vm_area_overlap`** tests for a byte in common -/
theorem VmArea.Sound.overlaps_iff {v : VmArea} (h : v.Sound) {addr size : Nat} (h0 : 0 < size)
    (hw : addr + size ≤ 2^32) : v.overlaps addr size = true ↔
      addr < v.startAddress + v.size ∧ v.startAddress < addr + size := by
  have hpos := h.pos
  have he : u32 (addr + size + 2^32 - 1) = addr + size - 1 := by
    unfold u32
    omega
  unfold VmArea.overlaps
  rw [decide_eq_true_iff, endAddress_eq h.pos h.noWrap, he]
  omega

theorem newArea_sound {numPpf addr : Nat} {size : Int}
    (h : newPagesArgs numPpf addr size = true) : (newArea task addr size.toNat).Sound := by
  obtain ⟨-, -, h3, -, h5⟩ := newPagesArgs_iff h
  have h5' : addr + size.toNat ≤ 0xc0000000 := h5
  exact
    { pos := h3
      noWrap := show addr + size.toNat ≤ 2^32 by omega
      kernel := fun h => absurd h Bool.noConfusion
      user := fun _ => h5
      stack := fun _ h => absurd (show 0 &&& vmaFlagStack = 0 by decide) h }

theorem ListInv.newPages {numPpf addr : Nat} {size : Int} {c c' rc : Int} (h : ListInv s.vmas)
    (hs : sysNewPages numPpf s c task pd addr size = some ((s', c'), rc)) : ListInv s'.vmas := by
  rcases sysNewPages_adds hs with he | ⟨hargs, hover, he⟩
  · rw [he]
    exact h
  · rw [he]
    have hnew : (newArea task addr size.toNat).Sound := newArea_sound hargs
    refine h.add hnew fun w hw => ?_
    have hno := (h.areas.sound w hw).overlaps_iff hnew.pos hnew.noWrap
    have hw' := hover w hw
    unfold VmArea.Apart
    by_contra hap
    have h1 : w.overlaps addr size.toNat = true := hno.mpr (by
      have hst : (newArea task addr size.toNat).startAddress = addr := rfl
      have hsz : (newArea task addr size.toNat).size = size.toNat := rfl
      rw [hst, hsz] at hap
      omega)
    exact absurd (hw'.symm.trans h1) Bool.false_ne_true

theorem sysNewPages_himem {numPpf addr : Nat} {size : Int} {c c' rc : Int}
    (hs : sysNewPages numPpf s c task pd addr size = some ((s', c'), rc)) :
    s'.mm.himem = s.mm.himem := by
  have h1 := vmAreaCreateNull_himem s.mm pd (newArea task addr size.toNat)
  unfold sysNewPages at hs
  split at hs
  · cases hs
    rfl
  rw [vmAreaAllocTask_new] at hs
  generalize vmAreaCreateNull s.mm pd (newArea task addr size.toNat) = r at hs h1
  by_cases hm : (malloc s.heap).1 = 0
  · rw [if_pos hm] at hs
    cases hs
    rfl
  rw [if_neg hm] at hs
  by_cases hr : r.2 = true
  · rw [if_pos hr, newPagesResult_true] at hs
    have h2 : r.1.vmmFlushMmuUpdateQueue = s'.mm :=
      congrArg (fun x => x.1.1.mm) (Option.some.inj hs)
    rw [← h2]
    exact (@LomemOnly.flush [] r.1).himem.trans h1
  · rw [if_neg hr, newPagesResult_false] at hs
    have h2 : vmAreaUnmap r.1 pd (newArea task addr size.toNat) = s'.mm :=
      congrArg (fun x => x.1.1.mm) (Option.some.inj hs)
    rw [← h2]
    exact (vmAreaUnmap_himem r.1 pd _).trans h1

theorem sysRemovePages_cases {count : VmArea → Nat} {mm mm' : Mm} {addr : Nat}
    {vmas vmas' : List VmArea} {rc : Int}
    (hs : sysRemovePages count mm pd vmas addr = ((mm', vmas'), rc)) :
    mm'.himem = mm.himem ∧ vmas'.Sublist vmas := by
  unfold sysRemovePages at hs
  split at hs
  · cases hs
    exact ⟨rfl, List.Sublist.refl _⟩
  · rename_i v _
    split at hs
    · cases hs
      exact ⟨rfl, List.Sublist.refl _⟩
    · cases hs
      exact ⟨vmAreaPut_himem (count v) mm pd v, List.erase_sublist⟩

end

/-! ## exec -/

/-- the segments of the executable are areas of user programs: apart from each other and from the
user stack, and below `VMM_KERNEL_BASE` -/
def UserSegments (f : ExecFile) : Prop :=
  ∀ se task file, scanSections f.shstrtab f.shdrs (SimpleElf.init f.ehdr.eEntry) = some se →
    (loadedAreas task file se).Pairwise VmArea.Apart ∧
      ∀ v ∈ loadedAreas task file se, v.startAddress + v.size ≤ vmmKernelBase ∧
        (v.startAddress + v.size ≤ userStackStart ∨
          userStackStart + threadDefaultStackSize ≤ v.startAddress)

theorem loadedAreas_kind {task file : Nat} {se : SimpleElf} {v : VmArea}
    (hv : v ∈ loadedAreas task file se) : 0 < v.size ∧ v.copied = true ∧ v.vmaFlags = 0 := by
  obtain ⟨k, h0, rfl⟩ := mem_loadedAreas.mp hv
  cases k with
  | text => exact ⟨Nat.pos_of_ne_zero h0, rfl, rfl⟩
  | rodata => exact ⟨Nat.pos_of_ne_zero h0, rfl, rfl⟩
  | data => exact ⟨Nat.pos_of_ne_zero h0, rfl, rfl⟩
  | bss => exact ⟨Nat.pos_of_ne_zero h0, rfl, rfl⟩

/-- the areas of a program join those that are kept -/
theorem AreasApart.load {vmas vmas' : List VmArea} (h : AreasApart vmas) {f : ExecFile}
    (hf : UserSegments f) {heap heap' : List Nat} {se : SimpleElf} {task file : Nat}
    (he : elfLoadHelper heap (some f) = some (heap', some se))
    (hp : vmas'.Perm (loadedAreas task file se ++ vmas.filter VmArea.keptByReload)) :
    AreasApart vmas' := by
  obtain ⟨hpair, hseg⟩ := hf se task file (elfLoadHelper_some he)
  have hsound : ∀ v ∈ loadedAreas task file se, v.Sound := by
    intro v hv
    obtain ⟨hpos, hc, hflag⟩ := loadedAreas_kind hv
    have hend := (hseg v hv).1
    have hend' : v.startAddress + v.size ≤ 0xc0000000 := hend
    exact
      { pos := hpos
        noWrap := by omega
        kernel := fun h => absurd (hc.symm.trans h) Bool.noConfusion
        user := fun _ => hend
        stack := fun _ h => by
          rw [hflag] at h
          exact absurd (show 0 &&& vmaFlagStack = 0 by decide) h }
  refine ((h.sublist List.filter_sublist).append ⟨hpair, hsound⟩ fun v hv w hw => ?_).perm hp
  obtain ⟨hw, hk⟩ := List.mem_filter.mp hw
  exact h.kept hw hk (hseg v hv).1 (hseg v hv).2

section
variable {task pd : Nat}

theorem removeTaskvm_himem (vm : VmaState) (stack : VmArea) :
    (vmAreaRemoveTaskvm pd stack vm).mm.himem = vm.mm.himem := by
  unfold vmAreaRemoveTaskvm
  exact freeAreas_himem pd _ vm.mm

theorem taskDeleteVm_himem (vm : VmaState) : (taskDeleteVm pd vm).mm.himem = vm.mm.himem := by
  unfold taskDeleteVm
  exact freeAreas_himem pd _ vm.mm

theorem reloadPrepare_himem {e e' : ExecState} {argvec : List (List Nat)}
    (h : reloadPrepare pd e argvec = some e') :
    e'.task.vm.mm.himem = e.task.vm.mm.himem ∧
      e'.task.vm.vmas = e.task.vm.vmas.filter VmArea.keptByReload := by
  unfold reloadPrepare at h
  dsimp only at h
  have h1 := vmAreaZero_himem e.task.vm.mm pd e.userStack e.userStack.startAddress e.userStack.size
  generalize (vmAreaZero e.task.vm.mm pd e.userStack e.userStack.startAddress e.userStack.size).1 =
    m1 at h h1
  split at h
  · cases h
  · rename_i m2 esp hsetup
    have h2 : m2.himem = m1.himem := by
      unfold vmmSetupUserStack at hsetup
      dsimp only at hsetup
      obtain ⟨m3, hw, he⟩ := Option.map_eq_some_iff.mp hsetup
      have hm : m3 = m2 := congrArg Prod.fst he
      rw [← hm]
      exact writeUser_himem hw
    cases h
    exact ⟨(removeTaskvm_himem _ e.userStack).trans (h2.trans h1), rfl⟩

/-- memory and order of the list over an `exec` -/
theorem sysExec_adding {exec2obj : List Nat → Option ExecFile} {e e' : ExecState}
    {path : List Nat} {argvec : List (List Nat)} {out : ExecOutcome}
    (h : sysExec exec2obj task pd e path argvec = some (e', out)) :
    Adding e.task.vm e'.task.vm := by
  have hvanish : ∀ (e₁ : ExecState), Adding e.task.vm e₁.task.vm →
      Adding e.task.vm (e₁.vanish pd).task.vm := fun e₁ h1 =>
    ⟨(taskDeleteVm_himem e₁.task.vm).trans h1.himem, fun _ => List.Pairwise.nil⟩
  unfold sysExec at h
  dsimp only at h
  split at h
  · cases h
    exact hvanish _ ⟨rfl, id⟩
  split at h
  · cases h
    exact hvanish _ ⟨rfl, id⟩
  unfold taskReload at h
  split at h
  · cases h
  rename_i e1 hprep
  obtain ⟨hmem, hvmas⟩ := reloadPrepare_himem hprep
  have h1 : Adding e.task.vm e1.task.vm := by
    refine ⟨hmem, fun hs => ?_⟩
    rw [hvmas]
    exact hs.sublist List.filter_sublist
  split at h
  · cases h
  · rename_i t hload
    rw [(vanishInReload_some h).2]
    exact hvanish { e1 with task := t } (h1.trans (taskLoad_adding hload))
  · rename_i t hload
    cases h
    exact h1.trans (taskLoad_adding hload)

end

/-! ## runs -/

/-- the lists of all tasks, and the memory for kernel stacks -/
structure ListsInv (base : Block) (s : Procs) : Prop where
  himem : HimemOk base s.mm
  lists : ∀ task p, s.procs task = some p → ListInv p.vmas

namespace ListsInv
variable {base : Block} {s s' : Procs}

theorem same (h : ListsInv base s) (hm : s'.mm.himem = s.mm.himem) (hp : s'.procs = s.procs) :
    ListsInv base s' := by
  refine ⟨h.himem.congr hm, fun task p ht => h.lists task p ?_⟩
  rw [← hp]
  exact ht

theorem update (h : ListsInv base s) {task : Nat} {q : Option Proc} (hm : HimemOk base s'.mm)
    (hs : s'.procs = Function.update s.procs task q) (hq : ∀ p, q = some p → ListInv p.vmas) :
    ListsInv base s' := by
  refine ⟨hm, fun t p ht => ?_⟩
  rw [hs] at ht
  by_cases he : t = task
  · rw [he, Function.update_self] at ht
    exact hq p ht
  · rw [Function.update_of_ne he] at ht
    exact h.lists t p ht

/-- the list of a child -/
theorem child {vmas : List VmArea} (h : ListInv vmas) {dst dstPd srcPd : Nat}
    {addr : VmArea → Nat} {heap : List Nat} {mm : Mm} {vm : VmaState}
    (hcopy : vmmTaskCopy dst dstPd srcPd addr vmas ⟨heap, mm, []⟩ = some (vm, true)) :
    ListInv vm.vmas ∧ ∀ v ∈ vm.vmas, v.copied = true := by
  have hp := vmmTaskCopy_true vmas hcopy
  rw [List.append_nil] at hp
  have hsorted := (vmmTaskCopy_adding vmas hcopy).sorted List.Pairwise.nil
  exact ⟨⟨hsorted, (h.areas.copy dst addr).perm hp⟩, copies_copied hp⟩

/-- a kernel stack lies above the areas that were copied -/
theorem kernelStack (hb : KernelZone base) {vm vm' : VmaState} (hm : HimemOk base vm.mm)
    (h : ListInv vm.vmas) (hall : ∀ v ∈ vm.vmas, v.copied = true) {task pd : Nat} {ok : Bool}
    (hs : vmmKernelStackInit vm task pd = some (vm', ok)) :
    HimemOk base vm'.mm ∧ ListInv vm'.vmas := by
  obtain ⟨hm', he | ⟨v, hv, hc, he⟩⟩ := vmmKernelStackInit_cases hb hm hs
  · rw [he]
    exact ⟨hm', h⟩
  · rw [he]
    refine ⟨hm', h.add hv fun w hw => .inr ?_⟩
    exact Nat.le_trans ((h.areas.sound w hw).user (hall w hw)) (hv.kernel hc)

theorem fork (hb : KernelZone base) (h : ListsInv base s) {addr : VmArea → Nat}
    {taskIdUsed threadIdUsed : Bool} {task : Nat} {p : Proc} {ok : Bool}
    (hp : s.procs task = some p)
    (hs : sysFork addr taskIdUsed threadIdUsed s p = some (s', ok)) : ListsInv base s' := by
  unfold sysFork at hs
  dsimp only at hs
  split at hs
  · cases hs
  split at hs
  · cases hs
    exact h.same rfl rfl
  have hdir := vmmCreatePgdir_himem s.mm p.pd
  generalize s.mm.vmmCreatePgdir p.pd = r at hs hdir
  obtain ⟨m1, _ | pd⟩ := r
  · cases hs
    exact h.same hdir rfl
  dsimp only at hs hdir
  generalize hcopy : vmmTaskCopy _ pd p.pd addr p.vmas _ = r at hs
  obtain _ | ⟨vm, _ | _⟩ := r
  · cases hs
  · cases hs
    have h1 := (vmmTaskCopy_adding p.vmas hcopy).himem
    have h2 := (vmmFreePgdir_himem (taskDeleteVm pd vm).mm pd).trans (taskDeleteVm_himem vm)
    exact h.same (h2.trans (h1.trans hdir)) rfl
  have h1 := (vmmTaskCopy_adding p.vmas hcopy).himem.trans hdir
  dsimp only at hs
  split at hs
  · cases hs
  split at hs
  · cases hs
    exact h.same h1 rfl
  split at hs
  · cases hs
  obtain ⟨hlist, hall⟩ := child (h.lists task p hp) hcopy
  generalize hstack : vmmKernelStackInit _ _ pd = r at hs
  have hkernel : ∀ vm' ok', r = some (vm', ok') → HimemOk base vm'.mm ∧ ListInv vm'.vmas := by
    intro vm' ok' hr
    rw [hr] at hstack
    have hm : HimemOk base (⟨(malloc vm.heap).2, vm.mm, vm.vmas⟩ : VmaState).mm := h.himem.congr h1
    exact kernelStack hb hm hlist hall hstack
  obtain _ | ⟨vm', _ | _⟩ := r
  · cases hs
  · cases hs
    refine ⟨(hkernel vm' _ rfl).1, fun t q ht => h.lists t q ht⟩
  · cases hs
    refine h.update (hkernel vm' _ rfl).1 rfl fun q hq => ?_
    rw [← Option.some.inj hq]
    exact (hkernel vm' _ rfl).2

theorem exec (h : ListsInv base s) {k : ProcEnv} {task : Nat} {p : Proc} {path : List Nat}
    {argvec : List (List Nat)} {e : ExecState} {out : ExecOutcome}
    (hseg : ∀ f, k.exec2obj path = some f → UserSegments f) (hp : s.procs task = some p)
    (hs : sysExec k.exec2obj task p.pd (s.execState p) path argvec = some (e, out)) :
    ListsInv base (s.afterExec task p e out) := by
  have hadd := sysExec_adding hs
  have hlist := h.lists task p hp
  have hm : HimemOk base e.task.vm.mm := h.himem.congr hadd.himem
  have hnew : ¬ out.ends → ListInv e.task.vm.vmas := by
    intro hout
    obtain ⟨-, g, heap, heap', se, hg, he, hperm⟩ := (sysExec_cases hs).resolve_left hout
    exact ⟨hadd.sorted hlist.sorted, hlist.areas.load (hseg g hg) he hperm⟩
  cases out with
  | vanished => exact h.update hm rfl fun q hq => absurd hq.symm (Option.some_ne_none q)
  | returned rc => exact h.update hm rfl fun q hq => absurd hq.symm (Option.some_ne_none q)
  | entered eip eflags esp pageDir =>
    refine h.update hm rfl fun q hq => ?_
    rw [← Option.some.inj hq]
    exact hnew id

end ListsInv

/-- programs lie below `VMM_KERNEL_BASE`, and the rest of the kernel keeps the himem zone -/
def ProcOp.LoadsUser (base : Block) (k : ProcEnv) : ProcOp → Prop
  | .exec _ path _ => ∀ f, k.exec2obj path = some f → UserSegments f
  | .other _ mm => HimemOk base mm
  | _ => True

def UserStep (base : Block) (k : ProcEnv) (s : Procs) (op : ProcOp) (s' : Procs) : Prop :=
  op.LoadsUser base k ∧ ProcStep k s op s'

/-- **one step** keeps the lists -/
theorem ListsInv.step {base : Block} (hb : KernelZone base) {k : ProcEnv} {s s' : Procs}
    {op : ProcOp} (h : ListsInv base s) (hop : op.LoadsUser base k) (hs : ProcStep k s op s') :
    ListsInv base s' := by
  cases op with
  | fork task taskIdUsed threadIdUsed =>
    obtain ⟨p, ok, hp, hfork⟩ := hs
    exact h.fork hb hp hfork
  | exec task path argvec =>
    obtain ⟨p, e, out, hp, hexec, rfl⟩ := hs
    exact h.exec hop hp hexec
  | newPages task taskCount addr size =>
    obtain ⟨p, vm, count, rc, hp, hnew, rfl⟩ := hs
    refine h.update (h.himem.congr (sysNewPages_himem hnew)) rfl fun q hq => ?_
    rw [← Option.some.inj hq]
    exact ListInv.newPages (s := s.vmaState p) (h.lists task p hp) hnew
  | removePages task count addr =>
    obtain ⟨p, mm, vmas, rc, hp, hrem, rfl⟩ := hs
    obtain ⟨hm, hsub⟩ := sysRemovePages_cases hrem
    refine h.update (h.himem.congr hm) rfl fun q hq => ?_
    rw [← Option.some.inj hq]
    exact (h.lists task p hp).sublist hsub
  | vanish task =>
    obtain ⟨p, hp, rfl⟩ := hs
    exact h.update (h.himem.congr (taskDeleteVm_himem (s.vmaState p))) rfl fun q hq =>
      absurd hq.symm (Option.some_ne_none q)
  | other heap mm =>
    obtain rfl := hs
    exact ⟨hop, h.lists⟩

/-! ## the boot -/

theorem userStackArea_sound (task : Nat) : (userStackArea task).Sound where
  pos := (userStackArea_ok task).pos
  noWrap := (userStackArea_ok task).noWrap
  kernel h := absurd h Bool.noConfusion
  user _ := ((userStackArea_ok task).user Nopage.noConfusion).2
  stack _ _ := ⟨rfl, rfl⟩

/-- a task that is started at boot has such a list -/
theorem schedStart_listInv {base : Block} (hb : KernelZone base) {task pd : Nat} {f : ExecFile}
    {heap : List Nat} {mm : Mm} {t : TaskVm} (hm : HimemOk base mm) (hf : UserSegments f)
    (h : schedStart task pd (some f) ⟨heap, mm, []⟩ = some (t, true)) :
    HimemOk base t.vm.mm ∧ ListInv t.vm.vmas := by
  unfold schedStart at h
  split at h
  · rename_i s1 hu
    split at h
    · rename_i s2 hk
      dsimp only at h
      have hzero := vmAreaZero_himem s2.mm pd (userStackArea task) (userStackArea task).startAddress
        (userStackArea task).size
      generalize (vmAreaZero s2.mm pd (userStackArea task) (userStackArea task).startAddress
        (userStackArea task).size).1 = m1 at h hzero
      have hadd : Adding ⟨heap, mm, []⟩ s1 := vmAreaAlloc_adding (by decide) hu
      have hp1 : s1.vmas.Perm [userStackArea task] := vmAreaAlloc_zeropage hu
      have h1 : ListInv s1.vmas := by
        refine ⟨hadd.sorted List.Pairwise.nil, AreasApart.perm ?_ hp1⟩
        refine ⟨List.pairwise_singleton _ _, fun v hv => ?_⟩
        rw [List.mem_singleton.mp hv]
        exact userStackArea_sound task
      have hall : ∀ v ∈ s1.vmas, v.copied = true := by
        intro v hv
        rw [List.mem_singleton.mp (hp1.mem_iff.mp hv)]
        rfl
      obtain ⟨hm2, h2⟩ := ListsInv.kernelStack hb (hm.congr hadd.himem) h1 hall hk
      obtain ⟨g, heap1, heap2, se, hg, he, hp⟩ := taskLoad_some h
      cases hg
      have hs := (taskLoad_adding h).sorted (h2.sorted.sublist List.filter_sublist)
      have hkept : (vmAreaRemoveTaskvm pd (userStackArea task) { s2 with mm := m1 }).mm.himem =
          m1.himem := removeTaskvm_himem { s2 with mm := m1 } (userStackArea task)
      refine ⟨hm2.congr ((taskLoad_adding h).himem.trans (hkept.trans hzero)), ?_⟩
      exact ⟨hs, h2.areas.load hf he hp⟩
    · cases h
  · cases h

/-- all tasks are those that are started at boot -/
structure ListsStarted (base : Block) (s : Procs) : Prop where
  himem : HimemOk base s.mm
  started : ∀ task p, s.procs task = some p → ∃ pd f heap mm t, HimemOk base mm ∧
    UserSegments f ∧ schedStart task pd (some f) ⟨heap, mm, []⟩ = some (t, true) ∧
    p.vmas = t.vm.vmas

/-! ## pages -/

/-- it starts and ends on a page boundary -/
def VmArea.WholePages (v : VmArea) : Prop :=
  pageAddr v.startAddress = v.startAddress ∧ v.size % 4096 = 0

theorem AreasApart.apart_of_ne {vmas : List VmArea} (h : AreasApart vmas) {v w : VmArea}
    (hv : v ∈ vmas) (hw : w ∈ vmas) (hne : v ≠ w) : v.Apart w := by
  have : Std.Symm VmArea.Apart := ⟨fun _ _ h => h.symm⟩
  exact h.apart.forall hv hw hne

/-! ## the list -/

/-- what holds of the list of a task -/
structure VmaListOk (vmas : List VmArea) : Prop where
  sorted : Sorted vmas
  disjoint : vmas.Pairwise VmArea.Apart
  noWrap : ∀ v ∈ vmas, 0 < v.size ∧ v.startAddress + v.size ≤ 2^32
  pages : ∀ v ∈ vmas, v.WholePages → ∀ w ∈ vmas, w ≠ v → ∀ b, v.covers b = true →
    w.covers b = false
  overlap : ∀ addr size, 0 < size → addr + size ≤ 2^32 →
    ((findVmAreaOverlap vmas addr size).isSome ↔
      ∃ v ∈ vmas, ∃ b, v.Contains b ∧ addr ≤ b ∧ b < addr + size)

theorem ListInv.ok {vmas : List VmArea} (h : ListInv vmas) : VmaListOk vmas where
  sorted := h.sorted
  disjoint := h.areas.apart
  noWrap v hv := ⟨(h.areas.sound v hv).pos, (h.areas.sound v hv).noWrap⟩
  pages v hv hpages w hw hne b hc :=
    VmArea.not_covers_of_apart (h.areas.sound w hw).pos (h.areas.sound w hw).noWrap
      (h.areas.sound v hv).pos (h.areas.sound v hv).noWrap hpages.1 hpages.2
      (h.areas.apart_of_ne hw hv hne) hc
  overlap addr size h0 hw := by
    unfold findVmAreaOverlap
    rw [List.find?_isSome]
    refine exists_congr fun v => and_congr_right fun hv => ?_
    have hpos := (h.areas.sound v hv).pos
    rw [(h.areas.sound v hv).overlaps_iff h0 hw]
    unfold VmArea.Contains
    constructor
    · rintro ⟨h1, h2⟩
      exact ⟨max addr v.startAddress, by omega, by omega, by omega⟩
    · rintro ⟨b, h1, h2, h3⟩
      omega

/-- **the list of every task** is sorted, and its areas are apart, in every run whose programs lie
below `VMM_KERNEL_BASE`; what `sys_new_pages` adds consists of whole pages of user memory -/
theorem vma_list_invariant {base : Block} (hb : KernelZone base) {k : ProcEnv} {s s' : Procs}
    {ops : List ProcOp} (h0 : ListsStarted base s) (hrun : Steps (UserStep base k) s ops s')
    {task : Nat} {p : Proc} (hp : s'.procs task = some p) :
    VmaListOk p.vmas ∧ ∀ count count' addr size vm,
      sysNewPages k.numPpf (s'.vmaState p) count task p.pd addr size = some ((vm, count'), 0) →
        ∃ v : VmArea, vm.vmas = vmAreaAdd v p.vmas ∧ v.WholePages ∧
          userMemStart ≤ v.startAddress ∧ v.startAddress + v.size ≤ vmmKernelBase := by
  have hinit : ListsInv base s := by
    refine ⟨h0.himem, fun task p ht => ?_⟩
    obtain ⟨pd, f, heap, mm, t, hm, hf, hstart, he⟩ := h0.started task p ht
    rw [he]
    exact (schedStart_listInv hb hm hf hstart).2
  have h : ListsInv base s' := hrun.invariant (fun _ _ _ h hs => h.step hb hs.1 hs.2) hinit
  refine ⟨(h.lists task p hp).ok, fun count count' addr size vm hnew => ?_⟩
  obtain ⟨hargs, -, -, rfl, -⟩ := sysNewPages_ok hnew
  obtain ⟨h1, h2, -, h4, h5⟩ := newPagesArgs_iff hargs
  exact ⟨newArea task addr size.toNat, rfl, ⟨h2, h4⟩, h1, h5⟩

/-! ## a program with two segments -/

/-- `.text` at `0x01000000` and `.data` at `dat` -/
def twoSegments (dat : Nat) : ExecFile :=
  elfImage [⟨1, 0x01000000, 52, 16⟩, ⟨7, dat, 68, 16⟩]

/-- the start and the length of each segment -/
def segBounds (f : ExecFile) : Option (List Nat) :=
  (scanSections f.shstrtab f.shdrs (SimpleElf.init f.ehdr.eEntry)).map fun se =>
    [se.eTxtstart, se.eTxtlen, se.eDatstart, se.eDatlen, se.eRodatlen, se.eBsslen]

theorem twoSegments_areas {dat task file : Nat} {se : SimpleElf}
    (h : segBounds (twoSegments dat) = some [0x01000000, 16, dat, 16, 0, 0])
    (hse : scanSections (twoSegments dat).shstrtab (twoSegments dat).shdrs
      (SimpleElf.init (twoSegments dat).ehdr.eEntry) = some se) :
    (loadedAreas task file se).map (fun v => (v.startAddress, v.size)) =
      [(dat, 16), (0x01000000, 16)] := by
  unfold segBounds at h
  rw [hse] at h
  simp only [Option.map_some, Option.some.injEq, List.cons.injEq, and_true] at h
  obtain ⟨h1, h2, h3, h4, h5, h6⟩ := h
  unfold loadedAreas segAreas
  simp only [List.flatMap_cons, List.flatMap_nil, SimpleElf.seg, h2, h4, h5, h6]
  show [((segArea task file se .data).startAddress, (segArea task file se .data).size),
    ((segArea task file se .text).startAddress, (segArea task file se .text).size)] = _
  show [(se.eDatstart, se.eDatlen), (se.eTxtstart, se.eTxtlen)] = _
  rw [h1, h2, h3, h4]

def twoZones : Mm :=
  { smallMm with
    lomem := vmmZoneInit (fun _ => 0) 0xc1000000 64
    himem := vmmZoneInit (fun _ => 0) 0xc2000000 3 }

def startHeap : List Nat := (List.range 16).map fun i => 0xc1900000 + 0x100 * i

def startProc (t : TaskVm) : Proc :=
  ⟨false, 0xc0400000, t.vm.vmas, userStackArea 1, threadDefaultStackSize, t.file, t.entryPoint,
    t.entryPoint, resetEflags, 0xbfffefe0⟩

def startProcs (t : TaskVm) : Procs :=
  ⟨t.vm.heap, t.vm.mm, Function.update (fun _ => none) 1 (some (startProc t))⟩

theorem mem_bounds {l : List VmArea} {b : List (Nat × Nat)}
    (h : l.map (fun v => (v.startAddress, v.size)) = b) {v : VmArea} (hv : v ∈ l) :
    (v.startAddress, v.size) ∈ b := by
  rw [← h]
  exact List.mem_map_of_mem hv

theorem pairwise_bounds {l : List VmArea} {b : List (Nat × Nat)}
    (h : l.map (fun v => (v.startAddress, v.size)) = b) :
    l.Pairwise VmArea.Apart ↔ b.Pairwise fun x y => x.1 + x.2 ≤ y.1 ∨ y.1 + y.2 ≤ x.1 := by
  rw [← h, List.pairwise_map]
  rfl

theorem twoSegments_user : UserSegments (twoSegments 0x01001000) := by
  intro se task file hse
  have h := @twoSegments_areas 0x01001000 task file se (by decide) hse
  refine ⟨(pairwise_bounds h).mpr (by decide), fun v hv => ?_⟩
  have hall : ∀ x ∈ [((0x01001000 : Nat), (16 : Nat)), (0x01000000, 16)],
      x.1 + x.2 ≤ vmmKernelBase ∧ (x.1 + x.2 ≤ userStackStart ∨
        userStackStart + threadDefaultStackSize ≤ x.1) := by decide
  exact hall _ (mem_bounds h hv)

theorem twoZones_kernel : KernelZone (buddyInitBlock 0xc2000000 3) where
  good := GoodBase.init (by decide) (by decide)
  kernel := by decide

theorem twoZones_himem : HimemOk (buddyInitBlock 0xc2000000 3) twoZones where
  zone := ⟨[], ZoneInv.init _ (by decide) (by decide)⟩
  maxOrder := vmmBuddyInit_maxOrder _ _ _

theorem startProcs_procs (t : TaskVm) {task : Nat} {p : Proc}
    (hp : (startProcs t).procs task = some p) : task = 1 ∧ p = startProc t := by
  have hp' : Function.update (fun _ => none) 1 (some (startProc t)) task = some p := hp
  by_cases he : task = 1
  · rw [he, Function.update_self] at hp'
    exact ⟨he, (Option.some.inj hp').symm⟩
  · rw [Function.update_of_ne he] at hp'
    exact absurd hp'.symm (Option.some_ne_none p)

/-- a task with such a program, and one `remove_pages` of its `.text` -/
theorem vma_list_invariant_two : ∃ t s' p,
    schedStart 1 0xc0400000 (some (twoSegments 0x01001000)) ⟨startHeap, twoZones, []⟩ =
      some (t, true) ∧
    Steps (UserStep (buddyInitBlock 0xc2000000 3) bootEnv) (startProcs t)
      [.removePages 1 (fun _ => 1) 0x01000000] s' ∧
    s'.procs 1 = some p ∧ VmaListOk p.vmas := by
  have hstart : (schedStart 1 0xc0400000 (some (twoSegments 0x01001000))
      ⟨startHeap, twoZones, []⟩).map Prod.snd = some true := by decide +kernel
  obtain ⟨⟨t, ok⟩, ht, rfl⟩ := Option.map_eq_some_iff.mp hstart
  have h0 : ListsStarted (buddyInitBlock 0xc2000000 3) (startProcs t) := by
    refine ⟨(schedStart_listInv twoZones_kernel twoZones_himem twoSegments_user ht).1, ?_⟩
    intro task p hp
    obtain ⟨rfl, rfl⟩ := startProcs_procs t hp
    exact ⟨_, _, _, _, t, twoZones_himem, twoSegments_user, ht, rfl⟩
  generalize hr : sysRemovePages (fun _ => 1) t.vm.mm 0xc0400000 t.vm.vmas 0x01000000 = r
  obtain ⟨⟨mm, vmas⟩, rc⟩ := r
  have hstep : UserStep (buddyInitBlock 0xc2000000 3) bootEnv (startProcs t)
      (.removePages 1 (fun _ => 1) 0x01000000)
      ((startProcs t).put 1 ⟨t.vm.heap, mm, vmas⟩ (some { startProc t with vmas := vmas })) :=
    ⟨trivial, startProc t, mm, vmas, rc, rfl, hr, rfl⟩
  have hp : ((startProcs t).put 1 ⟨t.vm.heap, mm, vmas⟩
      (some { startProc t with vmas := vmas })).procs 1 = some { startProc t with vmas := vmas } :=
    Function.update_self 1 _ (startProcs t).procs
  exact ⟨t, _, _, ht, Steps.single hstep, hp,
    (vma_list_invariant twoZones_kernel h0 (Steps.single hstep) hp).1⟩

/-- the `.data` of a program lies where the kernel stack of its thread was put before: the segments
are apart from each other and from the user stack, and the areas of the task are not -/
theorem vma_list_kernel_segment :
    (∀ se task file, scanSections (twoSegments 0xc2001000).shstrtab (twoSegments 0xc2001000).shdrs
        (SimpleElf.init (twoSegments 0xc2001000).ehdr.eEntry) = some se →
      (loadedAreas task file se).Pairwise VmArea.Apart ∧ ∀ v ∈ loadedAreas task file se,
        0 < v.size ∧ v.startAddress + v.size ≤ 2^32 ∧ (v.startAddress + v.size ≤ userStackStart ∨
          userStackStart + threadDefaultStackSize ≤ v.startAddress)) ∧
    ∃ t, schedStart 1 0xc0400000 (some (twoSegments 0xc2001000)) ⟨startHeap, twoZones, []⟩ =
      some (t, true) ∧ ¬ t.vm.vmas.Pairwise VmArea.Apart := by
  refine ⟨fun se task file hse => ?_, ?_⟩
  · have h := @twoSegments_areas 0xc2001000 task file se (by decide) hse
    refine ⟨(pairwise_bounds h).mpr (by decide), fun v hv => ?_⟩
    have hall : ∀ x ∈ [((0xc2001000 : Nat), (16 : Nat)), (0x01000000, 16)],
        0 < x.2 ∧ x.1 + x.2 ≤ 2^32 ∧ (x.1 + x.2 ≤ userStackStart ∨
          userStackStart + threadDefaultStackSize ≤ x.1) := by decide
    exact hall _ (mem_bounds h hv)
  · have hstart : (schedStart 1 0xc0400000 (some (twoSegments 0xc2001000))
        ⟨startHeap, twoZones, []⟩).map (fun r =>
          (r.2, r.1.vm.vmas.map fun v => (v.startAddress, v.size))) =
        some (true, [(0x01000000, 16), (0xbfbff000, 0x400000), (0xc2001000, 0x1000),
          (0xc2001000, 16)]) := by decide +kernel
    obtain ⟨⟨t, ok⟩, ht, he⟩ := Option.map_eq_some_iff.mp hstart
    obtain rfl : ok = true := congrArg Prod.fst he
    refine ⟨t, ht, ?_⟩
    rw [pairwise_bounds (congrArg Prod.snd he)]
    decide

end Paravirt

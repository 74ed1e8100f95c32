import Paravirt.VmAlloc

/-!
# A failed vm_area_alloc

`vm_area_init` takes a reference to the task, `task_get(task)`, before anything that can fail; when
the area cannot be set up, `vm_area_alloc` frees it and keeps the reference.

* `vmAreaAllocTask`      `vm_area_alloc` with the count of its task;
* `AtomicFailure`        what a failed call may leave behind;
* `vmAreaAlloc_count`    a call that gets its `vm_area_t` from `malloc` leaves one reference more.
-/

set_option linter.unusedVariables false

namespace Paravirt

/-- `vm_area_alloc` on a task whose `count` is `count` -/
def vmAreaAllocTask (count : Int) (s : VmaState) (task pd startAddress size flags : Nat)
    (type : VmaType) (vmaFlags : Nat) (src : VmAreaSrcArg) : Option ((VmaState × Int) × Bool) :=
  let r := vmAreaAlloc s task pd startAddress size flags type vmaFlags src
  -- `malloc` alone comes before `task_get`
  r.map fun r => ((r.1, if (malloc s.heap).1 = 0 then count else count + 1), r.2)

/-- a page on a free list of the lomem zone -/
def VmmZone.hasFree (z : VmmZone) (f : Nat) : Prop := ∃ k, f ∈ (z.freeAreaList k).freeList

/-- what a call that failed may leave: `s` and `count` are from before, `s'` and `count'` from after -/
structure AtomicFailure (pd start size : Nat) (s : VmaState) (count : Int) (s' : VmaState)
    (count' : Int) (ok : Bool) : Prop where
  null : ok = false
  vmas : s'.vmas = s.vmas
  count : count' = count
  /-- a frame is free again, or has become a page table -/
  frames : ∀ f, s.mm.lomem.hasFree f → s'.mm.lomem.hasFree f ∨
    ∃ i, s'.mm.vmmFlushMmuUpdateQueue.word pd i ≠ 0 ∧
      f = p2v (pageAddr (s'.mm.vmmFlushMmuUpdateQueue.word pd i))
  /-- the updates still queued map no page of the range -/
  mapping : ∀ vpf ∈ vmPages start size,
    pageAddr (s'.mm.vmmFlushMmuUpdateQueue.vmmGetMapping pd vpf)
      = pageAddr (s.mm.vmmFlushMmuUpdateQueue.vmmGetMapping pd vpf)
  /-- bytes are written in frames that were free only -/
  memory : ∀ a, s'.mm.mem a ≠ s.mm.mem a → ∃ f, s.mm.lomem.hasFree f ∧ f ≤ a ∧ a < f + pageSize

section
variable {count count' : Int} {s s' : VmaState} {task pd start size flags vmaFlags : Nat}
  {type : VmaType} {src : VmAreaSrcArg} {ok : Bool}

/-- **one reference more**, whether the area was set up or not -/
theorem vmAreaAlloc_count (hm : (malloc s.heap).1 ≠ 0)
    (h : vmAreaAllocTask count s task pd start size flags type vmaFlags src
      = some ((s', count'), ok)) : count' = count + 1 := by
  unfold vmAreaAllocTask at h
  generalize vmAreaAlloc s task pd start size flags type vmaFlags src = r at h
  cases r with
  | none => exact nomatch h
  | some r =>
    have he : (if (malloc s.heap).1 = 0 then count else count + 1) = count' :=
      congrArg (fun r : (VmaState × Int) × Bool => r.1.2) (Option.some.inj h)
    rw [if_neg hm] at he
    exact he.symm

/-- **a `vm_area_alloc` that fails behind its `malloc` is never atomic** -/
theorem vm_area_alloc_never_atomic (hm : (malloc s.heap).1 ≠ 0)
    (h : vmAreaAllocTask count s task pd start size flags type vmaFlags src
      = some ((s', count'), ok)) : ¬ AtomicFailure pd start size s count s' count' ok := by
  intro ha
  have hc := vmAreaAlloc_count hm h
  rw [ha.count] at hc
  omega

end

/-! ## no free frame -/

/-- no page is free and no page table exists -/
def fullMm : Mm where
  lomem := ⟨fun _ => ⟨0, []⟩, fun _ => 0, 0xc2000000, 2, 1⟩
  himem := ⟨fun _ => ⟨0, []⟩, fun _ => 0, 0xc3000000, 2, 1⟩
  kernelPageDir := 0xc1000000
  word _ _ := 0
  queue := []
  mem _ := 0

def fullState : VmaState := ⟨[0xc1800000], fullMm, []⟩

theorem fullMm_mapPage (pd vpf ppf flags : Nat) :
    fullMm.vmmMapPage pd vpf ppf flags = (fullMm, false) := rfl

theorem fullMm_getMapping (pd vpf : Nat) : fullMm.vmmGetMapping pd vpf = 0 := rfl

theorem fullMm_createNullLoop (pd vpf : Nat) (l : List Nat) :
    vmAreaCreateNullLoop pd (vpf :: l) fullMm = (fullMm, false) := by
  rw [vmAreaCreateNullLoop, fullMm_mapPage]

theorem fullMm_unmapLoop (pd : Nat) (type : VmaType) (l : List Nat) :
    vmAreaUnmapLoop pd type l fullMm = fullMm := by
  induction l with
  | nil => rfl
  | cons vpf l ih =>
    rw [vmAreaUnmapLoop, fullMm_getMapping]
    exact (if_neg fun hc => hc.1 rfl).trans ih

theorem fullMm_initNull (pd : Nat) (vma : VmArea)
    (h : ∃ vpf l, vmPages vma.startAddress vma.size = vpf :: l) :
    vmAreaInitNull fullMm pd vma = (fullMm, none) := by
  obtain ⟨vpf, l, h⟩ := h
  have hc : vmAreaCreateNull fullMm pd vma = (fullMm, false) := by
    rw [vmAreaCreateNull, h, fullMm_createNullLoop]
  rw [vmAreaInitNull, hc]
  refine (if_neg (by decide)).trans ?_
  rw [vmAreaUnmap, fullMm_unmapLoop]

theorem vmPages_cons (start size : Nat) : ∃ vpf l, vmPages start size = vpf :: l := by
  unfold vmPages numPages
  rw [List.range_succ_eq_map, List.map_cons]
  exact ⟨_, _, rfl⟩

/-- `new_pages` of one page, whose page table cannot be allocated -/
theorem fullState_fails :
    vmAreaAllocTask 3 fullState 0xc1700000 0xc1001000 0x02000000 4096 7 .zeropage 0 .none
      = some ((⟨[], fullMm, []⟩, 4), false) := by
  have h0 : (malloc fullState.heap).1 ≠ 0 := by decide
  have hi : vmAreaInitType fullState.mm 0xc1001000
      (vmAreaInit 0xc1700000 0x02000000 4096 7 .zeropage 0) .zeropage .none = some (fullMm, none) := by
    rw [vmAreaInitType]
    exact congrArg some (fullMm_initNull _ _ (vmPages_cons _ _))
  have ha : vmAreaAlloc fullState 0xc1700000 0xc1001000 0x02000000 4096 7 .zeropage 0 .none
      = some (⟨[], fullMm, []⟩, false) := by
    rw [vmAreaAlloc, if_neg h0, hi]
    rfl
  rw [vmAreaAllocTask, ha, if_neg h0]
  rfl

theorem vm_area_alloc_never_atomic_full :
    ¬ AtomicFailure 0xc1001000 0x02000000 4096 fullState 3 ⟨[], fullMm, []⟩ 4 false :=
  vm_area_alloc_never_atomic (s := fullState) (by decide) fullState_fails

/-- the same call: it returns `NULL`, and the task has a reference that nobody holds -/
theorem vm_area_alloc_leaks_reference :
    vmAreaAllocTask 3 fullState 0xc1700000 0xc1001000 0x02000000 4096 7 .zeropage 0 .none
        = some ((⟨[], fullMm, []⟩, 4), false) ∧
      ¬ AtomicFailure 0xc1001000 0x02000000 4096 fullState 3 ⟨[], fullMm, []⟩ 4 false :=
  ⟨fullState_fails, fun h => absurd h.count (by decide)⟩

end Paravirt

import Paravirt.Sched
import Paravirt.Lib.DFamily
import Paravirt.Lib.Steps
import Mathlib.Data.List.Perm.Subperm

/-!
# Tasks and who holds them (kern/task.c)

* `TaskTree`            the tasks with their parents, child lists and reference counts;
* `TaskTree.taskReap`   what `thread_vanish_noyield` does with the task of the thread;
* `TaskTree.threadFree` what `thread_free` does with it;
* `TaskOp.Orderly`      the tasks that are reaped have no children, as the source assumes;
* `Held`                the counts are those of the holders;
* `task_refs_exact`     over whole runs;
* `orphan_put_twice`    and when a task is reaped before its child;
* `create_fails_frees_twice`  and when there is no page directory for a new one.
-/

set_option linter.unusedSectionVars false
set_option linter.unusedVariables false

namespace Paravirt
open DList

structure TaskTree where
  parent : Nat → Option Nat
  /-- `task->count` -/
  count : Nat → Int
  /-- `sched_task_map` -/
  inMap : Nat → Bool
  /-- `current_task_id` -/
  nextId : Nat
  childLink : Links
  childList : Nat → QHead
  /-- the areas of the task but for the kernel stack -/
  areas : Nat → Nat
  /-- the thread is not freed, nor the kernel stack that it holds -/
  thread : Nat → Bool
  /-- the areas that could not be set up -/
  failed : Nat → Nat
  /-- by `task_free`, the last one first -/
  freed : List Nat

inductive TaskOp where
  /-- `task_create` or `task_copy`, with its thread -/
  | create (parent : Option Nat)
  /-- `vm_area_alloc` -/
  | newArea (t : Nat)
  | areaFails (t : Nat)
  /-- `vm_area_free` -/
  | freeArea (t n : Nat)
  | reap (t n : Nat)
  | threadFree (t n : Nat)

namespace TaskTree

/-- before the first task -/
def bare : TaskTree where
  parent _ := none
  count _ := 0
  inMap _ := false
  nextId := 0
  childLink _ := .null
  childList _ := .empty
  areas _ := 0
  thread _ := false
  failed _ := 0
  freed := []

def taskGet (s : TaskTree) (t : Nat) : TaskTree :=
  { s with count := Function.update s.count t (s.count t + 1) }

/-- `task_put` with `task_free`, which puts the parent -/
def taskPut : Nat → Nat → TaskTree → TaskTree
  | 0, _, s => s
  | n + 1, t, s =>
    let s : TaskTree := { s with count := Function.update s.count t (s.count t - 1) }
    if s.count t = 0 then
      let s : TaskTree := { s with freed := t :: s.freed }
      match s.parent t with
      | none => s
      | some p => taskPut n p s
    else s

def childInsertTail (s : TaskTree) (p t : Nat) : TaskTree :=
  let r := DList.insertTail s.childLink (s.childList p) t
  { s with childLink := r.1, childList := Function.update s.childList p r.2 }

def childRemove (s : TaskTree) (p t : Nat) : TaskTree :=
  let r := DList.remove s.childLink (s.childList p) t
  { s with childLink := r.1, childList := Function.update s.childList p r.2 }

/-- `task_init`, for an id that is not in the map -/
def taskInit (s : TaskTree) (parent : Option Nat) : TaskTree :=
  let t := s.nextId + 1
  let s : TaskTree := { s with
    nextId := t
    parent := Function.update s.parent t parent
    count := Function.update s.count t 0
    childLink := Function.update s.childLink t .null
    childList := Function.update s.childList t .empty }
  let s :=
    match parent with
    | none => s
    | some p => ((s.taskGet p).childInsertTail p t).taskGet t
  let s := s.taskGet t
  { s with inMap := Function.update s.inMap t true }

/-- `task_create`, and `thread_init` with the kernel stack of the thread -/
def create (s : TaskTree) (parent : Option Nat) : TaskTree :=
  let t := s.nextId + 1
  if s.inMap t then s
  else
    let s := s.taskInit parent
    let s := (s.taskGet t).taskGet t
    { s with thread := Function.update s.thread t true }

/-- the task leaves the child list of its parent -/
def leaveParent (s : TaskTree) (n t : Nat) : TaskTree :=
  match s.parent t with
  | none => s
  | some p =>
    let s := taskPut n p (taskPut n t (s.childRemove p t))
    { s with parent := Function.update s.parent t none }

/-- the children of a task that is reaped are released -/
def releaseLoop (p : Nat) : Nat → Option Nat → TaskTree → TaskTree
  | 0, _, s => s
  | _ + 1, none, s => s
  | n + 1, some c, s =>
    releaseLoop p n (s.childLink c).next (taskPut (n + 1) c (s.childRemove p c))

/-- `task_delete_vm`; the thread still holds its kernel stack -/
def taskDeleteAreas (n t : Nat) : Nat → TaskTree → TaskTree
  | 0, s => s
  | k + 1, s => taskDeleteAreas n t k (taskPut n t { s with areas := Function.update s.areas t k })

def taskReap (s : TaskTree) (n t : Nat) : TaskTree :=
  let s := taskPut n t { s with inMap := Function.update s.inMap t false }
  let s := s.leaveParent n t
  let s := releaseLoop t n (s.childList t).first s
  taskDeleteAreas n t (s.areas t) s

def taskFree (s : TaskTree) (n t : Nat) : TaskTree :=
  let s : TaskTree := { s with freed := t :: s.freed }
  match s.parent t with
  | none => s
  | some p => taskPut n p s

/-- `task_create` when there is no page directory; a task that is freed is read as it was -/
def createFails (s : TaskTree) (n : Nat) (parent : Option Nat) : TaskTree :=
  let t := s.nextId + 1
  if s.inMap t then s
  else ((s.taskInit parent).taskReap n t).taskFree n t

/-- the kernel stack and the thread let go of the task -/
def threadFree (s : TaskTree) (n t : Nat) : TaskTree :=
  taskPut n t (taskPut n t { s with thread := Function.update s.thread t false })

def run (s : TaskTree) : TaskOp → TaskTree
  | .create parent => s.create parent
  | .newArea t => { s.taskGet t with areas := Function.update s.areas t (s.areas t + 1) }
  -- `vm_area_alloc` frees the area, which has taken the task by then
  | .areaFails t => { s.taskGet t with failed := Function.update s.failed t (s.failed t + 1) }
  | .freeArea t n => taskPut n t { s with areas := Function.update s.areas t (s.areas t - 1) }
  | .reap t n => s.taskReap n t
  | .threadFree t n => s.threadFree n t

end TaskTree

/-- a task that runs forks, gets areas and frees them; it is reaped when it has no children left; its
thread is freed later -/
def TaskOp.Orderly (s : TaskTree) : TaskOp → Prop
  | .create none => True
  | .create (some p) => s.inMap p = true
  | .newArea t | .areaFails t => s.inMap t = true
  | .freeArea t n => s.inMap t = true ∧ 0 < s.areas t ∧ 0 < n
  | .reap t n => s.inMap t = true ∧ (s.childList t).first = none ∧ 0 < n
  | .threadFree t n => s.thread t = true ∧ s.inMap t = false ∧ 0 < n

/-- the holders of a task but for its children: the map, its parent, its areas, the areas that could not
be set up, the thread and its kernel stack -/
def TaskTree.holders (s : TaskTree) (t : Nat) : Nat :=
  (if s.inMap t then 1 else 0) + (if s.parent t = none then 0 else 1) + s.areas t + s.failed t +
    (if s.thread t then 2 else 0)

/-- **the counts are those of the holders**, and the tasks that are freed are those that nobody holds -/
structure Held (s : TaskTree) (f : Nat → List Nat) : Prop where
  kin : Family s.childLink s.childList f
  child : ∀ p c, c ∈ f p ↔ s.parent c = some p
  live : ∀ c p, s.parent c = some p → s.inMap c = true ∧ s.inMap p = true
  order : ∀ c p, s.parent c = some p → p < c
  alive : ∀ t, s.inMap t = true → s.thread t = true
  fresh : ∀ t, s.nextId < t → s.thread t = false ∧ s.failed t = 0
  zero : s.thread 0 = false
  bare : ∀ t, s.inMap t = false → s.areas t = 0
  count : ∀ t, s.count t = (s.holders t + (f t).length : Nat)
  once : s.freed.Nodup
  freed : ∀ t, t ∈ s.freed ↔ 0 < t ∧ t ≤ s.nextId ∧ s.count t = 0

section
variable {s s' : TaskTree} {f f' : Nat → List Nat} {t p n k : Nat}

/-! ## what the puts do -/

theorem taskPut_keep (h : s.count t ≠ 1) :
    TaskTree.taskPut (n + 1) t s = { s with count := Function.update s.count t (s.count t - 1) } := by
  have hc : Function.update s.count t (s.count t - 1) t ≠ 0 := by
    rw [Function.update_self]
    omega
  unfold TaskTree.taskPut
  exact if_neg hc

theorem taskPut_keep_count (h : s.count t ≠ 1) : ∃ cnt,
    TaskTree.taskPut (n + 1) t s = { s with count := cnt } ∧ cnt t = s.count t - 1 ∧
      ∀ u, u ≠ t → cnt u = s.count u :=
  ⟨_, taskPut_keep h, Function.update_self .., fun u hu => Function.update_of_ne hu _ _⟩

theorem taskPut_last (h : s.count t = 1) (hp : s.parent t = none) :
    TaskTree.taskPut (n + 1) t s =
      { s with count := Function.update s.count t 0, freed := t :: s.freed } := by
  have hc : Function.update s.count t (s.count t - 1) t = 0 := by
    rw [Function.update_self]
    omega
  have h0 : s.count t - 1 = 0 := by omega
  rw [TaskTree.taskPut]
  refine (if_pos hc).trans ?_
  dsimp only
  rw [h0, hp]

/-- a task that has no parent is put -/
theorem taskPut_none (h : s.parent t = none) : ∃ fr, TaskTree.taskPut (n + 1) t s =
    { s with count := Function.update s.count t (s.count t - 1), freed := fr } := by
  by_cases hc : s.count t = 1
  · have hl := @taskPut_last s t n hc h
    rw [hl, hc]
    exact ⟨_, rfl⟩
  · exact ⟨_, taskPut_keep hc⟩

/-- a task that has a parent is freed, which puts the parent -/
theorem taskPut_free (h : s.count t = 1) (hp : s.parent t = some p) : ∃ cnt,
    TaskTree.taskPut (n + 1) t s = TaskTree.taskPut n p { s with count := cnt, freed := t :: s.freed } ∧
      ∀ u, u ≠ t → cnt u = s.count u := by
  have hc : Function.update s.count t (s.count t - 1) t = 0 := by
    rw [Function.update_self]
    omega
  refine ⟨Function.update s.count t (s.count t - 1), ?_, fun u hu => Function.update_of_ne hu _ _⟩
  rw [TaskTree.taskPut]
  refine (if_pos hc).trans ?_
  dsimp only
  rw [hp]

/-- **the children of a task are released** -/
theorem releaseLoop_eq : ∀ (n : Nat) {l : List Nat} {s : TaskTree},
    IsList s.childLink (s.childList p) l → (∀ c ∈ l, 2 ≤ s.count c) → l.length < n →
    ∃ links head, TaskTree.releaseLoop p n l.head? s =
      { s with
        childLink := links
        childList := Function.update s.childList p head
        count := fun u => if u ∈ l then s.count u - 1 else s.count u } ∧ head.first = none ∧
      (l = [] → links = s.childLink ∧ head = s.childList p) := by
  intro n
  induction n with
  | zero => exact fun _ _ hn => absurd hn (Nat.not_lt_zero _)
  | succ n ih =>
    intro l s hl hc hn
    cases l with
    | nil =>
      refine ⟨s.childLink, s.childList p, ?_, hl.first, fun _ => ⟨rfl, rfl⟩⟩
      rw [Function.update_eq_self]
      simp only [List.not_mem_nil, if_false]
      rfl
    | cons c r =>
      have hnext : (s.childLink c).next = r.head? := by rw [@IsList.link _ _ _ _ [] _ _ hl]
      have hnot : c ∉ r := (List.nodup_cons.mp hl.nodup).1
      have hcc : s.count c ≠ 1 := by
        have := hc c (List.mem_cons_self ..)
        omega
      have hrem := @taskPut_keep (s.childRemove p c) c n hcc
      have hlist : IsList (s.childRemove p c).childLink ((s.childRemove p c).childList p) r := by
        show IsList (DList.remove s.childLink (s.childList p) c).1
          (Function.update s.childList p (DList.remove s.childLink (s.childList p) c).2 p) r
        rw [Function.update_self]
        exact @IsList.remove _ _ _ _ [] r c hl
      have hstep : TaskTree.releaseLoop p (n + 1) (c :: r).head? s =
          TaskTree.releaseLoop p n r.head? { s.childRemove p c with
            count := Function.update s.count c (s.count c - 1) } := by
        show TaskTree.releaseLoop p n (s.childLink c).next (TaskTree.taskPut (n + 1) c _) = _
        rw [hnext, hrem]
        rfl
      have hcount : ∀ d ∈ r, 2 ≤ Function.update s.count c (s.count c - 1) d := by
        intro d hd
        have hdc : d ≠ c := fun he => hnot (he ▸ hd)
        rw [Function.update_of_ne hdc]
        exact hc d (List.mem_cons_of_mem _ hd)
      obtain ⟨links, head, he, hh, -⟩ := @ih r { s.childRemove p c with
        count := Function.update s.count c (s.count c - 1) } hlist hcount (Nat.lt_of_succ_lt_succ hn)
      refine ⟨links, head, ?_, hh, (fun hc => nomatch hc)⟩
      have hfun : (fun u => if u ∈ r then Function.update s.count c (s.count c - 1) u - 1
          else Function.update s.count c (s.count c - 1) u) =
          fun u => if u ∈ c :: r then s.count u - 1 else s.count u := by
        funext u
        by_cases hu : u = c
        · subst hu
          rw [if_neg hnot, Function.update_self, if_pos (List.mem_cons_self ..)]
        · have hiff : u ∈ c :: r ↔ u ∈ r := List.mem_cons.trans (or_iff_right hu)
          simp only [hiff, Function.update_of_ne hu]
      have hheads : Function.update (s.childRemove p c).childList p head =
          Function.update s.childList p head := Function.update_idem ..
      rw [hstep, he]
      show ({ s.childRemove p c with
        childLink := links
        childList := Function.update (s.childRemove p c).childList p head
        count := fun u => if u ∈ r then Function.update s.count c (s.count c - 1) u - 1
          else Function.update s.count c (s.count c - 1) u } : TaskTree) = _
      rw [hfun, hheads]
      rfl

/-- areas of a task that is held otherwise, too -/
theorem taskDeleteAreas_eq : ∀ (k : Nat) {s : TaskTree}, s.areas t = k → k + 1 ≤ s.count t →
    TaskTree.taskDeleteAreas (n + 1) t k s =
      { s with
        areas := Function.update s.areas t 0
        count := Function.update s.count t (s.count t - k) } := by
  intro k
  induction k with
  | zero =>
    intro s ha _
    have h1 : Function.update s.areas t 0 = s.areas := Function.update_eq_self_iff.mpr ha.symm
    have h2 : Function.update s.count t (s.count t - (0 : Nat)) = s.count :=
      Function.update_eq_self_iff.mpr (by omega)
    rw [h1, h2]
    rfl
  | succ k ih =>
    intro s ha hc
    show TaskTree.taskDeleteAreas (n + 1) t k (TaskTree.taskPut (n + 1) t _) = _
    have hk : ({ s with areas := Function.update s.areas t k } : TaskTree).count t ≠ 1 := by
      show s.count t ≠ 1
      omega
    rw [taskPut_keep hk, ih]
    · simp only [Function.update_idem, Function.update_self]
      have he : s.count t - 1 - k = s.count t - (k + 1 : Nat) := by omega
      rw [he]
    · exact Function.update_self ..
    · show k + 1 ≤ Function.update s.count t (s.count t - 1) t
      rw [Function.update_self]
      omega

/-! ## what the holders say -/

/-- a task in the map is held by the map, its thread and its kernel stack -/
theorem Held.three_le (h : Held s f) (hm : s.inMap t = true) : 3 ≤ s.count t := by
  have hc := h.count t
  unfold TaskTree.holders at hc
  rw [if_pos hm, if_pos (h.alive t hm)] at hc
  omega

/-- a task that was not given out yet -/
theorem Held.not_inMap (h : Held s f) (ht : s.nextId < t) : s.inMap t = false := by
  cases hm : s.inMap t with
  | false => rfl
  | true =>
    have ha := h.alive t hm
    rw [(h.fresh t ht).1] at ha
    exact nomatch ha

theorem Held.le_nextId (h : Held s f) (hm : s.inMap t = true) : t ≤ s.nextId := by
  refine Nat.le_of_not_lt fun ht => ?_
  rw [h.not_inMap ht] at hm
  exact nomatch hm

theorem Held.length_le (h : Held s f) : (f t).length ≤ s.nextId + 1 := by
  have hsub : f t ⊆ List.range (s.nextId + 1) := by
    intro d hd
    have hd' := h.le_nextId (h.live d t ((h.child t d).mp hd)).1
    exact List.mem_range.mpr (Nat.lt_succ_of_le hd')
  have hle := ((h.kin.list t).nodup.subperm hsub).length_le
  rwa [List.length_range] at hle

theorem Held.no_children (h : Held s f) (hm : s.inMap t = false) : f t = [] := by
  refine List.eq_nil_iff_forall_not_mem.mpr fun c hc => ?_
  have hl := (h.live c t ((h.child t c).mp hc)).2
  rw [hm] at hl
  exact nomatch hl

/-- a count that changes with the number of the children only is 0 where it was -/
theorem Held.zero_iff (h : Held s f) {cnt : Nat → Int} (hsub : s.inMap t = false → f' t = [])
    (hd : cnt t - (f' t).length = s.count t - (f t).length) : s.count t = 0 ↔ cnt t = 0 := by
  cases hm : s.inMap t with
  | true =>
    have h3 := h.count t
    unfold TaskTree.holders at h3
    rw [if_pos hm, if_pos (h.alive t hm)] at h3
    exact iff_of_false (by omega) (by omega)
  | false =>
    rw [h.no_children hm, hsub hm, List.length_nil] at hd
    omega

theorem Held.orphan (h : Held s f) (hm : s.inMap t = false) : s.parent t = none := by
  cases hp : s.parent t with
  | none => rfl
  | some p =>
    have hl := (h.live t p hp).1
    rw [hm] at hl
    exact nomatch hl

/-! ## one operation -/

/-- the areas of a task that runs -/
theorem Held.recount (h : Held s f) (hm : s.inMap t = true) {a b : Nat} {c : Int}
    (hc : c = s.count t + (a - s.areas t) + (b - s.failed t)) :
    Held { s with
      areas := Function.update s.areas t a
      failed := Function.update s.failed t b
      count := Function.update s.count t c } f where
  kin := h.kin
  child := h.child
  live := h.live
  order := h.order
  alive := h.alive
  fresh u hu := by
    have hut : u ≠ t := fun he => by
      have hn := h.not_inMap hu
      rw [he, hm] at hn
      exact nomatch hn
    exact ⟨(h.fresh u hu).1, (Function.update_of_ne hut _ _).trans (h.fresh u hu).2⟩
  zero := h.zero
  bare u hu := by
    have hut : u ≠ t := fun he => by
      change s.inMap u = false at hu
      rw [he, hm] at hu
      exact nomatch hu
    exact (Function.update_of_ne hut _ _).trans (h.bare u hu)
  count u := by
    have hcu := h.count u
    unfold TaskTree.holders at hcu ⊢
    show Function.update s.count t c u = ((if s.inMap u then 1 else 0) +
      (if s.parent u = none then 0 else 1) + Function.update s.areas t a u +
      Function.update s.failed t b u + (if s.thread u then 2 else 0) + (f u).length : Nat)
    by_cases hut : u = t
    · subst hut
      rw [Function.update_self, Function.update_self, Function.update_self]
      omega
    · rw [Function.update_of_ne hut, Function.update_of_ne hut, Function.update_of_ne hut]
      exact hcu
  once := h.once
  freed u := by
    rw [h.freed u]
    show _ ↔ _ ∧ _ ∧ Function.update s.count t c u = 0
    by_cases hut : u = t
    · subst hut
      have h3 := h.three_le hm
      have hcu := h.count u
      unfold TaskTree.holders at hcu
      rw [if_pos hm, if_pos (h.alive u hm)] at hcu
      rw [Function.update_self]
      exact and_congr_right fun _ => and_congr_right fun _ =>
        iff_of_false (by omega) (by omega)
    · rw [Function.update_of_ne hut]

theorem held_newArea (h : Held s f) (hm : s.inMap t = true) : Held (s.run (.newArea t)) f := by
  have hr := h.recount hm (a := s.areas t + 1) (b := s.failed t) (c := s.count t + 1) (by omega)
  rw [Function.update_eq_self] at hr
  exact hr

theorem held_areaFails (h : Held s f) (hm : s.inMap t = true) : Held (s.run (.areaFails t)) f := by
  have hr := h.recount hm (a := s.areas t) (b := s.failed t + 1) (c := s.count t + 1) (by omega)
  rw [Function.update_eq_self] at hr
  exact hr

theorem held_freeArea (h : Held s f) (hm : s.inMap t = true) (ha : 0 < s.areas t) :
    Held (s.run (.freeArea t (n + 1))) f := by
  have h3 := h.three_le hm
  have hr := h.recount hm (a := s.areas t - 1) (b := s.failed t) (c := s.count t - 1) (by omega)
  rw [Function.update_eq_self] at hr
  have hk := taskPut_keep (n := n) (s := { s with areas := Function.update s.areas t (s.areas t - 1) })
    (show s.count t ≠ 1 by omega)
  show Held (TaskTree.taskPut (n + 1) t _) f
  rw [hk]
  exact hr

/-- the children of a task are released, and then its areas; its thread still holds it -/
theorem reapTail_eq {l : List Nat} (hl : IsList s.childLink (s.childList t) l)
    (hl2 : ∀ c ∈ l, 2 ≤ s.count c) (hn : l.length < n + 1) (ht : t ∉ l)
    (hc : s.areas t + 1 ≤ s.count t) :
    ∃ links head,
      TaskTree.taskDeleteAreas (n + 1) t
          ((TaskTree.releaseLoop t (n + 1) (s.childList t).first s).areas t)
          (TaskTree.releaseLoop t (n + 1) (s.childList t).first s) =
        { s with
          areas := Function.update s.areas t 0
          childLink := links
          childList := Function.update s.childList t head
          count := Function.update (fun u => if u ∈ l then s.count u - 1 else s.count u) t
            (s.count t - s.areas t) } ∧
      (l = [] → links = s.childLink ∧ head = s.childList t) := by
  obtain ⟨links, head, he, -, hnil⟩ := releaseLoop_eq (n + 1) hl hl2 hn
  have htc : (if t ∈ l then s.count t - 1 else s.count t) = s.count t := if_neg ht
  have hd := @taskDeleteAreas_eq t n (s.areas t) { s with
    childLink := links
    childList := Function.update s.childList t head
    count := fun u => if u ∈ l then s.count u - 1 else s.count u } rfl (by
      show (s.areas t + 1 : Int) ≤ if t ∈ l then s.count t - 1 else s.count t
      rw [htc]
      exact hc)
  refine ⟨links, head, ?_, hnil⟩
  rw [hl.first, he]
  refine hd.trans ?_
  show ({ s with
    areas := Function.update s.areas t 0
    childLink := links
    childList := Function.update s.childList t head
    count := Function.update (fun u => if u ∈ l then s.count u - 1 else s.count u) t
      ((if t ∈ l then s.count t - 1 else s.count t) - s.areas t) } : TaskTree) = _
  rw [htc]

/-- the parent lets go of the task, and the task of its parent -/
theorem leaveParent_puts {cnt₀ : Nat → Int} (hpt : p ≠ t) (ht : cnt₀ t ≠ 1) (hp : cnt₀ p ≠ 1) :
    ∃ cnt, TaskTree.taskPut (n + 1) p (TaskTree.taskPut (n + 1) t (({ s with
          inMap := Function.update s.inMap t false
          count := cnt₀ } : TaskTree).childRemove p t)) =
        ({ s with inMap := Function.update s.inMap t false, count := cnt } : TaskTree).childRemove p t ∧
      cnt t = cnt₀ t - 1 ∧ cnt p = cnt₀ p - 1 ∧ ∀ u, u ≠ t → u ≠ p → cnt u = cnt₀ u := by
  obtain ⟨cnt₁, h1, ht1, hu1⟩ := @taskPut_keep_count
    (({ s with inMap := Function.update s.inMap t false, count := cnt₀ } : TaskTree).childRemove p t) t n ht
  change cnt₁ t = cnt₀ t - 1 at ht1
  change ∀ u, u ≠ t → cnt₁ u = cnt₀ u at hu1
  have hp1 := hu1 p hpt
  obtain ⟨cnt₂, h2, ht2, hu2⟩ := @taskPut_keep_count
    (({ s with inMap := Function.update s.inMap t false, count := cnt₁ } : TaskTree).childRemove p t) p n
    (show cnt₁ p ≠ 1 by omega)
  change cnt₂ p = cnt₁ p - 1 at ht2
  change ∀ u, u ≠ p → cnt₂ u = cnt₁ u at hu2
  refine ⟨cnt₂, ?_, (hu2 t hpt.symm).trans ht1, by omega, fun u hut hup => ?_⟩
  · rw [h1]
    exact h2
  · exact (hu2 u hup).trans (hu1 u hut)

/-- a task that has left the map leaves its parent -/
theorem leaveParent_eq (h : Held s f) (hm : s.inMap t = true) {cnt₀ : Nat → Int}
    (h0 : cnt₀ t = s.count t - 1) (hu0 : ∀ u, u ≠ t → cnt₀ u = s.count u) :
    ∃ links heads f' cnt,
      TaskTree.leaveParent { s with inMap := Function.update s.inMap t false, count := cnt₀ } (n + 1) t =
        { s with
          inMap := Function.update s.inMap t false
          parent := Function.update s.parent t none
          childLink := links
          childList := heads
          count := cnt } ∧
      Family links heads f' ∧ f' t = f t ∧
      (∀ q c, c ∈ f' q ↔ c ∈ f q ∧ c ≠ t) ∧
      (∀ u, u ≠ t → cnt u - (f' u).length = s.count u - (f u).length) ∧
      cnt t = s.areas t + s.failed t + 2 + (f t).length ∧
      ∀ u, u ≠ t → s.parent t ≠ some u → heads u = s.childList u := by
  have hc := h.count t
  unfold TaskTree.holders at hc
  rw [if_pos hm, if_pos (h.alive t hm)] at hc
  unfold TaskTree.leaveParent
  dsimp only
  cases hp : s.parent t with
  | none =>
    rw [if_pos hp] at hc
    have hpar : Function.update s.parent t none = s.parent := Function.update_eq_self_iff.mpr hp.symm
    rw [hpar]
    refine ⟨s.childLink, s.childList, f, cnt₀, rfl, h.kin, rfl, ?_, ?_, ?_, fun _ _ _ => rfl⟩
    · intro q c
      refine ⟨fun hq => ⟨hq, fun he => ?_⟩, And.left⟩
      rw [he, h.child q t, hp] at hq
      exact nomatch hq
    · intro u hu
      rw [hu0 u hu]
    · omega
  | some p =>
    rw [if_neg (by rw [hp]; exact nofun)] at hc
    have hin : t ∈ f p := (h.child p t).mpr hp
    have hpt : p ≠ t := Nat.ne_of_lt (h.order t p hp)
    have h3 := h.three_le (h.live t p hp).2
    have hp0 := hu0 p hpt
    have ht2 := h.three_le hm
    obtain ⟨cnt, hputs, hct, hcp, hcu⟩ := leaveParent_puts (s := s) (n := n) hpt
      (show cnt₀ t ≠ 1 by omega) (show cnt₀ p ≠ 1 by omega)
    dsimp only
    rw [hputs]
    refine ⟨_, _, _, _, rfl, h.kin.remove p hin, Function.update_of_ne hpt.symm _ _, ?_, ?_, ?_, ?_⟩
    · intro q c
      by_cases hq : q = p
      · rw [hq, Function.update_self, ((h.kin.list p).nodup).mem_erase_iff]
        exact and_comm
      · rw [Function.update_of_ne hq]
        refine ⟨fun hc => ⟨hc, fun he => ?_⟩, And.left⟩
        rw [he] at hc
        exact h.kin.one q p t hq hc hin
    · intro u hu
      show cnt u - _ = _
      by_cases hup : u = p
      · subst hup
        have hlen := List.length_erase_of_mem hin
        have hpos := List.length_pos_of_mem hin
        rw [Function.update_self, hlen]
        omega
      · rw [Function.update_of_ne hup, hcu u hu hup, hu0 u hu]
    · show cnt t = _
      omega
    · intro u hu hpu
      exact Function.update_of_ne (fun he => hpu (congrArg some he.symm)) _ _

/-- **task_reap** -/
theorem taskReap_eq (h : Held s f) (hm : s.inMap t = true) (hn : (f t).length < n + 1) :
    ∃ links heads f' cnt, s.taskReap (n + 1) t =
        { s with
          inMap := Function.update s.inMap t false
          parent := Function.update s.parent t none
          areas := Function.update s.areas t 0
          childLink := links
          childList := heads
          count := cnt } ∧
      (f t = [] → Family links heads f') ∧
      (∀ q c, c ∈ f' q ↔ c ∈ f q ∧ c ≠ t) ∧
      (∀ u, u ≠ t → cnt u - (f' u).length =
        s.count u - (f u).length - if u ∈ f t then 1 else 0) ∧
      cnt t = s.failed t + 2 + (f t).length ∧
      ∀ u, u ≠ t → s.parent t ≠ some u → heads u = s.childList u := by
  have h3 := h.three_le hm
  have hself : t ∉ f t := fun hin => Nat.lt_irrefl t (h.order t t ((h.child t t).mp hin))
  obtain ⟨cnt₀, hput, h0, hu0⟩ := @taskPut_keep_count { s with
    inMap := Function.update s.inMap t false } t n (show s.count t ≠ 1 by omega)
  obtain ⟨links, heads, f', cnt, hleave, hk, hft, hmem, hcnt, hct, hheads⟩ :=
    @leaveParent_eq s f t n h hm cnt₀ h0 hu0
  -- a child is held by the map and its thread
  have hchild : ∀ c ∈ f t, 2 ≤ cnt c := by
    intro c hc
    have hmc := (h.live c t ((h.child t c).mp hc)).1
    have hcc := h.count c
    have hdc := hcnt c fun he => hself (he ▸ hc)
    unfold TaskTree.holders at hcc
    rw [if_pos hmc, if_pos (h.alive c hmc)] at hcc
    omega
  obtain ⟨links', head, htail, hnil⟩ := @reapTail_eq { s with
    inMap := Function.update s.inMap t false
    parent := Function.update s.parent t none
    childLink := links
    childList := heads
    count := cnt } t n (f t) (hft ▸ hk.list t) hchild hn hself (show (s.areas t + 1 : Int) ≤ cnt t by omega)
  unfold TaskTree.taskReap
  dsimp only
  rw [hput, hleave]
  refine ⟨links', _, f', _, htail, fun hf => ?_, hmem, ?_, ?_, ?_⟩
  · have h1 : links' = links := (hnil hf).1
    have h2 : head = heads t := (hnil hf).2
    rw [h1, h2]
    show Family links (Function.update heads t (heads t)) f'
    rw [Function.update_eq_self]
    exact hk
  · intro u hu
    have hdu := hcnt u hu
    show Function.update (fun u => if u ∈ f t then cnt u - 1 else cnt u) t _ u - _ = _
    rw [Function.update_of_ne hu]
    split <;> omega
  · show Function.update (fun u => if u ∈ f t then cnt u - 1 else cnt u) t (cnt t - s.areas t) t = _
    rw [Function.update_self]
    omega
  · intro u hu hpu
    show Function.update heads t head u = _
    rw [Function.update_of_ne hu]
    exact hheads u hu hpu

/-! ## a task without children goes -/

/-- the parents once `t` has none -/
theorem update_none_iff (g : Nat → Option Nat) (t c p : Nat) :
    Function.update g t none c = some p ↔ g c = some p ∧ c ≠ t := by
  by_cases hc : c = t
  · rw [hc, Function.update_self]
    exact iff_of_false nofun fun hc => hc.2 rfl
  · rw [Function.update_of_ne hc]
    exact (and_iff_left hc).symm

/-- nobody has a parent without children -/
theorem Held.childless (h : Held s f) (hf : f t = []) (c : Nat) : s.parent c ≠ some t := by
  intro hc
  have hin := (h.child t c).mpr hc
  rw [hf] at hin
  exact absurd hin List.not_mem_nil

/-- children lists that only lost members stay empty -/
theorem nil_of_sub {q : Nat} (hmem : ∀ c, c ∈ f' q → c ∈ f q) (hf : f q = []) : f' q = [] := by
  refine List.eq_nil_iff_forall_not_mem.mpr fun c hc => ?_
  have hin := hmem c hc
  rw [hf] at hin
  exact absurd hin List.not_mem_nil

/-- the count of every task is the number of its holders after `t` was taken out -/
theorem Held.buried_count (h : Held s f) (hm : s.inMap t = true) (hnil : f' t = [])
    {cnt : Nat → Int} (hcnt : ∀ u, u ≠ t → cnt u - (f' u).length = s.count u - (f u).length)
    (hct : cnt t = s.failed t + 2) (u : Nat) :
    cnt u = ((if Function.update s.inMap t false u then 1 else 0) +
      (if Function.update s.parent t none u = none then 0 else 1) + Function.update s.areas t 0 u +
      s.failed u + (if s.thread u then 2 else 0) + (f' u).length : Nat) := by
  by_cases hut : u = t
  · subst hut
    rw [Function.update_self, Function.update_self, Function.update_self, hct, hnil,
      if_pos (h.alive u hm)]
    simp
  · have hu := h.count u
    have hd := hcnt u hut
    unfold TaskTree.holders at hu
    rw [Function.update_of_ne hut, Function.update_of_ne hut, Function.update_of_ne hut]
    omega

/-- **task_reap** of a task without children -/
theorem held_reap (h : Held s f) (hm : s.inMap t = true) (hf : f t = []) :
    ∃ f', Held (s.run (.reap t (n + 1))) f' := by
  obtain ⟨links, heads, f', cnt, he, hk, hmem, hcnt, hct, -⟩ :=
    taskReap_eq (n := n) h hm (by rw [hf]; exact Nat.succ_pos n)
  rw [hf] at hct hcnt
  have hcnt' : ∀ u, u ≠ t → cnt u - (f' u).length = s.count u - (f u).length := fun u hu => by
    rw [hcnt u hu, if_neg List.not_mem_nil, Int.sub_zero]
  have hct' : cnt t = s.failed t + 2 := by rw [hct, List.length_nil]; omega
  have hsub : ∀ q c, c ∈ f' q → c ∈ f q := fun q c hc => ((hmem q c).mp hc).1
  have hpar := update_none_iff s.parent t
  have hrun : s.run (.reap t (n + 1)) = s.taskReap (n + 1) t := rfl
  rw [hrun, he]
  refine ⟨f', ?_⟩
  constructor
  · exact hk hf
  · intro q c
    rw [hmem, h.child q c]
    exact (hpar c q).symm
  · intro c q hc
    obtain ⟨hc, hct⟩ := (hpar c q).mp hc
    obtain ⟨h1, h2⟩ := h.live c q hc
    have hqt : q ≠ t := fun hq => h.childless hf c (hq ▸ hc)
    exact ⟨(Function.update_of_ne hct _ _).trans h1, (Function.update_of_ne hqt _ _).trans h2⟩
  · exact fun c q hc => h.order c q ((hpar c q).mp hc).1
  · intro u hu
    by_cases hut : u = t
    · exact hut ▸ h.alive t hm
    · exact h.alive u ((Function.update_of_ne hut _ _).symm.trans hu)
  · exact h.fresh
  · exact h.zero
  · intro u hu
    show Function.update s.areas t 0 u = 0
    by_cases hut : u = t
    · rw [hut, Function.update_self]
    · rw [Function.update_of_ne hut]
      exact h.bare u ((Function.update_of_ne hut _ _).symm.trans hu)
  · exact h.buried_count hm (nil_of_sub (hsub t) hf) hcnt' hct'
  · exact h.once
  · intro u
    rw [h.freed u]
    show _ ↔ _ ∧ _ ∧ cnt u = 0
    refine and_congr_right fun _ => and_congr_right fun _ => ?_
    by_cases hut : u = t
    · subst hut
      have h3 := h.three_le hm
      exact iff_of_false (by omega) (by omega)
    · exact h.zero_iff (fun hmu => nil_of_sub (hsub u) (h.no_children hmu)) (hcnt' u hut)

/-- nobody holds the task but its thread and its kernel stack, which let go of it -/
theorem Held.release (h : Held s f) (ht : s.thread t = true) (hm : s.inMap t = false)
    (hc : s.count t = s.failed t + 2) {fr : List Nat} (hd : fr.Nodup)
    (hfr : ∀ u, u ∈ fr ↔ u ∈ s.freed ∨ (u = t ∧ s.failed t = 0)) :
    Held { s with
      thread := Function.update s.thread t false
      count := Function.update s.count t (s.failed t)
      freed := fr } f := by
  have hpos : 0 < t := by
    refine Nat.pos_of_ne_zero fun h0 => ?_
    rw [h0, h.zero] at ht
    exact nomatch ht
  have hold : t ≤ s.nextId := by
    refine Nat.le_of_not_lt fun hlt => ?_
    rw [(h.fresh t hlt).1] at ht
    exact nomatch ht
  constructor
  · exact h.kin
  · exact h.child
  · exact h.live
  · exact h.order
  · intro u hu
    have hut : u ≠ t := by
      intro he
      change s.inMap u = true at hu
      rw [he, hm] at hu
      exact nomatch hu
    exact (Function.update_of_ne hut _ _).trans (h.alive u hu)
  · intro u hu
    have hut : u ≠ t := fun he => Nat.not_le_of_lt hu (he ▸ hold)
    exact ⟨(Function.update_of_ne hut _ _).trans (h.fresh u hu).1, (h.fresh u hu).2⟩
  · exact (Function.update_of_ne (Nat.ne_of_lt hpos) _ _).trans h.zero
  · exact h.bare
  · intro u
    show Function.update s.count t (s.failed t : Int) u = ((if s.inMap u then 1 else 0) +
      (if s.parent u = none then 0 else 1) + s.areas u + s.failed u +
      (if Function.update s.thread t false u then 2 else 0) + (f u).length : Nat)
    by_cases hut : u = t
    · subst hut
      rw [Function.update_self, Function.update_self, hm, h.bare u hm, h.no_children hm, h.orphan hm]
      simp
    · rw [Function.update_of_ne hut, Function.update_of_ne hut]
      exact h.count u
  · exact hd
  · intro u
    rw [hfr u, h.freed u]
    show _ ↔ _ ∧ _ ∧ Function.update s.count t (s.failed t : Int) u = 0
    by_cases hut : u = t
    · subst hut
      rw [Function.update_self]
      constructor
      · rintro (hu | hu)
        · omega
        · exact ⟨hpos, hold, by omega⟩
      · exact fun hu => .inr ⟨rfl, by omega⟩
    · rw [Function.update_of_ne hut]
      exact or_iff_left fun hc => hut hc.1

/-- **thread_free**: the task is freed, when no area of it has failed -/
theorem held_threadFree (h : Held s f) (ht : s.thread t = true) (hm : s.inMap t = false) :
    Held (s.run (.threadFree t (n + 1))) f := by
  have hc := h.count t
  unfold TaskTree.holders at hc
  rw [hm, if_neg Bool.false_ne_true, if_pos (h.orphan hm), h.bare t hm, if_pos ht,
    h.no_children hm, List.length_nil] at hc
  have hc2 : s.count t = s.failed t + 2 := by omega
  have hnot : t ∉ s.freed := fun hin => by
    have := (h.freed t).mp hin
    omega
  have h1 := @taskPut_keep { s with thread := Function.update s.thread t false } t n
    (show s.count t ≠ 1 by omega)
  have hcount : Function.update s.count t (s.count t - 1) t = s.count t - 1 := Function.update_self ..
  show Held (TaskTree.taskPut (n + 1) t (TaskTree.taskPut (n + 1) t _)) f
  rw [h1]
  show Held (TaskTree.taskPut (n + 1) t { s with
    thread := Function.update s.thread t false
    count := Function.update s.count t (s.count t - 1) }) f
  by_cases hf : s.failed t = 0
  · have h2 := @taskPut_last { s with
        thread := Function.update s.thread t false
        count := Function.update s.count t (s.count t - 1) } t n (by
      show Function.update s.count t (s.count t - 1) t = 1
      omega) (h.orphan hm)
    have hr := h.release ht hm hc2 (show (t :: s.freed).Nodup from List.nodup_cons.mpr ⟨hnot, h.once⟩)
      (fun u => by
        rw [List.mem_cons, or_comm]
        exact or_congr_right (and_iff_left hf).symm)
    rw [hf] at hr
    rw [h2]
    show Held { s with
      thread := Function.update s.thread t false
      count := Function.update (Function.update s.count t (s.count t - 1)) t 0
      freed := t :: s.freed } f
    rw [Function.update_idem]
    exact hr
  · have h2 := @taskPut_keep { s with
        thread := Function.update s.thread t false
        count := Function.update s.count t (s.count t - 1) } t n (by
      show Function.update s.count t (s.count t - 1) t ≠ 1
      omega)
    have hr := h.release ht hm hc2 h.once (fun u => (or_iff_left fun hc => hf hc.2).symm)
    rw [h2]
    show Held { s with
      thread := Function.update s.thread t false
      count := Function.update (Function.update s.count t (s.count t - 1)) t
        (Function.update s.count t (s.count t - 1) t - 1) } f
    rw [Function.update_idem, hcount, show s.count t - 1 - 1 = s.failed t by omega]
    exact hr

/-! ## a new task, under the id `s.nextId + 1` that no task has yet -/

theorem Held.ne_new (h : Held s f) {p : Nat} (hm : s.inMap p = true) : p ≠ s.nextId + 1 := by
  have hle := h.le_nextId hm
  omega

/-- the parents once the new task has one, or none -/
theorem Held.born_parent (h : Held s f) (parent : Option Nat) (c q : Nat) :
    Function.update s.parent (s.nextId + 1) parent c = some q ↔
      s.parent c = some q ∨ (c = s.nextId + 1 ∧ parent = some q) := by
  by_cases hc : c = s.nextId + 1
  · rw [hc, Function.update_self, h.orphan (h.not_inMap (Nat.lt_succ_self s.nextId))]
    simp
  · rw [Function.update_of_ne hc]
    exact (or_iff_left fun hc' => hc hc'.1).symm

/-- who is in the map stays there -/
theorem Held.born_inMap (h : Held s f) {p : Nat} (hm : s.inMap p = true) :
    Function.update s.inMap (s.nextId + 1) true p = true := by
  rw [Function.update_of_ne (h.ne_new hm)]
  exact hm

section
variable {parent : Option Nat} {cnt : Nat → Int}

/-- a task that is not in the map has no children, the new one included -/
theorem Held.born_no_children (h : Held s f) (hp : ∀ p, parent = some p → s.inMap p = true)
    (hmem : ∀ q c, c ∈ f' q ↔ c ∈ f q ∨ (c = s.nextId + 1 ∧ parent = some q))
    (hm : s.inMap t = false) : f' t = [] := by
  refine List.eq_nil_iff_forall_not_mem.mpr fun c hc => ?_
  rcases (hmem t c).mp hc with hc | hc
  · rw [h.no_children hm] at hc
    exact List.not_mem_nil hc
  · rw [hp t hc.2] at hm
    exact nomatch hm

/-- the count of every task is the number of its holders, those of the new one included -/
theorem Held.born_count (h : Held s f) (hnil : f' (s.nextId + 1) = [])
    (hcnt : ∀ u, u ≠ s.nextId + 1 → cnt u - (f' u).length = s.count u - (f u).length)
    (hct : cnt (s.nextId + 1) = 3 + if parent = none then 0 else 1) (u : Nat) :
    cnt u = ((if Function.update s.inMap (s.nextId + 1) true u then 1 else 0) +
      (if Function.update s.parent (s.nextId + 1) parent u = none then 0 else 1) + s.areas u +
      s.failed u + (if Function.update s.thread (s.nextId + 1) true u then 2 else 0) +
      (f' u).length : Nat) := by
  by_cases hun : u = s.nextId + 1
  · rw [hun, Function.update_self, Function.update_self, Function.update_self, hct, hnil,
      h.bare _ (h.not_inMap (Nat.lt_succ_self _)), (h.fresh _ (Nat.lt_succ_self _)).2]
    split <;> simp
  · have hu := h.count u
    have hd := hcnt u hun
    unfold TaskTree.holders at hu
    rw [Function.update_of_ne hun, Function.update_of_ne hun, Function.update_of_ne hun]
    omega

/-- the freed tasks are still those given out whose count is 0 -/
theorem Held.born_freed (h : Held s f) (hsub : ∀ u, s.inMap u = false → f' u = [])
    (hcnt : ∀ u, u ≠ s.nextId + 1 → cnt u - (f' u).length = s.count u - (f u).length)
    (hct : cnt (s.nextId + 1) = 3 + if parent = none then 0 else 1) (u : Nat) :
    u ∈ s.freed ↔ 0 < u ∧ u ≤ s.nextId + 1 ∧ cnt u = 0 := by
  rw [h.freed u]
  by_cases hun : u = s.nextId + 1
  · subst hun
    refine iff_of_false (fun hc => Nat.not_succ_le_self _ hc.2.1) fun hc => ?_
    rw [hct] at hc
    split at hc <;> omega
  · have hz := h.zero_iff (hsub u) (hcnt u hun)
    apply and_congr_right
    intro _
    constructor
    · exact fun hu => ⟨Nat.le_succ_of_le hu.1, hz.mp hu.2⟩
    · exact fun hu => ⟨Nat.le_of_lt_succ (Nat.lt_of_le_of_ne hu.1 hun), hz.mpr hu.2⟩

/-- **a new task** -/
theorem Held.born (h : Held s f) {links : Links} {heads : Nat → QHead}
    (hp : ∀ p, parent = some p → s.inMap p = true) (hk : Family links heads f')
    (hmem : ∀ q c, c ∈ f' q ↔ c ∈ f q ∨ (c = s.nextId + 1 ∧ parent = some q))
    (hcnt : ∀ u, u ≠ s.nextId + 1 → cnt u - (f' u).length = s.count u - (f u).length)
    (hct : cnt (s.nextId + 1) = 3 + if parent = none then 0 else 1) :
    Held { s with
      nextId := s.nextId + 1
      parent := Function.update s.parent (s.nextId + 1) parent
      inMap := Function.update s.inMap (s.nextId + 1) true
      thread := Function.update s.thread (s.nextId + 1) true
      childLink := links
      childList := heads
      count := cnt } f' := by
  have hpar := h.born_parent parent
  have hsub : ∀ u, s.inMap u = false → f' u = [] := fun u => h.born_no_children hp hmem
  constructor
  · exact hk
  · intro q c
    rw [hmem, h.child q c]
    exact (hpar c q).symm
  · intro c q hc
    rcases (hpar c q).mp hc with hold | ⟨rfl, hq⟩
    · exact ⟨h.born_inMap (h.live c q hold).1, h.born_inMap (h.live c q hold).2⟩
    · exact ⟨Function.update_self .., h.born_inMap (hp q hq)⟩
  · intro c q hc
    rcases (hpar c q).mp hc with hold | ⟨rfl, hq⟩
    · exact h.order c q hold
    · exact Nat.lt_succ_of_le (h.le_nextId (hp q hq))
  · intro u hu
    show Function.update s.thread (s.nextId + 1) true u = true
    by_cases hun : u = s.nextId + 1
    · rw [hun, Function.update_self]
    · rw [Function.update_of_ne hun]
      exact h.alive u ((Function.update_of_ne hun _ _).symm.trans hu)
  · intro u hu
    have hun : u ≠ s.nextId + 1 := (Nat.ne_of_lt hu).symm
    have hlt : s.nextId < u := Nat.lt_of_succ_lt hu
    exact ⟨(Function.update_of_ne hun _ _).trans (h.fresh u hlt).1, (h.fresh u hlt).2⟩
  · show Function.update s.thread (s.nextId + 1) true 0 = false
    rw [Function.update_of_ne (Nat.succ_ne_zero _).symm]
    exact h.zero
  · intro u hu
    change Function.update s.inMap (s.nextId + 1) true u = false at hu
    by_cases hun : u = s.nextId + 1
    · rw [hun, Function.update_self] at hu
      exact nomatch hu
    · rw [Function.update_of_ne hun] at hu
      exact h.bare u hu
  · exact h.born_count (hsub _ (h.not_inMap (Nat.lt_succ_self _))) hcnt hct
  · exact h.once
  · exact h.born_freed hsub hcnt hct

end

theorem held_create (h : Held s f) {parent : Option Nat}
    (hp : ∀ p, parent = some p → s.inMap p = true) :
    ∃ f', Held (s.run (.create parent)) f' := by
  have hnew := h.not_inMap (Nat.lt_succ_self s.nextId)
  have hnot : ∀ q, s.nextId + 1 ∉ f q := by
    intro q hq
    rw [h.child, h.orphan hnew] at hq
    exact nomatch hq
  have hkin := (h.kin.relink hnot .null).clear (s.nextId + 1) (h.no_children hnew)
  show ∃ f', Held (s.create parent) f'
  unfold TaskTree.create TaskTree.taskInit
  dsimp only
  rw [hnew, if_neg Bool.false_ne_true]
  cases parent with
  | none =>
    refine ⟨f, h.born hp hkin ?_ ?_ ?_⟩
    · exact fun q c => (or_iff_left fun hc => nomatch hc.2).symm
    · intro u hu
      simp [TaskTree.taskGet, hu]
    · simp [TaskTree.taskGet]
  | some p =>
    have hpn : p ≠ s.nextId + 1 := by
      intro he
      have hm := hp p rfl
      rw [he, hnew] at hm
      exact nomatch hm
    refine ⟨_, h.born hp (hkin.insertTail p hnot) ?_ ?_ ?_⟩
    · intro q c
      by_cases hq : q = p
      · rw [hq, Function.update_self, List.mem_append, List.mem_singleton]
        exact or_congr_right (and_iff_left rfl).symm
      · rw [Function.update_of_ne hq]
        exact (or_iff_left fun hc => hq (Option.some.inj hc.2).symm).symm
    · intro u hu
      by_cases hup : u = p
      · subst hup
        have hlen : (Function.update f u (f u ++ [s.nextId + 1]) u).length = (f u).length + 1 := by
          rw [Function.update_self, List.length_append]
          rfl
        rw [hlen]
        simp only [TaskTree.taskGet, TaskTree.childInsertTail, Function.update_of_ne hu,
          Function.update_self]
        omega
      · simp [TaskTree.taskGet, TaskTree.childInsertTail, hu, hup]
    · simp [TaskTree.taskGet, TaskTree.childInsertTail, Ne.symm hpn]

/-! ## whole runs -/

theorem held_bare : Held TaskTree.bare fun _ => [] where
  kin := Family.none _ _ fun _ => rfl
  child _ _ := iff_of_false List.not_mem_nil nofun
  live _ _ hp := nomatch hp
  order _ _ hp := nomatch hp
  alive _ hm := nomatch hm
  fresh _ _ := ⟨rfl, rfl⟩
  zero := rfl
  bare _ _ := rfl
  count _ := rfl
  once := List.nodup_nil
  freed t := iff_of_false List.not_mem_nil fun hc => absurd hc.2.1 (Nat.not_le_of_lt hc.1)

/-- **one operation** -/
theorem Held.step (h : Held s f) (op : TaskOp) (hok : op.Orderly s) : ∃ f', Held (s.run op) f' := by
  cases op with
  | create parent =>
    apply held_create h
    intro p hp
    rw [hp] at hok
    exact hok
  | newArea t => exact ⟨f, held_newArea h hok⟩
  | areaFails t => exact ⟨f, held_areaFails h hok⟩
  | freeArea t n =>
    obtain ⟨hm, ha, hn⟩ := hok
    cases n with
    | zero => exact absurd hn (Nat.lt_irrefl 0)
    | succ n => exact ⟨f, held_freeArea h hm ha⟩
  | reap t n =>
    obtain ⟨hm, hc, hn⟩ := hok
    rw [(h.kin.list t).first, List.head?_eq_none_iff] at hc
    cases n with
    | zero => exact absurd hn (Nat.lt_irrefl 0)
    | succ n => exact held_reap h hm hc
  | threadFree t n =>
    obtain ⟨ht, hm, hn⟩ := hok
    cases n with
    | zero => exact absurd hn (Nat.lt_irrefl 0)
    | succ n => exact ⟨f, held_threadFree h ht hm⟩

theorem held_of_run {ops : List TaskOp}
    (hrun : Steps (fun s op s' => op.Orderly s ∧ s' = s.run op) TaskTree.bare ops s) :
    ∃ f, Held s f := by
  refine hrun.invariant_of (P := fun s => ∃ f, Held s f) (fun s op s' hP hok hs => ?_) ⟨_, held_bare⟩
  obtain ⟨f, h⟩ := hP
  rw [hs]
  exact h.step op hok

/-- **no task is freed twice, or while it is held**: in every run in which the tasks that are reaped have
no children left, the counts are those of the holders, and the tasks that are freed are those that have
left the map, whose thread is freed and no area of which has failed -/
theorem task_refs_exact {ops : List TaskOp}
    (hrun : Steps (fun s op s' => op.Orderly s ∧ s' = s.run op) TaskTree.bare ops s) :
    s.freed.Nodup ∧
      (∀ t, t ∈ s.freed ↔ 0 < t ∧ t ≤ s.nextId ∧ s.inMap t = false ∧ s.thread t = false ∧
        s.failed t = 0) ∧
      ∃ f, Family s.childLink s.childList f ∧ (∀ p c, c ∈ f p ↔ s.parent c = some p) ∧
        ∀ t, s.count t = (s.holders t + (f t).length : Nat) := by
  obtain ⟨f, h⟩ := held_of_run hrun
  refine ⟨h.once, fun t => ?_, f, h.kin, h.child, h.count⟩
  rw [h.freed t, h.count t, Int.natCast_eq_zero]
  apply and_congr_right
  intro _
  apply and_congr_right
  intro _
  unfold TaskTree.holders
  cases hm : s.inMap t with
  | true => simp
  | false =>
    rw [h.bare t hm, h.no_children hm, h.orphan hm]
    cases s.thread t <;> simp

/-- task 1 forks 2, which is reaped; its thread is freed then, and the task with it -/
def taskRuns : List TaskOp := [.create none, .create (some 1), .newArea 2, .reap 2 9, .threadFree 2 9]

theorem task_refs_exact_child : (taskRuns.foldl TaskTree.run TaskTree.bare).freed = [2] ∧
    (taskRuns.foldl TaskTree.run TaskTree.bare).freed.Nodup := by
  have h0 : (TaskOp.create none).Orderly TaskTree.bare := trivial
  have h1 : (TaskOp.create (some 1)).Orderly (TaskTree.bare.run (.create none)) :=
    (by decide : (TaskTree.bare.run (.create none)).inMap 1 = true)
  have h2 : (TaskOp.newArea 2).Orderly ((TaskTree.bare.run (.create none)).run (.create (some 1))) :=
    (by decide : ((TaskTree.bare.run (.create none)).run (.create (some 1))).inMap 2 = true)
  have h3 : (TaskOp.reap 2 9).Orderly
      (((TaskTree.bare.run (.create none)).run (.create (some 1))).run (.newArea 2)) :=
    ⟨by decide, by decide, by decide⟩
  have h4 : (TaskOp.threadFree 2 9).Orderly
      ((((TaskTree.bare.run (.create none)).run (.create (some 1))).run (.newArea 2)).run (.reap 2 9)) :=
    ⟨by decide, by decide, by decide⟩
  refine ⟨by decide, (task_refs_exact (((((Steps.single ⟨h0, rfl⟩).snoc ⟨h1, rfl⟩).snoc
    ⟨h2, rfl⟩).snoc ⟨h3, rfl⟩).snoc ⟨h4, rfl⟩)).1⟩

/-! ## a task that is reaped before its children -/

/-- a task whose parent was reaped before it is put once more than it was taken -/
theorem taskReap_orphan (ht : s.parent t = none) (hc : s.parent c = some t) (hct : c ≠ t)
    (hfirst : (s.childList c).first = none) (hcount : s.count c = s.areas c + s.failed c + 3) :
    (s.taskReap (n + 1) c).count c = s.failed c + 1 ∧ (s.taskReap (n + 1) c).parent c = none ∧
      (s.taskReap (n + 1) c).holders c = s.failed c + (if s.thread c then 2 else 0) := by
  obtain ⟨cnt₀, h0, ht0, -⟩ := @taskPut_keep_count { s with
    inMap := Function.update s.inMap c false } c n (show s.count c ≠ 1 by omega)
  change cnt₀ c = s.count c - 1 at ht0
  obtain ⟨cnt₁, h1, ht1, -⟩ := @taskPut_keep_count
    (({ s with inMap := Function.update s.inMap c false, count := cnt₀ } : TaskTree).childRemove t c) c n
    (show cnt₀ c ≠ 1 by omega)
  change cnt₁ c = cnt₀ c - 1 at ht1
  -- the parent has no parent since it was reaped
  obtain ⟨fr, h2⟩ := @taskPut_none
    (({ s with inMap := Function.update s.inMap c false, count := cnt₁ } : TaskTree).childRemove t c) t n ht
  have hputs : TaskTree.taskPut (n + 1) t (TaskTree.taskPut (n + 1) c (({ s with
        inMap := Function.update s.inMap c false
        count := cnt₀ } : TaskTree).childRemove t c)) =
      { ({ s with inMap := Function.update s.inMap c false } : TaskTree).childRemove t c with
        count := Function.update cnt₁ t (cnt₁ t - 1)
        freed := fr } := by
    rw [h1]
    exact h2
  have hcc : Function.update cnt₁ t (cnt₁ t - 1) c = cnt₁ c := Function.update_of_ne hct _ _
  have hlist : (Function.update s.childList t (DList.remove s.childLink (s.childList t) c).2 c).first =
      none := by
    rw [Function.update_of_ne hct]
    exact hfirst
  have hdel := @taskDeleteAreas_eq c n (s.areas c)
    { ({ s with inMap := Function.update s.inMap c false } : TaskTree).childRemove t c with
      parent := Function.update s.parent c none
      count := Function.update cnt₁ t (cnt₁ t - 1)
      freed := fr } rfl (show (s.areas c + 1 : Int) ≤ Function.update cnt₁ t _ c by omega)
  have hrun : s.taskReap (n + 1) c =
      { ({ s with inMap := Function.update s.inMap c false } : TaskTree).childRemove t c with
        parent := Function.update s.parent c none
        areas := Function.update s.areas c 0
        count := Function.update (Function.update cnt₁ t (cnt₁ t - 1)) c
          (Function.update cnt₁ t (cnt₁ t - 1) c - s.areas c)
        freed := fr } := by
    unfold TaskTree.taskReap
    dsimp only
    rw [h0]
    unfold TaskTree.leaveParent
    dsimp only
    rw [hc]
    dsimp only
    rw [hputs]
    show TaskTree.taskDeleteAreas (n + 1) c
      ((TaskTree.releaseLoop c (n + 1) (Function.update s.childList t _ c).first _).areas c)
      (TaskTree.releaseLoop c (n + 1) (Function.update s.childList t _ c).first _) = _
    rw [hlist]
    exact hdel
  rw [hrun]
  refine ⟨?_, ?_, ?_⟩
  · show Function.update (Function.update cnt₁ t _) c (Function.update cnt₁ t _ c - s.areas c) c = _
    rw [Function.update_self, hcc]
    omega
  · exact Function.update_self ..
  · show (if Function.update s.inMap c false c then 1 else 0) +
      (if Function.update s.parent c none c = none then 0 else 1) + Function.update s.areas c 0 c +
      s.failed c + (if s.thread c then 2 else 0) = _
    rw [Function.update_self, Function.update_self, Function.update_self]
    simp

/-- the child `c` is alive, has no children, and its parent `t` is reaped: its count is one less than
its holders -/
structure Orphaned (s : TaskTree) (t c : Nat) : Prop where
  parent : s.parent c = some t
  gone : s.parent t = none
  childless : (s.childList c).first = none
  noHeir : ∀ u, s.parent u ≠ some c
  irrefl : ∀ u, s.parent u ≠ some u
  inMap : s.inMap c = true
  thread : s.thread c = true
  known : c ≤ s.nextId ∧ t ≤ s.nextId
  count : s.count c = s.areas c + s.failed c + 3

/-- the operation is not the end of the task, and not a fork by it -/
def TaskOp.Leaves (c : Nat) : TaskOp → Prop
  | .create (some p) => p ≠ c
  | .reap u _ => u ≠ c
  | _ => True

/-- the puts that follow from one reach no task that has no children -/
theorem taskPut_frame : ∀ (n : Nat) {u : Nat} {s : TaskTree}, u ≠ c → (∀ v, s.parent v ≠ some c) →
    ∃ cnt fr, TaskTree.taskPut n u s = { s with count := cnt, freed := fr } ∧ cnt c = s.count c := by
  intro n
  induction n with
  | zero => exact fun _ _ => ⟨_, _, rfl, rfl⟩
  | succ n ih =>
    intro u s hu hno
    by_cases h1 : s.count u = 1
    · cases hp : s.parent u with
      | none =>
        exact ⟨_, _, taskPut_last h1 hp, Function.update_of_ne hu.symm _ _⟩
      | some p =>
        have hpc : p ≠ c := fun he => hno u (by rw [hp, he])
        obtain ⟨cnt, he, hcnt⟩ := taskPut_free (n := n) h1 hp
        obtain ⟨cnt', fr', he', hcnt'⟩ := @ih p { s with count := cnt, freed := u :: s.freed } hpc hno
        exact ⟨cnt', fr', he.trans he', hcnt'.trans (hcnt c hu.symm)⟩
    · exact ⟨_, _, taskPut_keep h1, Function.update_of_ne hu.symm _ _⟩

namespace Orphaned
variable {t c u : Nat}

theorem put (h : Orphaned s t c) (n : Nat) (hu : u ≠ c) : Orphaned (TaskTree.taskPut n u s) t c := by
  obtain ⟨cnt, fr, he, hcnt⟩ := taskPut_frame n hu h.noHeir
  rw [he]
  exact { h with count := hcnt.trans h.count }

theorem setAreas (h : Orphaned s t c) (hu : u ≠ c) (k : Nat) :
    Orphaned { s with areas := Function.update s.areas u k } t c := by
  refine { h with count := ?_ }
  show s.count c = Function.update s.areas u k c + s.failed c + 3
  rw [Function.update_of_ne hu.symm]
  exact h.count

theorem deleteAreas (h : Orphaned s t c) (n : Nat) (hu : u ≠ c) (k : Nat) :
    Orphaned (TaskTree.taskDeleteAreas n u k s) t c := by
  induction k generalizing s with
  | zero => exact h
  | succ k ih => exact ih ((h.setAreas hu k).put n hu)

theorem leaveParent (h : Orphaned s t c) (n : Nat) (hu : u ≠ c) :
    Orphaned (s.leaveParent n u) t c ∧ (s.leaveParent n u).childList u = s.childList u := by
  unfold TaskTree.leaveParent
  cases hp : s.parent u with
  | none => exact ⟨h, rfl⟩
  | some p =>
    have hpc : p ≠ c := fun he => h.noHeir u (by rw [hp, he])
    have hpu : p ≠ u := fun he => h.irrefl u (by rw [hp, he])
    have h1 : Orphaned (s.childRemove p u) t c :=
      { h with childless := (congrArg Head.first (Function.update_of_ne hpc.symm _ _)).trans h.childless }
    obtain ⟨cnt, fr, he, hcnt⟩ := taskPut_frame n hu h1.noHeir
    obtain ⟨cnt', fr', he', hcnt'⟩ := @taskPut_frame c n p
      { s.childRemove p u with count := cnt, freed := fr } hpc h1.noHeir
    dsimp only
    rw [he, he']
    refine ⟨?_, Function.update_of_ne hpu.symm _ _⟩
    have hpar : ∀ v q, Function.update s.parent u none v = some q → s.parent v = some q := by
      intro v q hv
      by_cases hvu : v = u
      · rw [hvu, Function.update_self] at hv
        exact nomatch hv
      · rwa [Function.update_of_ne hvu] at hv
    exact
      { h1 with
        parent := (Function.update_of_ne hu.symm _ _).trans h.parent
        gone := by
          show Function.update s.parent u none t = none
          by_cases htu : t = u
          · rw [htu, Function.update_self]
          · rw [Function.update_of_ne htu]
            exact h.gone
        noHeir := fun v hv => h.noHeir v (hpar v c hv)
        irrefl := fun v hv => h.irrefl v (hpar v v hv)
        count := (hcnt'.trans hcnt).trans h1.count }

/-- a task without children is reaped -/
theorem reap (h : Orphaned s t c) (n : Nat) (hu : u ≠ c) (hfirst : (s.childList u).first = none) :
    Orphaned (s.taskReap n u) t c := by
  have h1 : Orphaned { s with inMap := Function.update s.inMap u false } t c :=
    { h with inMap := (Function.update_of_ne hu.symm _ _).trans h.inMap }
  obtain ⟨cnt, fr, he, hcnt⟩ := taskPut_frame n hu h1.noHeir
  have h2 := h1.put n hu
  obtain ⟨h3, hlist⟩ := h2.leaveParent n hu
  unfold TaskTree.taskReap
  dsimp only
  have hnone : (((TaskTree.taskPut n u { s with
      inMap := Function.update s.inMap u false }).leaveParent n u).childList u).first = none := by
    rw [hlist, he]
    exact hfirst
  rw [hnone]
  have hloop : ∀ x : TaskTree, TaskTree.releaseLoop u n none x = x := fun x => by cases n <;> rfl
  rw [hloop]
  exact h3.deleteAreas n hu _

/-- another task is made, that is no child of `c` -/
theorem create (h : Orphaned s t c) {parent : Option Nat}
    (hp : ∀ p, parent = some p → s.inMap p = true ∧ p ≠ c) : Orphaned (s.create parent) t c := by
  unfold TaskTree.create
  dsimp only
  split
  · exact h
  rename_i hnew
  obtain ⟨hc, ht⟩ := h.known
  have hcn : c ≠ s.nextId + 1 := by omega
  have htn : t ≠ s.nextId + 1 := by omega
  have hpar : ∀ v q, Function.update s.parent (s.nextId + 1) parent v = some q →
      s.parent v = some q ∨ v = s.nextId + 1 ∧ parent = some q := by
    intro v q hv
    by_cases hvn : v = s.nextId + 1
    · rw [hvn, Function.update_self] at hv
      exact .inr ⟨hvn, hv⟩
    · rw [Function.update_of_ne hvn] at hv
      exact .inl hv
  have hirrefl : ∀ v, Function.update s.parent (s.nextId + 1) parent v ≠ some v := by
    intro v hv
    rcases hpar v v hv with hv | ⟨hvn, hv⟩
    · exact h.irrefl v hv
    · have hin := (hp v hv).1
      rw [hvn] at hin
      exact hnew hin
  have hheir : ∀ v, Function.update s.parent (s.nextId + 1) parent v ≠ some c := by
    intro v hv
    rcases hpar v c hv with hv | ⟨-, hv⟩
    · exact h.noHeir v hv
    · exact (hp c hv).2 rfl
  cases parent with
  | none =>
    exact
      { parent := by simpa [TaskTree.taskInit, TaskTree.taskGet, hcn] using h.parent
        gone := by simpa [TaskTree.taskInit, TaskTree.taskGet, htn] using h.gone
        childless := by simpa [TaskTree.taskInit, TaskTree.taskGet, hcn] using h.childless
        noHeir := hheir
        irrefl := hirrefl
        inMap := by simpa [TaskTree.taskInit, TaskTree.taskGet, hcn] using h.inMap
        thread := by simpa [TaskTree.taskInit, TaskTree.taskGet, hcn] using h.thread
        known := ⟨Nat.le_succ_of_le hc, Nat.le_succ_of_le ht⟩
        count := by simpa [TaskTree.taskInit, TaskTree.taskGet, hcn] using h.count }
  | some p =>
    have hpc := (hp p rfl).2.symm
    exact
      { parent := by
          simpa [TaskTree.taskInit, TaskTree.taskGet, TaskTree.childInsertTail, hcn] using h.parent
        gone := by
          simpa [TaskTree.taskInit, TaskTree.taskGet, TaskTree.childInsertTail, htn] using h.gone
        childless := by
          simpa [TaskTree.taskInit, TaskTree.taskGet, TaskTree.childInsertTail, hcn, hpc] using h.childless
        noHeir := hheir
        irrefl := hirrefl
        inMap := by
          simpa [TaskTree.taskInit, TaskTree.taskGet, TaskTree.childInsertTail, hcn] using h.inMap
        thread := by
          simpa [TaskTree.taskInit, TaskTree.taskGet, TaskTree.childInsertTail, hcn] using h.thread
        known := ⟨Nat.le_succ_of_le hc, Nat.le_succ_of_le ht⟩
        count := by
          simpa [TaskTree.taskInit, TaskTree.taskGet, TaskTree.childInsertTail, hcn, hpc] using h.count }

/-- **one step** of the rest keeps it -/
theorem step (h : Orphaned s t c) (op : TaskOp) (hok : op.Orderly s) (hl : op.Leaves c) :
    Orphaned (s.run op) t c := by
  cases op with
  | create parent =>
    refine h.create fun p hp => ?_
    subst hp
    exact ⟨hok, hl⟩
  | newArea u =>
    by_cases hu : u = c
    · subst hu
      refine { h with count := ?_ }
      show Function.update s.count u _ u = (Function.update s.areas u _ u : Nat) + s.failed u + 3
      rw [Function.update_self, Function.update_self, h.count]
      omega
    · exact { (h.setAreas hu (s.areas u + 1)) with
        count := (Function.update_of_ne (Ne.symm hu) _ _).trans (h.setAreas hu _).count }
  | areaFails u =>
    refine { h with count := ?_ }
    show Function.update s.count u _ c = s.areas c + (Function.update s.failed u _ c : Nat) + 3
    by_cases hu : u = c
    · subst hu
      rw [Function.update_self, Function.update_self, h.count]
      omega
    · rw [Function.update_of_ne (Ne.symm hu), Function.update_of_ne (Ne.symm hu)]
      exact h.count
  | freeArea u n =>
    obtain ⟨-, hpos, hn⟩ := hok
    by_cases hu : u = c
    · subst hu
      obtain ⟨n, rfl⟩ : ∃ m, n = m + 1 := ⟨n - 1, by omega⟩
      have hcount := h.count
      have hkeep : ({ s with areas := Function.update s.areas u (s.areas u - 1) } : TaskTree).count u ≠
          1 := by
        show s.count u ≠ 1
        omega
      show Orphaned (TaskTree.taskPut (n + 1) u _) t u
      rw [taskPut_keep hkeep]
      refine { h with count := ?_ }
      show Function.update s.count u (s.count u - 1) u =
        (Function.update s.areas u _ u : Nat) + s.failed u + 3
      rw [Function.update_self, Function.update_self]
      omega
    · exact (h.setAreas hu _).put n hu
  | reap u n => exact h.reap n hl hok.2.1
  | threadFree u n =>
    have hu : u ≠ c := by
      intro he
      have hout := hok.2.1
      rw [he, h.inMap] at hout
      exact nomatch hout
    have h1 : Orphaned { s with thread := Function.update s.thread u false } t c :=
      { h with thread := (Function.update_of_ne hu.symm _ _).trans h.thread }
    exact (h1.put n hu).put n hu

end Orphaned

/-- a task is reaped while a child of it is alive -/
theorem Held.orphaned (h : Held s f) (ht : s.inMap t = true) {c : Nat} (hc : s.parent c = some t)
    (hfirst : (s.childList c).first = none) (hn : s.nextId + 1 < n) :
    Orphaned (s.run (.reap t n)) t c := by
  obtain ⟨n, rfl⟩ : ∃ m, n = m + 1 := ⟨n - 1, by omega⟩
  have hin : c ∈ f t := (h.child t c).mpr hc
  have hlt := h.order c t hc
  have hct : c ≠ t := (Nat.ne_of_lt hlt).symm
  have hm := (h.live c t hc).1
  have hnil : f c = [] := by
    rw [(h.kin.list c).first, List.head?_eq_none_iff] at hfirst
    exact hfirst
  have hcc := h.count c
  unfold TaskTree.holders at hcc
  rw [if_pos hm, if_pos (h.alive c hm), if_neg (by rw [hc]; exact nofun), hnil, List.length_nil] at hcc
  obtain ⟨links, heads, f', cnt, he, -, hmem, hcnt, -, hheads⟩ :=
    taskReap_eq (n := n) h ht (Nat.lt_of_le_of_lt h.length_le hn)
  have hnil' : f' c = [] := by
    refine List.eq_nil_iff_forall_not_mem.mpr fun d hd => ?_
    rw [hmem, hnil] at hd
    exact List.not_mem_nil hd.1
  have hd := hcnt c hct
  rw [hnil, hnil', if_pos hin, List.length_nil] at hd
  have hpar : s.parent t ≠ some c := fun hp => Nat.lt_asymm hlt (h.order t c hp)
  have hback : ∀ v q, Function.update s.parent t none v = some q → s.parent v = some q := by
    intro v q hv
    by_cases hvt : v = t
    · rw [hvt, Function.update_self] at hv
      exact nomatch hv
    · rwa [Function.update_of_ne hvt] at hv
  show Orphaned (s.taskReap (n + 1) t) t c
  rw [he]
  exact
    { parent := (Function.update_of_ne hct _ _).trans hc
      gone := Function.update_self ..
      childless := by
        show (heads c).first = none
        rw [hheads c hct hpar]
        exact hfirst
      noHeir := fun v hv => by
        have hv' := (h.child c v).mpr (hback v c hv)
        rw [hnil] at hv'
        exact List.not_mem_nil hv'
      irrefl := fun v hv => Nat.lt_irrefl v (h.order v v (hback v v hv))
      inMap := (Function.update_of_ne hct _ _).trans hm
      thread := h.alive c hm
      known := ⟨h.le_nextId hm, h.le_nextId ht⟩
      count := by
        show cnt c = Function.update s.areas t 0 c + s.failed c + 3
        rw [Function.update_of_ne hct]
        omega }

/-- **a task that is reaped before its child**: when the child is reaped, however much later, it is put
once more than it was taken -/
theorem orphan_put_twice {ops ops' : List TaskOp} {m : Nat}
    (hrun : Steps (fun s op s' => op.Orderly s ∧ s' = s.run op) TaskTree.bare ops s)
    (ht : s.inMap t = true) (hc : s.parent c = some t) (hfirst : (s.childList c).first = none)
    (hn : s.nextId + 1 < n) (hlater : Steps (fun s op s' => op.Orderly s ∧ op.Leaves c ∧ s' = s.run op)
      (s.run (.reap t n)) ops' s') (hm : 0 < m) :
    (s'.run (.reap c m)).count c + 1 = ((s'.run (.reap c m)).holders c : Int) := by
  obtain ⟨f, h⟩ := held_of_run hrun
  obtain ⟨m, rfl⟩ : ∃ k, m = k + 1 := ⟨m - 1, by omega⟩
  have hct : c ≠ t := (Nat.ne_of_lt (h.order c t hc)).symm
  have ho : Orphaned s' t c := by
    refine hlater.invariant (P := fun s => Orphaned s t c) (fun x op y hx hs => ?_)
      (h.orphaned ht hc hfirst hn)
    obtain ⟨hok, hl, rfl⟩ := hs
    exact hx.step op hok hl
  obtain ⟨h1, -, h3⟩ := taskReap_orphan (n := m) ho.gone ho.parent hct ho.childless ho.count
  show (s'.taskReap (m + 1) c).count c + 1 = ((s'.taskReap (m + 1) c).holders c : Int)
  rw [h1, h3, if_pos ho.thread]
  omega

/-- task 1 forks 2 and is reaped, its thread is freed, and 2 gets an area before it is reaped -/
def orphanRuns : List TaskOp :=
  [.create none, .create (some 1), .reap 1 9, .threadFree 1 9, .newArea 2]

theorem orphan_put_twice_child :
    ((orphanRuns.foldl TaskTree.run TaskTree.bare).run (.reap 2 9)).count 2 + 1 =
      (((orphanRuns.foldl TaskTree.run TaskTree.bare).run (.reap 2 9)).holders 2 : Int) := by
  have h0 : (TaskOp.create none).Orderly TaskTree.bare := trivial
  have h1 : (TaskOp.create (some 1)).Orderly (TaskTree.bare.run (.create none)) :=
    (by decide : (TaskTree.bare.run (.create none)).inMap 1 = true)
  have h2 : (TaskOp.threadFree 1 9).Orderly
      (((TaskTree.bare.run (.create none)).run (.create (some 1))).run (.reap 1 9)) :=
    ⟨by decide, by decide, by decide⟩
  have h3 : (TaskOp.newArea 2).Orderly ((((TaskTree.bare.run (.create none)).run
      (.create (some 1))).run (.reap 1 9)).run (.threadFree 1 9)) :=
    (by decide : ((((TaskTree.bare.run (.create none)).run (.create (some 1))).run (.reap 1 9)).run
      (.threadFree 1 9)).inMap 2 = true)
  exact orphan_put_twice (t := 1) (n := 9) ((Steps.single ⟨h0, rfl⟩).snoc ⟨h1, rfl⟩) (by decide)
    (by decide) (by decide) (by decide)
    ((Steps.single ⟨h2, trivial, rfl⟩).snoc ⟨h3, trivial, rfl⟩) (by decide)

/-! ## a task that gets no page directory -/

/-- the parent is put by `task_free` and by `task_reap` -/
theorem taskReap_new (hp : s.parent t = some p) (hpt : p ≠ t) (hc : s.count t = 2)
    (hcp : 3 ≤ s.count p) (hfirst : (s.childList t).first = none) (ha : s.areas t = 0) :
    (s.taskReap (n + 2) t).freed = t :: s.freed ∧ (s.taskReap (n + 2) t).count p = s.count p - 2 ∧
      (s.taskReap (n + 2) t).parent t = none := by
  obtain ⟨cnt₁, h1, ht1, hu1⟩ := @taskPut_keep_count { s with
    inMap := Function.update s.inMap t false } t (n + 1) (show s.count t ≠ 1 by omega)
  change cnt₁ t = s.count t - 1 at ht1
  change ∀ u, u ≠ t → cnt₁ u = s.count u at hu1
  obtain ⟨cnt₂, h2, hu2⟩ := @taskPut_free (({ s with
    inMap := Function.update s.inMap t false
    count := cnt₁ } : TaskTree).childRemove p t) t p (n + 1) (show cnt₁ t = 1 by omega) hp
  change ∀ u, u ≠ t → cnt₂ u = cnt₁ u at hu2
  have hp2 : cnt₂ p = s.count p := (hu2 p hpt).trans (hu1 p hpt)
  obtain ⟨cnt₃, h3, ht3, hu3⟩ := @taskPut_keep_count
    { ({ s with inMap := Function.update s.inMap t false, count := cnt₁ } : TaskTree).childRemove p t with
      count := cnt₂
      freed := t :: s.freed } p n (show cnt₂ p ≠ 1 by omega)
  change cnt₃ p = cnt₂ p - 1 at ht3
  obtain ⟨cnt₄, h4, ht4, hu4⟩ := @taskPut_keep_count
    { ({ s with inMap := Function.update s.inMap t false, count := cnt₁ } : TaskTree).childRemove p t with
      count := cnt₃
      freed := t :: s.freed } p (n + 1) (show cnt₃ p ≠ 1 by omega)
  change cnt₄ p = cnt₃ p - 1 at ht4
  have hlist : (Function.update s.childList p (DList.remove s.childLink (s.childList p) t).2 t).first =
      none := by
    rw [Function.update_of_ne hpt.symm]
    exact hfirst
  have hputs : TaskTree.taskPut (n + 2) p (TaskTree.taskPut (n + 2) t (({ s with
        inMap := Function.update s.inMap t false
        count := cnt₁ } : TaskTree).childRemove p t)) =
      { ({ s with inMap := Function.update s.inMap t false, count := cnt₁ } : TaskTree).childRemove p t with
        count := cnt₄
        freed := t :: s.freed } := by
    rw [h2]
    show TaskTree.taskPut (n + 2) p (TaskTree.taskPut (n + 1) p
      { ({ s with inMap := Function.update s.inMap t false, count := cnt₁ } : TaskTree).childRemove p t with
        count := cnt₂
        freed := t :: s.freed }) = _
    rw [h3]
    exact h4
  have hrun : s.taskReap (n + 2) t =
      { ({ s with inMap := Function.update s.inMap t false, count := cnt₁ } : TaskTree).childRemove p t with
        parent := Function.update s.parent t none
        count := cnt₄
        freed := t :: s.freed } := by
    unfold TaskTree.taskReap
    dsimp only
    rw [h1]
    unfold TaskTree.leaveParent
    dsimp only
    rw [hp]
    dsimp only
    rw [hputs]
    show TaskTree.taskDeleteAreas (n + 2) t
      ((TaskTree.releaseLoop t (n + 2) (Function.update s.childList p _ t).first _).areas t)
      (TaskTree.releaseLoop t (n + 2) (Function.update s.childList p _ t).first _) = _
    rw [hlist]
    show TaskTree.taskDeleteAreas (n + 2) t (s.areas t) _ = _
    rw [ha]
    rfl
  rw [hrun]
  refine ⟨rfl, ?_, Function.update_self ..⟩
  show cnt₄ p = _
  omega

/-- **a task that gets no page directory is freed twice**, and its parent is put once more than it was
taken -/
theorem create_fails_frees_twice {ops : List TaskOp}
    (hrun : Steps (fun s op s' => op.Orderly s ∧ s' = s.run op) TaskTree.bare ops s)
    (hm : s.inMap p = true) (hn : 2 ≤ n) :
    (s.createFails n (some p)).freed = (s.nextId + 1) :: (s.nextId + 1) :: s.freed ∧
      (s.createFails n (some p)).count p = s.count p - 1 := by
  obtain ⟨f, h⟩ := held_of_run hrun
  obtain ⟨n, rfl⟩ : ∃ m, n = m + 2 := ⟨n - 2, by omega⟩
  have hnew := h.not_inMap (Nat.lt_succ_self s.nextId)
  have hpn : p ≠ s.nextId + 1 := by
    intro he
    rw [he, hnew] at hm
    exact nomatch hm
  have h3 := h.three_le hm
  have hcp : (s.taskInit (some p)).count p = s.count p + 1 := by
    simp [TaskTree.taskInit, TaskTree.taskGet, TaskTree.childInsertTail, hpn]
  have hct : (s.taskInit (some p)).count (s.nextId + 1) = 2 := by
    simp [TaskTree.taskInit, TaskTree.taskGet, TaskTree.childInsertTail, hpn.symm]
  have hlist : ((s.taskInit (some p)).childList (s.nextId + 1)).first = none := by
    show (Function.update (Function.update s.childList (s.nextId + 1) .empty) p _ (s.nextId + 1)).first = _
    rw [Function.update_of_ne hpn.symm, Function.update_self]
    rfl
  obtain ⟨h1, h2, h4⟩ := @taskReap_new (s.taskInit (some p)) (s.nextId + 1) p n
    (Function.update_self ..) hpn hct (by omega) hlist (h.bare _ hnew)
  have hfails : s.createFails (n + 2) (some p) =
      ((s.taskInit (some p)).taskReap (n + 2) (s.nextId + 1)).taskFree (n + 2) (s.nextId + 1) := by
    unfold TaskTree.createFails
    dsimp only
    rw [hnew]
    rfl
  have hfree : ((s.taskInit (some p)).taskReap (n + 2) (s.nextId + 1)).taskFree (n + 2) (s.nextId + 1) =
      { (s.taskInit (some p)).taskReap (n + 2) (s.nextId + 1) with
        freed := (s.nextId + 1) :: ((s.taskInit (some p)).taskReap (n + 2) (s.nextId + 1)).freed } := by
    unfold TaskTree.taskFree
    dsimp only
    rw [h4]
  rw [hfails, hfree]
  constructor
  · show _ :: ((s.taskInit (some p)).taskReap (n + 2) (s.nextId + 1)).freed = _
    rw [h1]
    rfl
  · show ((s.taskInit (some p)).taskReap (n + 2) (s.nextId + 1)).count p = _
    omega

/-- task 1 forks, and there is no page directory for 2 -/
theorem create_fails_frees_twice_child :
    ((TaskTree.bare.run (.create none)).createFails 9 (some 1)).freed = [2, 2] := by
  have h0 : (TaskOp.create none).Orderly TaskTree.bare := trivial
  exact (create_fails_frees_twice (p := 1) (n := 9) (Steps.single ⟨h0, rfl⟩) (by decide) (by decide)).1

end

end Paravirt

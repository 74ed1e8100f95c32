import Paravirt.Runflag
import Paravirt.Kill
import Paravirt.Lib.DFamily

/-!
# The queues of the scheduler

* `Placed s rq f k`    the run queue spells `rq`, the lists threads wait on spell `f`, the lists of
                       children spell `k`, and the state of a thread says on which of them it is;
* `Placed.yield`, `Placed.wakeup`, `Placed.block`, `Placed.vanish`, `Placed.fork`, …   each primitive
                       keeps it.
-/

set_option linter.unusedSectionVars false
set_option linter.unusedVariables false

namespace Paravirt
open DList

/-- the lists that `child_link` links -/
inductive Kin where
  | child (p : Nat)
  | zombie (p : Nat)
  deriving DecidableEq

theorem Kin.child_ne_zombie (p q : Nat) : Kin.child p ≠ .zombie q := nofun

namespace SchedState

def kinHead (s : SchedState) : Kin → QHead
  | .child p => s.childList p
  | .zombie p => s.zombieList p

variable {s : SchedState}

theorem kinHead_child (s : SchedState) (links : Links) (p : Nat) (h : QHead) :
    ({ s with childLink := links, childList := Function.update s.childList p h } : SchedState).kinHead =
      Function.update s.kinHead (.child p) h := by
  funext i
  cases i with
  | zombie q => rfl
  | child q =>
    by_cases hq : q = p
    · subst hq
      rw [Function.update_self]
      exact Function.update_self ..
    · rw [Function.update_of_ne fun he => hq (Kin.child.inj he)]
      exact Function.update_of_ne hq _ _

theorem kinHead_zombie (s : SchedState) (links : Links) (p : Nat) (h : QHead) :
    ({ s with childLink := links, zombieList := Function.update s.zombieList p h } : SchedState).kinHead =
      Function.update s.kinHead (.zombie p) h := by
  funext i
  cases i with
  | child q => rfl
  | zombie q =>
    by_cases hq : q = p
    · subst hq
      rw [Function.update_self]
      exact Function.update_self ..
    · rw [Function.update_of_ne fun he => hq (Kin.zombie.inj he)]
      exact Function.update_of_ne hq _ _

theorem waitHead_update (s : SchedState) (l : WaitOn) (links : Links) (h : QHead) :
    (s.setWaitHead l links h).waitHead = Function.update s.waitHead l h := by
  funext i
  by_cases hi : i = l
  · subst hi
    rw [Function.update_self]
    exact waitHead_setWaitHead ..
  · rw [Function.update_of_ne hi]
    exact waitHead_setWaitHead_of_ne _ _ hi

/-- what `setWaitHead` changes -/
theorem setWaitHead_eq (s : SchedState) (l : WaitOn) (links : Links) (h : QHead) :
    ∃ q sw w, s.setWaitHead l links h =
      { s with waitLink := links, sleepQueue := q, selfWaitList := sw, waitList := w } := by
  cases l <;> exact ⟨_, _, _, rfl⟩

end SchedState

/-- what the state of a thread says of it -/
structure Known (s : SchedState) : Prop where
  mapped : ∀ t, s.inMap t = true → s.state t ≠ .zombie ∧ s.state t ≠ .done
  live : ∀ t, s.state t = .runnable ∨ s.state t = .waiting → s.inMap t = true
  gone : ∀ t, .vanish t ∈ s.log →
    s.inMap t = false ∧ t ≤ s.nextId ∧ (s.state t = .zombie ∨ s.state t = .done)
  -- ids that were not given out yet
  fresh : ∀ t, s.nextId < t → s.state t = .suspended ∧ s.inMap t = false
  parents : ∀ t p, s.parent t = some p → p < t ∧ t ≤ s.nextId
  idle_state : s.state s.idle = .runnable
  idle_parent : s.parent s.idle = none
  idle_old : s.idle ≤ s.nextId

/-- **every thread in its place**: the state of a thread says on which list it is, and no two lists
that share a link have a thread in common -/
structure Placed (s : SchedState) (rq : List Nat) (f : SchedState.WaitOn → List Nat)
    (k : Kin → List Nat) : Prop extends Known s where
  /-- the done queue is empty -/
  queues : RunQueues s rq []
  waits : Family s.waitLink s.waitHead f
  kin : Family s.childLink s.kinHead k
  runnable : ∀ t, t ≠ s.idle → (s.state t = .runnable ↔ t ∈ rq)
  idle_out : s.idle ∉ rq
  waiting : ∀ t, s.state t = .waiting ↔ ∃ l, t ∈ f l
  self : ∀ p t, t ∈ f (.selfWait p) → t = p
  nobody : ∀ p, f (.wait p) = []
  child : ∀ p t, t ∈ k (.child p) ↔ s.parent t = some p ∧ s.inMap t = true
  zombie : ∀ p t, t ∈ k (.zombie p) → s.parent t = some p ∧ s.state t = .zombie

/-- the thread that runs is the idle thread or on the run queue -/
def Running (s : SchedState) (rq : List Nat) : Prop := s.current = s.idle ∨ s.current ∈ rq

section
variable {s s' : SchedState} {rq rq' dq kept rest : List Nat} {f : SchedState.WaitOn → List Nat}
    {k : Kin → List Nat} {l : SchedState.WaitOn} {t u p z n m : Nat}

theorem RunQueues.runqInsertFront (h : RunQueues s rq dq) (hr : t ∉ rq) (hd : t ∉ dq) :
    RunQueues (s.runqInsertFront t) (t :: rq) dq := by
  obtain ⟨h1, h2⟩ := h.run.insertFront_both h.done h.run_done hr hd
  refine ⟨h1, h2, fun x hx => ?_, fun x hx hxd => ?_⟩
  · rcases List.mem_cons.mp hx with hx | hx
    · exact hx ▸ hd
    · exact h.run_done x hx
  · have hxt : x ≠ t := fun he => hx (he ▸ List.mem_cons_self ..)
    have hxr : x ∉ rq := fun hr => hx (List.mem_cons_of_mem _ hr)
    exact (insertFront_links hxt (h.run.link_none hxr).1).trans (h.loose x hxr hxd)

/-- a thread that is not on the run queue is removed from it without effect -/
theorem RunQueues.runqRemove_of_not_mem (h : RunQueues s rq dq) (hr : t ∉ rq) (hd : t ∉ dq) :
    s.runqRemove t = s := by
  have he := h.run.remove_of_not_mem hr (h.loose t hr hd)
  unfold SchedState.runqRemove
  rw [he]

/-- no vanish is forgotten when the other events are -/
theorem not_vanish_put {log : List SchedEvent} (h : .vanish u ∈ SchedEvent.put t :: log) :
    .vanish u ∈ log := (List.mem_cons.mp h).resolve_left nofun

theorem not_vanish_select {log : List SchedEvent} (h : .vanish u ∈ SchedEvent.select t :: log) :
    .vanish u ∈ log := (List.mem_cons.mp h).resolve_left nofun

namespace Known

theorem congr (h : Known s) (hst : s'.state = s.state) (hm : s'.inMap = s.inMap)
    (hp : s'.parent = s.parent) (hn : s'.nextId = s.nextId) (hi : s'.idle = s.idle)
    (hlog : ∀ t, .vanish t ∈ s'.log → .vanish t ∈ s.log) : Known s' := by
  constructor
  · rw [hst, hm]
    exact h.mapped
  · rw [hst, hm]
    exact h.live
  · rw [hst, hm, hn]
    exact fun t ht => h.gone t (hlog t ht)
  · rw [hst, hm, hn]
    exact h.fresh
  · rw [hp, hn]
    exact h.parents
  · rw [hst, hi]
    exact h.idle_state
  · rw [hp, hi]
    exact h.idle_parent
  · rw [hn, hi]
    exact h.idle_old

/-- a thread in the map is given a state that threads in the map have -/
theorem setState (h : Known s) (st : ThreadState) (hm : s.inMap t = true) (hi : t ≠ s.idle)
    (h1 : st ≠ .zombie) (h2 : st ≠ .done) : Known (s.setState t st) where
  mapped u hu := by
    show Function.update s.state t st u ≠ _ ∧ Function.update s.state t st u ≠ _
    by_cases hut : u = t
    · subst hut
      rw [Function.update_self]
      exact ⟨h1, h2⟩
    · rw [Function.update_of_ne hut]
      exact h.mapped u hu
  live u hu := by
    by_cases hut : u = t
    · exact hut ▸ hm
    · change Function.update s.state t st u = _ ∨ Function.update s.state t st u = _ at hu
      rw [Function.update_of_ne hut] at hu
      exact h.live u hu
  gone u hu := by
    have hut : u ≠ t := by
      intro hut
      have hf := (h.gone u hu).1
      rw [hut, hm] at hf
      exact nomatch hf
    show s.inMap u = _ ∧ _ ∧ (Function.update s.state t st u = _ ∨ Function.update s.state t st u = _)
    rw [Function.update_of_ne hut]
    exact h.gone u hu
  fresh u hu := by
    have hut : u ≠ t := by
      intro hut
      have hf := (h.fresh u hu).2
      rw [hut, hm] at hf
      exact nomatch hf
    show Function.update s.state t st u = _ ∧ _
    rw [Function.update_of_ne hut]
    exact h.fresh u hu
  parents := h.parents
  idle_state := (Function.update_of_ne hi.symm _ _).trans h.idle_state
  idle_parent := h.idle_parent
  idle_old := h.idle_old

/-- a thread leaves the map, as a zombie or done -/
theorem bury (h : Known s) (hi : t ≠ s.idle) {st : ThreadState} (hst : st = .zombie ∨ st = .done)
    (ho : t ≤ s.nextId) :
    Known { s with state := Function.update s.state t st, inMap := Function.update s.inMap t false } where
  mapped u hu := by
    by_cases hut : u = t
    · subst hut
      change Function.update s.inMap u false u = true at hu
      rw [Function.update_self] at hu
      exact nomatch hu
    · change Function.update s.inMap t false u = true at hu
      rw [Function.update_of_ne hut] at hu
      show Function.update s.state t st u ≠ _ ∧ Function.update s.state t st u ≠ _
      rw [Function.update_of_ne hut]
      exact h.mapped u hu
  live u hu := by
    by_cases hut : u = t
    · subst hut
      change Function.update s.state u st u = _ ∨ Function.update s.state u st u = _ at hu
      rw [Function.update_self] at hu
      rcases hst with rfl | rfl <;> exact nomatch hu
    · change Function.update s.state t st u = _ ∨ Function.update s.state t st u = _ at hu
      rw [Function.update_of_ne hut] at hu
      show Function.update s.inMap t false u = true
      rw [Function.update_of_ne hut]
      exact h.live u hu
  gone u hu := by
    show Function.update s.inMap t false u = _ ∧ _ ∧
      (Function.update s.state t st u = _ ∨ Function.update s.state t st u = _)
    by_cases hut : u = t
    · subst hut
      rw [Function.update_self, Function.update_self]
      exact ⟨rfl, ho, hst⟩
    · rw [Function.update_of_ne hut, Function.update_of_ne hut]
      exact h.gone u hu
  fresh u hu := by
    have hut : u ≠ t := fun he => absurd ho (Nat.not_le_of_lt (he ▸ hu))
    show Function.update s.state t st u = _ ∧ Function.update s.inMap t false u = _
    rw [Function.update_of_ne hut, Function.update_of_ne hut]
    exact h.fresh u hu
  parents := h.parents
  idle_state := (Function.update_of_ne hi.symm _ _).trans h.idle_state
  idle_parent := h.idle_parent
  idle_old := h.idle_old

theorem le_nextId (h : Known s) (hm : s.inMap t = true) : t ≤ s.nextId := by
  apply Nat.le_of_not_lt
  intro hlt
  have hf := (h.fresh t hlt).2
  rw [hm] at hf
  exact nomatch hf

end Known

namespace Placed

theorem ne_idle (h : Placed s rq f k) (ht : t ∈ rq) : t ≠ s.idle := fun he => h.idle_out (he ▸ ht)

theorem state_of_mem (h : Placed s rq f k) (ht : t ∈ rq) : s.state t = .runnable :=
  (h.runnable t (h.ne_idle ht)).mpr ht

theorem not_waits (h : Placed s rq f k) (ht : s.state t ≠ .waiting) (l : SchedState.WaitOn) :
    t ∉ f l := fun hm => ht ((h.waiting t).mpr ⟨l, hm⟩)

theorem not_runs (h : Placed s rq f k) (ht : s.state t ≠ .runnable) : t ∉ rq :=
  fun hm => ht (h.state_of_mem hm)

/-- counts, deadlines, the tick counter and the current thread are in no clause -/
theorem frame (h : Placed s rq f k) (c d : Nat → Int) (x cur : Nat) :
    Placed { s with count := c, deadline := d, ticks := x, current := cur } rq f k where
  toKnown := h.toKnown.congr rfl rfl rfl rfl rfl fun _ ht => ht
  queues := h.queues.congr rfl rfl rfl
  waits := h.waits
  kin := h.kin
  runnable := h.runnable
  idle_out := h.idle_out
  waiting := h.waiting
  self := h.self
  nobody := h.nobody
  child := h.child
  zombie := h.zombie

theorem threadPut (h : Placed s rq f k) (n t : Nat) : Placed (SchedState.threadPut n t s) rq f k := by
  obtain ⟨c, hc⟩ := SchedState.threadPut_counts n t s
  rw [hc]
  exact h.frame c s.deadline s.ticks s.current

/-- the run queue in another order -/
theorem reorder (h : Placed s rq f k) (hq : RunQueues s' rq' []) (hrest : s'.rest = s.rest)
    (hlog : ∀ t, .vanish t ∈ s'.log → .vanish t ∈ s.log) (hmem : ∀ t, t ∈ rq' ↔ t ∈ rq) :
    Placed s' rq' f k := by
  have hst := SchedState.state_of_rest hrest
  have hi := SchedState.idle_of_rest hrest
  have hm : s'.inMap = s.inMap := congrArg (fun s => s.inMap) hrest
  have hp : s'.parent = s.parent := congrArg (fun s => s.parent) hrest
  have hn : s'.nextId = s.nextId := congrArg (fun s => s.nextId) hrest
  have hw := SchedState.SameWaits.of_rest hrest
  have hwh : s'.waitHead = s.waitHead := funext fun l => hw.head l
  have hcl : s'.childLink = s.childLink := congrArg (fun s => s.childLink) hrest
  have hkh : s'.kinHead = s.kinHead := by
    have h1 : s'.childList = s.childList := congrArg (fun s => s.childList) hrest
    have h2 : s'.zombieList = s.zombieList := congrArg (fun s => s.zombieList) hrest
    funext i
    cases i with
    | child q => exact congrFun h1 q
    | zombie q => exact congrFun h2 q
  constructor
  · exact h.toKnown.congr hst hm hp hn hi hlog
  · exact hq
  · rw [hw.link, hwh]
    exact h.waits
  · rw [hcl, hkh]
    exact h.kin
  · rw [hst, hi]
    exact fun t ht => (h.runnable t ht).trans (hmem t).symm
  · rw [hi]
    exact fun hc => h.idle_out ((hmem _).mp hc)
  · rw [hst]
    exact h.waiting
  · exact h.self
  · exact h.nobody
  · rw [hp, hm]
    exact h.child
  · rw [hp, hst]
    exact h.zombie

/-! ## sched_yield -/

/-- step 1 puts the current thread behind the others -/
theorem mem_requeued_iff (h : Placed s rq f k) (hc : s.state s.current ≠ .done) (t : Nat) :
    t ∈ s.requeued rq ↔ t ∈ rq := by
  unfold SchedState.requeued
  by_cases hi : s.current = s.idle
  · rw [if_pos hi]
  · rw [if_neg hi]
    cases hst : s.state s.current with
    | done => exact absurd hst hc
    | suspended => exact Iff.rfl
    | waiting => exact Iff.rfl
    | zombie => exact Iff.rfl
    | runnable =>
      have hm := (h.runnable _ hi).mp hst
      show t ∈ rq.erase s.current ++ [s.current] ↔ _
      rw [List.mem_append, List.mem_singleton]
      constructor
      · intro ht
        rcases ht with ht | ht
        · exact List.mem_of_mem_erase ht
        · exact ht ▸ hm
      · intro ht
        by_cases he : t = s.current
        · exact .inr he
        · exact .inl ((List.mem_erase_of_ne he).mpr ht)

theorem log_requeueCurrent (s : SchedState) (u : Nat) :
    .vanish u ∈ s.requeueCurrent.log ↔ .vanish u ∈ s.log := by
  unfold SchedState.requeueCurrent
  split
  · exact Iff.rfl
  · split
    · exact ⟨not_vanish_put, List.mem_cons_of_mem _⟩
    · exact Iff.rfl
    · exact Iff.rfl

/-- **sched_yield** selects the idle thread or a thread of the run queue -/
theorem yield (h : Placed s rq f k) (hc : s.state s.current ≠ .done) (hn : 0 < n) :
    ∃ rq', Placed (s.schedYield n) rq' f k ∧ Running (s.schedYield n) rq' ∧
      ∀ u, .vanish u ∈ (s.schedYield n).log ↔ .vanish u ∈ s.log := by
  have hmem := h.mem_requeued_iff hc
  have hr : s.retired [] = [] := by
    unfold SchedState.retired
    rw [if_neg fun hn => hc hn.2]
  have hq := requeue_ready h.queues List.not_mem_nil
  rw [hr] at hq
  have hrest := SchedState.rest_requeueCurrent s
  have hst := SchedState.state_of_rest hrest
  have hidle := SchedState.idle_of_rest hrest
  obtain ⟨n, rfl⟩ : ∃ m, n = m + 1 := ⟨n - 1, by omega⟩
  have hpick : ∃ t, (SchedState.pickLoop (n + 1) s.requeueCurrent) = (s.requeueCurrent, some t) ∧
      (t = s.idle ∨ t ∈ s.requeued rq) := by
    have hfirst := hq.run.first
    rw [SchedState.pickLoop]
    cases hl : s.requeued rq with
    | nil =>
      rw [hl] at hfirst
      rw [hfirst, ← hidle]
      exact ⟨_, rfl, .inl rfl⟩
    | cons t l =>
      rw [hl] at hfirst
      have ht : t ∈ rq := (hmem t).mp (hl ▸ List.mem_cons_self ..)
      rw [hfirst]
      show ∃ t', (if s.requeueCurrent.state t = .runnable then _ else _) = _ ∧ _
      rw [hst, if_pos (h.state_of_mem ht)]
      exact ⟨t, rfl, .inr (List.mem_cons_self ..)⟩
  obtain ⟨t, hp, ht⟩ := hpick
  have he : s.schedYield (n + 1) = s.requeueCurrent.switchTo t := by
    rw [SchedState.schedYield_of_some (by rw [hp]), hp]
  rw [he]
  have hlog : ∀ u, .vanish u ∈ (s.requeueCurrent.switchTo t).log ↔ .vanish u ∈ s.log := fun u =>
    Iff.trans ⟨not_vanish_select, List.mem_cons_of_mem _⟩ (log_requeueCurrent s u)
  refine ⟨s.requeued rq, h.reorder (hq.switchTo t) ?_ (fun u => (hlog u).mp) hmem, ?_, hlog⟩
  · exact (SchedState.rest_switchTo ..).trans hrest
  · show t = s.requeueCurrent.idle ∨ _
    rw [hidle]
    exact ht

/-! ## a thread changes its state -/

/-- a zombie keeps its state when another thread changes its own -/
theorem zombie_update (h : Placed s rq f k) (ht : s.state t ≠ .zombie) (st : ThreadState) (p u : Nat)
    (hu : u ∈ k (.zombie p)) :
    s.parent u = some p ∧ Function.update s.state t st u = .zombie := by
  obtain ⟨h1, h2⟩ := h.zombie p u hu
  have hut : u ≠ t := fun he => ht (he ▸ h2)
  rw [Function.update_of_ne hut]
  exact ⟨h1, h2⟩

theorem runnable_update (h : Placed s rq f k) {st : ThreadState}
    (hother : ∀ u, u ≠ t → (u ∈ rq' ↔ u ∈ rq)) (ht : st = .runnable ↔ t ∈ rq') (u : Nat)
    (hu : u ≠ s.idle) : Function.update s.state t st u = .runnable ↔ u ∈ rq' := by
  by_cases hut : u = t
  · subst hut
    rw [Function.update_self]
    exact ht
  · rw [Function.update_of_ne hut, hother u hut]
    exact h.runnable u hu

theorem waiting_update (h : Placed s rq f k) {st : ThreadState} (hst : st ≠ .waiting)
    (ht : s.state t ≠ .waiting) (u : Nat) :
    Function.update s.state t st u = .waiting ↔ ∃ l, u ∈ f l := by
  by_cases hut : u = t
  · subst hut
    rw [Function.update_self]
    exact iff_of_false hst fun hc => ht ((h.waiting u).mpr hc)
  · rw [Function.update_of_ne hut]
    exact h.waiting u

/-! ## waiting and waking up -/

theorem update_erase_sub (f : SchedState.WaitOn → List Nat) (l : SchedState.WaitOn) (t : Nat)
    (l' : SchedState.WaitOn) : Function.update f l ((f l).erase t) l' ⊆ f l' := by
  by_cases hll : l' = l
  · subst hll
    rw [Function.update_self]
    exact List.erase_subset
  · rw [Function.update_of_ne hll]
    exact fun _ hx => hx

theorem mem_update_append (f : SchedState.WaitOn → List Nat) (l : SchedState.WaitOn) (t : Nat)
    (l' : SchedState.WaitOn) (u : Nat) :
    u ∈ Function.update f l (f l ++ [t]) l' ↔ u ∈ f l' ∨ (l' = l ∧ u = t) := by
  by_cases hll : l' = l
  · subst hll
    rw [Function.update_self, List.mem_append, List.mem_singleton]
    simp
  · rw [Function.update_of_ne hll]
    simp [hll]

/-- a thread that leaves its list waits no more, the others wait on -/
theorem waiting_erase (h : Placed s rq f k) (hl : t ∈ f l) {st : ThreadState} (hst : st ≠ .waiting)
    (u : Nat) : Function.update s.state t st u = .waiting ↔
      ∃ l', u ∈ Function.update f l ((f l).erase t) l' := by
  by_cases hut : u = t
  · subst hut
    rw [Function.update_self]
    refine iff_of_false hst ?_
    rintro ⟨l', hl'⟩
    by_cases hll : l' = l
    · subst hll
      rw [Function.update_self] at hl'
      exact (h.waits.list l').nodup.not_mem_erase hl'
    · rw [Function.update_of_ne hll] at hl'
      exact h.waits.one l' l u hll hl' hl
  · rw [Function.update_of_ne hut, h.waiting u]
    constructor
    · rintro ⟨l', hl'⟩
      refine ⟨l', ?_⟩
      by_cases hll : l' = l
      · subst hll
        rw [Function.update_self]
        exact (List.mem_erase_of_ne hut).mpr hl'
      · rw [Function.update_of_ne hll]
        exact hl'
    · rintro ⟨l', hl'⟩
      exact ⟨l', update_erase_sub f l t l' hl'⟩

/-- a thread that joins a list waits, the others as before -/
theorem waiting_append (h : Placed s rq f k) (l : SchedState.WaitOn) (t u : Nat) :
    Function.update s.state t .waiting u = .waiting ↔
      ∃ l', u ∈ Function.update f l (f l ++ [t]) l' := by
  by_cases hut : u = t
  · subst hut
    rw [Function.update_self]
    exact iff_of_true rfl ⟨l, (mem_update_append f l u l u).mpr (.inr ⟨rfl, rfl⟩)⟩
  · rw [Function.update_of_ne hut, h.waiting u]
    constructor
    · rintro ⟨l', hl'⟩
      exact ⟨l', (mem_update_append f l t l' u).mpr (.inl hl')⟩
    · rintro ⟨l', hl'⟩
      exact ⟨l', ((mem_update_append f l t l' u).mp hl').resolve_right fun hn => hut hn.2⟩

/-- **a thread that waits is woken up** -/
theorem wakeup (h : Placed s rq f k) (hl : t ∈ f l) :
    Placed (s.wakeup l t) (t :: rq) (Function.update f l ((f l).erase t)) k := by
  have hw : s.state t = .waiting := (h.waiting t).mpr ⟨l, hl⟩
  have hi : t ≠ s.idle := by
    intro he
    rw [he, h.idle_state] at hw
    exact nomatch hw
  have hr : t ∉ rq := h.not_runs (by rw [hw]; exact nofun)
  have hwaits := h.waits.remove l hl
  have hheads := s.waitHead_update l (DList.remove s.waitLink (s.waitHead l) t).1
    (DList.remove s.waitLink (s.waitHead l) t).2
  obtain ⟨q, sw, w, he⟩ := s.setWaitHead_eq l (DList.remove s.waitLink (s.waitHead l) t).1
    (DList.remove s.waitLink (s.waitHead l) t).2
  unfold SchedState.wakeup SchedState.waitRemove
  dsimp only
  rw [he] at hheads ⊢
  rw [if_pos hw]
  have hk : Known { s with
      waitLink := (DList.remove s.waitLink (s.waitHead l) t).1
      sleepQueue := q, selfWaitList := sw, waitList := w } :=
    h.toKnown.congr rfl rfl rfl rfl rfl fun _ hu => hu
  have hq : RunQueues { s with
      waitLink := (DList.remove s.waitLink (s.waitHead l) t).1
      sleepQueue := q, selfWaitList := sw, waitList := w } rq [] := h.queues.congr rfl rfl rfl
  have hsub := update_erase_sub f l t
  constructor
  · have hk' := hk.setState .runnable (h.live t (.inr hw)) hi nofun nofun
    exact hk'.congr rfl rfl rfl rfl rfl fun _ hu => not_vanish_put hu
  · exact RunQueues.runqInsertFront (hq.congr rfl rfl rfl) hr List.not_mem_nil
  · rw [← hheads] at hwaits
    exact hwaits
  · exact h.kin
  · apply h.runnable_update
    · exact fun u hu => by simp [hu]
    · exact iff_of_true rfl (List.mem_cons_self ..)
  · exact List.not_mem_cons_of_ne_of_not_mem hi.symm h.idle_out
  · exact h.waiting_erase hl nofun
  · exact fun p u hu => h.self p u (hsub _ hu)
  · exact fun p => List.eq_nil_of_subset_nil (h.nobody p ▸ hsub (.wait p))
  · exact h.child
  · exact h.zombie_update (by rw [hw]; exact nofun) .runnable

/-- **the current thread goes to sleep, or waits for its children** -/
theorem block (h : Placed s rq f k) (ht : t ∈ rq) (hl : l = .sleep ∨ l = .selfWait t)
    (d : Nat → Int) :
    Placed (((({ s with deadline := d } : SchedState).setState t .waiting).runqRemove t).waitInsertTail l t)
      (rq.erase t) (Function.update f l (f l ++ [t])) k := by
  have hst := h.state_of_mem ht
  have hi := h.ne_idle ht
  have hout : ∀ l', t ∉ f l' := h.not_waits (by rw [hst]; exact nofun)
  have hwaits := h.waits.insertTail l hout
  generalize hs₁ : (({ s with deadline := d } : SchedState).setState t .waiting).runqRemove t = s₁
  have hwl : s₁.waitLink = s.waitLink := by rw [← hs₁]; rfl
  have hwh : s₁.waitHead = s.waitHead := by
    rw [← hs₁]
    funext i
    cases i <;> rfl
  unfold SchedState.waitInsertTail
  dsimp only
  rw [hwl, hwh]
  have hheads := s₁.waitHead_update l (DList.insertTail s.waitLink (s.waitHead l) t).1
    (DList.insertTail s.waitLink (s.waitHead l) t).2
  obtain ⟨q, sw, w, he⟩ := s₁.setWaitHead_eq l (DList.insertTail s.waitLink (s.waitHead l) t).1
    (DList.insertTail s.waitLink (s.waitHead l) t).2
  rw [he] at hheads ⊢
  rw [hwh] at hheads
  have hin := mem_update_append f l t
  subst hs₁
  constructor
  · have hk' := h.toKnown.setState .waiting (h.live t (.inl hst)) hi nofun nofun
    exact hk'.congr rfl rfl rfl rfl rfl fun _ hu => hu
  · have hq : RunQueues (({ s with deadline := d } : SchedState).setState t .waiting) rq [] :=
      h.queues.congr rfl rfl rfl
    exact (hq.runqRemove List.not_mem_nil).congr rfl rfl rfl
  · rw [← hheads] at hwaits
    exact hwaits
  · exact h.kin
  · apply h.runnable_update
    · exact fun u hu => List.mem_erase_of_ne hu
    · exact iff_of_false nofun h.queues.run.nodup.not_mem_erase
  · exact fun hc => h.idle_out (List.mem_of_mem_erase hc)
  · exact h.waiting_append l t
  · intro p u hu
    rcases (hin _ u).mp hu with hu | hu
    · exact h.self p u hu
    · rcases hl with hl | hl
      · rw [hl] at hu
        exact nomatch hu.1
      · rw [hl] at hu
        rw [hu.2]
        exact (SchedState.WaitOn.selfWait.inj hu.1).symm
  · intro p
    have hne : SchedState.WaitOn.wait p ≠ l := by
      rcases hl with hl | hl <;> rw [hl] <;> exact nofun
    rw [Function.update_of_ne hne]
    exact h.nobody p
  · exact h.child
  · exact h.zombie_update (by rw [hst]; exact nofun) .waiting

/-- the parts of the state that no wake-up has to do with -/
structure Woke (s s' : SchedState) (rq rq' : List Nat) (f f' : SchedState.WaitOn → List Nat)
    (l : SchedState.WaitOn) : Prop where
  current : s'.current = s.current
  idle : s'.idle = s.idle
  parent : s'.parent = s.parent
  inMap : s'.inMap = s.inMap
  nextId : s'.nextId = s.nextId
  count : s'.count = s.count
  awake : ∀ t, s'.state t = .runnable ∨ s'.state t = .waiting ↔
    s.state t = .runnable ∨ s.state t = .waiting
  log : ∀ t, .vanish t ∈ s'.log ↔ .vanish t ∈ s.log
  sub : rq ⊆ rq'
  other : ∀ l', l' ≠ l → f' l' = f l'

theorem Woke.refl (s : SchedState) (rq : List Nat) (f : SchedState.WaitOn → List Nat)
    (l : SchedState.WaitOn) : Woke s s rq rq f f l :=
  ⟨rfl, rfl, rfl, rfl, rfl, rfl, fun _ => Iff.rfl, fun _ => Iff.rfl, fun _ h => h, fun _ _ => rfl⟩

theorem Woke.wakeup (h : Placed s rq f k) (hl : t ∈ f l) :
    Woke s (s.wakeup l t) rq (t :: rq) f (Function.update f l ((f l).erase t)) l := by
  have hw : s.state t = .waiting := (h.waiting t).mpr ⟨l, hl⟩
  obtain ⟨q, sw, w, he⟩ := s.setWaitHead_eq l (DList.remove s.waitLink (s.waitHead l) t).1
    (DList.remove s.waitLink (s.waitHead l) t).2
  unfold SchedState.wakeup SchedState.waitRemove
  dsimp only
  rw [he, if_pos hw]
  refine ⟨rfl, rfl, rfl, rfl, rfl, rfl, fun u => ?_, fun u => ⟨not_vanish_put, List.mem_cons_of_mem _⟩,
    fun u hu => List.mem_cons_of_mem _ hu, fun l' hl' => Function.update_of_ne hl' _ _⟩
  show Function.update s.state t .runnable u = _ ∨ Function.update s.state t .runnable u = _ ↔ _
  by_cases hut : u = t
  · subst hut
    rw [Function.update_self]
    exact iff_of_true (.inl rfl) (.inr hw)
  · rw [Function.update_of_ne hut]

theorem Woke.trans {s₁ s₂ s₃ : SchedState} {rq₁ rq₂ rq₃ : List Nat}
    {f₁ f₂ f₃ : SchedState.WaitOn → List Nat} (h₁ : Woke s₁ s₂ rq₁ rq₂ f₁ f₂ l)
    (h₂ : Woke s₂ s₃ rq₂ rq₃ f₂ f₃ l) : Woke s₁ s₃ rq₁ rq₃ f₁ f₃ l :=
  ⟨h₂.current.trans h₁.current, h₂.idle.trans h₁.idle, h₂.parent.trans h₁.parent,
    h₂.inMap.trans h₁.inMap, h₂.nextId.trans h₁.nextId, h₂.count.trans h₁.count,
    fun t => (h₂.awake t).trans (h₁.awake t), fun t => (h₂.log t).trans (h₁.log t),
    fun _ hu => h₂.sub (h₁.sub hu), fun l' hl' => (h₂.other l' hl').trans (h₁.other l' hl')⟩

/-- the loop, by induction on the rest of the list -/
theorem wakeupLoop (ticks : Int) :
    ∀ (rest kept : List Nat) {s : SchedState} {rq : List Nat} {f : SchedState.WaitOn → List Nat}
    (n : Nat), Placed s rq f k → f l = kept ++ rest →
    ∃ rq' f', Placed (SchedState.wakeupLoop l ticks n rest.head? s) rq' f' k ∧
      Woke s (SchedState.wakeupLoop l ticks n rest.head? s) rq rq' f f' l := by
  intro rest
  induction rest with
  | nil =>
    intro kept s rq f n h hf
    have he : SchedState.wakeupLoop l ticks n ([] : List Nat).head? s = s := by
      cases n <;> rfl
    rw [he]
    exact ⟨rq, f, h, .refl s rq f l⟩
  | cons t rest ih =>
    intro kept s rq f n h hf
    cases n with
    | zero => exact ⟨rq, f, h, .refl s rq f l⟩
    | succ n =>
      have hl := h.waits.list l
      rw [hf] at hl
      have hnext : (s.waitLink t).next = rest.head? := by rw [hl.link]
      rw [List.head?_cons, SchedState.wakeupLoop_cons, hnext]
      by_cases hex : s.deadline t ≤ ticks
      · rw [if_pos hex]
        have ht : t ∈ f l := by
          rw [hf]
          exact List.mem_append_right _ (List.mem_cons_self ..)
        have he : (f l).erase t = kept ++ rest := by
          rw [hf, List.erase_append_right _ hl.split_nodup.2.1, List.erase_cons_head]
        have h1 := h.wakeup ht
        have h2 := Woke.wakeup h ht
        rw [he] at h1 h2
        obtain ⟨rq', f', h3, h4⟩ := ih kept n h1 (Function.update_self ..)
        exact ⟨rq', f', h3, h2.trans h4⟩
      · rw [if_neg hex]
        exact ih (kept ++ [t]) n h (by rw [hf, List.append_assoc]; rfl)

/-- **sched_wakeup_threads** -/
theorem wakeupThreads (h : Placed s rq f k) (n : Nat) (l : SchedState.WaitOn) :
    ∃ rq' f', Placed (s.wakeupThreads n l) rq' f' k ∧ Woke s (s.wakeupThreads n l) rq rq' f f' l := by
  rw [SchedState.wakeupThreads_eq, (h.waits.list l).first]
  exact wakeupLoop _ (f l) [] n h rfl

/-- **sched_yield** after the switch -/
theorem afterSwitch (h : Placed s rq f k) (n : Nat) :
    ∃ rq' f', Placed (s.afterSwitch n) rq' f' k ∧ Woke s (s.afterSwitch n) rq rq' f f' .sleep := by
  have hd : s.doneQueue.first = none := h.queues.done.first
  have he : SchedState.doneLoop n n s.doneQueue.first s = s := by
    rw [hd]
    cases n <;> rfl
  unfold SchedState.afterSwitch
  rw [he]
  exact h.wakeupThreads n .sleep

/-! ## suspending -/

/-- **the current thread suspends itself** -/
theorem suspend (h : Placed s rq f k) (ht : t ∈ rq) :
    Placed ((s.runqRemove t).setState t .suspended) (rq.erase t) f k := by
  have hst := h.state_of_mem ht
  have hi := h.ne_idle ht
  constructor
  · have hk' := h.toKnown.setState .suspended (h.live t (.inl hst)) hi nofun nofun
    exact hk'.congr rfl rfl rfl rfl rfl fun _ hu => hu
  · exact (h.queues.runqRemove List.not_mem_nil).congr rfl rfl rfl
  · exact h.waits
  · exact h.kin
  · apply h.runnable_update
    · exact fun u hu => List.mem_erase_of_ne hu
    · exact iff_of_false nofun h.queues.run.nodup.not_mem_erase
  · exact fun hc => h.idle_out (List.mem_of_mem_erase hc)
  · exact h.waiting_update nofun (by rw [hst]; exact nofun)
  · exact h.self
  · exact h.nobody
  · exact h.child
  · exact h.zombie_update (by rw [hst]; exact nofun) .suspended

/-- **a suspended thread is made runnable** -/
theorem resume (h : Placed s rq f k) (hst : s.state t = .suspended) (hm : s.inMap t = true) :
    Placed (s.addRunnableThread t) (rq ++ [t]) f k := by
  have hi : t ≠ s.idle := by
    intro he
    rw [he, h.idle_state] at hst
    exact nomatch hst
  have hr : t ∉ rq := h.not_runs (by rw [hst]; exact nofun)
  constructor
  · have hk' := h.toKnown.setState .runnable hm hi nofun nofun
    exact hk'.congr rfl rfl rfl rfl rfl fun _ hu => not_vanish_put hu
  · exact h.queues.addRunnable hr List.not_mem_nil
  · exact h.waits
  · exact h.kin
  · apply h.runnable_update
    · intro u hu
      rw [List.mem_append, List.mem_singleton]
      exact or_iff_left hu
    · exact iff_of_true rfl (List.mem_append_right _ (List.mem_singleton_self t))
  · intro hc
    rcases List.mem_append.mp hc with hc | hc
    · exact h.idle_out hc
    · exact hi (List.mem_singleton.mp hc).symm
  · exact h.waiting_update nofun (by rw [hst]; exact nofun)
  · exact h.self
  · exact h.nobody
  · exact h.child
  · exact h.zombie_update (by rw [hst]; exact nofun) .runnable

/-! ## vanishing -/

/-- the lists of children when `t` has gone from one list of `p` to the other -/
def buried (k : Kin → List Nat) (p t : Nat) : Kin → List Nat :=
  Function.update (Function.update k (.child p) ((k (.child p)).erase t)) (.zombie p)
    (k (.zombie p) ++ [t])

theorem buried_child (k : Kin → List Nat) (p t q : Nat) :
    buried k p t (.child q) = if q = p then (k (.child p)).erase t else k (.child q) := by
  unfold buried
  rw [Function.update_of_ne (Kin.child_ne_zombie q p)]
  by_cases hq : q = p
  · rw [if_pos hq, hq, Function.update_self]
  · rw [if_neg hq, Function.update_of_ne fun he => hq (Kin.child.inj he)]

theorem buried_zombie (k : Kin → List Nat) (p t q : Nat) :
    buried k p t (.zombie q) = if q = p then k (.zombie p) ++ [t] else k (.zombie q) := by
  unfold buried
  by_cases hq : q = p
  · rw [if_pos hq, hq, Function.update_self]
  · rw [if_neg hq, Function.update_of_ne fun he => hq (Kin.zombie.inj he),
      Function.update_of_ne (Kin.child_ne_zombie p q).symm]

/-- the child lists after `t` was buried: those of the threads in the map -/
theorem bury_child (h : Placed s rq f k) (hp : s.parent t = some p) (q u : Nat) :
    u ∈ buried k p t (.child q) ↔ s.parent u = some q ∧ Function.update s.inMap t false u = true := by
  rw [buried_child]
  by_cases hut : u = t
  · subst hut
    rw [Function.update_self]
    refine iff_of_false ?_ fun hn => nomatch hn.2
    split
    · exact (h.kin.list (.child p)).nodup.not_mem_erase
    · next hq =>
      intro hc'
      have hq' := (h.child q u).mp hc'
      rw [hp] at hq'
      exact hq (Option.some.inj hq'.1).symm
  · rw [Function.update_of_ne hut]
    split
    · next hq =>
      rw [List.mem_erase_of_ne hut, hq]
      exact h.child p u
    · exact h.child q u

/-- the zombie lists: `t` is on that of its parent -/
theorem bury_zombie (h : Placed s rq f k) (hp : s.parent t = some p) (hz : s.state t ≠ .zombie)
    (q u : Nat) (hu : u ∈ buried k p t (.zombie q)) :
    s.parent u = some q ∧ Function.update s.state t .zombie u = .zombie := by
  rw [buried_zombie] at hu
  by_cases hut : u = t
  · subst hut
    rw [Function.update_self]
    split at hu
    · next hq => exact ⟨hq ▸ hp, rfl⟩
    · exact absurd (h.zombie q u hu).2 hz
  · rw [Function.update_of_ne hut]
    split at hu
    · next hq =>
      rcases List.mem_append.mp hu with hu | hu
      · exact hq ▸ h.zombie p u hu
      · exact absurd (List.mem_singleton.mp hu) hut
    · exact h.zombie q u hu

/-- **a child that does not wait leaves all queues and becomes a zombie** -/
theorem bury (h : Placed s rq f k) (hm : s.inMap t = true) (hp : s.parent t = some p)
    (hw : s.state t ≠ .waiting) (c : Nat → Int) :
    Placed ((((({ s.runqRemove t with inMap := Function.update s.inMap t false, count := c } :
      SchedState).childRemove p t).setState t .zombie).zombieInsertTail p t))
      (rq.erase t) f (buried k p t) := by
  obtain ⟨hz, hd⟩ := h.mapped t hm
  have hi : t ≠ s.idle := by
    intro he
    rw [he, h.idle_parent] at hp
    exact nomatch hp
  have hc : t ∈ k (.child p) := (h.child p t).mpr ⟨hp, hm⟩
  have hk1 := h.kin.remove (.child p) hc
  have hout : ∀ j, t ∉ Function.update k (.child p) ((k (.child p)).erase t) j := by
    intro j
    by_cases hj : j = .child p
    · rw [hj, Function.update_self]
      exact (h.kin.list (.child p)).nodup.not_mem_erase
    · rw [Function.update_of_ne hj]
      exact fun hm => h.kin.one j (.child p) t hj hm hc
  have hk2 := hk1.insertTail (.zombie p) hout
  rw [Function.update_of_ne (Kin.child_ne_zombie p p).symm _ s.kinHead,
    Function.update_of_ne (Kin.child_ne_zombie p p).symm _ k] at hk2
  constructor
  · have hk := h.toKnown.bury hi (.inl rfl) (h.toKnown.le_nextId hm)
    exact hk.congr rfl rfl rfl rfl rfl fun _ hu => hu
  · exact (h.queues.runqRemove List.not_mem_nil).congr rfl rfl rfl
  · exact h.waits
  · have e1 := SchedState.kinHead_child s (DList.remove s.childLink (s.kinHead (.child p)) t).1 p
      (DList.remove s.childLink (s.kinHead (.child p)) t).2
    have e2 := SchedState.kinHead_zombie
      ({ s with
        childLink := (DList.remove s.childLink (s.kinHead (.child p)) t).1
        childList := Function.update s.childList p
          (DList.remove s.childLink (s.kinHead (.child p)) t).2 } : SchedState)
      (DList.insertTail (DList.remove s.childLink (s.kinHead (.child p)) t).1
        (s.kinHead (.zombie p)) t).1 p
      (DList.insertTail (DList.remove s.childLink (s.kinHead (.child p)) t).1
        (s.kinHead (.zombie p)) t).2
    rw [e1] at e2
    rw [← e2] at hk2
    exact hk2
  · apply h.runnable_update
    · exact fun u hu => List.mem_erase_of_ne hu
    · exact iff_of_false nofun h.queues.run.nodup.not_mem_erase
  · exact fun hc => h.idle_out (List.mem_of_mem_erase hc)
  · exact h.waiting_update nofun hw
  · exact h.self
  · exact h.nobody
  · exact h.bury_child hp
  · exact h.bury_zombie hp hz

/-- the front zombie of `p` is taken off its list, and is given a state of the dead -/
theorem takeZombie (h : Placed s rq f k) {r : List Nat} (hz : k (.zombie p) = z :: r)
    (st : ThreadState) (hst : st = .zombie ∨ st = .done) :
    Placed ((s.setState z st).zombieRemove p z) rq f (Function.update k (.zombie p) r) := by
  have hzm : z ∈ k (.zombie p) := hz ▸ List.mem_cons_self ..
  obtain ⟨hzp, hzs⟩ := h.zombie p z hzm
  have hi : z ≠ s.idle := by
    intro he
    rw [he, h.idle_parent] at hzp
    exact nomatch hzp
  have hmap : s.inMap z = false := by
    cases hm : s.inMap z with
    | false => rfl
    | true => exact absurd hzs (h.mapped z hm).1
  have hold : z ≤ s.nextId := by
    apply Nat.le_of_not_lt
    intro hlt
    have hf := (h.fresh z hlt).1
    rw [hzs] at hf
    exact nomatch hf
  have hr : (k (.zombie p)).erase z = r := by
    rw [hz, List.erase_cons_head]
  have hkin := h.kin.remove (.zombie p) hzm
  rw [hr] at hkin
  have hsub : ∀ q u, u ∈ Function.update k (.zombie p) r (.zombie q) → u ∈ k (.zombie q) ∧ u ≠ z := by
    intro q u hu
    by_cases hq : Kin.zombie q = .zombie p
    · rw [hq, Function.update_self] at hu
      rw [hq, hz]
      have hd := (h.kin.list (.zombie p)).nodup
      rw [hz] at hd
      exact ⟨List.mem_cons_of_mem _ hu, fun he => (List.nodup_cons.mp hd).1 (he ▸ hu)⟩
    · rw [Function.update_of_ne hq] at hu
      exact ⟨hu, fun he => h.kin.one _ _ z hq (he ▸ hu) hzm⟩
  have hst' : st ≠ .waiting ∧ st ≠ .runnable := by
    rcases hst with rfl | rfl <;> exact ⟨nofun, nofun⟩
  constructor
  · have hk := h.toKnown.bury hi hst hold
    have hup : Function.update s.inMap z false = s.inMap :=
      Function.update_eq_self_iff.mpr hmap.symm
    rw [hup] at hk
    exact hk.congr rfl rfl rfl rfl rfl fun _ hu => hu
  · exact h.queues.congr rfl rfl rfl
  · exact h.waits
  · have he := SchedState.kinHead_zombie s
      (DList.remove s.childLink (s.kinHead (.zombie p)) z).1 p
      (DList.remove s.childLink (s.kinHead (.zombie p)) z).2
    rw [← he] at hkin
    exact hkin
  · apply h.runnable_update
    · exact fun u _ => Iff.rfl
    · exact iff_of_false hst'.2 (h.not_runs (by rw [hzs]; exact nofun))
  · exact h.idle_out
  · exact h.waiting_update hst'.1 (by rw [hzs]; exact nofun)
  · exact h.self
  · exact h.nobody
  · intro q u
    rw [Function.update_of_ne (Kin.child_ne_zombie q p)]
    exact h.child q u
  · intro q u hu
    obtain ⟨h1, h2⟩ := hsub q u hu
    show _ ∧ Function.update s.state z st u = _
    rw [Function.update_of_ne h2]
    exact h.zombie q u h1

/-- what releasing zombies of `p` leaves alone -/
structure Reaped (s s' : SchedState) (k k' : Kin → List Nat) (p : Nat) : Prop where
  current : s'.current = s.current
  idle : s'.idle = s.idle
  parent : s'.parent = s.parent
  inMap : s'.inMap = s.inMap
  nextId : s'.nextId = s.nextId
  log : s'.log = s.log
  sub : k' (.zombie p) ⊆ k (.zombie p)
  other : ∀ i, i ≠ .zombie p → k' i = k i

theorem Reaped.trans {s₁ s₂ s₃ : SchedState} {k₁ k₂ k₃ : Kin → List Nat} (h₁ : Reaped s₁ s₂ k₁ k₂ p)
    (h₂ : Reaped s₂ s₃ k₂ k₃ p) : Reaped s₁ s₃ k₁ k₃ p :=
  ⟨h₂.current.trans h₁.current, h₂.idle.trans h₁.idle, h₂.parent.trans h₁.parent,
    h₂.inMap.trans h₁.inMap, h₂.nextId.trans h₁.nextId, h₂.log.trans h₁.log,
    fun _ hu => h₁.sub (h₂.sub hu), fun i hi => (h₂.other i hi).trans (h₁.other i hi)⟩

theorem Reaped.take (s : SchedState) {r : List Nat} (hz : k (.zombie p) = z :: r) (st : ThreadState)
    (n : Nat) : Reaped s (SchedState.threadPut n z ((s.setState z st).zombieRemove p z)) k
      (Function.update k (.zombie p) r) p := by
  obtain ⟨c, hc⟩ := SchedState.threadPut_counts n z ((s.setState z st).zombieRemove p z)
  rw [hc]
  refine ⟨rfl, rfl, rfl, rfl, rfl, rfl, ?_, fun i hi => Function.update_of_ne hi _ _⟩
  rw [Function.update_self, hz]
  exact List.subset_cons_self z r

/-- the loop over the zombies, by induction on its turns -/
theorem reapLoop (n : Nat) : ∀ {s : SchedState} {k : Kin → List Nat}, Placed s rq f k →
    ∃ k', Placed (SchedState.reapLoop p n (s.zombieList p).first s) rq f k' ∧
      Reaped s (SchedState.reapLoop p n (s.zombieList p).first s) k k' p := by
  induction n with
  | zero => exact fun h => ⟨_, h, rfl, rfl, rfl, rfl, rfl, rfl, fun _ hu => hu, fun _ _ => rfl⟩
  | succ n ih =>
    intro s k h
    have hl := h.kin.list (.zombie p)
    have hfirst : (s.zombieList p).first = (k (.zombie p)).head? := hl.first
    rw [hfirst]
    cases hz : k (.zombie p) with
    | nil => exact ⟨_, h, rfl, rfl, rfl, rfl, rfl, rfl, fun _ hu => hu, fun _ _ => rfl⟩
    | cons z r =>
      rw [hz] at hl
      have hnext : (s.childLink z).next = r.head? := by rw [@IsList.link _ _ _ _ [] _ _ hl]
      have h1 := (h.takeZombie hz .done (.inr rfl)).threadPut n z
      have h2 := Reaped.take s hz .done n
      have hfirst' : (SchedState.zombieList (SchedState.threadPut n z
          ((s.setState z .done).zombieRemove p z)) p).first = r.head? := by
        have hl' := (h1.kin.list (.zombie p)).first
        rw [Function.update_self] at hl'
        exact hl'
      have he : SchedState.reapLoop p (n + 1) (z :: r).head? s = SchedState.reapLoop p n r.head?
          (SchedState.threadPut n z ((s.setState z .done).zombieRemove p z)) := by
        show SchedState.reapLoop p n (s.childLink z).next _ = _
        rw [hnext]
      obtain ⟨k', h3, h4⟩ := ih h1
      rw [hfirst'] at h3 h4
      rw [he]
      exact ⟨k', h3, h2.trans h4⟩

/-- the vanishing thread is noted -/
theorem noteVanish (h : Placed s rq f k) (hm : s.inMap t = false) (ho : t ≤ s.nextId)
    (hst : s.state t = .zombie ∨ s.state t = .done) : Placed (s.note (.vanish t)) rq f k where
  mapped := h.mapped
  live := h.live
  gone u hu := by
    rcases List.mem_cons.mp hu with he | hu
    · rw [SchedEvent.vanish.inj he]
      exact ⟨hm, ho, hst⟩
    · exact h.gone u hu
  fresh := h.fresh
  parents := h.parents
  idle_state := h.idle_state
  idle_parent := h.idle_parent
  idle_old := h.idle_old
  queues := h.queues.note _
  waits := h.waits
  kin := h.kin
  runnable := h.runnable
  idle_out := h.idle_out
  waiting := h.waiting
  self := h.self
  nobody := h.nobody
  child := h.child
  zombie := h.zombie

/-- what is left when `t`, a child of `p`, has vanished -/
structure Gone (s s' : SchedState) (rq rq' : List Nat) (f f' : SchedState.WaitOn → List Nat)
    (k k' : Kin → List Nat) (p t : Nat) : Prop where
  current : s'.current = s.current
  idle : s'.idle = s.idle
  parent : s'.parent = s.parent
  inMap : s'.inMap = Function.update s.inMap t false
  nextId : s'.nextId = s.nextId
  log : ∀ u, .vanish u ∈ s'.log ↔ u = t ∨ .vanish u ∈ s.log
  runs : rq.erase t ⊆ rq'
  waits : ∀ l, l ≠ .selfWait p → f' l = f l
  own : k' (.zombie t) ⊆ k (.zombie t)
  kin : ∀ i, i ≠ .zombie t → k' i = buried k p t i

/-- the queues when `t` has left the map and its queue -/
theorem leaveQueue_eq (h : Placed s rq f k) (hm : s.inMap t = true) (hw : s.state t ≠ .waiting)
    (n : Nat) :
    ∃ c, (SchedState.threadPut n t { s with inMap := Function.update s.inMap t false }).leaveQueue n t
      = { s.runqRemove t with inMap := Function.update s.inMap t false, count := c } := by
  obtain ⟨c, hc⟩ := SchedState.threadPut_counts n t { s with inMap := Function.update s.inMap t false }
  rw [hc]
  unfold SchedState.leaveQueue
  dsimp only
  cases hst : s.state t with
  | runnable =>
    obtain ⟨c', hc'⟩ := SchedState.threadPut_counts n t
      (SchedState.runqRemove { s with inMap := Function.update s.inMap t false, count := c } t)
    exact ⟨c', hc'⟩
  | waiting => exact absurd hst hw
  | zombie => exact absurd hst (h.mapped t hm).1
  | done => exact absurd hst (h.mapped t hm).2
  | suspended =>
    have hr : t ∉ rq := h.not_runs (by rw [hst]; exact nofun)
    rw [h.queues.runqRemove_of_not_mem hr List.not_mem_nil]
    exact ⟨c, rfl⟩

/-- the parent is told -/
theorem toParent_eq {c : Nat → Int} (hp : s.parent t = some p) :
    SchedState.toParent
      { s.runqRemove t with inMap := Function.update s.inMap t false, count := c } n t =
      (((({ s.runqRemove t with inMap := Function.update s.inMap t false, count := c } :
        SchedState).childRemove p t).setState t .zombie).zombieInsertTail p t).wakeupThreads n
          (.selfWait p) := by
  have hp' : (s.runqRemove t).parent t = some p := hp
  unfold SchedState.toParent
  dsimp only
  rw [hp']

/-- **thread_vanish_noyield** of a child that does not wait -/
theorem vanish (h : Placed s rq f k) (hm : s.inMap t = true) (hp : s.parent t = some p)
    (hw : s.state t ≠ .waiting) (n : Nat) :
    ∃ rq' f' k', Placed (s.threadVanishNoyield n t) rq' f' k' ∧
      Gone s (s.threadVanishNoyield n t) rq rq' f f' k k' p t := by
  have hpt : p ≠ t := Nat.ne_of_lt (h.parents t p hp).1
  have ho := h.toKnown.le_nextId hm
  obtain ⟨c, hc⟩ := h.leaveQueue_eq hm hw n
  -- among the zombies of `p`
  obtain ⟨rq₁, f₁, h1, w1⟩ := (h.bury hm hp hw c).wakeupThreads n (.selfWait p)
  -- its own zombies are released
  obtain ⟨k₂, h2, w2⟩ := h1.reapLoop (p := t) n
  -- those that wait for it, and there are none
  obtain ⟨rq₃, f₃, h3, w3⟩ := h2.wakeupThreads n (.wait t)
  have hown : t ∈ k₂ (.zombie p) := by
    rw [w2.other _ fun he => hpt (Kin.zombie.inj he), buried_zombie, if_pos rfl]
    exact List.mem_append_right _ (List.mem_singleton_self t)
  have hinMap := (w3.inMap.trans w2.inMap).trans w1.inMap
  have hnext := (w3.nextId.trans w2.nextId).trans w1.nextId
  have h4 := h3.noteVanish (t := t)
    ((congrFun hinMap t).trans (Function.update_self ..)) (by rw [hnext]; exact ho)
    (.inl (h3.zombie p t hown).2)
  have h5 := h4.threadPut n t
  unfold SchedState.threadVanishNoyield
  dsimp only
  rw [hc, toParent_eq hp]
  refine ⟨rq₃, f₃, k₂, h5, ?_⟩
  obtain ⟨c', hc'⟩ := SchedState.threadPut_counts n t
    (SchedState.note (SchedState.wakeupThreads _ n (.wait t)) (.vanish t))
  rw [hc']
  constructor
  · exact (w3.current.trans w2.current).trans w1.current
  · exact (w3.idle.trans w2.idle).trans w1.idle
  · exact (w3.parent.trans w2.parent).trans w1.parent
  · exact hinMap
  · exact hnext
  · intro u
    have hlog := ((w3.log u).trans (by rw [w2.log])).trans (w1.log u)
    show _ ∈ _ :: _ ↔ _
    rw [List.mem_cons, hlog]
    exact or_congr ⟨fun he => SchedEvent.vanish.inj he, fun he => by rw [he]⟩ Iff.rfl
  · exact fun u hu => w3.sub (w1.sub hu)
  · intro l hl
    by_cases hlt : l = .wait t
    · rw [hlt, h5.nobody, h.nobody]
    · rw [w3.other l hlt, w1.other l hl]
  · have hz : buried k p t (.zombie t) = k (.zombie t) := by
      rw [buried_zombie, if_neg (Ne.symm hpt)]
    rw [← hz]
    exact w2.sub
  · exact w2.other

/-! ## fork and wait -/

/-- the state of a fork, but for the run queue -/
def forked (s : SchedState) (c : Nat → Int) : SchedState :=
  { s with
    nextId := s.nextId + 1
    state := Function.update s.state (s.nextId + 1) .runnable
    parent := Function.update s.parent (s.nextId + 1) (some s.current)
    count := c
    runnableLink := Function.update s.runnableLink (s.nextId + 1) .null
    waitLink := Function.update s.waitLink (s.nextId + 1) .null
    childLink := (DList.insertTail s.childLink (s.childList s.current) (s.nextId + 1)).1
    childList := Function.update (Function.update s.childList s.current
      (DList.insertTail s.childLink (s.childList s.current) (s.nextId + 1)).2) (s.nextId + 1) .empty
    zombieList := Function.update s.zombieList (s.nextId + 1) .empty
    waitList := Function.update s.waitList (s.nextId + 1) .empty
    selfWaitList := Function.update s.selfWaitList (s.nextId + 1) .empty
    inMap := Function.update s.inMap (s.nextId + 1) true }

/-- what the references to the parent and to the new thread are -/
def forkCount (s : SchedState) : Nat → Int :=
  Function.update (Function.update s.count s.current (s.count s.current + 1)) (s.nextId + 1) 4

theorem fork_eq (s : SchedState) (n : Nat) (hm : s.inMap (s.nextId + 1) = false) :
    s.fork n = ((forked s (forkCount s)).runqInsertTail (s.nextId + 1)).schedYield n := by
  unfold SchedState.fork
  dsimp only
  rw [hm, if_neg nofun]
  simp only [SchedState.addRunnableThread, SchedState.setState, SchedState.threadGet,
    Function.update_idem, Function.update_self]
  rfl

/-- the lists threads wait on, when those of the new thread are set up -/
theorem waitHead_forked (s : SchedState) (c : Nat → Int) :
    (forked s c).waitHead = Function.update (Function.update s.waitHead (.wait (s.nextId + 1)) .empty)
      (.selfWait (s.nextId + 1)) .empty := by
  have e1 := s.waitHead_update (.wait (s.nextId + 1)) s.waitLink .empty
  have e2 := (s.setWaitHead (.wait (s.nextId + 1)) s.waitLink .empty).waitHead_update
    (.selfWait (s.nextId + 1)) s.waitLink .empty
  rw [e1] at e2
  rw [← e2]
  funext i
  cases i <;> rfl

theorem kinHead_forked (s : SchedState) (c : Nat → Int) :
    (forked s c).kinHead = Function.update (Function.update (Function.update s.kinHead (.child s.current)
      (DList.insertTail s.childLink (s.childList s.current) (s.nextId + 1)).2)
      (.child (s.nextId + 1)) .empty) (.zombie (s.nextId + 1)) .empty := by
  have e1 := SchedState.kinHead_child s s.childLink s.current
    (DList.insertTail s.childLink (s.childList s.current) (s.nextId + 1)).2
  have e2 := SchedState.kinHead_child
    { s with
      childLink := s.childLink
      childList := Function.update s.childList s.current
        (DList.insertTail s.childLink (s.childList s.current) (s.nextId + 1)).2 }
    s.childLink (s.nextId + 1) .empty
  rw [← e1, ← e2]
  funext i
  cases i with
  | child q => rfl
  | zombie q =>
    by_cases hq : q = s.nextId + 1
    · subst hq
      rw [Function.update_self]
      exact Function.update_self ..
    · rw [Function.update_of_ne fun he => hq (Kin.zombie.inj he)]
      exact Function.update_of_ne hq _ _

theorem known_forked (h : Known s) (hc : s.current ≤ s.nextId) (c : Nat → Int) :
    Known (forked s c) where
  mapped u hu := by
    show Function.update s.state _ _ u ≠ _ ∧ Function.update s.state _ _ u ≠ _
    by_cases hut : u = s.nextId + 1
    · subst hut
      rw [Function.update_self]
      exact ⟨nofun, nofun⟩
    · change Function.update s.inMap _ _ u = true at hu
      rw [Function.update_of_ne hut] at hu
      rw [Function.update_of_ne hut]
      exact h.mapped u hu
  live u hu := by
    show Function.update s.inMap _ _ u = true
    by_cases hut : u = s.nextId + 1
    · subst hut
      exact Function.update_self ..
    · change Function.update s.state _ _ u = _ ∨ Function.update s.state _ _ u = _ at hu
      rw [Function.update_of_ne hut] at hu ⊢
      exact h.live u hu
  gone u hu := by
    obtain ⟨h1, h2, h3⟩ := h.gone u hu
    have hut : u ≠ s.nextId + 1 := by omega
    show Function.update s.inMap _ _ u = _ ∧ _ ∧
      (Function.update s.state _ _ u = _ ∨ Function.update s.state _ _ u = _)
    rw [Function.update_of_ne hut, Function.update_of_ne hut]
    exact ⟨h1, Nat.le_succ_of_le h2, h3⟩
  fresh u hu := by
    have hut : u ≠ s.nextId + 1 := Nat.ne_of_gt hu
    show Function.update s.state _ _ u = _ ∧ Function.update s.inMap _ _ u = _
    rw [Function.update_of_ne hut, Function.update_of_ne hut]
    exact h.fresh u (Nat.lt_of_succ_lt hu)
  parents u q hu := by
    change Function.update s.parent _ _ u = _ at hu
    show q < u ∧ u ≤ s.nextId + 1
    by_cases hut : u = s.nextId + 1
    · subst hut
      rw [Function.update_self] at hu
      have he := Option.some.inj hu
      omega
    · rw [Function.update_of_ne hut] at hu
      obtain ⟨h1, h2⟩ := h.parents u q hu
      exact ⟨h1, Nat.le_succ_of_le h2⟩
  idle_state := by
    have hi : s.idle ≠ s.nextId + 1 := Nat.ne_of_lt (Nat.lt_succ_of_le h.idle_old)
    exact (Function.update_of_ne hi _ _).trans h.idle_state
  idle_parent := by
    have hi : s.idle ≠ s.nextId + 1 := Nat.ne_of_lt (Nat.lt_succ_of_le h.idle_old)
    exact (Function.update_of_ne hi _ _).trans h.idle_parent
  idle_old := Nat.le_succ_of_le h.idle_old

/-- the id a fork gives out is on no list yet, and nobody's parent -/
theorem fresh_out (h : Placed s rq f k) : s.nextId + 1 ∉ rq ∧ (∀ l, s.nextId + 1 ∉ f l) ∧
    (∀ i, s.nextId + 1 ∉ k i) ∧ ∀ q, s.parent q ≠ some (s.nextId + 1) := by
  obtain ⟨hst, hm⟩ := h.fresh (s.nextId + 1) (Nat.lt_succ_self _)
  refine ⟨h.not_runs (by rw [hst]; exact nofun), h.not_waits (by rw [hst]; exact nofun), ?_, ?_⟩
  · intro i hu
    cases i with
    | child q =>
      have hu' := ((h.child q _).mp hu).2
      rw [hm] at hu'
      exact nomatch hu'
    | zombie q =>
      have hu' := (h.zombie q _ hu).2
      rw [hst] at hu'
      exact nomatch hu'
  · intro q hq
    obtain ⟨h1, h2⟩ := h.parents q _ hq
    omega

/-- the new thread is the last on the run queue -/
theorem fork_queues (h : Placed s rq f k) (c : Nat → Int) :
    RunQueues ((forked s c).runqInsertTail (s.nextId + 1)) (rq ++ [s.nextId + 1]) [] := by
  have hr := h.fresh_out.1
  have hq : RunQueues (forked s c) rq [] := by
    refine ⟨h.queues.run.congr fun x hx => ?_, h.queues.done.congr fun x hx => absurd hx List.not_mem_nil,
      h.queues.run_done, fun x hx hd => ?_⟩
    · have hne : x ≠ s.nextId + 1 := fun he => hr (he ▸ hx)
      exact Function.update_of_ne hne _ _
    · show Function.update s.runnableLink _ _ x = _
      by_cases hx' : x = s.nextId + 1
      · rw [hx', Function.update_self]
      · rw [Function.update_of_ne hx']
        exact h.queues.loose x hx hd
  exact hq.runqInsertTail hr List.not_mem_nil

/-- its two wait lists are empty -/
theorem fork_waits (h : Placed s rq f k) (c : Nat → Int) :
    Family (forked s c).waitLink (forked s c).waitHead f := by
  obtain ⟨-, hf, -, -⟩ := h.fresh_out
  have hfs : f (.selfWait (s.nextId + 1)) = [] :=
    List.eq_nil_iff_forall_not_mem.mpr fun u hu => hf _ (h.self _ u hu ▸ hu)
  have hw := ((h.waits.relink hf .null).clear (.wait (s.nextId + 1)) (h.nobody _)).clear
    (.selfWait (s.nextId + 1)) hfs
  rw [← waitHead_forked s c] at hw
  exact hw

/-- it is the last child of the thread that forks, and has no children or zombies itself -/
theorem fork_kin (h : Placed s rq f k) (hc : s.current ≤ s.nextId) (c : Nat → Int) :
    Family (forked s c).childLink (forked s c).kinHead
      (Function.update k (.child s.current) (k (.child s.current) ++ [s.nextId + 1])) := by
  obtain ⟨-, -, hk, hnone⟩ := h.fresh_out
  have hkc : k (.child (s.nextId + 1)) = [] :=
    List.eq_nil_iff_forall_not_mem.mpr fun u hu => hnone u ((h.child _ u).mp hu).1
  have hkz : k (.zombie (s.nextId + 1)) = [] :=
    List.eq_nil_iff_forall_not_mem.mpr fun u hu => hnone u (h.zombie _ u hu).1
  have hcur : s.current ≠ s.nextId + 1 := Nat.ne_of_lt (Nat.lt_succ_of_le hc)
  have hkin := h.kin.insertTail (.child s.current) hk
  have h1 := hkin.clear (.child (s.nextId + 1)) (by
    rw [Function.update_of_ne fun he => hcur (Kin.child.inj he).symm]
    exact hkc)
  have h2 := h1.clear (.zombie (s.nextId + 1)) (by
    rw [Function.update_of_ne (Kin.child_ne_zombie _ _).symm]
    exact hkz)
  have he := kinHead_forked s c
  rw [show s.childList s.current = s.kinHead (.child s.current) from rfl] at he
  rw [← he] at h2
  exact h2

/-- the child lists hold the threads of the map under their parents, the new one included -/
theorem fork_child (h : Placed s rq f k) (c : Nat → Int) (q u : Nat) :
    u ∈ Function.update k (.child s.current) (k (.child s.current) ++ [s.nextId + 1]) (.child q) ↔
      (forked s c).parent u = some q ∧ (forked s c).inMap u = true := by
  obtain ⟨-, -, hk, -⟩ := h.fresh_out
  show _ ↔ Function.update s.parent _ _ u = some q ∧ Function.update s.inMap _ _ u = true
  by_cases hut : u = s.nextId + 1
  · subst hut
    rw [Function.update_self, Function.update_self]
    by_cases hq : q = s.current
    · rw [hq, Function.update_self]
      exact iff_of_true (List.mem_append_right _ (List.mem_singleton_self _)) ⟨rfl, rfl⟩
    · rw [Function.update_of_ne fun he => hq (Kin.child.inj he)]
      exact iff_of_false (hk _) fun hn => hq (Option.some.inj hn.1).symm
  · rw [Function.update_of_ne hut, Function.update_of_ne hut, ← h.child q u]
    by_cases hq : q = s.current
    · rw [hq, Function.update_self, List.mem_append, List.mem_singleton]
      exact or_iff_left hut
    · rw [Function.update_of_ne fun he => hq (Kin.child.inj he)]

/-- **fork**: the new thread is the last child, and the last on the run queue -/
theorem fork (h : Placed s rq f k) (hc : s.current ≤ s.nextId) (c : Nat → Int) :
    Placed ((forked s c).runqInsertTail (s.nextId + 1)) (rq ++ [s.nextId + 1]) f
      (Function.update k (.child s.current) (k (.child s.current) ++ [s.nextId + 1])) := by
  obtain ⟨hst, -⟩ := h.fresh (s.nextId + 1) (Nat.lt_succ_self _)
  obtain ⟨-, -, hk, -⟩ := h.fresh_out
  have hi : s.idle ≠ s.nextId + 1 := Nat.ne_of_lt (Nat.lt_succ_of_le h.idle_old)
  constructor
  · exact (known_forked h.toKnown hc c).congr rfl rfl rfl rfl rfl fun _ hu => not_vanish_put hu
  · exact h.fork_queues c
  · exact h.fork_waits c
  · exact h.fork_kin hc c
  · apply h.runnable_update
    · intro u hu
      rw [List.mem_append, List.mem_singleton]
      exact or_iff_left hu
    · exact iff_of_true rfl (List.mem_append_right _ (List.mem_singleton_self _))
  · intro hc
    rcases List.mem_append.mp hc with hc | hc
    · exact h.idle_out hc
    · exact hi (List.mem_singleton.mp hc)
  · exact h.waiting_update nofun (by rw [hst]; exact nofun)
  · exact h.self
  · exact h.nobody
  · exact h.fork_child c
  · intro q u
    rw [Function.update_of_ne (Kin.child_ne_zombie _ _).symm]
    intro hu
    have hut : u ≠ s.nextId + 1 := fun he => hk _ (he ▸ hu)
    show Function.update s.parent _ _ u = some q ∧ Function.update s.state _ _ u = _
    rw [Function.update_of_ne hut, Function.update_of_ne hut]
    exact h.zombie q u hu

end Placed
end

end Paravirt

import Paravirt.Wakeup
import Mathlib.Data.List.Rotate
import Mathlib.Data.List.TakeWhile

/-!
# sched_yield

* `RunQueues s rq dq`         run queue and done queue spell `rq` and `dq`;
* `SchedState.rest`            what a yield leaves alone;
* `requeue_ready`         step 1;
* `pickLoop_ready`        step 2, by induction on the run queue;
* `afterSwitch_ready`     step 4, when no sleeper is due;
* `yield_round_robin`     which thread is selected, and that the selection goes round.
-/

set_option linter.unusedSectionVars false
set_option linter.unusedVariables false

namespace Paravirt
open DList

/-- the run queue and the done queue; a thread on neither has null links -/
structure RunQueues (s : SchedState) (rq dq : List Nat) : Prop where
  run : IsList s.runnableLink s.runnableQueue rq
  done : IsList s.runnableLink s.doneQueue dq
  run_done : ∀ t ∈ rq, t ∉ dq
  loose : ∀ t, t ∉ rq → t ∉ dq → s.runnableLink t = .null

namespace SchedState
variable {s : SchedState}

/-! ## what a yield leaves alone -/

/-- the state without what `sched_yield` may change before the switch -/
def rest (s : SchedState) : SchedState :=
  { s with
    current := 0
    log := []
    runnableLink := fun _ => .null
    runnableQueue := .empty
    doneQueue := .empty }

@[simp] theorem rest_runqRemove (s : SchedState) (t : Nat) : (s.runqRemove t).rest = s.rest := rfl
@[simp] theorem rest_runqInsertTail (s : SchedState) (t : Nat) :
    (s.runqInsertTail t).rest = s.rest := rfl
@[simp] theorem rest_doneqRemove (s : SchedState) (t : Nat) : (s.doneqRemove t).rest = s.rest := rfl
@[simp] theorem rest_doneqInsertTail (s : SchedState) (t : Nat) :
    (s.doneqInsertTail t).rest = s.rest := rfl
@[simp] theorem rest_switchTo (s : SchedState) (t : Nat) : (s.switchTo t).rest = s.rest := rfl

theorem rest_requeueCurrent (s : SchedState) : s.requeueCurrent.rest = s.rest := by
  unfold requeueCurrent
  split
  · rfl
  · split <;> rfl

theorem rest_pickLoop (n : Nat) (s : SchedState) : (pickLoop n s).1.rest = s.rest := by
  induction n generalizing s with
  | zero => rfl
  | succ n ih =>
    unfold pickLoop
    split
    · rfl
    · split
      · rfl
      · rw [ih, rest_doneqInsertTail, rest_runqRemove]

theorem schedYield_of_some {n t : Nat} (h : (pickLoop n s.requeueCurrent).2 = some t) :
    s.schedYield n = (pickLoop n s.requeueCurrent).1.switchTo t := by
  unfold schedYield
  split
  · next h' =>
    rw [h'] at h
    exact absurd h (by simp)
  · next h' =>
    rw [h'] at h ⊢
    rw [Option.some.inj h]

theorem rest_schedYield (s : SchedState) (n : Nat) : (s.schedYield n).rest = s.rest := by
  have hp := rest_pickLoop n s.requeueCurrent
  rw [rest_requeueCurrent] at hp
  unfold schedYield
  split
  · next h' =>
    rw [h'] at hp
    exact hp
  · next h' =>
    rw [h'] at hp
    exact hp

theorem idle_of_rest {s s' : SchedState} (h : s'.rest = s.rest) : s'.idle = s.idle := by
  have hi : s'.rest.idle = s.rest.idle := congrArg SchedState.idle h
  exact hi

theorem state_of_rest {s s' : SchedState} (h : s'.rest = s.rest) : s'.state = s.state := by
  have hs : s'.rest.state = s.rest.state := congrArg SchedState.state h
  exact hs

/-! ## reference counts -/

/-- a dropped reference changes counts only -/
theorem threadPut_counts (n t : Nat) (s : SchedState) :
    ∃ c, threadPut n t s = { s with count := c } := by
  induction n generalizing t s with
  | zero => exact ⟨s.count, rfl⟩
  | succ n ih =>
    simp only [threadPut]
    split
    · cases s.parent t with
      | none => exact ⟨_, rfl⟩
      | some p =>
        obtain ⟨c, hc⟩ := ih p { s with count := Function.update s.count t (s.count t - 1) }
        exact ⟨c, hc⟩
    · exact ⟨_, rfl⟩

end SchedState

/-! ## the two queues -/

section
variable {s : SchedState} {rq dq : List Nat} {t : Nat}

namespace RunQueues

theorem note (h : RunQueues s rq dq) (e : SchedEvent) : RunQueues (s.note e) rq dq :=
  ⟨h.run, h.done, h.run_done, h.loose⟩

theorem switchTo (h : RunQueues s rq dq) (t : Nat) : RunQueues (s.switchTo t) rq dq :=
  ⟨h.run, h.done, h.run_done, h.loose⟩

/-- a thread is removed from the run queue, whether it is there or not -/
theorem runqRemove (h : RunQueues s rq dq) (hd : t ∉ dq) :
    RunQueues (s.runqRemove t) (rq.erase t) dq := by
  obtain ⟨h1, h2, h3⟩ := h.run.remove_erase (fun he => h.loose t he hd)
  refine ⟨h1, h.done.congr fun x hx => h2 x fun hr => h.run_done x hr hx,
    fun x hx => h.run_done x (List.mem_of_mem_erase hx), fun x hx hxd => ?_⟩
  by_cases hxt : x = t
  · rw [hxt]
    exact h3
  · have hxr : x ∉ rq := fun hr => hx ((List.mem_erase_of_ne hxt).mpr hr)
    exact (h2 x hxr).trans (h.loose x hxr hxd)

theorem runqInsertTail (h : RunQueues s rq dq) (hr : t ∉ rq) (hd : t ∉ dq) :
    RunQueues (s.runqInsertTail t) (rq ++ [t]) dq := by
  obtain ⟨h1, h2⟩ := h.run.insertTail_both h.done h.run_done hr hd
  refine ⟨h1, h2, fun x hx => ?_, fun x hx hxd => ?_⟩
  · rcases List.mem_append.mp hx with hx | hx
    · exact h.run_done x hx
    · exact List.mem_singleton.mp hx ▸ hd
  · have hxr : x ∉ rq := fun hr => hx (List.mem_append_left _ hr)
    have hxt : x ≠ t := fun he => hx (List.mem_append_right _ (he ▸ List.mem_singleton_self t))
    exact (insertTail_links hxt (h.run.link_none hxr).2).trans (h.loose x hxr hxd)

theorem doneqInsertTail (h : RunQueues s rq dq) (hr : t ∉ rq) (hd : t ∉ dq) :
    RunQueues (s.doneqInsertTail t) rq (dq ++ [t]) := by
  have hdis : ∀ x ∈ dq, x ∉ rq := fun x hx hx' => h.run_done x hx' hx
  obtain ⟨h1, h2⟩ := h.done.insertTail_both h.run hdis hd hr
  refine ⟨h2, h1, fun x hx hx' => ?_, fun x hxr hx => ?_⟩
  · rcases List.mem_append.mp hx' with hx' | hx'
    · exact h.run_done x hx hx'
    · exact hr (List.mem_singleton.mp hx' ▸ hx)
  · have hxd : x ∉ dq := fun hd => hx (List.mem_append_left _ hd)
    have hxt : x ≠ t := fun he => hx (List.mem_append_right _ (he ▸ List.mem_singleton_self t))
    exact (insertTail_links hxt (h.done.link_none hxd).2).trans (h.loose x hxr hxd)

theorem doneqRemove (h : RunQueues s rq (t :: dq)) : RunQueues (s.doneqRemove t) rq dq := by
  obtain ⟨h1, h2, h3⟩ := h.done.remove_erase (fun he => absurd (List.mem_cons_self ..) he)
  rw [List.erase_cons_head] at h1
  have hrd : ∀ x ∈ rq, x ∉ dq := fun x hx hx' => h.run_done x hx (List.mem_cons_of_mem _ hx')
  refine ⟨h.run.congr fun x hx => h2 x (h.run_done x hx), h1, hrd, fun x hxr hxd => ?_⟩
  by_cases hxt : x = t
  · rw [hxt]
    exact h3
  · have hx : x ∉ t :: dq := fun hm => (List.mem_cons.mp hm).elim hxt hxd
    exact (h2 x hx).trans (h.loose x hxr hx)

end RunQueues

/-! ## step 1 -/

/-- the run queue after step 1 -/
def SchedState.requeued (s : SchedState) (rq : List Nat) : List Nat :=
  if s.current = s.idle then rq
  else
    match s.state s.current with
    | .runnable => rq.erase s.current ++ [s.current]
    | .done => rq.erase s.current
    | _ => rq

/-- the done queue after step 1 -/
def SchedState.retired (s : SchedState) (dq : List Nat) : List Nat :=
  if s.current ≠ s.idle ∧ s.state s.current = .done then dq ++ [s.current] else dq

theorem requeue_ready (h : RunQueues s rq dq) (hc : s.current ∉ dq) :
    RunQueues s.requeueCurrent (s.requeued rq) (s.retired dq) := by
  have hr := h.runqRemove hc
  have hne : s.current ∉ rq.erase s.current := h.run.nodup.not_mem_erase
  unfold SchedState.requeueCurrent SchedState.requeued SchedState.retired
  by_cases hi : s.current = s.idle
  · rw [if_pos hi, if_pos hi, if_neg (fun hn => hn.1 hi)]
    exact h
  · rw [if_neg hi, if_neg hi]
    cases hst : s.state s.current with
    | runnable =>
      rw [if_neg (fun hn => nomatch hn.2)]
      exact hr.runqInsertTail hne hc
    | done =>
      rw [if_pos ⟨hi, rfl⟩]
      exact hr.doneqInsertTail hne hc
    | suspended | waiting | zombie =>
      rw [if_neg (fun hn => nomatch hn.2)]
      exact h

theorem mem_requeued (ht : t ∈ s.requeued rq) (hi : s.idle ∉ rq) : t ≠ s.idle := by
  unfold SchedState.requeued at ht
  by_cases hc : s.current = s.idle
  · rw [if_pos hc] at ht
    exact fun he => hi (he ▸ ht)
  · rw [if_neg hc] at ht
    cases hst : s.state s.current with
    | runnable =>
      rw [hst] at ht
      rcases List.mem_append.mp ht with ht | ht
      · exact fun he => hi (he ▸ List.mem_of_mem_erase ht)
      · exact List.mem_singleton.mp ht ▸ hc
    | done =>
      rw [hst] at ht
      exact fun he => hi (he ▸ List.mem_of_mem_erase ht)
    | suspended | waiting | zombie =>
      rw [hst] at ht
      exact fun he => hi (he ▸ ht)

theorem length_requeued (s : SchedState) (rq : List Nat) :
    (s.requeued rq).length ≤ rq.length + 1 := by
  have h := List.length_erase_le (a := s.current) (l := rq)
  unfold SchedState.requeued
  split
  · omega
  · split
    · rw [List.length_append, List.length_singleton]
      omega
    · omega
    · omega

/-! ## step 2 -/

/-- a thread that the selection passes over -/
def SchedState.passed (s : SchedState) (t : Nat) : Bool := s.state t ≠ .runnable

theorem pickLoop_ready : ∀ (rq : List Nat) (s : SchedState) (dq : List Nat) (n : Nat),
    RunQueues s rq dq → rq.length < n →
    RunQueues (SchedState.pickLoop n s).1 (rq.dropWhile s.passed) (dq ++ rq.takeWhile s.passed) ∧
      (SchedState.pickLoop n s).2 = some ((rq.dropWhile s.passed).headD s.idle) := by
  intro rq
  induction rq with
  | nil =>
    intro s dq n h hn
    obtain ⟨n, rfl⟩ : ∃ m, n = m + 1 := ⟨n - 1, by omega⟩
    have hf : s.runnableQueue.first = none := h.run.first
    rw [SchedState.pickLoop, hf]
    exact ⟨by simpa using h, rfl⟩
  | cons t rq ih =>
    intro s dq n h hn
    obtain ⟨n, rfl⟩ : ∃ m, n = m + 1 := ⟨n - 1, by omega⟩
    have hf : s.runnableQueue.first = some t := h.run.first
    have ht : t ∉ dq := h.run_done t (List.mem_cons_self ..)
    have htr : t ∉ rq := (List.nodup_cons.mp h.run.nodup).1
    rw [SchedState.pickLoop, hf]
    by_cases hst : s.state t = .runnable
    · have hp : s.passed t = false := by simp [SchedState.passed, hst]
      simp only [if_pos hst, List.dropWhile_cons, List.takeWhile_cons, hp]
      exact ⟨by simpa using h, rfl⟩
    · have hp : s.passed t = true := by simp [SchedState.passed, hst]
      simp only [if_neg hst, List.dropWhile_cons, List.takeWhile_cons, hp, if_true]
      have hr := h.runqRemove ht
      rw [List.erase_cons_head] at hr
      have h' := hr.doneqInsertTail htr ht
      obtain ⟨h1, h2⟩ := ih _ (dq ++ [t]) n h' (by rw [List.length_cons] at hn; omega)
      rw [List.append_assoc] at h1
      exact ⟨h1, h2⟩

/-- **the selection** -/
theorem schedYield_ready (h : RunQueues s rq dq) (hc : s.current ∉ dq) {n : Nat}
    (hn : rq.length + 1 < n) :
    RunQueues (s.schedYield n) ((s.requeued rq).dropWhile s.passed)
        (s.retired dq ++ (s.requeued rq).takeWhile s.passed) ∧
      (s.schedYield n).current = ((s.requeued rq).dropWhile s.passed).headD s.idle := by
  have hl := length_requeued s rq
  have hrest := SchedState.rest_requeueCurrent s
  have hp : s.requeueCurrent.passed = s.passed := by
    unfold SchedState.passed
    rw [SchedState.state_of_rest hrest]
  obtain ⟨h1, h2⟩ := pickLoop_ready _ _ _ n (requeue_ready h hc) (by omega)
  rw [hp] at h1
  rw [hp, SchedState.idle_of_rest hrest] at h2
  rw [SchedState.schedYield_of_some h2]
  exact ⟨h1.switchTo _, rfl⟩

/-! ## step 4 -/

/-- what emptying the done queue leaves alone -/
structure Emptied (s s' : SchedState) : Prop where
  state : s'.state = s.state
  current : s'.current = s.current
  idle : s'.idle = s.idle
  deadline : s'.deadline = s.deadline
  ticks : s'.ticks = s.ticks
  waitLink : s'.waitLink = s.waitLink
  sleepQueue : s'.sleepQueue = s.sleepQueue

theorem Emptied.removeDone (s : SchedState) (m t : Nat) : Emptied s (s.removeDoneThread m t) := by
  obtain ⟨c, hc⟩ := SchedState.threadPut_counts m t (s.doneqRemove t)
  unfold SchedState.removeDoneThread
  rw [hc]
  exact ⟨rfl, rfl, rfl, rfl, rfl, rfl, rfl⟩

theorem Emptied.trans {s₁ s₂ s₃ : SchedState} (h₁ : Emptied s₁ s₂) (h₂ : Emptied s₂ s₃) :
    Emptied s₁ s₃ :=
  ⟨h₂.state.trans h₁.state, h₂.current.trans h₁.current, h₂.idle.trans h₁.idle,
    h₂.deadline.trans h₁.deadline, h₂.ticks.trans h₁.ticks, h₂.waitLink.trans h₁.waitLink,
    h₂.sleepQueue.trans h₁.sleepQueue⟩

theorem RunQueues.removeDone (h : RunQueues s rq (t :: dq)) (m : Nat) :
    RunQueues (s.removeDoneThread m t) rq dq := by
  obtain ⟨c, hc⟩ := SchedState.threadPut_counts m t (s.doneqRemove t)
  have hr := h.doneqRemove
  unfold SchedState.removeDoneThread
  rw [hc]
  exact ⟨hr.run, hr.done, hr.run_done, hr.loose⟩

theorem doneLoop_ready (m : Nat) : ∀ (dq : List Nat) (s : SchedState) (n : Nat),
    RunQueues s rq dq → dq.length ≤ n →
    RunQueues (SchedState.doneLoop m n dq.head? s) rq [] ∧
      Emptied s (SchedState.doneLoop m n dq.head? s) := by
  intro dq
  induction dq with
  | nil =>
    intro s n h _
    have e : SchedState.doneLoop m n ([] : List Nat).head? s = s := by
      cases n <;> rfl
    rw [e]
    exact ⟨h, rfl, rfl, rfl, rfl, rfl, rfl, rfl⟩
  | cons t dq ih =>
    intro s n h hn
    obtain ⟨n, rfl⟩ : ∃ m, n = m + 1 := ⟨n - 1, by rw [List.length_cons] at hn; omega⟩
    have hd : IsList s.runnableLink s.doneQueue ([] ++ t :: dq) := h.done
    have hnext : (s.runnableLink t).next = dq.head? := by rw [hd.link]
    rw [List.head?_cons, SchedState.doneLoop, hnext]
    obtain ⟨h1, h2⟩ := ih (s.removeDoneThread m t) n (h.removeDone m)
      (by rw [List.length_cons] at hn; omega)
    exact ⟨h1, (Emptied.removeDone s m t).trans h2⟩

/-- a scan that finds nobody due does nothing -/
theorem wakeupLoop_none_due {l : SchedState.WaitOn} {h : QHead} (ticks : Int) :
    ∀ (rest kept : List Nat) (n : Nat), IsList s.waitLink h (kept ++ rest) →
    (∀ t ∈ rest, ticks < s.deadline t) → SchedState.wakeupLoop l ticks n rest.head? s = s := by
  intro rest
  induction rest with
  | nil =>
    intro kept n _ _
    cases n <;> rfl
  | cons t rest ih =>
    intro kept n hl hd
    cases n with
    | zero => rfl
    | succ n =>
      have hnext : (s.waitLink t).next = rest.head? := by rw [hl.link]
      have ht := hd t (List.mem_cons_self ..)
      have hl' : IsList s.waitLink h ((kept ++ [t]) ++ rest) := by
        rw [List.append_assoc]
        exact hl
      rw [List.head?_cons, SchedState.wakeupLoop_cons, if_neg (by omega), hnext]
      exact ih (kept ++ [t]) n hl' fun x hx => hd x (List.mem_cons_of_mem _ hx)

/-- nobody on the sleep queue is due -/
structure NoneDue (s : SchedState) (wl : List Nat) : Prop where
  sleep : IsList s.waitLink s.sleepQueue wl
  late : ∀ t ∈ wl, int32 s.ticks < s.deadline t

theorem NoneDue.of_yield {wl : List Nat} (h : NoneDue s wl) (n : Nat) :
    NoneDue (s.schedYield n) wl := by
  have hr := SchedState.rest_schedYield s n
  have e1 : (s.schedYield n).rest.waitLink = s.rest.waitLink := congrArg SchedState.waitLink hr
  have e2 : (s.schedYield n).rest.sleepQueue = s.rest.sleepQueue := congrArg SchedState.sleepQueue hr
  have e3 : (s.schedYield n).rest.ticks = s.rest.ticks := congrArg SchedState.ticks hr
  have e4 : (s.schedYield n).rest.deadline = s.rest.deadline := congrArg SchedState.deadline hr
  have e1 : (s.schedYield n).waitLink = s.waitLink := e1
  have e2 : (s.schedYield n).sleepQueue = s.sleepQueue := e2
  have e3 : (s.schedYield n).ticks = s.ticks := e3
  have e4 : (s.schedYield n).deadline = s.deadline := e4
  constructor
  · rw [e1, e2]
    exact h.sleep
  · rw [e3, e4]
    exact h.late

theorem afterSwitch_ready {wl : List Nat} (h : RunQueues s rq dq) (hw : NoneDue s wl) {n : Nat}
    (hn : dq.length ≤ n) :
    RunQueues (s.afterSwitch n) rq [] ∧ Emptied s (s.afterSwitch n) := by
  obtain ⟨h1, h2⟩ := doneLoop_ready n dq s n h hn
  have hscan : (SchedState.doneLoop n n dq.head? s).wakeupThreads n .sleep
      = SchedState.doneLoop n n dq.head? s := by
    have hl : IsList (SchedState.doneLoop n n dq.head? s).waitLink
        (SchedState.doneLoop n n dq.head? s).sleepQueue ([] ++ wl) := by
      rw [h2.waitLink, h2.sleepQueue]
      exact hw.sleep
    have hf : ((SchedState.doneLoop n n dq.head? s).waitHead .sleep).first = wl.head? := hl.first
    rw [SchedState.wakeupThreads_eq, hf]
    refine wakeupLoop_none_due _ wl [] n hl fun t ht => ?_
    rw [h2.ticks, h2.deadline]
    exact hw.late t ht
  unfold SchedState.afterSwitch
  rw [h.done.first, hscan]
  exact ⟨h1, h2⟩

/-! ## the rotation -/

/-- calls of `sched_yield`, one after the other: the threads selected and the state at the end.  A
thread that was switched to goes on in step 4 of its own last call, unless it never ran before. -/
def SchedState.yields (n : Nat) : List Bool → SchedState → List Nat × SchedState
  | [], s => ([], s)
  | again :: calls, s =>
    let s' := if again then (s.schedYield n).afterSwitch n else s.schedYield n
    let r := yields n calls s'
    (s'.current :: r.1, r.2)

/-- `q` threads are queued, all runnable, the current one in front -/
structure Rotating (s : SchedState) (q dq wl : List Nat) : Prop where
  ready : RunQueues s q dq
  front : q.head? = some s.current
  runnable : ∀ t ∈ q, s.state t = .runnable
  no_idle : s.idle ∉ q
  none_due : NoneDue s wl

variable {q wl : List Nat}

theorem Rotating.yield (h : Rotating s q dq wl) {n : Nat} (hn : q.length + 1 < n) :
    Rotating (s.schedYield n) (q.rotate 1) dq wl := by
  obtain ⟨c, r, rfl⟩ : ∃ c r, q = c :: r := by
    cases q with
    | nil => exact absurd h.front (by simp)
    | cons c r => exact ⟨c, r, rfl⟩
  have hc : s.current = c := (Option.some.inj h.front).symm
  have hmem : c ∈ c :: r := List.mem_cons_self ..
  have hcd : s.current ∉ dq := hc ▸ h.ready.run_done c hmem
  have hci : s.current ≠ s.idle := fun he => h.no_idle (he ▸ hc ▸ hmem)
  have hst : s.state s.current = .runnable := hc ▸ h.runnable c hmem
  have hrest := SchedState.rest_schedYield s n
  have hq : s.requeued (c :: r) = (c :: r).rotate 1 := by
    unfold SchedState.requeued
    rw [if_neg hci, hst, hc, List.rotate_cons_succ, List.rotate_zero]
    show (c :: r).erase c ++ [c] = _
    rw [List.erase_cons_head]
  have hd : s.retired dq = dq := by
    unfold SchedState.retired
    rw [if_neg (fun hn => by rw [hst] at hn; exact nomatch hn.2)]
  have hall : ∀ t ∈ (c :: r).rotate 1, s.state t = .runnable := fun t ht =>
    h.runnable t (List.mem_rotate.mp ht)
  have hdrop : ((c :: r).rotate 1).dropWhile s.passed = (c :: r).rotate 1 ∧
      ((c :: r).rotate 1).takeWhile s.passed = [] := by
    cases hl : (c :: r).rotate 1 with
    | nil => exact ⟨rfl, rfl⟩
    | cons x l =>
      have hx : s.passed x = false := by
        have := hall x (hl ▸ List.mem_cons_self ..)
        simp [SchedState.passed, this]
      rw [List.dropWhile_cons, List.takeWhile_cons, hx]
      exact ⟨rfl, rfl⟩
  obtain ⟨h1, h2⟩ := schedYield_ready h.ready hcd hn
  rw [hq, hd, hdrop.1, hdrop.2, List.append_nil] at h1
  rw [hq, hdrop.1] at h2
  refine ⟨h1, ?_, ?_, ?_, h.none_due.of_yield n⟩
  · rw [h2]
    cases hl : (c :: r).rotate 1 with
    | nil => exact absurd (congrArg List.length hl) (by simp)
    | cons x l => rfl
  · rw [SchedState.state_of_rest hrest]
    exact hall
  · rw [SchedState.idle_of_rest hrest]
    exact fun hi => h.no_idle (List.mem_rotate.mp hi)

theorem Rotating.afterSwitch (h : Rotating s q dq wl) {n : Nat} (hn : dq.length ≤ n) :
    Rotating (s.afterSwitch n) q [] wl := by
  obtain ⟨h1, h2⟩ := afterSwitch_ready h.ready h.none_due hn
  refine ⟨h1, ?_, ?_, ?_, ?_, ?_⟩
  · rw [h2.current]
    exact h.front
  · rw [h2.state]
    exact h.runnable
  · rw [h2.idle]
    exact h.no_idle
  · rw [h2.waitLink, h2.sleepQueue]
    exact h.none_due.sleep
  · rw [h2.ticks, h2.deadline]
    exact h.none_due.late

/-- **the rotation**, by induction on the calls: the `i`-th of them selects the front of the queue
turned `i + 1` times -/
theorem Rotating.yields : ∀ (calls : List Bool) {s : SchedState} {q dq : List Nat} {n : Nat},
    Rotating s q dq wl → q.length + 1 < n → dq.length ≤ n →
    (SchedState.yields n calls s).1.map some
        = (List.range calls.length).map (fun i => (q.rotate (i + 1)).head?) ∧
      ∃ dq', Rotating (SchedState.yields n calls s).2 (q.rotate calls.length) dq' wl := by
  intro calls
  induction calls with
  | nil =>
    intro s q dq n h _ _
    refine ⟨rfl, dq, ?_⟩
    rw [List.length_nil, List.rotate_zero]
    exact h
  | cons again calls ih =>
    intro s q dq n h hn hd
    have hy := h.yield hn
    have hq : (q.rotate 1).length + 1 < n := by
      rw [List.length_rotate]
      exact hn
    have key : ∀ {s' : SchedState} {dq' : List Nat}, Rotating s' (q.rotate 1) dq' wl → dq'.length ≤ n →
        (s'.current :: (SchedState.yields n calls s').1).map some
          = (List.range (calls.length + 1)).map (fun i => (q.rotate (i + 1)).head?) ∧
        ∃ dq'', Rotating (SchedState.yields n calls s').2 (q.rotate (calls.length + 1)) dq'' wl := by
      intro s' dq' h' hd'
      obtain ⟨h1, dq'', h2⟩ := ih h' hq hd'
      rw [List.rotate_rotate, Nat.add_comm 1] at h2
      refine ⟨?_, dq'', h2⟩
      rw [List.map_cons, List.range_succ_eq_map, List.map_cons, List.map_map, h1, ← h'.front]
      refine congrArg₂ List.cons rfl (List.map_congr_left fun i _ => ?_)
      rw [List.rotate_rotate, Nat.add_comm 1]
      rfl
    cases again with
    | true => exact key (hy.afterSwitch hd) (Nat.zero_le _)
    | false => exact key hy hd

/-- the selections of one round -/
theorem rotate_heads (q : List Nat) :
    (List.range q.length).map (fun i => (q.rotate (i + 1)).head?) = (q.rotate 1).map some := by
  refine List.ext_getElem (by simp) fun i h1 h2 => ?_
  have hi : i < q.length := by simpa using h1
  have hpos : 0 < (q.rotate (i + 1)).length := by
    rw [List.length_rotate]
    omega
  rw [List.getElem_map, List.getElem_map, List.getElem_range, List.head?_eq_getElem?,
    List.getElem?_eq_getElem hpos, List.getElem_rotate, List.getElem_rotate]
  simp

/-- **`sched_yield` is a fair round robin.**  The outgoing thread, unless it is the idle thread, goes
to the end of the run queue when it is runnable and to the end of the done queue when it is done, and
is left where it is otherwise.  Then the first runnable thread of the run queue is selected, and the
idle thread when there is none; the threads in front of it go to the done queue in order.  When all
threads queued are runnable, the current one is in front and no sleeper is due, one call for each
thread selects each of them once, and leaves the queue as it was. -/
theorem yield_round_robin {n : Nat} (h : RunQueues s q dq) (hc : s.current ∉ dq) (hi : s.idle ∉ q)
    (hn : q.length + 1 < n) (hd : dq.length ≤ n) :
    RunQueues (s.schedYield n) ((s.requeued q).dropWhile s.passed)
        (s.retired dq ++ (s.requeued q).takeWhile s.passed) ∧
      (s.schedYield n).current = ((s.requeued q).dropWhile s.passed).headD s.idle ∧
      ((s.schedYield n).current = s.idle ↔ ∀ t ∈ s.requeued q, s.state t ≠ .runnable) ∧
      (s.schedYield n).rest = s.rest ∧
      (q.head? = some s.current → (∀ t ∈ q, s.state t = .runnable) → NoneDue s wl →
        ∀ calls : List Bool, calls.length = q.length →
          (SchedState.yields n calls s).1 = q.rotate 1 ∧ (SchedState.yields n calls s).1.Perm q ∧
            ∃ dq', RunQueues (SchedState.yields n calls s).2 q dq') := by
  obtain ⟨h1, h2⟩ := schedYield_ready h hc hn
  refine ⟨h1, h2, ?_, s.rest_schedYield n, fun hf hall hw calls hl => ?_⟩
  · rw [h2]
    constructor
    · intro he t ht hst
      have hmem : ∀ x ∈ (s.requeued q).dropWhile s.passed, x ≠ s.idle := fun x hx =>
        mem_requeued ((List.dropWhile_sublist _).subset hx) hi
      cases hdw : (s.requeued q).dropWhile s.passed with
      | nil =>
        have := List.dropWhile_eq_nil_iff.mp hdw t ht
        simp [SchedState.passed, hst] at this
      | cons x l =>
        rw [hdw] at he hmem
        exact hmem x (List.mem_cons_self ..) he
    · intro hall
      have hdw : (s.requeued q).dropWhile s.passed = [] :=
        List.dropWhile_eq_nil_iff.mpr fun t ht => by simp [SchedState.passed, hall t ht]
      rw [hdw]
      rfl
  · obtain ⟨h3, dq', h4⟩ := Rotating.yields calls ⟨h, hf, hall, hi, hw⟩ hn hd
    rw [hl, rotate_heads] at h3
    rw [hl, List.rotate_length] at h4
    have h5 : (SchedState.yields n calls s).1 = q.rotate 1 :=
      (List.map_injective_iff.mpr (fun a b he => Option.some.inj he)) h3
    refine ⟨h5, ?_, dq', h4.ready⟩
    rw [h5]
    exact q.rotate_perm 1

end

/-! ## two runs of three threads -/

/-- threads 1, 2 and 3 are queued, 1 is running -/
def threeReady : SchedState :=
  { SchedState.bare with
    state := fun _ => .runnable
    current := 1
    runnableLink := fun t =>
      if t = 1 then ⟨some 2, none⟩ else if t = 2 then ⟨some 3, some 1⟩
      else if t = 3 then ⟨none, some 2⟩ else .null
    runnableQueue := ⟨some 1, some 3⟩ }

theorem threeReady_ready : RunQueues threeReady [1, 2, 3] [] where
  run := ⟨⟨rfl, rfl, rfl, trivial⟩, rfl, rfl, by decide⟩
  done := IsList.nil
  run_done := by simp
  loose := by
    intro t ht _
    simp only [List.mem_cons, List.not_mem_nil, or_false, not_or] at ht
    show (if t = 1 then _ else if t = 2 then _ else if t = 3 then _ else _) = _
    rw [if_neg ht.1, if_neg ht.2.1, if_neg ht.2.2]

theorem threeReady_none_due : NoneDue threeReady [] := ⟨IsList.nil, fun t ht => nomatch ht⟩

theorem yield_round_robin_three :
    (SchedState.yields 9 [true, false, true] threeReady).1 = [1, 2, 3].rotate 1 ∧
      (SchedState.yields 9 [true, false, true] threeReady).1.Perm [1, 2, 3] ∧
      ∃ dq', RunQueues (SchedState.yields 9 [true, false, true] threeReady).2 [1, 2, 3] dq' :=
  (yield_round_robin threeReady_ready (fun h => nomatch h) (by decide) (by decide)
    (by decide)).2.2.2.2 rfl (fun _ _ => rfl) threeReady_none_due [true, false, true] rfl

/-- the same threads, but 3 is running, and done -/
def doneLast : SchedState :=
  { threeReady with
    state := fun t => if t = 3 then .done else .runnable
    current := 3 }

/-- thread 3 is behind the thread selected, and goes to the done queue all the same -/
theorem yield_done_behind :
    RunQueues doneLast [1, 2, 3] [] ∧ doneLast.state doneLast.current = .done ∧
      ¬ RunQueues (doneLast.schedYield 9)
        (([1, 2, 3].erase doneLast.current).dropWhile doneLast.passed)
        ([] ++ ([1, 2, 3].erase doneLast.current).takeWhile doneLast.passed) := by
  refine ⟨⟨threeReady_ready.run, threeReady_ready.done, threeReady_ready.run_done,
    threeReady_ready.loose⟩, rfl, fun h => ?_⟩
  have hf : (doneLast.schedYield 9).doneQueue.first = some 3 := rfl
  rw [h.done.first] at hf
  exact nomatch hf

end Paravirt

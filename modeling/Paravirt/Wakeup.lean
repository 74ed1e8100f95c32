import Paravirt.Sched

/-!
# Waking threads up

* `Queues s l wl rq dq`   the wait list `l`, the run queue and the done queue spell `wl`, `rq`, `dq`;
* `Queues.wakeup`         one expired thread leaves the list for one of the queues;
* `wakeupLoop_pass`       the loop, by induction on what is left of the list;
* `wakeup_pass`           one whole pass of `sched_wakeup_threads`;
* `sleep_on_time_iff`     which sleepers a scan wakes at the right time.
-/

set_option linter.unusedSectionVars false
set_option linter.unusedVariables false

namespace Paravirt
open DList

namespace SchedState
variable {s : SchedState} {l : WaitOn}

/-! ## what the parts of a pass leave alone -/

@[simp] theorem waitHead_setWaitHead (s : SchedState) (l : WaitOn) (links : Links) (h : QHead) :
    (s.setWaitHead l links h).waitHead l = h := by
  cases l with
  | sleep => rfl
  | selfWait t => exact Function.update_self ..
  | wait t => exact Function.update_self ..

@[simp] theorem waitLink_setWaitHead (s : SchedState) (l : WaitOn) (links : Links) (h : QHead) :
    (s.setWaitHead l links h).waitLink = links := by
  cases l <;> rfl

/-- the fields that `setWaitHead` has nothing to do with -/
theorem setWaitHead_other (s : SchedState) (l : WaitOn) (links : Links) (h : QHead) :
    (s.setWaitHead l links h).state = s.state ∧ (s.setWaitHead l links h).count = s.count ∧
      (s.setWaitHead l links h).deadline = s.deadline ∧ (s.setWaitHead l links h).ticks = s.ticks ∧
      (s.setWaitHead l links h).runnableLink = s.runnableLink ∧
      (s.setWaitHead l links h).runnableQueue = s.runnableQueue ∧
      (s.setWaitHead l links h).doneQueue = s.doneQueue := by
  cases l <;> exact ⟨rfl, rfl, rfl, rfl, rfl, rfl, rfl⟩

/-- the state after a list was cut and the thread went to the front of the run queue -/
theorem waitHead_runqInsertFront (s : SchedState) (st : ThreadState) (t : Nat) (l : WaitOn) :
    (((s.setState t st).runqInsertFront t).waitHead l) = s.waitHead l := by
  cases l <;> rfl

theorem waitHead_doneqInsertTail (s : SchedState) (t : Nat) (l : WaitOn) :
    (s.doneqInsertTail t).waitHead l = s.waitHead l := by
  cases l <;> rfl

/-- a thread whose deadline has come -/
def expired (s : SchedState) (ticks : Int) (t : Nat) : Bool := s.deadline t ≤ ticks

/-- the expired threads that wait, and those that do not -/
def woken (s : SchedState) (ticks : Int) (t : Nat) : Bool :=
  s.expired ticks t && s.state t = .waiting

def leftover (s : SchedState) (ticks : Int) (t : Nat) : Bool :=
  s.expired ticks t && !(s.state t = .waiting)

theorem wakeupThreads_eq (s : SchedState) (n : Nat) (l : WaitOn) :
    s.wakeupThreads n l = wakeupLoop l (int32 s.ticks) n (s.waitHead l).first s := by
  rw [wakeupThreads]

theorem wakeupLoop_cons (l : WaitOn) (ticks : Int) (n t : Nat) (s : SchedState) :
    wakeupLoop l ticks (n + 1) (some t) s = wakeupLoop l ticks n (s.waitLink t).next
      (if s.deadline t ≤ ticks then s.wakeup l t else s) := rfl

end SchedState

/-- the three lists of a pass, none of which shares a thread with another -/
structure Queues (s : SchedState) (l : SchedState.WaitOn) (wl rq dq : List Nat) : Prop where
  wait : IsList s.waitLink (s.waitHead l) wl
  run : IsList s.runnableLink s.runnableQueue rq
  done : IsList s.runnableLink s.doneQueue dq
  run_done : ∀ t ∈ rq, t ∉ dq
  wait_run : ∀ t ∈ wl, t ∉ rq
  wait_done : ∀ t ∈ wl, t ∉ dq

section
variable {s : SchedState} {l : SchedState.WaitOn} {wl kept rest rq dq : List Nat} {t : Nat}
    {ticks : Int}

namespace Queues

theorem kept_rest_nodup (h : Queues s l (kept ++ t :: rest) rq dq) : t ∉ kept ∧ t ∉ rest :=
  (h.wait.split_nodup).2

/-- the list after the thread was taken off -/
theorem waitRemove (h : Queues s l (kept ++ t :: rest) rq dq) :
    Queues (s.waitRemove l t) l (kept ++ rest) rq dq := by
  obtain ⟨-, -, -, -, e1, e2, e3⟩ := s.setWaitHead_other l
    (DList.remove s.waitLink (s.waitHead l) t).1 (DList.remove s.waitLink (s.waitHead l) t).2
  have hsub : ∀ x ∈ kept ++ rest, x ∈ kept ++ t :: rest := fun x hx =>
    (List.mem_append.mp hx).elim (fun h => List.mem_append_left _ h)
      fun h => List.mem_append_right _ (List.mem_cons_of_mem _ h)
  unfold SchedState.waitRemove
  refine ⟨?_, ?_, ?_, h.run_done, fun x hx => h.wait_run x (hsub x hx),
    fun x hx => h.wait_done x (hsub x hx)⟩
  · rw [SchedState.waitLink_setWaitHead, SchedState.waitHead_setWaitHead]
    exact h.wait.remove
  · rw [e1, e2]
    exact h.run
  · rw [e1, e3]
    exact h.done

/-- **one expired thread** -/
theorem wakeup (h : Queues s l (kept ++ t :: rest) rq dq) :
    (s.state t = .waiting → Queues (s.wakeup l t) l (kept ++ rest) (t :: rq) dq) ∧
      (s.state t ≠ .waiting → Queues (s.wakeup l t) l (kept ++ rest) rq (dq ++ [t])) := by
  have hr := h.waitRemove
  have ht : t ∈ kept ++ t :: rest := List.mem_append_right _ (List.mem_cons_self ..)
  have htr := h.wait_run t ht
  have htd := h.wait_done t ht
  have htw : ∀ x ∈ kept ++ rest, x ≠ t := by
    obtain ⟨-, h1, h2⟩ := h.wait.split_nodup
    intro x hx he
    subst he
    exact (List.mem_append.mp hx).elim h1 h2
  have hst : (s.waitRemove l t).state t = s.state t := by
    unfold SchedState.waitRemove
    rw [(s.setWaitHead_other l _ _).1]
  unfold SchedState.wakeup
  simp only [hst]
  constructor
  · intro hw
    rw [if_pos hw]
    obtain ⟨h1, h2⟩ := hr.run.insertFront_both hr.done hr.run_done htr htd
    refine ⟨?_, h1, h2, ?_, ?_, hr.wait_done⟩
    · rw [SchedState.waitHead_runqInsertFront]
      exact hr.wait
    · intro x hx
      rcases List.mem_cons.mp hx with rfl | hx
      · exact htd
      · exact hr.run_done x hx
    · intro x hx hx'
      rcases List.mem_cons.mp hx' with he | hx'
      · exact htw x hx he
      · exact hr.wait_run x hx hx'
  · intro hw
    rw [if_neg hw]
    obtain ⟨h1, h2⟩ := hr.done.insertTail_both hr.run (fun x hx hx' => hr.run_done x hx' hx) htd htr
    refine ⟨?_, h2, h1, ?_, hr.wait_run, ?_⟩
    · rw [SchedState.waitHead_doneqInsertTail]
      exact hr.wait
    · intro x hx hx'
      rcases List.mem_append.mp hx' with hx' | hx'
      · exact hr.run_done x hx hx'
      · exact htr (List.mem_singleton.mp hx' ▸ hx)
    · intro x hx hx'
      rcases List.mem_append.mp hx' with hx' | hx'
      · exact hr.wait_done x hx hx'
      · exact htw x hx (List.mem_singleton.mp hx')

end Queues

/-- what waking one thread does to the other fields -/
theorem wakeup_fields (s : SchedState) (l : SchedState.WaitOn) (t : Nat) :
    (s.wakeup l t).count = s.count ∧ (s.wakeup l t).deadline = s.deadline ∧
      (s.wakeup l t).ticks = s.ticks ∧
      (s.wakeup l t).state =
        if s.state t = .waiting then Function.update s.state t .runnable else s.state := by
  obtain ⟨e1, e2, e3, e4, -⟩ := s.setWaitHead_other l
    (DList.remove s.waitLink (s.waitHead l) t).1 (DList.remove s.waitLink (s.waitHead l) t).2
  unfold SchedState.wakeup SchedState.waitRemove
  simp only [e1]
  by_cases hw : s.state t = .waiting
  · rw [if_pos hw, if_pos hw]
    refine ⟨e2, e3, e4, ?_⟩
    show Function.update _ t _ = _
    rw [e1]
  · rw [if_neg hw, if_neg hw]
    exact ⟨e2, e3, e4, e1⟩

/-- what a pass over `rest` leaves -/
structure Passed (s s' : SchedState) (ticks : Int) (rest : List Nat) : Prop where
  count : s'.count = s.count
  deadline : s'.deadline = s.deadline
  counter : s'.ticks = s.ticks
  state : ∀ t, s'.state t = if t ∈ rest ∧ s.woken ticks t then .runnable else s.state t

/-- waking `t` leaves the states of the other threads alone -/
theorem wakeup_state_of_ne (s : SchedState) (l : SchedState.WaitOn) {t x : Nat} (hne : x ≠ t) :
    (s.wakeup l t).state x = s.state x := by
  obtain ⟨-, -, -, h⟩ := wakeup_fields s l t
  rw [h]
  split
  · exact Function.update_of_ne hne _ _
  · rfl

theorem wakeup_expired (s : SchedState) (l : SchedState.WaitOn) (ticks : Int) (t x : Nat) :
    (s.wakeup l t).expired ticks x = s.expired ticks x := by
  obtain ⟨-, h, -, -⟩ := wakeup_fields s l t
  unfold SchedState.expired
  rw [h]

theorem wakeup_woken_of_ne (s : SchedState) (l : SchedState.WaitOn) (ticks : Int) {t x : Nat}
    (hne : x ≠ t) : (s.wakeup l t).woken ticks x = s.woken ticks x := by
  unfold SchedState.woken
  rw [wakeup_expired, wakeup_state_of_ne s l hne]

theorem wakeup_leftover_of_ne (s : SchedState) (l : SchedState.WaitOn) (ticks : Int) {t x : Nat}
    (hne : x ≠ t) : (s.wakeup l t).leftover ticks x = s.leftover ticks x := by
  unfold SchedState.leftover
  rw [wakeup_expired, wakeup_state_of_ne s l hne]

/-- the rest of the list splits after waking `t` as it did before -/
theorem wakeup_filters (s : SchedState) (l : SchedState.WaitOn) (ticks : Int) (ht : t ∉ rest) :
    (rest.filter fun x => !(s.wakeup l t).expired ticks x)
        = (rest.filter fun x => !s.expired ticks x) ∧
      rest.filter ((s.wakeup l t).woken ticks) = rest.filter (s.woken ticks) ∧
      rest.filter ((s.wakeup l t).leftover ticks) = rest.filter (s.leftover ticks) := by
  have hne : ∀ x ∈ rest, x ≠ t := fun x hx he => ht (he ▸ hx)
  refine ⟨?_, ?_, ?_⟩
  · exact List.filter_congr fun x _ => by rw [wakeup_expired]
  · exact List.filter_congr fun x hx => wakeup_woken_of_ne s l ticks (hne x hx)
  · exact List.filter_congr fun x hx => wakeup_leftover_of_ne s l ticks (hne x hx)

namespace Passed
variable {s' : SchedState}

/-- nothing is left to pass over -/
theorem refl (s : SchedState) (ticks : Int) : Passed s s ticks [] where
  count := rfl
  deadline := rfl
  counter := rfl
  state := fun _ => by rw [if_neg (fun h => absurd h.1 List.not_mem_nil)]

/-- the first thread is due: it is woken, then the rest is passed over -/
theorem wake (hp : Passed (s.wakeup l t) s' ticks rest) (hexp : s.expired ticks t = true)
    (ht : t ∉ rest) : Passed s s' ticks (t :: rest) := by
  obtain ⟨f1, f2, f3, f4⟩ := wakeup_fields s l t
  refine ⟨hp.count.trans f1, hp.deadline.trans f2, hp.counter.trans f3, fun x => ?_⟩
  rw [hp.state x]
  by_cases hx : x = t
  · subst hx
    rw [if_neg (fun hc => ht hc.1), f4]
    by_cases hw : s.state x = .waiting
    · rw [if_pos hw, Function.update_self, if_pos]
      exact ⟨List.mem_cons_self .., by simp [SchedState.woken, hexp, hw]⟩
    · rw [if_neg hw, if_neg]
      simp [SchedState.woken, hw]
  · rw [wakeup_woken_of_ne s l ticks hx, wakeup_state_of_ne s l hx]
    simp [hx]

/-- the first thread is not due -/
theorem keep (hp : Passed s s' ticks rest) (hexp : s.expired ticks t = false) :
    Passed s s' ticks (t :: rest) := by
  refine ⟨hp.count, hp.deadline, hp.counter, fun x => ?_⟩
  have hwt : s.woken ticks t = false := by simp [SchedState.woken, hexp]
  rw [hp.state x]
  by_cases hx : x = t
  · subst hx
    rw [if_neg (fun hc => absurd hc.2 (by rw [hwt]; decide)),
      if_neg (fun hc => absurd hc.2 (by rw [hwt]; decide))]
  · simp [hx]

end Passed

/-- what is left of the three lists after a pass over `rest`, the threads of `kept` behind it -/
def AfterPass (s s' : SchedState) (l : SchedState.WaitOn) (ticks : Int)
    (kept rest rq dq : List Nat) : Prop :=
  Queues s' l (kept ++ rest.filter fun t => !s.expired ticks t)
    ((rest.filter (s.woken ticks)).reverse ++ rq) (dq ++ rest.filter (s.leftover ticks))

namespace AfterPass
variable {s' : SchedState}

/-- a thread that waited goes to the front of the run queue -/
theorem run (h : AfterPass (s.wakeup l t) s' l ticks kept rest (t :: rq) dq) (ht : t ∉ rest)
    (hexp : s.expired ticks t = true) (hw : s.state t = .waiting) :
    AfterPass s s' l ticks kept (t :: rest) rq dq := by
  have hwt : s.woken ticks t = true := by simp [SchedState.woken, hexp, hw]
  have hlt : s.leftover ticks t = false := by simp [SchedState.leftover, hw]
  obtain ⟨e1, e2, e3⟩ := wakeup_filters s l ticks ht
  unfold AfterPass at h ⊢
  rw [e1, e2, e3] at h
  rw [List.filter_cons_of_neg (by rw [hexp]; decide), List.filter_cons_of_pos hwt,
    List.filter_cons_of_neg (by rw [hlt]; decide), List.reverse_cons, List.append_assoc]
  exact h

/-- one that did not goes to the end of the done queue -/
theorem done (h : AfterPass (s.wakeup l t) s' l ticks kept rest rq (dq ++ [t])) (ht : t ∉ rest)
    (hexp : s.expired ticks t = true) (hw : s.state t ≠ .waiting) :
    AfterPass s s' l ticks kept (t :: rest) rq dq := by
  have hwt : s.woken ticks t = false := by simp [SchedState.woken, hw]
  have hlt : s.leftover ticks t = true := by simp [SchedState.leftover, hexp, hw]
  obtain ⟨e1, e2, e3⟩ := wakeup_filters s l ticks ht
  unfold AfterPass at h ⊢
  rw [e1, e2, e3, List.append_assoc] at h
  rw [List.filter_cons_of_neg (by rw [hexp]; decide),
    List.filter_cons_of_neg (by rw [hwt]; decide), List.filter_cons_of_pos hlt]
  exact h

/-- one that is not due stays on the list -/
theorem keep (h : AfterPass s s' l ticks (kept ++ [t]) rest rq dq)
    (hexp : s.expired ticks t = false) : AfterPass s s' l ticks kept (t :: rest) rq dq := by
  have hwt : s.woken ticks t = false := by simp [SchedState.woken, hexp]
  have hlt : s.leftover ticks t = false := by simp [SchedState.leftover, hexp]
  unfold AfterPass at h ⊢
  rw [List.append_assoc] at h
  rw [List.filter_cons_of_pos (by rw [hexp]; decide),
    List.filter_cons_of_neg (by rw [hwt]; decide), List.filter_cons_of_neg (by rw [hlt]; decide)]
  exact h

end AfterPass

/-- **the loop**, by induction on the rest of the list -/
theorem wakeupLoop_pass (ticks : Int) : ∀ (rest : List Nat) (s : SchedState) (kept rq dq : List Nat)
    (n : Nat), rest.length ≤ n → Queues s l (kept ++ rest) rq dq →
    AfterPass s (SchedState.wakeupLoop l ticks n rest.head? s) l ticks kept rest rq dq ∧
      Passed s (SchedState.wakeupLoop l ticks n rest.head? s) ticks rest := by
  intro rest
  induction rest with
  | nil =>
    intro s kept rq dq n _ h
    have e : SchedState.wakeupLoop l ticks n ([] : List Nat).head? s = s := by
      cases n <;> rfl
    rw [e]
    exact ⟨by simpa [AfterPass] using h, Passed.refl s ticks⟩
  | cons t rest ih =>
    intro s kept rq dq n hn h
    obtain ⟨n, rfl⟩ : ∃ m, n = m + 1 := ⟨n - 1, by rw [List.length_cons] at hn; omega⟩
    have hn' : rest.length ≤ n := by
      rw [List.length_cons] at hn
      omega
    obtain ⟨-, htr⟩ := h.kept_rest_nodup
    have hnext : (s.waitLink t).next = rest.head? := by rw [h.wait.link]
    rw [List.head?_cons, SchedState.wakeupLoop_cons, hnext]
    by_cases hex : s.deadline t ≤ ticks
    · rw [if_pos hex]
      have hexp : s.expired ticks t = true := decide_eq_true hex
      by_cases hw : s.state t = .waiting
      · obtain ⟨hq, hp⟩ := ih (s.wakeup l t) kept (t :: rq) dq n hn' (h.wakeup.1 hw)
        exact ⟨hq.run htr hexp hw, hp.wake hexp htr⟩
      · obtain ⟨hq, hp⟩ := ih (s.wakeup l t) kept rq (dq ++ [t]) n hn' (h.wakeup.2 hw)
        exact ⟨hq.done htr hexp hw, hp.wake hexp htr⟩
    · rw [if_neg hex]
      have hexp : s.expired ticks t = false := decide_eq_false hex
      have hk : kept ++ t :: rest = (kept ++ [t]) ++ rest := by rw [List.append_assoc]; rfl
      rw [hk] at h
      obtain ⟨hq, hp⟩ := ih s (kept ++ [t]) rq dq n hn' h
      exact ⟨hq.keep hexp, hp.keep hexp⟩

/-- more turns than there are threads left change nothing -/
theorem wakeupLoop_turns (ticks : Int) :
    ∀ (rest : List Nat) (s : SchedState) (kept rq dq : List Nat)
    (n : Nat), rest.length ≤ n → Queues s l (kept ++ rest) rq dq →
    SchedState.wakeupLoop l ticks n rest.head? s
      = SchedState.wakeupLoop l ticks rest.length rest.head? s := by
  intro rest
  induction rest with
  | nil =>
    intro s kept rq dq n _ _
    cases n <;> rfl
  | cons t rest ih =>
    intro s kept rq dq n hn h
    obtain ⟨n, rfl⟩ : ∃ m, n = m + 1 := ⟨n - 1, by rw [List.length_cons] at hn; omega⟩
    have hn' : rest.length ≤ n := by
      rw [List.length_cons] at hn
      omega
    have hnext : (s.waitLink t).next = rest.head? := by rw [h.wait.link]
    rw [List.head?_cons, List.length_cons, SchedState.wakeupLoop_cons, SchedState.wakeupLoop_cons, hnext]
    by_cases hex : s.deadline t ≤ ticks
    · rw [if_pos hex]
      by_cases hw : s.state t = .waiting
      · exact ih _ kept (t :: rq) dq n hn' (h.wakeup.1 hw)
      · exact ih _ kept rq (dq ++ [t]) n hn' (h.wakeup.2 hw)
    · rw [if_neg hex]
      have hk : kept ++ t :: rest = (kept ++ [t]) ++ rest := by rw [List.append_assoc]; rfl
      rw [hk] at h
      exact ih s (kept ++ [t]) rq dq n hn' h

/-- **a pass of `sched_wakeup_threads`**: it ends after as many turns as there are threads on the
list; the expired threads have left it, those that waited for the front of the run queue, the others
for the end of the done queue -/
theorem wakeup_pass (h : Queues s l wl rq dq) (n : Nat) (hn : wl.length ≤ n) :
    Queues (s.wakeupThreads n l) l (wl.filter fun t => !s.expired (int32 s.ticks) t)
        ((wl.filter (s.woken (int32 s.ticks))).reverse ++ rq)
        (dq ++ wl.filter (s.leftover (int32 s.ticks))) ∧
      Passed s (s.wakeupThreads n l) (int32 s.ticks) wl ∧
      s.wakeupThreads n l = s.wakeupThreads wl.length l := by
  rw [SchedState.wakeupThreads_eq, SchedState.wakeupThreads_eq, h.wait.first]
  obtain ⟨hq, hp⟩ := wakeupLoop_pass (int32 s.ticks) wl s [] rq dq n hn h
  exact ⟨hq, hp, wakeupLoop_turns (int32 s.ticks) wl s [] rq dq n hn h⟩

end

/-! ## three threads asleep -/

/-- thread 1 runs; 2, 3 and 4 are on the sleep queue, of which 3 was killed and 4 sleeps on -/
def sleepers : SchedState :=
  { SchedState.bare with
    state := fun t => if t = 1 then .runnable else if t = 3 then .zombie else .waiting
    deadline := fun t => if t = 4 then 9 else 5
    current := 1
    ticks := 5
    waitLink := fun t =>
      if t = 2 then ⟨some 3, none⟩ else if t = 3 then ⟨some 4, some 2⟩
      else if t = 4 then ⟨none, some 3⟩ else .null
    sleepQueue := ⟨some 2, some 4⟩
    runnableQueue := ⟨some 1, some 1⟩ }

theorem sleepers_queues : Queues sleepers .sleep [2, 3, 4] [1] [] where
  wait := ⟨⟨rfl, rfl, rfl, trivial⟩, rfl, rfl, by decide⟩
  run := ⟨⟨rfl, trivial⟩, rfl, rfl, by decide⟩
  done := IsList.nil
  run_done := by simp
  wait_run := by simp
  wait_done := by simp

theorem wakeup_pass_sleepers :
    Queues (sleepers.wakeupThreads 7 .sleep) .sleep
        ([2, 3, 4].filter fun t => !sleepers.expired (int32 sleepers.ticks) t)
        (([2, 3, 4].filter (sleepers.woken (int32 sleepers.ticks))).reverse ++ [1])
        ([] ++ [2, 3, 4].filter (sleepers.leftover (int32 sleepers.ticks))) ∧
      Passed sleepers (sleepers.wakeupThreads 7 .sleep) (int32 sleepers.ticks) [2, 3, 4] ∧
      sleepers.wakeupThreads 7 .sleep = sleepers.wakeupThreads [2, 3, 4].length .sleep :=
  wakeup_pass sleepers_queues 7 (by decide)

end Paravirt

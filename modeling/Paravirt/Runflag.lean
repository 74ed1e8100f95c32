import Paravirt.Yield

/-!
# cas2i_runflag

* `flagWanted`             the state that the two comparisons ask for, if one of them matches;
* `DoubleCas`              what a double compare-and-swap of the run flag does;
* `cas2i_runflag_iff`      `sys_cas2i_runflag` is one, but for threads that wait and for suspended
                           threads that neither comparison matches.
-/

set_option linter.unusedSectionVars false
set_option linter.unusedVariables false

namespace Paravirt
open DList

/-! ## the double compare-and-swap -/

/-- the run flag of a thread is 0 when it is runnable and negative when it is suspended -/
def flagMatches (st : ThreadState) (ev : Int) : Prop :=
  (ev = 0 ∧ st = .runnable) ∨ (ev < 0 ∧ st = .suspended)

instance (st : ThreadState) (ev : Int) : Decidable (flagMatches st ev) :=
  inferInstanceAs (Decidable (_ ∨ _))

/-- the state a new value denotes -/
def flagState (nv : Int) : ThreadState := if nv < 0 then .suspended else .runnable

def flagWanted (st : ThreadState) (ev1 nv1 ev2 nv2 : Int) : Option ThreadState :=
  if flagMatches st ev1 then some (flagState nv1)
  else if flagMatches st ev2 then some (flagState nv2)
  else none

/-- a thread that is not in the map, or that would be suspended by another -/
def flagRefused (s : SchedState) (t : Nat) (new : ThreadState) : Prop :=
  s.inMap t = false ∨ (new = .suspended ∧ (t ≠ s.current ∨ s.state t ≠ .runnable))

/-- what belongs to one thread is as before, and so are the queues -/
structure ThreadKept (s s' : SchedState) (t : Nat) : Prop where
  state : s'.state t = s.state t
  count : s'.count t = s.count t
  runnableLink : s'.runnableLink = s.runnableLink
  runnableQueue : s'.runnableQueue = s.runnableQueue
  waitLink : s'.waitLink = s.waitLink
  waitHead : ∀ l, s'.waitHead l = s.waitHead l

structure DoubleCas (s s' : SchedState) (t : Nat) (ev1 nv1 ev2 nv2 : Int) : Prop where
  swapped : ∀ new, flagWanted (s.state t) ev1 nv1 ev2 nv2 = some new → ¬ flagRefused s t new →
    s'.state t = new ∧ ∃ rq dq, RunQueues s' rq dq ∧ t ∉ dq ∧ (t ∈ rq ↔ new = .runnable)
  kept : (∀ new, flagWanted (s.state t) ev1 nv1 ev2 nv2 = some new → flagRefused s t new) →
    ThreadKept s s' t

section
variable {s : SchedState} {rq dq : List Nat} {t n : Nat} {ev1 nv1 ev2 nv2 : Int}

theorem ThreadKept.refl (s : SchedState) (t : Nat) : ThreadKept s s t :=
  ⟨rfl, rfl, rfl, rfl, rfl, fun _ => rfl⟩

/-- the code's new state is the one wanted, and runnable where none is -/
theorem runflagState_eq (st : ThreadState) (ev1 nv1 ev2 nv2 : Int) :
    SchedState.runflagState st ev1 nv1 ev2 nv2 = (flagWanted st ev1 nv1 ev2 nv2).getD .runnable := by
  unfold SchedState.runflagState flagWanted
  by_cases h1 : flagMatches st ev1
  · rw [if_pos h1]
    exact if_pos h1
  · rw [if_neg h1]
    refine (if_neg h1).trans ?_
    by_cases h2 : flagMatches st ev2
    · rw [if_pos h2]
      exact if_pos h2
    · rw [if_neg h2]
      exact if_neg h2

theorem flagWanted_eq_none_iff :
    flagWanted (s.state t) ev1 nv1 ev2 nv2 = none ↔
      ¬ flagMatches (s.state t) ev1 ∧ ¬ flagMatches (s.state t) ev2 := by
  unfold flagWanted
  split
  · next h => exact ⟨nofun, fun hn => absurd h hn.1⟩
  · next h =>
    split
    · next h' => exact ⟨nofun, fun hn => absurd h' hn.2⟩
    · next h' => exact ⟨fun _ => ⟨h, h'⟩, fun _ => rfl⟩

theorem flagWanted_some {new : ThreadState}
    (h : flagWanted (s.state t) ev1 nv1 ev2 nv2 = some new) :
    (s.state t = .runnable ∨ s.state t = .suspended) ∧ (new = .runnable ∨ new = .suspended) := by
  have hm : ∀ ev, flagMatches (s.state t) ev → s.state t = .runnable ∨ s.state t = .suspended :=
    fun ev he => he.elim (fun h => .inl h.2) fun h => .inr h.2
  have hf : ∀ nv, flagState nv = .runnable ∨ flagState nv = .suspended := by
    intro nv
    unfold flagState
    split
    · exact .inr rfl
    · exact .inl rfl
  unfold flagWanted at h
  split at h
  · next he => exact ⟨hm _ he, Option.some.inj h ▸ hf nv1⟩
  · split at h
    · next he => exact ⟨hm _ he, Option.some.inj h ▸ hf nv2⟩
    · exact nomatch h

/-- the queues do not depend on counts and states -/
theorem RunQueues.congr {s' : SchedState} (h : RunQueues s rq dq)
    (h1 : s'.runnableLink = s.runnableLink)
    (h2 : s'.runnableQueue = s.runnableQueue) (h3 : s'.doneQueue = s.doneQueue) :
    RunQueues s' rq dq := by
  refine ⟨?_, ?_, h.run_done, ?_⟩
  · rw [h1, h2]
    exact h.run
  · rw [h1, h3]
    exact h.done
  · rw [h1]
    exact h.loose

theorem RunQueues.addRunnable (h : RunQueues s rq dq) (hr : t ∉ rq) (hd : t ∉ dq) :
    RunQueues (s.addRunnableThread t) (rq ++ [t]) dq := by
  have h' : RunQueues ((s.threadGet t).setState t .runnable) rq dq := h.congr rfl rfl rfl
  exact h'.runqInsertTail hr hd

theorem RunQueues.removeRunnable (h : RunQueues s rq dq) (hd : t ∉ dq) :
    RunQueues (s.removeRunnableThread n t) (rq.erase t) dq := by
  obtain ⟨c, hc⟩ := SchedState.threadPut_counts n t (s.runqRemove t)
  have h' := h.runqRemove hd
  unfold SchedState.removeRunnableThread
  rw [hc]
  exact h'.congr rfl rfl rfl

theorem removeRunnable_current (s : SchedState) (n t : Nat) :
    (s.removeRunnableThread n t).current = s.current ∧ (s.removeRunnableThread n t).idle = s.idle := by
  obtain ⟨c, hc⟩ := SchedState.threadPut_counts n t (s.runqRemove t)
  unfold SchedState.removeRunnableThread
  rw [hc]
  exact ⟨rfl, rfl⟩

/-- **the thread that runs suspends itself** -/
theorem suspend_self (h : RunQueues s rq dq) (hd : t ∉ dq) (ht : t = s.current)
    (hn : rq.length + 1 < n) :
    (((s.removeRunnableThread n t).setState t .suspended).schedYield n).state t = .suspended ∧
      ∃ rq' dq', RunQueues (((s.removeRunnableThread n t).setState t .suspended).schedYield n) rq' dq' ∧
        t ∉ dq' ∧ t ∉ rq' := by
  have h1 := h.removeRunnable (n := n) hd
  obtain ⟨hcur, -⟩ := removeRunnable_current s n t
  generalize s.removeRunnableThread n t = s₁ at h1 hcur ⊢
  have hcur : (s₁.setState t .suspended).current = t := hcur.trans ht.symm
  have hst : (s₁.setState t .suspended).state t = .suspended := Function.update_self ..
  have h2 : RunQueues (s₁.setState t .suspended) (rq.erase t) dq := h1.congr rfl rfl rfl
  generalize s₁.setState t .suspended = s₂ at hcur hst h2 ⊢
  have hlen := List.length_erase_le (a := t) (l := rq)
  obtain ⟨h3, -⟩ := schedYield_ready h2 (by rw [hcur]; exact hd) (n := n) (by omega)
  have hq : s₂.requeued (rq.erase t) = rq.erase t := by
    unfold SchedState.requeued
    rw [hcur, hst]
    split <;> rfl
  have hr : s₂.retired dq = dq := by
    unfold SchedState.retired
    rw [hcur, hst, if_neg (fun hc => nomatch hc.2)]
  rw [hq, hr] at h3
  have hne : t ∉ rq.erase t := h.run.nodup.not_mem_erase
  refine ⟨?_, _, _, h3, fun hm => ?_, fun hm => hne ((List.dropWhile_sublist _).subset hm)⟩
  · rw [SchedState.state_of_rest (s₂.rest_schedYield n), hst]
  · rcases List.mem_append.mp hm with hm | hm
    · exact hd hm
    · exact hne ((List.takeWhile_sublist _).subset hm)

/-- what the call does, with the new state as the comparisons want it -/
theorem sysCas2iRunflag_live (hm : s.inMap t = true) (hz : s.state t ≠ .zombie)
    (hd : s.state t ≠ .done) (new : ThreadState)
    (hnew : (flagWanted (s.state t) ev1 nv1 ev2 nv2).getD .runnable = new) :
    s.sysCas2iRunflag n t ev1 nv1 ev2 nv2 =
      if new = .suspended ∧ (t ≠ s.current ∨ s.state t ≠ .runnable) then s
      else if new = s.state t then s
      else if new = .suspended then
        ((s.removeRunnableThread n t).setState t .suspended).schedYield n
      else s.addRunnableThread t := by
  have hn : ¬ (s.inMap t = false ∨ s.state t = .zombie ∨ s.state t = .done) := by
    rintro (h | h | h)
    · rw [hm] at h
      exact nomatch h
    · exact hz h
    · exact hd h
  subst hnew
  unfold SchedState.sysCas2iRunflag
  rw [if_neg hn, ← runflagState_eq]

theorem sysCas2iRunflag_dead
    (h : s.inMap t = false ∨ s.state t = .zombie ∨ s.state t = .done) :
    s.sysCas2iRunflag n t ev1 nv1 ev2 nv2 = s := by
  unfold SchedState.sysCas2iRunflag
  rw [if_pos h]

theorem addRunnable_state (s : SchedState) (t : Nat) :
    (s.addRunnableThread t).state t = .runnable :=
  Function.update_self ..

/-- nobody asked for it, and the thread runs -/
theorem not_doubleCas_of_made_runnable
    (hw : flagWanted (s.state t) ev1 nv1 ev2 nv2 = none) (hst : s.state t ≠ .runnable) :
    ¬ DoubleCas s (s.addRunnableThread t) t ev1 nv1 ev2 nv2 := by
  intro hc
  have h := (hc.kept fun new hnew => by rw [hw] at hnew; exact nomatch hnew).state
  rw [addRunnable_state] at h
  exact hst h.symm

theorem doubleCas_of_nothing
    (h : ∀ new, flagWanted (s.state t) ev1 nv1 ev2 nv2 = some new → ¬ flagRefused s t new →
      s.state t = new) (hr : RunQueues s rq dq) (hrq : t ∈ rq ↔ s.state t = .runnable) (hd : t ∉ dq) :
    DoubleCas s s t ev1 nv1 ev2 nv2 := by
  refine ⟨fun new hnew href => ?_, fun _ => ThreadKept.refl s t⟩
  have hst := h new hnew href
  exact ⟨hst, rq, dq, hr, hd, by rw [hrq, hst]⟩

theorem flagWanted_of_neither (h1 : s.state t ≠ .runnable) (h2 : s.state t ≠ .suspended) :
    flagWanted (s.state t) ev1 nv1 ev2 nv2 = none := by
  cases hw : flagWanted (s.state t) ev1 nv1 ev2 nv2 with
  | none => rfl
  | some new => exact ((flagWanted_some hw).1.elim h1 h2).elim

section
variable (h : RunQueues s rq dq) (hrq : t ∈ rq ↔ s.state t = .runnable) (hd : t ∉ dq)
  (hm : s.inMap t = true)
include h hrq hd hm

/-- a runnable thread: only it itself may suspend it -/
theorem doubleCas_runnable (hn : rq.length + 1 < n) (hst : s.state t = .runnable) :
    DoubleCas s (s.sysCas2iRunflag n t ev1 nv1 ev2 nv2) t ev1 nv1 ev2 nv2 := by
  have hz : s.state t ≠ .zombie := by rw [hst]; nofun
  have hdn : s.state t ≠ .done := by rw [hst]; nofun
  cases hw : flagWanted (s.state t) ev1 nv1 ev2 nv2 with
  | none =>
    rw [sysCas2iRunflag_live hm hz hdn .runnable (by rw [hw]; rfl),
      if_neg (fun hc => nomatch hc.1), if_pos hst.symm]
    exact doubleCas_of_nothing (fun new hnew _ => by rw [hw] at hnew; exact nomatch hnew) h hrq hd
  | some new =>
    rcases (flagWanted_some hw).2 with rfl | rfl
    · rw [sysCas2iRunflag_live hm hz hdn .runnable (by rw [hw]; rfl),
        if_neg (fun hc => nomatch hc.1), if_pos hst.symm]
      refine doubleCas_of_nothing (fun new hnew _ => ?_) h hrq hd
      rw [hw] at hnew
      rw [hst, Option.some.inj hnew]
    · rw [sysCas2iRunflag_live hm hz hdn .suspended (by rw [hw]; rfl)]
      by_cases hcur : t = s.current
      · rw [if_neg (fun hc => hc.2.elim (fun h => h hcur) fun h => h hst),
          if_neg (by rw [hst]; nofun), if_pos rfl]
        obtain ⟨h1, rq', dq', h2, h3, h4⟩ := suspend_self h hd hcur hn
        refine ⟨fun new hnew _ => ?_, fun hall => ?_⟩
        · rw [hw] at hnew
          rw [← Option.some.inj hnew]
          exact ⟨h1, rq', dq', h2, h3, fun hc => absurd hc h4, nofun⟩
        · rcases hall _ hw with hc | ⟨-, hc | hc⟩
          · rw [hm] at hc
            exact nomatch hc
          · exact absurd hcur hc
          · exact absurd hst hc
      · rw [if_pos ⟨rfl, .inl hcur⟩]
        refine doubleCas_of_nothing (fun new hnew href => ?_) h hrq hd
        rw [hw] at hnew
        exact absurd (.inr ⟨(Option.some.inj hnew).symm, .inl hcur⟩) href

/-- a suspended thread that one of the comparisons matches -/
theorem doubleCas_suspended {new : ThreadState} (hst : s.state t = .suspended)
    (hw : flagWanted (s.state t) ev1 nv1 ev2 nv2 = some new) :
    DoubleCas s (s.sysCas2iRunflag n t ev1 nv1 ev2 nv2) t ev1 nv1 ev2 nv2 := by
  have hz : s.state t ≠ .zombie := by rw [hst]; nofun
  have hdn : s.state t ≠ .done := by rw [hst]; nofun
  have hne : s.state t ≠ .runnable := by rw [hst]; nofun
  rcases (flagWanted_some hw).2 with rfl | rfl
  · rw [sysCas2iRunflag_live hm hz hdn .runnable (by rw [hw]; rfl),
      if_neg (fun hc => nomatch hc.1), if_neg hne.symm, if_neg nofun]
    refine ⟨fun new hnew _ => ?_, fun hall => ?_⟩
    · rw [hw] at hnew
      rw [← Option.some.inj hnew]
      exact ⟨addRunnable_state s t, _, dq, h.addRunnable (fun hc => hne (hrq.mp hc)) hd, hd,
        fun _ => rfl, fun _ => List.mem_append_right _ (List.mem_singleton_self t)⟩
    · rcases hall _ hw with hc | ⟨hc, -⟩
      · rw [hm] at hc
        exact nomatch hc
      · exact nomatch hc
  · rw [sysCas2iRunflag_live hm hz hdn .suspended (by rw [hw]; rfl), if_pos ⟨rfl, .inr hne⟩]
    refine doubleCas_of_nothing (fun new hnew href => ?_) h hrq hd
    rw [hw] at hnew
    exact absurd (.inr ⟨(Option.some.inj hnew).symm, .inr hne⟩) href

end

/-- a suspended thread is matched by a negative value, and by no other -/
theorem flagWanted_suspended (ev1 nv1 ev2 nv2 : Int) (hst : s.state t = .suspended) :
    flagWanted (s.state t) ev1 nv1 ev2 nv2 = none ↔ 0 ≤ ev1 ∧ 0 ≤ ev2 := by
  have hm : ∀ ev, ¬ flagMatches (s.state t) ev ↔ 0 ≤ ev := by
    intro ev
    unfold flagMatches
    rw [hst]
    constructor
    · exact fun hne => Int.not_lt.mp fun hlt => hne (.inr ⟨hlt, rfl⟩)
    · rintro he (hc | hc)
      · exact nomatch hc.2
      · omega
  rw [flagWanted_eq_none_iff, hm, hm]

/-- **`sys_cas2i_runflag`** on a thread that is on the run queue if and only if it is runnable -/
theorem cas2i_runflag_iff (h : RunQueues s rq dq) (hrq : t ∈ rq ↔ s.state t = .runnable)
    (hd : t ∉ dq)
    (hn : rq.length + 1 < n) :
    DoubleCas s (s.sysCas2iRunflag n t ev1 nv1 ev2 nv2) t ev1 nv1 ev2 nv2 ↔
      (s.inMap t = true → s.state t ≠ .waiting ∧
        ¬ (s.state t = .suspended ∧ 0 ≤ ev1 ∧ 0 ≤ ev2)) := by
  by_cases hm : s.inMap t = true
  swap
  · have hm : s.inMap t = false := Bool.eq_false_iff.mpr hm
    rw [sysCas2iRunflag_dead (.inl hm)]
    refine iff_of_true ?_ (fun ht => by rw [hm] at ht; exact nomatch ht)
    exact doubleCas_of_nothing (fun new _ href => absurd (.inl hm) href) h hrq hd
  cases hst : s.state t with
  | zombie | done =>
    have hdead : s.inMap t = false ∨ s.state t = .zombie ∨ s.state t = .done := by simp [hst]
    rw [sysCas2iRunflag_dead hdead]
    refine iff_of_true ?_ fun _ => ⟨nofun, fun hc => nomatch hc.1⟩
    refine doubleCas_of_nothing (fun new hnew _ => ?_) h hrq hd
    rw [flagWanted_of_neither (by rw [hst]; nofun) (by rw [hst]; nofun)] at hnew
    exact nomatch hnew
  | waiting =>
    have hne : s.state t ≠ .runnable := by rw [hst]; nofun
    have hw : flagWanted (s.state t) ev1 nv1 ev2 nv2 = none :=
      flagWanted_of_neither hne (by rw [hst]; nofun)
    rw [sysCas2iRunflag_live hm (by rw [hst]; nofun) (by rw [hst]; nofun) .runnable (by rw [hw]; rfl),
      if_neg (fun hc => nomatch hc.1), if_neg hne.symm, if_neg nofun]
    exact iff_of_false (not_doubleCas_of_made_runnable hw hne) fun hc => (hc hm).1 rfl
  | runnable =>
    refine iff_of_true (doubleCas_runnable h hrq hd hm hn hst) fun _ => ?_
    exact ⟨nofun, fun hc => nomatch hc.1⟩
  | suspended =>
    have hne : s.state t ≠ .runnable := by rw [hst]; nofun
    have hsus := flagWanted_suspended ev1 nv1 ev2 nv2 hst
    cases hw : flagWanted (s.state t) ev1 nv1 ev2 nv2 with
    | none =>
      rw [sysCas2iRunflag_live hm (by rw [hst]; nofun) (by rw [hst]; nofun) .runnable (by rw [hw]; rfl),
        if_neg (fun hc => nomatch hc.1), if_neg hne.symm, if_neg nofun]
      refine iff_of_false (not_doubleCas_of_made_runnable hw hne) fun hc => ?_
      exact (hc hm).2 ⟨rfl, hsus.mp hw⟩
    | some new =>
      refine iff_of_true (doubleCas_suspended h hrq hd hm hst hw) fun _ => ⟨nofun, fun hc => ?_⟩
      rw [hsus.mpr hc.2] at hw
      exact nomatch hw

end

/-! ## a suspended thread -/

/-- thread 1 runs, thread 2 is suspended -/
def oneSuspended : SchedState :=
  { SchedState.bare with
    state := fun t => if t = 1 then .runnable else .suspended
    inMap := fun t => t = 1 || t = 2
    current := 1
    runnableQueue := ⟨some 1, some 1⟩ }

theorem oneSuspended_ready : RunQueues oneSuspended [1] [] where
  run := ⟨⟨rfl, trivial⟩, rfl, rfl, by decide⟩
  done := IsList.nil
  run_done := by simp
  loose := fun _ _ _ => rfl

/-- thread 2 is asked to run if it is suspended -/
theorem cas2i_runflag_iff_resume :
    DoubleCas oneSuspended (oneSuspended.sysCas2iRunflag 3 2 (-1) 0 0 0) 2 (-1) 0 0 0 ↔
      (oneSuspended.inMap 2 = true → oneSuspended.state 2 ≠ .waiting ∧
        ¬ (oneSuspended.state 2 = .suspended ∧ (0 : Int) ≤ -1 ∧ (0 : Int) ≤ 0)) :=
  cas2i_runflag_iff oneSuspended_ready (by decide) (by decide) (by decide)

/-- neither 0 nor 0 is the run flag of a suspended thread, and yet it runs -/
theorem cas2i_runflag_no_match :
    oneSuspended.inMap 2 = true ∧ oneSuspended.state 2 = .suspended ∧
      flagWanted (oneSuspended.state 2) 0 (-1) 0 (-1) = none ∧
      (oneSuspended.sysCas2iRunflag 3 2 0 (-1) 0 (-1)).state 2 = .runnable :=
  ⟨rfl, rfl, rfl, rfl⟩

end Paravirt

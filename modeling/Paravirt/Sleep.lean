import Paravirt.Yield
import Mathlib.Tactic.NormNum

/-!
# sleep

A deadline is the sum of an unsigned counter and an argument, taken as an `int`; a scan compares it
with the counter, taken as an `int` too.

* `lap`                 how often the counter, as an `int`, has gone from the largest to the smallest value;
* `deadline_run`        nothing but its own sleep gives a thread a deadline;
* `scan_sleeper`        a scan wakes a sleeper if and only if the two `int`s say so;
* `sleep_on_time_iff`   when that is the right time.
-/

set_option linter.unusedSectionVars false
set_option linter.unusedVariables false

namespace Paravirt
open DList

/-! ## tick counts as ints -/

/-- how often a counter that shows `x` has left the range of an `int` upwards -/
def lap (x : Int) : Int := (x + 2^31) / 2^32

theorem int32_eq (x : Int) : int32 x = x - 2^32 * lap x := by
  unfold int32 lap
  rw [Int.bmod_def]
  norm_num
  split <;> omega

theorem int32_counter (x : Nat) (y : Int) : int32 ((x % 2^32 : Nat) + y) = int32 (x + y) := by
  rw [int32_eq, int32_eq]
  unfold lap
  push_cast
  omega

/-- the scan is on the same lap as the deadline, or whole laps behind it -/
def SameLap (deadline now : Int) : Prop :=
  lap deadline = lap now ∨
    lap deadline < lap now ∧ deadline + 2^32 * (lap now - lap deadline) ≤ now

/-- for a deadline less than half a lap ahead, the comparison is right on the same lap, and when as
many laps as were counted are really over -/
theorem int32_le_iff {d now : Int} (h : d < now + 2^31) :
    (int32 d ≤ int32 now ↔ d ≤ now) ↔ SameLap d now := by
  rw [int32_eq, int32_eq]
  unfold SameLap
  have hd : 2^32 * lap d ≤ d + 2^31 ∧ d + 2^31 < 2^32 * lap d + 2^32 := by
    unfold lap
    omega
  have hn : 2^32 * lap now ≤ now + 2^31 ∧ now + 2^31 < 2^32 * lap now + 2^32 := by
    unfold lap
    omega
  generalize lap d = a at hd ⊢
  generalize lap now = b at hn ⊢
  norm_num at hd hn ⊢
  omega

/-! ## deadlines -/

namespace SchedState
variable {s : SchedState} {t : Nat}

@[simp] theorem deadline_threadPut (n t : Nat) (s : SchedState) :
    (threadPut n t s).deadline = s.deadline := by
  obtain ⟨c, hc⟩ := threadPut_counts n t s
  rw [hc]

@[simp] theorem deadline_schedYield (s : SchedState) (n : Nat) :
    (s.schedYield n).deadline = s.deadline := by
  have h : (s.schedYield n).rest.deadline = s.rest.deadline :=
    congrArg SchedState.deadline (s.rest_schedYield n)
  exact h

@[simp] theorem deadline_wakeupLoop (l : WaitOn) (ticks : Int) (n : Nat) (o : Option Nat)
    (s : SchedState) :
    (wakeupLoop l ticks n o s).deadline = s.deadline := by
  induction n generalizing o s with
  | zero => rfl
  | succ n ih =>
    cases o with
    | none => rfl
    | some t =>
      rw [wakeupLoop_cons, ih]
      split
      · exact (wakeup_fields s l t).2.1
      · rfl

@[simp] theorem deadline_wakeupThreads (s : SchedState) (n : Nat) (l : WaitOn) :
    (s.wakeupThreads n l).deadline = s.deadline := by
  rw [wakeupThreads_eq, deadline_wakeupLoop]

@[simp] theorem deadline_doneLoop (m n : Nat) (o : Option Nat) (s : SchedState) :
    (doneLoop m n o s).deadline = s.deadline := by
  induction n generalizing o s with
  | zero => rfl
  | succ n ih =>
    cases o with
    | none => rfl
    | some t => exact (ih _ _).trans (deadline_threadPut ..)

@[simp] theorem deadline_reapLoop (p n : Nat) (o : Option Nat) (s : SchedState) :
    (reapLoop p n o s).deadline = s.deadline := by
  induction n generalizing o s with
  | zero => rfl
  | succ n ih =>
    cases o with
    | none => rfl
    | some t => exact (ih _ _).trans (deadline_threadPut ..)

theorem deadline_leaveQueue (s : SchedState) (n t : Nat) :
    (s.leaveQueue n t).deadline = s.deadline := by
  unfold leaveQueue
  split
  · exact deadline_threadPut ..
  · exact deadline_threadPut ..
  · rfl

theorem deadline_toParent (s : SchedState) (n t : Nat) :
    (s.toParent n t).deadline = s.deadline := by
  unfold toParent
  split
  · rfl
  · exact deadline_wakeupThreads ..

@[simp] theorem deadline_threadVanishNoyield (s : SchedState) (n t : Nat) :
    (s.threadVanishNoyield n t).deadline = s.deadline := by
  unfold threadVanishNoyield
  simp only [deadline_threadPut]
  show ((reapLoop t n _ _).wakeupThreads n (.wait t)).deadline = _
  rw [deadline_wakeupThreads, deadline_reapLoop, deadline_toParent, deadline_leaveQueue,
    deadline_threadPut]

/-- a thread that is not runnable is given no deadline -/
theorem deadline_schedWaitOn {n : Nat} {l : WaitOn} {ticks : Int} {u : Nat}
    (h : s.state t ≠ .runnable) : (s.schedWaitOn n l ticks u).deadline t = s.deadline t := by
  unfold schedWaitOn
  split
  · rfl
  · next hu =>
    have hne : t ≠ u := fun he => hu (he ▸ h)
    rw [deadline_schedYield]
    cases l <;> exact Function.update_of_ne hne _ _

theorem deadline_threadWait {n : Nat} (h : s.state t ≠ .runnable) :
    (s.threadWait n).deadline t = s.deadline t := by
  simp only [threadWait]
  split
  · rfl
  · split
    · have hget : (s.threadGet s.current).state t ≠ .runnable := h
      exact deadline_schedWaitOn hget
    · rw [deadline_threadPut, deadline_threadPut]
      rfl

theorem deadline_sysCas2iRunflag (s : SchedState) (n t : Nat) (ev1 nv1 ev2 nv2 : Int) :
    (s.sysCas2iRunflag n t ev1 nv1 ev2 nv2).deadline = s.deadline := by
  unfold sysCas2iRunflag
  simp only
  repeat' split
  all_goals first | rfl | skip
  rw [deadline_schedYield]
  exact deadline_threadPut ..

/-- **nothing but its own sleep gives a thread a deadline** -/
theorem deadline_run (op : SchedOp) (h : s.state t ≠ .runnable) :
    (s.run op).deadline t = s.deadline t := by
  cases op with
  | yield tid n =>
    cases tid with
    | none => exact congrFun (deadline_schedYield ..) t
    | some u =>
      simp only [run, sysYield]
      split <;> rfl
  | afterSwitch n =>
    simp only [run, afterSwitch, deadline_wakeupThreads, deadline_doneLoop]
  | fork n =>
    simp only [run, fork]
    split
    · rfl
    · rw [deadline_schedYield]
      rfl
  | wait n => exact deadline_threadWait h
  | waitReap n =>
    simp only [run, threadWaitReap]
    split
    · rw [deadline_threadPut]
    · rw [deadline_threadPut, deadline_threadPut]
      rfl
  | sleep ticks n => exact deadline_schedWaitOn h
  | runflag tid ev1 nv1 ev2 nv2 n => exact congrFun (deadline_sysCas2iRunflag ..) t
  | tick numTick => rfl
  | vanish n => simp only [run, deadline_schedYield, deadline_threadVanishNoyield]
  | taskVanish tid n =>
    simp only [run, taskVanish]
    split
    · split
      · rw [deadline_schedYield]
      · rw [deadline_schedYield, deadline_threadVanishNoyield]
    · rfl

end SchedState

/-- one piece of kernel code runs while `t` waits -/
def WhileAsleep (t : Nat) (s s' : SchedState) :
    Prop := s.state t = .waiting ∧ ∃ op, SchedStep s op s'

theorem WhileAsleep.deadline {t : Nat} {s s' : SchedState}
    (h : Relation.ReflTransGen (WhileAsleep t) s s') : s'.deadline t = s.deadline t := by
  induction h with
  | refl => rfl
  | tail _ hstep ih =>
    obtain ⟨hw, op, rfl⟩ := hstep
    rw [SchedState.deadline_run op (fun he => by rw [hw] at he; exact nomatch he), ih]

/-! ## the scan -/

section
variable {s : SchedState} {rq dq wl : List Nat} {t : Nat}

/-- **a scan wakes a sleeper if and only if its deadline is reached in ints** -/
theorem scan_sleeper (h : RunQueues s rq dq) (hl : IsList s.waitLink s.sleepQueue wl)
    (hd : ∀ x ∈ wl, x ∉ rq) {k : Nat} (hk : dq.length ≤ k) (hk' : wl.length ≤ k) (ht : t ∈ wl)
    (hw : s.state t = .waiting) :
    ∃ wl' rq' dq', Queues (s.afterSwitch k) .sleep wl' rq' dq' ∧
      if s.deadline t ≤ int32 s.ticks then
        (s.afterSwitch k).state t = .runnable ∧ t ∈ rq' ∧ t ∉ wl'
      else (s.afterSwitch k).state t = .waiting ∧ t ∉ rq' ∧ t ∈ wl' := by
  obtain ⟨h1, h2⟩ := doneLoop_ready k dq s k h hk
  have hsw : s.afterSwitch k = (SchedState.doneLoop k k dq.head? s).wakeupThreads k .sleep := by
    unfold SchedState.afterSwitch
    rw [h.done.first]
  rw [hsw]
  generalize SchedState.doneLoop k k dq.head? s = s₁ at h1 h2 ⊢
  have hq : Queues s₁ .sleep wl rq [] := by
    refine ⟨?_, h1.run, h1.done, h1.run_done, hd, fun x _ hx => List.not_mem_nil hx⟩
    show IsList s₁.waitLink s₁.sleepQueue wl
    rw [h2.waitLink, h2.sleepQueue]
    exact hl
  obtain ⟨hq', hp, -⟩ := wakeup_pass hq k hk'
  refine ⟨_, _, _, hq', ?_⟩
  have hst := hp.state t
  have hw₁ : s₁.state t = .waiting := by rw [h2.state, hw]
  rw [← h2.deadline, ← h2.ticks]
  by_cases hex : s₁.deadline t ≤ int32 s₁.ticks
  · rw [if_pos hex]
    have he : s₁.expired (int32 s₁.ticks) t = true := decide_eq_true hex
    have hwk : s₁.woken (int32 s₁.ticks) t = true := by simp [SchedState.woken, he, hw₁]
    rw [if_pos ⟨ht, hwk⟩] at hst
    refine ⟨hst, ?_, fun hm => ?_⟩
    · exact List.mem_append_left _ (List.mem_reverse.mpr (List.mem_filter.mpr ⟨ht, hwk⟩))
    · have := (List.mem_filter.mp hm).2
      rw [he] at this
      exact Bool.false_ne_true this
  · rw [if_neg hex]
    have he : s₁.expired (int32 s₁.ticks) t = false := decide_eq_false hex
    have hwk : s₁.woken (int32 s₁.ticks) t = false := by simp [SchedState.woken, he]
    rw [if_neg (fun hc => by rw [hwk] at hc; exact Bool.false_ne_true hc.2), hw₁] at hst
    refine ⟨hst, fun hm => ?_, ?_⟩
    · rcases List.mem_append.mp hm with hm | hm
      · have := (List.mem_filter.mp (List.mem_reverse.mp hm)).2
        rw [hwk] at this
        exact Bool.false_ne_true this
      · exact hd t ht hm
    · exact List.mem_filter.mpr ⟨ht, by rw [he]; rfl⟩

/-- **sleep is on time** -/
theorem sleep_on_time_iff {s s' : SchedState} {T T' n m k : Nat}
    -- the call, by the thread that runs, at count `T`
    (hrun : s.state s.current = .runnable) (hT : s.ticks = T % 2^32) (hn : n < 2^31)
    -- the scan at count `T'`, the first one that may find the deadline reached
    (hle : T ≤ T') (hT' : s'.ticks = T' % 2^32)
    (hasleep : Relation.ReflTransGen (WhileAsleep s.current) (s.run (.sleep n m)) s')
    (hw : s'.state s.current = .waiting) (h : RunQueues s' rq dq)
    (hl : IsList s'.waitLink s'.sleepQueue wl) (hd : ∀ x ∈ wl, x ∉ rq) (ht : s.current ∈ wl)
    (hk : dq.length ≤ k) (hk' : wl.length ≤ k) :
    (∃ wl' rq' dq', Queues (s'.afterSwitch k) .sleep wl' rq' dq' ∧
      (T' - T < n → (s'.afterSwitch k).state s.current = .waiting ∧ s.current ∈ wl') ∧
      (n ≤ T' - T → (s'.afterSwitch k).state s.current = .runnable ∧
        s.current ∈ rq' ∧ s.current ∉ wl')) ↔ SameLap (T + n) T' := by
  have hdl : s'.deadline s.current = int32 (T + n) := by
    rw [WhileAsleep.deadline hasleep]
    show (s.schedWaitOn m .sleep n s.current).deadline s.current = _
    unfold SchedState.schedWaitOn
    rw [if_neg (fun hne => hne hrun), SchedState.deadline_schedYield]
    show Function.update s.deadline s.current (int32 (s.ticks + n)) s.current = _
    rw [Function.update_self, hT, int32_counter]
  have hnow : int32 s'.ticks = int32 T' := by
    have := int32_counter T' 0
    rw [Int.add_zero, Int.add_zero] at this
    rw [hT', this]
  obtain ⟨wl', rq', dq', hq, hscan⟩ := scan_sleeper h hl hd hk hk' ht hw
  rw [hdl, hnow] at hscan
  rw [← int32_le_iff (by omega : (T : Int) + n < T' + 2^31)]
  by_cases hex : int32 ((T : Int) + n) ≤ int32 (T' : Int)
  · rw [if_pos hex] at hscan
    constructor
    · rintro ⟨wl₂, rq₂, dq₂, -, he, -⟩
      refine ⟨fun _ => Classical.byContradiction fun hlt => ?_, fun _ => hex⟩
      have hst := (he (by omega)).1
      rw [hscan.1] at hst
      exact nomatch hst
    · intro hiff
      have := hiff.mp hex
      exact ⟨wl', rq', dq', hq, fun hlt => by omega, fun _ => hscan⟩
  · rw [if_neg hex] at hscan
    constructor
    · rintro ⟨wl₂, rq₂, dq₂, -, -, he⟩
      refine ⟨fun hc => absurd hc hex, fun hc => ?_⟩
      have hst := (he (by omega)).1
      rw [hscan.1] at hst
      exact nomatch hst
    · intro hiff
      have : ¬ (T : Int) + n ≤ T' := fun hc => hex (hiff.mpr hc)
      exact ⟨wl', rq', dq', hq, fun _ => ⟨hscan.1, hscan.2.2⟩, fun hge => by omega⟩

end

/-! ## one thread that sleeps -/

/-- thread 1 is queued and running, at count 1 -/
def oneReady : SchedState :=
  { SchedState.bare with
    state := fun t => if t = 1 then .runnable else .suspended
    current := 1
    ticks := 1
    runnableQueue := ⟨some 1, some 1⟩ }

theorem oneReady_asleep (n : Nat) : (oneReady.run (.sleep n 9)).state 1 = .waiting := rfl

/-- the queues while thread 1 sleeps -/
theorem oneReady_queues (n T : Nat) :
    RunQueues ((oneReady.run (.sleep n 9)).run (.tick T)) [] [] ∧
      IsList ((oneReady.run (.sleep n 9)).run (.tick T)).waitLink
        ((oneReady.run (.sleep n 9)).run (.tick T)).sleepQueue [1] := by
  refine ⟨⟨⟨trivial, rfl, rfl, List.nodup_nil⟩, ⟨trivial, rfl, rfl, List.nodup_nil⟩,
    fun t ht => (nomatch ht), fun t _ _ => ?_⟩, ⟨⟨rfl, trivial⟩, rfl, rfl, by decide⟩⟩
  show Function.update (fun _ => Link.null) 1 Link.null t = Link.null
  by_cases ht : t = 1
  · rw [ht, Function.update_self]
  · rw [Function.update_of_ne ht]

/-- two ticks of sleep are over after two ticks -/
theorem sleep_on_time_two :
    (∃ wl' rq' dq',
      Queues (((oneReady.run (.sleep (2 : Nat) 9)).run (.tick 3)).afterSwitch 9) .sleep wl' rq' dq' ∧
        (3 - 1 < 2 →
          (((oneReady.run (.sleep (2 : Nat) 9)).run (.tick 3)).afterSwitch 9).state oneReady.current
            = .waiting ∧ oneReady.current ∈ wl') ∧
        (2 ≤ 3 - 1 →
          (((oneReady.run (.sleep (2 : Nat) 9)).run (.tick 3)).afterSwitch 9).state oneReady.current
            = .runnable ∧ oneReady.current ∈ rq' ∧ oneReady.current ∉ wl')) ↔
      SameLap ((1 : Nat) + (2 : Nat)) (3 : Nat) :=
  sleep_on_time_iff (s := oneReady) (T := 1) rfl rfl (by decide) (by decide : 1 ≤ 3) rfl
    (.single ⟨oneReady_asleep 2, .tick 3, rfl⟩) rfl (oneReady_queues 2 3).1 (oneReady_queues 2 3).2
    (fun _ _ h => nomatch h) (List.mem_singleton_self 1) (by decide) (by decide)

/-- the longest sleep is over at once -/
theorem sleep_longest_wakes :
    oneReady.state oneReady.current = .runnable ∧ oneReady.ticks = 1 ∧
      (oneReady.run (.sleep (2^31 - 1) 9)).state 1 = .waiting ∧
      (oneReady.run (.sleep (2^31 - 1) 9)).ticks = 1 ∧
      ((oneReady.run (.sleep (2^31 - 1) 9)).afterSwitch 9).state 1 = .runnable := by
  refine ⟨rfl, rfl, rfl, rfl, ?_⟩
  decide +kernel

end Paravirt

import Paravirt.Yield

/-!
# A vanished thread never runs again

* `NeverAgain log`            no thread is put on the run queue, or selected, after it vanished;
* `Buried D s`                the threads in `D` are dead in the state `s`, and that is why;
* `Buried.wakeup`, `Buried.schedYield`, …   each primitive keeps it;
* `Buried.vanish`             a thread that vanishes joins `D`, if it has a parent to make it a zombie;
* `vanished_never_runs`       over whole runs.
-/

set_option linter.unusedSectionVars false
set_option linter.unusedVariables false

namespace Paravirt
open DList

/-- the events, the last one first -/
def NeverAgain : List SchedEvent → Prop
  | [] => True
  | .put t :: log => .vanish t ∉ log ∧ NeverAgain log
  | .select t :: log => .vanish t ∉ log ∧ NeverAgain log
  | .vanish _ :: log => NeverAgain log

/-- a state from which nothing makes a thread runnable that is not in the map -/
def ThreadState.dead : ThreadState → Prop
  | .zombie | .done | .suspended => True
  | .runnable | .waiting => False

structure Buried (D : Nat → Prop) (s : SchedState) : Prop where
  state : ∀ t, D t → (s.state t).dead
  inMap : ∀ t, D t → s.inMap t = false
  old : ∀ t, D t → t ≤ s.nextId
  not_idle : ¬ D s.idle
  logged : ∀ t, .vanish t ∈ s.log → D t
  never : NeverAgain s.log
  -- ids that were not given out yet
  fresh : ∀ t, s.nextId < t → (s.state t).dead ∧ s.inMap t = false
  current_old : s.current ≤ s.nextId
  idle_old : s.idle ≤ s.nextId
  idle_parent : s.parent s.idle = none

namespace SchedState

/-- what `Buried` speaks of -/
def core (s : SchedState) : SchedState :=
  { bare with
    state := s.state
    parent := s.parent
    inMap := s.inMap
    nextId := s.nextId
    current := s.current
    idle := s.idle
    log := s.log }

theorem core_threadPut (n t : Nat) (s : SchedState) : (threadPut n t s).core = s.core := by
  obtain ⟨c, hc⟩ := threadPut_counts n t s
  rw [hc]
  rfl

theorem core_setWaitHead (s : SchedState) (l : WaitOn) (links : Links) (h : QHead) :
    (s.setWaitHead l links h).core = s.core := by
  cases l <;> rfl

end SchedState

section
variable {D : Nat → Prop} {s s' : SchedState} {t n : Nat}

namespace Buried

theorem congr (h : Buried D s) (s' : SchedState) (hc : s'.core = s.core) : Buried D s' := by
  have e1 : s'.state = s.state := congrArg (fun s => s.state) hc
  have e2 : s'.inMap = s.inMap := congrArg (fun s => s.inMap) hc
  have e3 : s'.nextId = s.nextId := congrArg (fun s => s.nextId) hc
  have e4 : s'.log = s.log := congrArg (fun s => s.log) hc
  have e5 : s'.idle = s.idle := congrArg (fun s => s.idle) hc
  have e6 : s'.current = s.current := congrArg (fun s => s.current) hc
  have e7 : s'.parent = s.parent := congrArg (fun s => s.parent) hc
  constructor
  · rw [e1]; exact h.state
  · rw [e2]; exact h.inMap
  · rw [e3]; exact h.old
  · rw [e5]; exact h.not_idle
  · rw [e4]; exact h.logged
  · rw [e4]; exact h.never
  · rw [e1, e2, e3]; exact h.fresh
  · rw [e3, e6]; exact h.current_old
  · rw [e3, e5]; exact h.idle_old
  · rw [e5, e7]; exact h.idle_parent

/-! ## the threads that are not dead -/

theorem of_alive (h : Buried D s) (ha : ¬ (s.state t).dead) : ¬ D t ∧ t ≤ s.nextId :=
  ⟨fun hd => ha (h.state t hd), Nat.not_lt.mp fun hlt => ha (h.fresh t hlt).1⟩

theorem of_runnable (h : Buried D s) (hr : s.state t = .runnable) : ¬ D t ∧ t ≤ s.nextId :=
  h.of_alive (by rw [hr]; exact id)

theorem of_inMap (h : Buried D s) (hm : s.inMap t = true) : ¬ D t ∧ t ≤ s.nextId := by
  refine ⟨fun hd => ?_, Nat.not_lt.mp fun hlt => ?_⟩
  · rw [h.inMap t hd] at hm
    exact nomatch hm
  · rw [(h.fresh t hlt).2] at hm
    exact nomatch hm

/-! ## the primitives -/

theorem put (h : Buried D s) (ht : ¬ D t) : Buried D (s.note (.put t)) where
  state := h.state
  inMap := h.inMap
  old := h.old
  not_idle := h.not_idle
  logged u hu := by
    rcases List.mem_cons.mp hu with he | hu
    · exact nomatch he
    · exact h.logged u hu
  never := ⟨fun hv => ht (h.logged t hv), h.never⟩
  fresh := h.fresh
  current_old := h.current_old
  idle_old := h.idle_old
  idle_parent := h.idle_parent

theorem switchTo (h : Buried D s) (ht : ¬ D t) (hold : t ≤ s.nextId) : Buried D (s.switchTo t) where
  state := h.state
  inMap := h.inMap
  old := h.old
  not_idle := h.not_idle
  logged u hu := by
    rcases List.mem_cons.mp hu with he | hu
    · exact nomatch he
    · exact h.logged u hu
  never := ⟨fun hv => ht (h.logged t hv), h.never⟩
  fresh := h.fresh
  current_old := hold
  idle_old := h.idle_old
  idle_parent := h.idle_parent

/-- a thread that is not dead changes its state as it likes -/
theorem setState (h : Buried D s) {st : ThreadState} (ht : st.dead ∨ (¬ D t ∧ t ≤ s.nextId)) :
    Buried D (s.setState t st) := by
  have key : ∀ u, (D u ∨ s.nextId < u) → (s.state u).dead → ((s.setState t st).state u).dead := by
    intro u hu hd
    by_cases hut : u = t
    · have e : (s.setState t st).state u = st := by rw [hut]; exact Function.update_self ..
      rw [e]
      rcases ht with ht | ⟨ht, hold⟩
      · exact ht
      · exact (hu.elim (fun hu => ht (hut ▸ hu)) fun hu => by omega).elim
    · have e : (s.setState t st).state u = s.state u := Function.update_of_ne hut _ _
      rw [e]
      exact hd
  exact ⟨fun u hu => key u (.inl hu) (h.state u hu), h.inMap, h.old, h.not_idle, h.logged, h.never,
    fun u hu => ⟨key u (.inr hu) (h.fresh u hu).1, (h.fresh u hu).2⟩, h.current_old, h.idle_old,
    h.idle_parent⟩

theorem runqInsertTail (h : Buried D s) (ht : ¬ D t) : Buried D (s.runqInsertTail t) :=
  (h.congr ({ s with
    runnableLink := (DList.insertTail s.runnableLink s.runnableQueue t).1
    runnableQueue := (DList.insertTail s.runnableLink s.runnableQueue t).2 }) rfl).put ht

theorem runqInsertFront (h : Buried D s) (ht : ¬ D t) : Buried D (s.runqInsertFront t) :=
  (h.congr ({ s with
    runnableLink := (DList.insertFront s.runnableLink s.runnableQueue t).1
    runnableQueue := (DList.insertFront s.runnableLink s.runnableQueue t).2 }) rfl).put ht

theorem threadPut (h : Buried D s) (n t : Nat) : Buried D (SchedState.threadPut n t s) :=
  h.congr _ (SchedState.core_threadPut n t s)

theorem addRunnable (h : Buried D s) (ht : ¬ D t) (hold : t ≤ s.nextId) :
    Buried D (s.addRunnableThread t) := by
  have h1 : Buried D (s.threadGet t) := h.congr _ rfl
  have h2 : Buried D ((s.threadGet t).setState t .runnable) := h1.setState (.inr ⟨ht, hold⟩)
  exact h2.runqInsertTail ht

theorem removeRunnable (h : Buried D s) (n t : Nat) : Buried D (s.removeRunnableThread n t) :=
  (h.congr (s.runqRemove t) rfl).threadPut n t

/-! ## waking up -/

theorem wakeup (h : Buried D s) (l : SchedState.WaitOn) (t : Nat) : Buried D (s.wakeup l t) := by
  have h1 : Buried D (s.waitRemove l t) := h.congr _ (SchedState.core_setWaitHead ..)
  unfold SchedState.wakeup
  dsimp only
  by_cases hw : (s.waitRemove l t).state t = .waiting
  · rw [if_pos hw]
    have ht := h1.of_alive (t := t) (by rw [hw]; exact id)
    exact (h1.setState (.inr ht)).runqInsertFront ht.1
  · rw [if_neg hw]
    exact h1.congr _ rfl

theorem wakeupLoop (l : SchedState.WaitOn) (ticks : Int) :
    ∀ (n : Nat) (o : Option Nat) {s : SchedState},
    Buried D s → Buried D (SchedState.wakeupLoop l ticks n o s) := by
  intro n
  induction n with
  | zero => exact fun _ _ h => h
  | succ n ih =>
    intro o s h
    cases o with
    | none => exact h
    | some t =>
      rw [SchedState.wakeupLoop_cons]
      split
      · exact ih _ (h.wakeup l t)
      · exact ih _ h

theorem wakeupThreads (h : Buried D s) (n : Nat) (l : SchedState.WaitOn) :
    Buried D (s.wakeupThreads n l) := by
  rw [SchedState.wakeupThreads_eq]
  exact wakeupLoop l _ n _ h

/-! ## sched_yield -/

theorem requeueCurrent (h : Buried D s) : Buried D s.requeueCurrent := by
  unfold SchedState.requeueCurrent
  split
  · exact h
  · split
    · next hst => exact (h.congr (s.runqRemove s.current) rfl).runqInsertTail (h.of_runnable hst).1
    · exact h.congr _ rfl
    · exact h

/-- a thread selected in step 2 is runnable, or is the idle thread -/
theorem pickLoop : ∀ (n : Nat) {s : SchedState}, Buried D s →
    Buried D (SchedState.pickLoop n s).1 ∧
      ∀ t, (SchedState.pickLoop n s).2 = some t → ¬ D t ∧ t ≤ (SchedState.pickLoop n s).1.nextId := by
  intro n
  induction n with
  | zero => exact fun h => ⟨h, nofun⟩
  | succ n ih =>
    intro s h
    unfold SchedState.pickLoop
    split
    · exact ⟨h, fun t ht => Option.some.inj ht ▸ ⟨h.not_idle, h.idle_old⟩⟩
    · next u hu =>
      by_cases hst : s.state u = .runnable
      · rw [if_pos hst]
        exact ⟨h, fun t ht => Option.some.inj ht ▸ h.of_runnable hst⟩
      · rw [if_neg hst]
        exact ih (h.congr _ rfl)

theorem schedYield (h : Buried D s) (n : Nat) : Buried D (s.schedYield n) := by
  obtain ⟨h1, h2⟩ := pickLoop n h.requeueCurrent
  cases hp : (SchedState.pickLoop n s.requeueCurrent).2 with
  | some t =>
    obtain ⟨ht, hold⟩ := h2 t hp
    rw [SchedState.schedYield_of_some hp]
    exact h1.switchTo ht hold
  | none =>
    unfold SchedState.schedYield
    split
    · next he =>
      rw [he] at h1
      exact h1
    · next he =>
      rw [he] at hp
      exact nomatch hp

theorem doneLoop (m : Nat) : ∀ (n : Nat) (o : Option Nat) {s : SchedState},
    Buried D s → Buried D (SchedState.doneLoop m n o s) := by
  intro n
  induction n with
  | zero => exact fun _ _ h => h
  | succ n ih =>
    intro o s h
    cases o with
    | none => exact h
    | some t => exact ih _ ((h.congr (s.doneqRemove t) rfl).threadPut m t)

theorem schedWaitOn (h : Buried D s) (n : Nat) (l : SchedState.WaitOn) (ticks : Int) (t : Nat) :
    Buried D (s.schedWaitOn n l ticks t) := by
  unfold SchedState.schedWaitOn
  split
  · exact h
  · next hst =>
    have ht := h.of_runnable (Classical.not_not.mp hst)
    refine Buried.schedYield ?_ n
    have h1 : Buried D { s with
        deadline := Function.update s.deadline t (int32 (s.ticks + ticks)) } := h.congr _ rfl
    have h2 : Buried D (SchedState.setState _ t .waiting) := h1.setState (.inr ht)
    exact (h2.congr _ rfl).congr _ (SchedState.core_setWaitHead ..)

/-! ## vanishing -/

theorem reapLoop (p : Nat) : ∀ (n : Nat) (o : Option Nat) {s : SchedState},
    Buried D s → Buried D (SchedState.reapLoop p n o s) := by
  intro n
  induction n with
  | zero => exact fun _ _ h => h
  | succ n ih =>
    intro o s h
    cases o with
    | none => exact h
    | some z =>
      have h1 : Buried D (s.setState z .done) := h.setState (.inl trivial)
      exact ih _ ((h1.congr ((s.setState z .done).zombieRemove p z) rfl).threadPut n z)

theorem leaveQueue (h : Buried D s) (n t : Nat) : Buried D (s.leaveQueue n t) := by
  unfold SchedState.leaveQueue
  split
  · exact h.removeRunnable n t
  · refine Buried.threadPut ?_ n t
    exact h.congr _ rfl
  · exact h

/-- one more thread is dead -/
theorem bury (h : Buried D s) (hst : (s.state t).dead) (hm : s.inMap t = false) (ho : t ≤ s.nextId)
    (hi : t ≠ s.idle) : Buried (fun u => D u ∨ u = t) s where
  state u hu := hu.elim (h.state u) fun he => he ▸ hst
  inMap u hu := hu.elim (h.inMap u) fun he => he ▸ hm
  old u hu := hu.elim (h.old u) fun he => he ▸ ho
  not_idle hu := hu.elim h.not_idle fun he => hi he.symm
  logged u hu := .inl (h.logged u hu)
  never := h.never
  fresh := h.fresh
  current_old := h.current_old
  idle_old := h.idle_old
  idle_parent := h.idle_parent

theorem vanished (h : Buried D s) (ht : D t) : Buried D (s.note (.vanish t)) where
  state := h.state
  inMap := h.inMap
  old := h.old
  not_idle := h.not_idle
  logged u hu := by
    rcases List.mem_cons.mp hu with he | hu
    · rw [SchedEvent.vanish.inj he]
      exact ht
    · exact h.logged u hu
  never := h.never
  fresh := h.fresh
  current_old := h.current_old
  idle_old := h.idle_old
  idle_parent := h.idle_parent

theorem unmap (h : Buried D s) (t : Nat) :
    Buried D { s with inMap := Function.update s.inMap t false } := by
  have key : ∀ u, s.inMap u = false → Function.update s.inMap t false u = false := by
    intro u hu
    by_cases hut : u = t
    · rw [hut]
      exact Function.update_self ..
    · rw [Function.update_of_ne hut]
      exact hu
  exact ⟨h.state, fun u hu => key u (h.inMap u hu), h.old, h.not_idle, h.logged, h.never,
    fun u hu => ⟨(h.fresh u hu).1, key u (h.fresh u hu).2⟩, h.current_old, h.idle_old, h.idle_parent⟩

end Buried

/-- the thread has a parent to make it a zombie, or is suspended -/
def VanishOk (s : SchedState) (t : Nat) : Prop :=
  s.parent t ≠ none ∨ (s.state t = .suspended ∧ t ≠ s.idle)

theorem leaveQueue_same (s : SchedState) (n t : Nat) :
    (s.leaveQueue n t).parent = s.parent ∧ (s.leaveQueue n t).state = s.state ∧
      (s.leaveQueue n t).inMap = s.inMap ∧ (s.leaveQueue n t).nextId = s.nextId ∧
      (s.leaveQueue n t).idle = s.idle := by
  have key : (s.leaveQueue n t).core = s.core := by
    unfold SchedState.leaveQueue
    split
    · exact SchedState.core_threadPut ..
    · exact SchedState.core_threadPut ..
    · rfl
  exact ⟨congrArg (fun s => s.parent) key, congrArg (fun s => s.state) key,
    congrArg (fun s => s.inMap) key, congrArg (fun s => s.nextId) key, congrArg (fun s => s.idle) key⟩

/-- **a thread that vanishes is dead from then on** -/
theorem Buried.vanish (h : Buried D s) (hok : VanishOk s t) (ho : t ≤ s.nextId) (n : Nat) :
    ∃ D', Buried D' (s.threadVanishNoyield n t) := by
  have hi : t ≠ s.idle := by
    rcases hok with hp | hs
    · exact fun he => hp (he ▸ h.idle_parent)
    · exact hs.2
  -- out of the map
  have hfst : ∃ s₁, SchedState.threadPut n t { s with inMap := Function.update s.inMap t false } = s₁ ∧
      Buried D s₁ ∧ s₁.inMap t = false ∧ s₁.parent = s.parent ∧ s₁.state = s.state ∧
      s₁.nextId = s.nextId ∧ s₁.idle = s.idle := by
    obtain ⟨c, hc⟩ := SchedState.threadPut_counts n t { s with inMap := Function.update s.inMap t false }
    exact ⟨_, hc, (h.unmap t).congr _ rfl, Function.update_self .., rfl, rfl, rfl, rfl⟩
  obtain ⟨s₁, e1, h1, hm1, hp1, hst1, hn1, hi1⟩ := hfst
  -- off its queue
  obtain ⟨hp2, hst2, hm2, hn2, hi2⟩ := leaveQueue_same s₁ n t
  have h2 := h1.leaveQueue n t
  generalize hs2 : s₁.leaveQueue n t = s₂ at h2 hp2 hst2 hm2 hn2 hi2
  -- dead, by the parent or because it was suspended
  have h3 : Buried (fun u => D u ∨ u = t) (s₂.toParent n t) := by
    have hm : s₂.inMap t = false := by rw [hm2, hm1]
    have ho' : t ≤ s₂.nextId := by rw [hn2, hn1]; exact ho
    have hi' : t ≠ s₂.idle := by rw [hi2, hi1]; exact hi
    unfold SchedState.toParent
    cases hp : s₂.parent t with
    | none =>
      have hsus : s₂.state t = .suspended := by
        rcases hok with hok | hok
        · rw [hp2, hp1] at hp
          exact absurd hp hok
        · rw [hst2, hst1, hok.1]
      exact h2.bury (by rw [hsus]; trivial) hm ho' hi'
    | some p =>
      have hz : Buried D ((s₂.childRemove p t).setState t .zombie) :=
        Buried.setState (h2.congr (s₂.childRemove p t) rfl) (.inl trivial)
      have hdead : (((s₂.childRemove p t).setState t .zombie).state t).dead := by
        have e : ((s₂.childRemove p t).setState t .zombie).state t = .zombie :=
          Function.update_self ..
        rw [e]
        trivial
      have hb := hz.bury hdead hm ho' hi'
      exact (hb.congr (((s₂.childRemove p t).setState t .zombie).zombieInsertTail p t)
        rfl).wakeupThreads n _
  generalize hs3 : s₂.toParent n t = s₃ at h3
  -- its zombies, and those that wait for it
  have h4 := Buried.reapLoop t n (s₃.zombieList t).first h3
  have he : s.threadVanishNoyield n t = SchedState.threadPut n t
      (((SchedState.reapLoop t n (s₃.zombieList t).first s₃).wakeupThreads n (.wait t)).note
        (.vanish t)) := by
    unfold SchedState.threadVanishNoyield
    dsimp only
    rw [e1, hs2, hs3]
  rw [he]
  exact ⟨_, ((h4.wakeupThreads n (.wait t)).vanished (.inr rfl)).threadPut n t⟩

/-! ## the pieces of kernel code -/

namespace Buried

theorem fork (h : Buried D s) (n : Nat) : Buried D (s.fork n) := by
  have hnew : ¬ D (s.nextId + 1) := fun hd => absurd (h.old _ hd) (by omega)
  unfold SchedState.fork
  dsimp only
  split
  · exact h
  · refine Buried.schedYield (Buried.addRunnable ?_ hnew (Nat.le_refl _)) n
    have hne : ∀ u, D u → u ≠ s.nextId + 1 := fun u hu he => hnew (he ▸ hu)
    have hidle : s.idle ≠ s.nextId + 1 := fun he => absurd h.idle_old (by omega)
    constructor
    · intro u hu
      show (Function.update s.state (s.nextId + 1) _ u).dead
      rw [Function.update_of_ne (hne u hu)]
      exact h.state u hu
    · intro u hu
      show Function.update s.inMap (s.nextId + 1) true u = false
      rw [Function.update_of_ne (hne u hu)]
      exact h.inMap u hu
    · exact fun u hu => Nat.le_succ_of_le (h.old u hu)
    · exact h.not_idle
    · exact h.logged
    · exact h.never
    · intro u hu
      have hu' : s.nextId + 1 < u := hu
      show (Function.update s.state (s.nextId + 1) _ u).dead ∧
        Function.update s.inMap (s.nextId + 1) true u = false
      rw [Function.update_of_ne (by omega), Function.update_of_ne (by omega)]
      exact h.fresh u (by omega)
    · exact Nat.le_succ_of_le h.current_old
    · exact Nat.le_succ_of_le h.idle_old
    · show Function.update s.parent (s.nextId + 1) _ s.idle = none
      rw [Function.update_of_ne hidle]
      exact h.idle_parent

theorem threadWait (h : Buried D s) (n : Nat) : Buried D (s.threadWait n) := by
  simp only [SchedState.threadWait]
  split
  · exact h
  · have hget : Buried D (s.threadGet s.current) := h.congr _ rfl
    split
    · exact hget.schedWaitOn n _ _ _
    · next z _ =>
      exact ((hget.congr ((s.threadGet s.current).zombieRemove s.current z) rfl).threadPut n
        z).threadPut n _

theorem threadWaitReap (h : Buried D s) (n : Nat) : Buried D (s.threadWaitReap n) := by
  unfold SchedState.threadWaitReap
  split
  · exact h.threadPut n _
  · next z _ => exact ((h.congr (s.zombieRemove s.current z) rfl).threadPut n z).threadPut n _

theorem sysYield (h : Buried D s) (n : Nat) (tid : Option Nat) : Buried D (s.sysYield n tid) := by
  unfold SchedState.sysYield
  split
  · exact h.schedYield n
  · next t =>
    split
    · exact h
    · next hc =>
      rw [not_or, Classical.not_not] at hc
      obtain ⟨ht, hold⟩ := h.of_runnable hc.2
      exact h.switchTo ht hold

theorem sysCas2iRunflag (h : Buried D s) (n t : Nat) (ev1 nv1 ev2 nv2 : Int) :
    Buried D (s.sysCas2iRunflag n t ev1 nv1 ev2 nv2) := by
  unfold SchedState.sysCas2iRunflag
  dsimp only
  split
  · exact h
  · next hc =>
    have hm : s.inMap t = true := Bool.not_eq_false _ ▸ fun he => hc (.inl he)
    obtain ⟨ht, hold⟩ := h.of_inMap hm
    split
    · exact h
    · split
      · exact h
      · split
        · refine Buried.schedYield ?_ n
          exact (h.removeRunnable n t).setState (.inl trivial)
        · exact h.addRunnable ht hold

end Buried

/-- every thread that vanishes has a parent, or is suspended -/
def StepOk (s : SchedState) : SchedOp → Prop
  | .vanish _ => VanishOk s s.current
  | .taskVanish tid _ => s.inMap tid = true → s.state tid ≠ .done → VanishOk s tid
  | _ => True

/-- **one piece of kernel code** -/
theorem Buried.run (h : Buried D s) (op : SchedOp) (hok : StepOk s op) :
    ∃ D', Buried D' (s.run op) := by
  cases op with
  | yield tid n => exact ⟨D, h.sysYield n tid⟩
  | afterSwitch n => exact ⟨D, (Buried.doneLoop n n _ h).wakeupThreads n .sleep⟩
  | fork n => exact ⟨D, h.fork n⟩
  | wait n => exact ⟨D, h.threadWait n⟩
  | waitReap n => exact ⟨D, h.threadWaitReap n⟩
  | sleep ticks n => exact ⟨D, h.schedWaitOn n .sleep ticks s.current⟩
  | runflag tid ev1 nv1 ev2 nv2 n => exact ⟨D, h.sysCas2iRunflag n tid ev1 nv1 ev2 nv2⟩
  | tick numTick => exact ⟨D, h.congr _ rfl⟩
  | vanish n =>
    obtain ⟨D', h'⟩ := h.vanish hok h.current_old n
    exact ⟨D', h'.schedYield n⟩
  | taskVanish tid n =>
    simp only [SchedState.run, SchedState.taskVanish]
    split
    · next hm =>
      split
      · exact ⟨D, h.schedYield n⟩
      · next hst =>
        obtain ⟨D', h'⟩ := h.vanish (hok hm hst) (h.of_inMap hm).2 n
        exact ⟨D', h'.schedYield n⟩
    · exact ⟨D, h⟩

end

/-- a state before the first thread vanished -/
structure Booted (s : SchedState) : Prop where
  log : s.log = []
  fresh : ∀ t, s.nextId < t → (s.state t).dead ∧ s.inMap t = false
  current_old : s.current ≤ s.nextId
  idle_old : s.idle ≤ s.nextId
  idle_parent : s.parent s.idle = none

/-- **a vanished thread never runs again**, in runs where the threads that vanish have a parent or
are suspended -/
theorem vanished_never_runs {s s' : SchedState} {ops : List SchedOp} (h : Booted s)
    (hrun : Steps (fun s op s' => StepOk s op ∧ SchedStep s op s') s ops s') :
    NeverAgain s'.log := by
  have h0 : Buried (fun _ => False) s := by
    refine ⟨nofun, nofun, nofun, id, fun t ht => ?_, ?_, h.fresh, h.current_old, h.idle_old,
      h.idle_parent⟩
    · rw [h.log] at ht
      exact nomatch ht
    · rw [h.log]
      trivial
  have hinv : ∃ D, Buried D s' := by
    refine hrun.invariant_of (P := fun s => ∃ D, Buried D s) (fun s op s' hD hok hs => ?_) ⟨_, h0⟩
    obtain ⟨D, hb⟩ := hD
    rw [hs]
    exact hb.run op hok
  obtain ⟨D, hb⟩ := hinv
  exact hb.never

/-! ## the first thread -/

/-- thread 1, which has no parent, runs -/
def initRuns : SchedState :=
  { SchedState.bare with
    state := fun t => if t = 1 then .runnable else .suspended
    count := fun _ => 3
    inMap := fun t => t = 1
    nextId := 1
    current := 1
    runnableQueue := ⟨some 1, some 1⟩ }

theorem initRuns_booted : Booted initRuns where
  log := rfl
  fresh t ht := by
    have hne : t ≠ 1 := by
      have h1 : 1 < t := ht
      omega
    constructor
    · show (if t = 1 then ThreadState.runnable else ThreadState.suspended).dead
      rw [if_neg hne]
      trivial
    · exact decide_eq_false hne
  current_old := Nat.le_refl _
  idle_old := Nat.zero_le _
  idle_parent := rfl

/-- its child runs -/
def childRuns : SchedState :=
  { initRuns with
    state := fun t => if t = 1 then .runnable else if t = 2 then .runnable else .suspended
    parent := fun t => if t = 2 then some 1 else none
    inMap := fun t => t = 1 || t = 2
    nextId := 2
    current := 2
    runnableLink := fun t => if t = 1 then ⟨none, some 2⟩ else if t = 2 then ⟨some 1, none⟩ else .null
    childList := fun t => if t = 1 then ⟨some 2, some 2⟩ else .empty
    runnableQueue := ⟨some 2, some 1⟩ }

theorem childRuns_booted : Booted childRuns where
  log := rfl
  fresh t ht := by
    have h2 : 2 < t := ht
    constructor
    · show (if t = 1 then ThreadState.runnable else if t = 2 then _ else _).dead
      rw [if_neg (by omega), if_neg (by omega)]
      trivial
    · show (decide (t = 1) || decide (t = 2)) = false
      rw [decide_eq_false (by omega), decide_eq_false (by omega)]
      rfl
  current_old := Nat.le_refl _
  idle_old := Nat.zero_le _
  idle_parent := rfl

theorem vanished_never_runs_child : NeverAgain (childRuns.run (.vanish 5)).log := by
  have hok : StepOk childRuns (.vanish 5) := Or.inl nofun
  exact vanished_never_runs childRuns_booted (.single ⟨hok, rfl⟩)

/-- the first thread vanishes, is put on the run queue and selected -/
theorem vanished_init_runs :
    Booted initRuns ∧ initRuns.state initRuns.current = .runnable ∧
      (initRuns.run (.vanish 5)).log = [.select 1, .put 1, .vanish 1] ∧
      ¬ NeverAgain (initRuns.run (.vanish 5)).log := by
  have hlog : (initRuns.run (.vanish 5)).log = [.select 1, .put 1, .vanish 1] := rfl
  refine ⟨initRuns_booted, rfl, hlog, ?_⟩
  rw [hlog]
  exact fun h => h.1 (by simp)

end Paravirt

import Paravirt.Yield

/-!
# Killing a blocked thread

* `Waits s f`             the lists threads wait on spell `f`, and no thread is on two of them;
* `wakeups_frame`         waking up one list leaves the others, and the links of their threads;
* `vanish_frame`          what `thread_vanish_noyield` leaves of the lists;
* `kill_blocked_iff`      when the sleep queue loses the killed thread and nobody else.

`sched_remove_waiting_thread` unlinks from the sleep queue by `runnable_link`, which is null in a
thread that waits: of the queue only the head is written.
-/

set_option linter.unusedSectionVars false
set_option linter.unusedVariables false

namespace Paravirt
open DList

/-! ## the part of the state that the wait lists are in -/

namespace SchedState
variable {s s' : SchedState}

structure SameWaits (s s' : SchedState) : Prop where
  link : s'.waitLink = s.waitLink
  sleep : s'.sleepQueue = s.sleepQueue
  selfWait : s'.selfWaitList = s.selfWaitList
  wait : s'.waitList = s.waitList

theorem SameWaits.refl (s : SchedState) : SameWaits s s := ⟨rfl, rfl, rfl, rfl⟩

theorem SameWaits.trans {s₁ s₂ s₃ : SchedState} (h₁ : SameWaits s₁ s₂) (h₂ : SameWaits s₂ s₃) :
    SameWaits s₁ s₃ :=
  ⟨h₂.link.trans h₁.link, h₂.sleep.trans h₁.sleep, h₂.selfWait.trans h₁.selfWait,
    h₂.wait.trans h₁.wait⟩

theorem SameWaits.head (h : SameWaits s s') (l : WaitOn) : s'.waitHead l = s.waitHead l := by
  cases l with
  | sleep => exact h.sleep
  | selfWait t => exact congrFun h.selfWait t
  | wait t => exact congrFun h.wait t

theorem SameWaits.threadPut (s : SchedState) (n t : Nat) : SameWaits s (threadPut n t s) := by
  obtain ⟨c, hc⟩ := threadPut_counts n t s
  rw [hc]
  exact ⟨rfl, rfl, rfl, rfl⟩

theorem SameWaits.of_rest (h : s'.rest = s.rest) : SameWaits s s' := by
  have h1 : s'.rest.waitLink = s.rest.waitLink := congrArg SchedState.waitLink h
  have h2 : s'.rest.sleepQueue = s.rest.sleepQueue := congrArg SchedState.sleepQueue h
  have h3 : s'.rest.selfWaitList = s.rest.selfWaitList := congrArg SchedState.selfWaitList h
  have h4 : s'.rest.waitList = s.rest.waitList := congrArg SchedState.waitList h
  exact ⟨h1, h2, h3, h4⟩

theorem SameWaits.reapLoop (p n : Nat) (o : Option Nat) (s : SchedState) :
    SameWaits s (reapLoop p n o s) := by
  induction n generalizing o s with
  | zero => exact .refl s
  | succ n ih =>
    cases o with
    | none => exact .refl s
    | some z =>
      have h1 : SameWaits s ((s.setState z .done).zombieRemove p z) := ⟨rfl, rfl, rfl, rfl⟩
      exact (h1.trans (.threadPut _ n z)).trans (ih _ _)

theorem waitHead_setWaitHead_of_ne {l l' : WaitOn} (links : Links) (h : QHead) (hne : l' ≠ l) :
    (s.setWaitHead l links h).waitHead l' = s.waitHead l' := by
  cases l <;> cases l' <;> try rfl
  · exact absurd rfl hne
  · next t t' => exact Function.update_of_ne (fun he => hne (congrArg WaitOn.selfWait he)) _ _
  · next t t' => exact Function.update_of_ne (fun he => hne (congrArg WaitOn.wait he)) _ _

end SchedState

section
variable {s s' : SchedState} {l : SchedState.WaitOn} {t : Nat} {xs : List Nat}

/-! ## waking up one list -/

/-- what waking up the list `l` leaves of the lists -/
structure WakeFrame (s s' : SchedState) (l : SchedState.WaitOn) (xs : List Nat) : Prop where
  list : ∃ ys, ys ⊆ xs ∧ IsList s'.waitLink (s'.waitHead l) ys
  link : ∀ x, x ∉ xs → s'.waitLink x = s.waitLink x
  head : ∀ l', l' ≠ l → s'.waitHead l' = s.waitHead l'

/-- the thread that is woken up leaves the list `l` -/
theorem wakeup_waits (s : SchedState) (l : SchedState.WaitOn) (t : Nat) :
    (s.wakeup l t).waitLink = (DList.remove s.waitLink (s.waitHead l) t).1 ∧
      (s.wakeup l t).waitHead l = (DList.remove s.waitLink (s.waitHead l) t).2 ∧
      ∀ l', l' ≠ l → (s.wakeup l t).waitHead l' = s.waitHead l' := by
  unfold SchedState.wakeup SchedState.waitRemove
  dsimp only
  split
  · simp only [SchedState.waitHead_runqInsertFront]
    exact ⟨SchedState.waitLink_setWaitHead .., SchedState.waitHead_setWaitHead ..,
      fun l' hl' => SchedState.waitHead_setWaitHead_of_ne _ _ hl'⟩
  · simp only [SchedState.waitHead_doneqInsertTail]
    exact ⟨SchedState.waitLink_setWaitHead .., SchedState.waitHead_setWaitHead ..,
      fun l' hl' => SchedState.waitHead_setWaitHead_of_ne _ _ hl'⟩

theorem wakeupLoop_frame (ticks : Int) :
    ∀ (rest : List Nat) (s : SchedState) (kept : List Nat) (n : Nat),
    IsList s.waitLink (s.waitHead l) (kept ++ rest) →
    WakeFrame s (SchedState.wakeupLoop l ticks n rest.head? s) l (kept ++ rest) := by
  intro rest
  induction rest with
  | nil =>
    intro s kept n h
    have e : SchedState.wakeupLoop l ticks n ([] : List Nat).head? s = s := by
      cases n <;> rfl
    rw [e]
    exact ⟨⟨_, fun _ h => h, h⟩, fun _ _ => rfl, fun _ _ => rfl⟩
  | cons t rest ih =>
    intro s kept n h
    cases n with
    | zero => exact ⟨⟨_, fun _ h => h, h⟩, fun _ _ => rfl, fun _ _ => rfl⟩
    | succ n =>
      have hnext : (s.waitLink t).next = rest.head? := by rw [h.link]
      have hsub : ∀ x, x ∈ kept ++ rest → x ∈ kept ++ t :: rest := fun x hx =>
        (List.mem_append.mp hx).elim (fun h => List.mem_append_left _ h)
          fun h => List.mem_append_right _ (List.mem_cons_of_mem _ h)
      rw [List.head?_cons, SchedState.wakeupLoop_cons, hnext]
      by_cases hex : s.deadline t ≤ ticks
      · rw [if_pos hex]
        obtain ⟨e1, e2, e3⟩ := wakeup_waits s l t
        have h' : IsList (s.wakeup l t).waitLink ((s.wakeup l t).waitHead l) (kept ++ rest) := by
          rw [e1, e2]
          exact h.remove
        obtain ⟨⟨ys, hys, hl⟩, h2, h3⟩ := ih (s.wakeup l t) kept n h'
        refine ⟨⟨ys, fun x hx => hsub x (hys hx), hl⟩, fun x hx => ?_, fun l' hl' => ?_⟩
        · rw [h2 x fun hm => hx (hsub x hm), e1]
          exact h.remove_links hx
        · rw [h3 l' hl', e3 l' hl']
      · rw [if_neg hex]
        have hk : kept ++ t :: rest = (kept ++ [t]) ++ rest := by rw [List.append_assoc]; rfl
        rw [hk] at h ⊢
        exact ih s (kept ++ [t]) n h

/-- **waking up one list leaves the others** -/
theorem wakeups_frame (h : IsList s.waitLink (s.waitHead l) xs) (n : Nat) :
    WakeFrame s (s.wakeupThreads n l) l xs := by
  rw [SchedState.wakeupThreads_eq, h.first]
  exact wakeupLoop_frame _ xs s [] n h

/-! ## the lists but the sleep queue -/

/-- `f` names the threads of each list; the sleep queue itself may be broken -/
structure OtherWaits (s : SchedState) (f : SchedState.WaitOn → List Nat) : Prop where
  list : ∀ l, l ≠ .sleep → IsList s.waitLink (s.waitHead l) (f l)
  one : ∀ l l' x, l ≠ l' → x ∈ f l → x ∉ f l'

/-- **the lists threads wait on**; no thread is on two of them -/
structure Waits (s : SchedState) (f : SchedState.WaitOn → List Nat) :
    Prop extends OtherWaits s f where
  sleep : IsList s.waitLink s.sleepQueue (f .sleep)

variable {f f' : SchedState.WaitOn → List Nat}

theorem OtherWaits.congr (h : OtherWaits s f) (hs : SchedState.SameWaits s s') :
    OtherWaits s' f := by
  refine ⟨fun l hl => ?_, h.one⟩
  rw [hs.link, hs.head]
  exact h.list l hl

/-- one list is woken up -/
theorem OtherWaits.wakeups (h : OtherWaits s f) (hl : l ≠ .sleep) (n : Nat) :
    ∃ f', OtherWaits (s.wakeupThreads n l) f' ∧ (∀ l', f' l' ⊆ f l') ∧
      (∀ l', l' ≠ l → f' l' = f l') ∧ (s.wakeupThreads n l).sleepQueue = s.sleepQueue ∧
      ∀ x ∈ f .sleep, (s.wakeupThreads n l).waitLink x = s.waitLink x := by
  obtain ⟨⟨ys, hys, hlist⟩, h2, h3⟩ := wakeups_frame (h.list l hl) n
  have hsub : ∀ l', Function.update f l ys l' ⊆ f l' := by
    intro l'
    by_cases he : l' = l
    · rw [he, Function.update_self]
      exact hys
    · rw [Function.update_of_ne he]
      exact fun _ hx => hx
  refine ⟨Function.update f l ys, ⟨fun l' hl' => ?_, fun a b x hab hx hx' => ?_⟩, hsub,
    fun l' hl' => Function.update_of_ne hl' _ _, h3 .sleep hl.symm, fun x hx => ?_⟩
  · by_cases he : l' = l
    · rw [he, Function.update_self]
      exact hlist
    · rw [Function.update_of_ne he, h3 l' he]
      exact (h.list l' hl').congr fun x hx => h2 x fun hm => h.one l' l x he hx hm
  · exact h.one a b x hab (hsub a hx) (hsub b hx')
  · exact h2 x fun hm => h.one .sleep l x hl.symm hx hm

/-! ## thread_vanish_noyield -/

/-- what is left of the lists when `t` has vanished and the next thread was selected: the sleep queue
has the head `h`, and the links it had -/
structure Vanished (s s' : SchedState) (f : SchedState.WaitOn → List Nat) (t : Nat) (h : QHead)
    (f' : SchedState.WaitOn → List Nat) : Prop where
  other : OtherWaits s' f'
  sub : ∀ l, f' l ⊆ f l
  sleep : f' .sleep = f .sleep
  own : f' (.selfWait t) = f (.selfWait t)
  head : s'.sleepQueue = h
  link : ∀ x ∈ f .sleep, s'.waitLink x = s.waitLink x

theorem Vanished.same {h : QHead} {s₁ : SchedState} (hv : Vanished s s₁ f t h f')
    (hs : SchedState.SameWaits s₁ s') : Vanished s s' f t h f' where
  other := hv.other.congr hs
  sub := hv.sub
  sleep := hv.sleep
  own := hv.own
  head := hs.sleep.trans hv.head
  link x hx := by rw [hs.link, hv.link x hx]

theorem Vanished.wakeups {h : QHead} {s₁ : SchedState} (hv : Vanished s s₁ f t h f')
    (hl : l ≠ .sleep)
    (hown : l ≠ .selfWait t) (n : Nat) : ∃ f'', Vanished s (s₁.wakeupThreads n l) f t h f'' := by
  obtain ⟨f'', h1, h2, h3, h4, h5⟩ := hv.other.wakeups hl n
  refine ⟨f'', h1, fun l' x hx => hv.sub l' (h2 l' hx), ?_, ?_, h4.trans hv.head, fun x hx => ?_⟩
  · rw [h3 .sleep hl.symm, hv.sleep]
  · rw [h3 _ hown.symm, hv.own]
  · rw [h5 x (by rw [hv.sleep]; exact hx), hv.link x hx]

/-- the head of the sleep queue after `Q_REMOVE` by the null links of `t` -/
def cutHead (h : QHead) (t : Nat) : QHead :=
  ⟨if h.first = some t then none else h.first, if h.last = some t then none else h.last⟩

/-- **a thread that waits vanishes** -/
theorem vanish_frame (h : OtherWaits s f) (hw : s.state t = .waiting)
    (h0 : s.runnableLink t = .null) (hp : s.parent t ≠ some t) (n : Nat) :
    ∃ f', Vanished s ((s.threadVanishNoyield n t).schedYield n) f t (cutHead s.sleepQueue t) f' := by
  -- out of the map
  have hfst : ∃ s₁, SchedState.threadPut n t { s with inMap := Function.update s.inMap t false } = s₁ ∧
      SchedState.SameWaits s s₁ ∧ s₁.state = s.state ∧ s₁.runnableLink = s.runnableLink ∧
      s₁.parent = s.parent := by
    obtain ⟨c, hc⟩ := SchedState.threadPut_counts n t { s with inMap := Function.update s.inMap t false }
    exact ⟨_, hc, ⟨rfl, rfl, rfl, rfl⟩, rfl, rfl, rfl⟩
  obtain ⟨s₁, e1, hs1, hst1, hr1, hp1⟩ := hfst
  -- off the sleep queue
  have hsnd : ∃ s₂, s₁.leaveQueue n t = s₂ ∧ s₂.waitLink = s.waitLink ∧
      s₂.sleepQueue = cutHead s.sleepQueue t ∧ s₂.selfWaitList = s.selfWaitList ∧
      s₂.waitList = s.waitList ∧ s₂.parent = s.parent := by
    have hl : s₁.leaveQueue n t = s₁.removeWaitingThread n t := by
      unfold SchedState.leaveQueue
      rw [hst1, hw]
    unfold SchedState.removeWaitingThread at hl
    obtain ⟨c, hc⟩ := SchedState.threadPut_counts n t { s₁ with
      runnableLink := (DList.remove s₁.runnableLink s₁.sleepQueue t).1
      sleepQueue := (DList.remove s₁.runnableLink s₁.sleepQueue t).2 }
    refine ⟨_, hl.trans hc, hs1.link, ?_, hs1.selfWait, hs1.wait, hp1⟩
    show DList.Head.mk (if s₁.sleepQueue.first = some t then (s₁.runnableLink t).next else _)
      (if s₁.sleepQueue.last = some t then (s₁.runnableLink t).prev else _) = _
    rw [hr1, h0, hs1.sleep]
    rfl
  obtain ⟨s₂, e2, hl2, hq2, hsw2, hwl2, hp2⟩ := hsnd
  have hv2 : Vanished s s₂ f t (cutHead s.sleepQueue t) f := by
    refine ⟨⟨fun l hl => ?_, h.one⟩, fun _ _ hx => hx, rfl, rfl, hq2, fun x _ => by rw [hl2]⟩
    have hh : s₂.waitHead l = s.waitHead l := by
      cases l with
      | sleep => exact absurd rfl hl
      | selfWait u => exact congrFun hsw2 u
      | wait u => exact congrFun hwl2 u
    rw [hl2, hh]
    exact h.list l hl
  -- to the parent
  have hv3 : ∃ f₃, Vanished s (s₂.toParent n t) f t (cutHead s.sleepQueue t) f₃ := by
    unfold SchedState.toParent
    cases hpar : s₂.parent t with
    | none => exact ⟨f, hv2⟩
    | some p =>
      have hpt : (SchedState.WaitOn.selfWait p) ≠ .selfWait t := fun he => by
        rw [hp2] at hpar
        exact hp (hpar.trans (congrArg some (SchedState.WaitOn.selfWait.inj he)))
      have hv : Vanished s (((s₂.childRemove p t).setState t .zombie).zombieInsertTail p t) f t
          (cutHead s.sleepQueue t) f := hv2.same ⟨rfl, rfl, rfl, rfl⟩
      exact hv.wakeups (l := .selfWait p) nofun hpt n
  obtain ⟨f₃, hv3⟩ := hv3
  -- the zombies, and those that wait for it
  generalize hs3 : s₂.toParent n t = s₃ at hv3
  have hv4 := hv3.same (SchedState.SameWaits.reapLoop t n (s₃.zombieList t).first s₃)
  generalize hs4 : SchedState.reapLoop t n (s₃.zombieList t).first s₃ = s₄ at hv4
  obtain ⟨f₅, hv5⟩ := hv4.wakeups (l := .wait t) nofun nofun n
  refine ⟨f₅, ?_⟩
  have he : s.threadVanishNoyield n t
      = SchedState.threadPut n t ((s₄.wakeupThreads n (.wait t)).note (.vanish t)) := by
    unfold SchedState.threadVanishNoyield
    dsimp only
    rw [e1, e2, hs3, hs4]
  rw [he]
  have hn : SchedState.SameWaits (s₄.wakeupThreads n (.wait t))
      ((s₄.wakeupThreads n (.wait t)).note (.vanish t)) := ⟨rfl, rfl, rfl, rfl⟩
  exact hv5.same ((hn.trans (.threadPut _ n t)).trans (.of_rest (SchedState.rest_schedYield _ n)))

/-! ## the sleep queue -/

/-- the head alone was cut: it is still a list, without the thread, only when there was no other -/
theorem cut_isList_iff {links : Links} {h : QHead} {l₁ l₂ : List Nat}
    (hl : IsList links h (l₁ ++ t :: l₂)) (links' : Links) (hk : ∀ x ∈ l₁ ++ t :: l₂, links' x = links x) :
    IsList links' (cutHead h t) (l₁ ++ l₂) ↔ l₁ = [] ∧ l₂ = [] := by
  constructor
  · intro hc
    have h1 : l₁ = [] := by
      cases l₁ using List.reverseRecOn with
      | nil => rfl
      | append_singleton l₁ b =>
        -- the thread before `t` still points to it
        have hb : (links b).next = some t := by
          have hl' : IsList links h (l₁ ++ b :: (t :: l₂)) := by
            rw [List.append_assoc] at hl
            exact hl
          rw [hl'.link]
          rfl
        have hb' : (links' b).next = l₂.head? := by
          have hc' : IsList links' (cutHead h t) (l₁ ++ b :: l₂) := by
            rw [List.append_assoc] at hc
            exact hc
          rw [hc'.link]
        rw [hk b (by simp), hb] at hb'
        exact absurd (List.mem_of_mem_head? hb'.symm) hl.split_nodup.2.2
    subst h1
    refine ⟨rfl, ?_⟩
    have hf : h.first = some t := hl.first
    have hn : none = ([] ++ l₂).head? := by
      rw [← hc.first]
      exact (if_pos hf).symm
    exact List.head?_eq_none_iff.mp hn.symm
  · rintro ⟨rfl, rfl⟩
    have hf : h.first = some t := hl.first
    have hla : h.last = some t := hl.last
    refine ⟨trivial, if_pos hf, if_pos hla, List.nodup_nil⟩

/-- the sleep queue has lost `t` and nobody else, and `t` is on no list -/
structure LeftAlone (s s' : SchedState) (f : SchedState.WaitOn → List Nat) (t : Nat) : Prop where
  sleep : IsList s'.waitLink s'.sleepQueue ((f .sleep).erase t)
  gone : ∀ l xs, IsList s'.waitLink (s'.waitHead l) xs → t ∉ xs

/-- **killing a blocked thread** by `task_vanish` -/
theorem kill_blocked_iff {n : Nat} (h : Waits s f) (hm : s.inMap t = true)
    (hc : s.current ≠ t) (hw : s.state t = .waiting) (h0 : s.runnableLink t = .null)
    (hp : s.parent t ≠ some t) (ht : t ∈ f .sleep ∨ t ∈ f (.selfWait t)) :
    LeftAlone s (s.run (.taskVanish t n)) f t ↔ f .sleep = [t] := by
  have hrun : s.run (.taskVanish t n) = (s.threadVanishNoyield n t).schedYield n := by
    simp only [SchedState.run, SchedState.taskVanish]
    rw [if_pos hm, if_neg (by rw [hw]; nofun)]
  rw [hrun]
  obtain ⟨f', hv⟩ := vanish_frame h.toOtherWaits hw h0 hp n
  generalize (s.threadVanishNoyield n t).schedYield n = s' at hv ⊢
  rcases ht with ht | ht
  · obtain ⟨l₁, l₂, hf⟩ := List.append_of_mem ht
    have hl : IsList s.waitLink s.sleepQueue (l₁ ++ t :: l₂) := hf ▸ h.sleep
    have hn := hl.split_nodup
    have he : (f .sleep).erase t = l₁ ++ l₂ := by
      rw [hf, List.erase_append_right _ hn.2.1, List.erase_cons_head]
    have hiff := cut_isList_iff hl s'.waitLink fun x hx => hv.link x (hf ▸ hx)
    rw [← hv.head, ← he] at hiff
    constructor
    · intro hleft
      obtain ⟨rfl, rfl⟩ := hiff.mp hleft.sleep
      exact hf
    · intro hone
      have hnil : l₁ = [] ∧ l₂ = [] := by
        have hlen := congrArg List.length (hf.symm.trans hone)
        rw [List.length_append, List.length_cons, List.length_singleton] at hlen
        exact ⟨List.length_eq_zero_iff.mp (by omega), List.length_eq_zero_iff.mp (by omega)⟩
      have hs := hiff.mpr hnil
      refine ⟨hs, fun l xs hxs => ?_⟩
      by_cases hls : l = .sleep
      · subst hls
        rw [IsList.unique hxs hs, hone, List.erase_cons_head]
        exact List.not_mem_nil
      · rw [IsList.unique hxs (hv.other.list l hls)]
        exact fun hx => h.one .sleep l t (Ne.symm hls) ht (hv.sub l hx)
  · refine iff_of_false (fun hleft => ?_) fun hone => ?_
    · have hlist := hv.other.list (.selfWait t) nofun
      rw [hv.own] at hlist
      exact hleft.gone (.selfWait t) _ hlist ht
    · exact h.one .sleep (.selfWait t) t nofun (hone ▸ List.mem_singleton_self t) ht

end

/-! ## two sleepers -/

/-- thread 1 runs, 2 and 3 sleep -/
def twoAsleep : SchedState :=
  { SchedState.bare with
    state := fun t => if t = 1 then .runnable else .waiting
    inMap := fun t => t = 1 || t = 2 || t = 3
    deadline := fun _ => 10
    current := 1
    waitLink := fun t =>
      if t = 2 then ⟨some 3, none⟩ else if t = 3 then ⟨none, some 2⟩ else .null
    runnableQueue := ⟨some 1, some 1⟩
    sleepQueue := ⟨some 2, some 3⟩ }

/-- the same threads, but 3 runs and nobody else is asleep -/
def oneAsleep : SchedState :=
  { twoAsleep with
    waitLink := fun _ => .null
    sleepQueue := ⟨some 2, some 2⟩ }

/-- who sleeps -/
def asleep (l : List Nat) : SchedState.WaitOn → List Nat
  | .sleep => l
  | _ => []

theorem asleep_waits {s : SchedState} {l : List Nat} (h : IsList s.waitLink s.sleepQueue l)
    (h1 : ∀ t, s.selfWaitList t = .empty) (h2 : ∀ t, s.waitList t = .empty) : Waits s (asleep l) where
  list
    | .sleep, hl => absurd rfl hl
    | .selfWait t, _ => by
      show IsList s.waitLink (s.selfWaitList t) []
      rw [h1]
      exact IsList.nil
    | .wait t, _ => by
      show IsList s.waitLink (s.waitList t) []
      rw [h2]
      exact IsList.nil
  one
    | .sleep, .sleep, _, hl => absurd rfl hl
    | .sleep, .selfWait _, _, _ => fun _ => List.not_mem_nil
    | .sleep, .wait _, _, _ => fun _ => List.not_mem_nil
    | .selfWait _, _, _, _ => fun hx => nomatch hx
    | .wait _, _, _, _ => fun hx => nomatch hx
  sleep := h

theorem oneAsleep_waits : Waits oneAsleep (asleep [2]) :=
  asleep_waits ⟨⟨rfl, trivial⟩, rfl, rfl, by decide⟩ (fun _ => rfl) fun _ => rfl

theorem twoAsleep_waits : Waits twoAsleep (asleep [2, 3]) :=
  asleep_waits ⟨⟨rfl, rfl, trivial⟩, rfl, rfl, by decide⟩ (fun _ => rfl) fun _ => rfl

theorem kill_blocked_iff_one :
    LeftAlone oneAsleep (oneAsleep.run (.taskVanish 2 5)) (asleep [2]) 2 ↔ asleep [2] .sleep = [2] :=
  kill_blocked_iff oneAsleep_waits rfl (by decide) rfl rfl nofun (.inl (List.mem_singleton_self 2))

/-- thread 2 is killed, and the queue has no front any more: nobody will wake thread 3 -/
theorem kill_first_sleeper :
    Waits twoAsleep (asleep [2, 3]) ∧ twoAsleep.inMap 2 = true ∧ twoAsleep.state 2 = .waiting ∧
      ¬ LeftAlone twoAsleep (twoAsleep.run (.taskVanish 2 5)) (asleep [2, 3]) 2 := by
  refine ⟨twoAsleep_waits, rfl, rfl, fun h => ?_⟩
  have hf : (twoAsleep.run (.taskVanish 2 5)).sleepQueue.first = none := rfl
  rw [h.sleep.first] at hf
  exact nomatch hf

end Paravirt

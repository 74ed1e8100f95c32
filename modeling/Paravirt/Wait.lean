import Paravirt.QueueRun

/-!
# wait (kern/thread.c, kern/process.c)

* `WaitState`          the scheduler, with the status of each thread and what the waits returned;
* `SchedOp.Orderly`    a thread that was switched away inside `thread_wait` goes on inside it;
* `Told`               what was returned, and of whom nobody was told yet;
* `wait_tells_once`    over whole runs.
-/

set_option linter.unusedSectionVars false
set_option linter.unusedVariables false

namespace Paravirt

structure WaitState where
  sched : SchedState
  /-- `thread->status` -/
  status : Nat → Int
  /-- the threads that vanished, with their status then, the last one first -/
  exits : List (Nat × Int)
  /-- what the waits returned: who waited, the child and the status -/
  told : List (Nat × Nat × Int)
  /-- the threads inside `thread_wait` -/
  inWait : Nat → Bool

inductive WaitOp where
  | sched (op : SchedOp)
  /-- `sys_set_status` of the current thread, and the status of a failed exec -/
  | setStatus (status : Int)

namespace WaitState

/-- a new thread has the status 0 -/
def forkStatus (w : WaitState) : SchedOp → Nat → Int
  | .fork _ =>
    if w.sched.inMap (w.sched.nextId + 1) then w.status
    else Function.update w.status (w.sched.nextId + 1) 0
  | _ => w.status

/-- the threads inside `thread_wait` after the operation -/
def waiting (w : WaitState) (op : SchedOp) : Nat → Bool :=
  match op with
  | .wait _ =>
    match w.sched.blocked op with
    | none => w.inWait
    | some p => Function.update w.inWait p true
  | .waitReap _ => Function.update w.inWait w.sched.current false
  | _ => w.inWait

def step (w : WaitState) : WaitOp → WaitState
  | .sched op =>
    { sched := w.sched.run op
      status := w.forkStatus op
      exits := ((w.sched.leaving op).map fun t => (t, w.status t)) ++ w.exits
      told := ((w.sched.waited op).map fun x => (x.1, x.2, w.status x.2)) ++ w.told
      inWait := w.waiting op }
  | .setStatus status => { w with status := Function.update w.status w.sched.current status }

end WaitState

/-- a thread inside `thread_wait` goes on with the rest of it when it runs again, and with nothing
else -/
def SchedOp.Orderly (w : WaitState) (op : SchedOp) : Prop :=
  op.Calm w.sched ∧
    match op with
    | .afterSwitch _ | .tick _ => True
    | .waitReap _ => w.inWait w.sched.current = true
    | _ => w.inWait w.sched.current = false

def WaitStep (w : WaitState) (op : WaitOp) (w' : WaitState) : Prop :=
  (∀ o, op = .sched o → o.Orderly w) ∧ w' = w.step op

structure Told (w : WaitState) (f : SchedState.WaitOn → List Nat) (k : Kin → List Nat) : Prop where
  told : ∀ p z v, (p, z, v) ∈ w.told → w.sched.parent z = some p ∧ .vanish z ∈ w.sched.log ∧
    v = w.status z ∧ z ∉ k (.zombie p)
  once : (w.told.map fun x => x.2.1).Nodup
  all : ∀ t p, w.sched.parent t = some p → t ∈ k (.child p) ∨ t ∈ k (.zombie p) ∨
    (p, t, w.status t) ∈ w.told ∨ .vanish p ∈ w.sched.log
  dead : ∀ p z, z ∈ k (.zombie p) → .vanish z ∈ w.sched.log
  exits : ∀ z, .vanish z ∈ w.sched.log → (z, w.status z) ∈ w.exits
  inWait : ∀ p, w.inWait p = true →
    .vanish p ∈ w.sched.log ∨ p ∈ f (.selfWait p) ∨ k (.zombie p) ≠ []

section
variable {w : WaitState} {rq rq' : List Nat} {f f' : SchedState.WaitOn → List Nat}
    {k k' : Kin → List Nat} {p z : Nat} {op : SchedOp}

/-- a wait returns one child at most -/
theorem waited_once (s : SchedState) (op : SchedOp) : ((s.waited op).map Prod.snd).Nodup := by
  unfold SchedState.waited
  repeat' split
  all_goals first | exact List.nodup_nil | exact List.nodup_singleton _

/-- the thread that is told of a child is the one that runs -/
theorem waited_current {s : SchedState} (h : (p, z) ∈ s.waited op) : p = s.current := by
  unfold SchedState.waited at h
  split at h
  all_goals first
    | exact absurd h List.not_mem_nil
    | skip
  all_goals
    split at h
    · exact absurd h List.not_mem_nil
    · exact (Prod.mk.inj (List.mem_singleton.mp h)).1

/-- a thread that is there already keeps its status -/
theorem forkStatus_of_old (w : WaitState) (op : SchedOp) (ht : z ≤ w.sched.nextId) :
    w.forkStatus op z = w.status z := by
  unfold WaitState.forkStatus
  split
  · split
    · rfl
    · exact Function.update_of_ne (Nat.ne_of_lt (Nat.lt_succ_of_le ht)) _ _
  · rfl

/-- a thread that vanishes keeps its status -/
theorem forkStatus_of_leaving (w : WaitState) (h : z ∈ w.sched.leaving op) :
    w.forkStatus op z = w.status z := by
  cases op with
  | fork n => exact absurd h List.not_mem_nil
  | _ => rfl

/-- those inside `thread_wait` -/
theorem Told.waiting (h : Told w f k) (hop : op.Orderly w)
    (hm : Moved w.sched (w.sched.run op) (w.sched.waited op) (w.sched.blocked op)
      (w.sched.leaving op) f f' k k')
    (hin : w.waiting op p = true) :
    .vanish p ∈ (w.sched.run op).log ∨ p ∈ f' (.selfWait p) ∨ k' (.zombie p) ≠ [] := by
  -- what `p` had before the step, it has after it, unless it is told of a zombie
  have keep : w.inWait p = true → (∀ z, (p, z) ∉ w.sched.waited op) →
      .vanish p ∈ (w.sched.run op).log ∨ p ∈ f' (.selfWait p) ∨ k' (.zombie p) ≠ [] := by
    intro hin hnone
    rcases h.inWait p hin with hc | hc | hc
    · exact .inl ((hm.log p).mpr (.inr hc))
    · exact .inr (hm.waits p hc)
    · obtain ⟨z, hz⟩ := List.exists_mem_of_ne_nil _ hc
      rcases hm.zombies p z hz with hz | hz | hz
      · exact .inr (.inr (List.ne_nil_of_mem hz))
      · exact absurd hz (hnone z)
      · exact .inl hz
  cases op with
  | wait n =>
    have hnone : ∀ z, w.inWait p = true → (p, z) ∉ w.sched.waited (.wait n) := by
      intro z hin hz
      have hf : w.inWait w.sched.current = false := hop.2
      rw [waited_current hz, hf] at hin
      exact nomatch hin
    unfold WaitState.waiting at hin
    dsimp only at hin
    cases hb : w.sched.blocked (.wait n) with
    | none =>
      rw [hb] at hin
      exact keep hin fun z => hnone z hin
    | some q =>
      rw [hb] at hin
      by_cases hq : p = q
      · exact .inr (.inl (hm.blocked p (hq ▸ hb)))
      · change Function.update w.inWait q true p = true at hin
        rw [Function.update_of_ne hq] at hin
        exact keep hin fun z => hnone z hin
  | waitReap n =>
    change Function.update w.inWait w.sched.current false p = true at hin
    by_cases hq : p = w.sched.current
    · rw [hq, Function.update_self] at hin
      exact nomatch hin
    · rw [Function.update_of_ne hq] at hin
      exact keep hin fun z hz => hq (waited_current hz)
  | yield tid n => exact keep hin fun z => List.not_mem_nil
  | afterSwitch n => exact keep hin fun z => List.not_mem_nil
  | fork n => exact keep hin fun z => List.not_mem_nil
  | sleep ticks n => exact keep hin fun z => List.not_mem_nil
  | runflag tid ev1 nv1 ev2 nv2 n => exact keep hin fun z => List.not_mem_nil
  | tick numTick => exact keep hin fun z => List.not_mem_nil
  | vanish n => exact keep hin fun z => List.not_mem_nil
  | taskVanish tid n => exact keep hin fun z => List.not_mem_nil

/-- **one operation of the scheduler** -/
theorem Told.step (h : Told w f k) (hp : Placed w.sched rq f k) (hop : op.Orderly w)
    (hp' : Placed (w.sched.run op) rq' f' k')
    (hm : Moved w.sched (w.sched.run op) (w.sched.waited op) (w.sched.blocked op)
      (w.sched.leaving op) f f' k k') :
    Told (w.step (.sched op)) f' k' where
  told p z v hz := by
    show (w.sched.run op).parent z = some p ∧ _ ∧ v = w.forkStatus op z ∧ _
    rcases List.mem_append.mp hz with hz | hz
    · obtain ⟨⟨q, x⟩, hx, he⟩ := List.mem_map.mp hz
      obtain ⟨he1, he⟩ := Prod.mk.inj he
      obtain ⟨he2, he3⟩ := Prod.mk.inj he
      change q = p at he1
      change x = z at he2
      change w.status x = v at he3
      subst he1 he2 he3
      obtain ⟨h1, h2⟩ := hm.told q x hx
      have hv := h.dead q x h1
      have hold := (hp.gone x hv).2.1
      rw [forkStatus_of_old w op hold, hm.parent x hold]
      exact ⟨(hp.zombie q x h1).1, (hm.log x).mpr (.inr hv), rfl, h2⟩
    · obtain ⟨h1, h2, h3, h4⟩ := h.told p z v hz
      obtain ⟨h5, h6, -⟩ := hp.gone z h2
      rw [forkStatus_of_old w op h6, hm.parent z h6]
      refine ⟨h1, (hm.log z).mpr (.inr h2), h3, fun hin => ?_⟩
      rcases hm.new p z hin with hin | hin
      · exact h4 hin
      · exact nomatch h5.symm.trans hin.1
  once := by
    show (((w.sched.waited op).map fun x => (x.1, x.2, w.status x.2)) ++ w.told |>.map
      fun x => x.2.1).Nodup
    rw [List.map_append, List.map_map]
    refine List.nodup_append.mpr ⟨waited_once _ _, h.once, fun x hx y hy he => ?_⟩
    obtain ⟨⟨p, z⟩, hz, rfl⟩ := List.mem_map.mp hx
    obtain ⟨⟨q, z', v⟩, hz', rfl⟩ := List.mem_map.mp hy
    obtain rfl : z = z' := he
    obtain ⟨h1, -, -, h4⟩ := h.told q z v hz'
    have hin := (hm.told p z hz).1
    have hq := (hp.zombie p z hin).1
    rw [h1] at hq
    exact h4 (Option.some.inj hq ▸ hin)
  all t p ht := by
    change (w.sched.run op).parent t = some p at ht
    show _ ∨ _ ∨ (p, t, w.forkStatus op t) ∈ _ ∨ _
    by_cases hold : t ≤ w.sched.nextId
    · rw [forkStatus_of_old w op hold]
      rw [hm.parent t hold] at ht
      rcases h.all t p ht with hc | hc | hc | hc
      · obtain ⟨-, hin⟩ := (hp.child p t).mp hc
        rcases hm.left t hin with hl | hl
        · exact .inl ((hp'.child p t).mpr ⟨(hm.parent t hold).trans ht, hl⟩)
        · exact .inr (.inl (hl p ht))
      · rcases hm.zombies p t hc with hz | hz | hz
        · exact .inr (.inl hz)
        · exact .inr (.inr (.inl (List.mem_append_left _ (List.mem_map.mpr ⟨(p, t), hz, rfl⟩))))
        · exact .inr (.inr (.inr hz))
      · exact .inr (.inr (.inl (List.mem_append_right _ hc)))
      · exact .inr (.inr (.inr ((hm.log p).mpr (.inr hc))))
    · have hb := hm.born t (Nat.lt_of_not_le hold) (by rw [ht]; exact nofun)
      exact .inl ((hp'.child p t).mpr ⟨ht, hb⟩)
  dead p z hz := by
    rcases hm.new p z hz with hz | hz
    · exact (hm.log z).mpr (.inr (h.dead p z hz))
    · exact hz.2
  exits z hz := by
    show (z, w.forkStatus op z) ∈ ((w.sched.leaving op).map fun t => (t, w.status t)) ++ w.exits
    rcases (hm.log z).mp hz with hl | hv
    · rw [forkStatus_of_leaving w hl]
      exact List.mem_append_left _ (List.mem_map.mpr ⟨z, hl, rfl⟩)
    · rw [forkStatus_of_old w op (hp.gone z hv).2.1]
      exact List.mem_append_right _ (h.exits z hv)
  inWait p hin := h.waiting hop hm hin

/-- **a thread sets its status**: it is not one that has vanished -/
theorem Told.setStatus (h : Told w f k) (ha : .vanish w.sched.current ∉ w.sched.log) (v : Int) :
    Told (w.step (.setStatus v)) f k := by
  have hsame : ∀ z, .vanish z ∈ w.sched.log →
      Function.update w.status w.sched.current v z = w.status z := by
    intro z hz
    have hne : z ≠ w.sched.current := fun he => ha (he ▸ hz)
    exact Function.update_of_ne hne _ _
  constructor
  · intro p z u hz
    obtain ⟨h1, h2, h3, h4⟩ := h.told p z u hz
    exact ⟨h1, h2, h3.trans (hsame z h2).symm, h4⟩
  · exact h.once
  · intro t p ht
    rcases h.all t p ht with hc | hc | hc | hc
    · exact .inl hc
    · exact .inr (.inl hc)
    · refine .inr (.inr (.inl ?_))
      show (p, t, Function.update w.status w.sched.current v t) ∈ w.told
      rw [hsame t (h.told p t _ hc).2.1]
      exact hc
    · exact .inr (.inr (.inr hc))
  · exact h.dead
  · intro z hz
    show (z, Function.update w.status w.sched.current v z) ∈ w.exits
    rw [hsame z hz]
    exact h.exits z hz
  · exact h.inWait

/-- no thread has waited yet -/
def waitBooted : WaitState := ⟨schedBooted, fun _ => 0, [], [], fun _ => false⟩

theorem waitBooted_told : Told waitBooted (fun _ => []) (fun _ => []) where
  told _ _ _ hz := absurd hz List.not_mem_nil
  once := List.nodup_nil
  all _ _ hp := nomatch hp
  dead _ _ hz := absurd hz List.not_mem_nil
  exits z hz := by
    rcases List.mem_cons.mp hz with hz | hz
    · exact nomatch hz
    · exact nomatch List.mem_singleton.mp hz
  inWait _ hin := nomatch hin

/-- the thread that runs has not vanished -/
theorem Placed.running_alive (h : Placed w.sched rq f k) (hr : Running w.sched rq) :
    .vanish w.sched.current ∉ w.sched.log := by
  intro hv
  have hst := h.running hr
  have hg := (h.gone _ hv).2.2
  rw [hst] at hg
  rcases hg with hg | hg <;> exact nomatch hg

/-- **wait tells a parent of every child once**: it names children that have vanished, with the
status they had then, and none twice; it finds no children only when it has told of all of them; a
thread that was switched away inside it finds a zombie -/
theorem wait_tells_once {ops : List WaitOp} (hrun : Steps WaitStep waitBooted ops w) :
    (w.told.map fun x => x.2.1).Nodup ∧
      (∀ p z v, (p, z, v) ∈ w.told →
        w.sched.parent z = some p ∧ .vanish z ∈ w.sched.log ∧ (z, v) ∈ w.exits) ∧
      ((w.sched.childList w.sched.current).first = none →
        (w.sched.zombieList w.sched.current).first = none →
        ∀ t, w.sched.parent t = some w.sched.current → ∃ v, (w.sched.current, t, v) ∈ w.told) ∧
      (w.inWait w.sched.current = true → (w.sched.zombieList w.sched.current).first ≠ none) := by
  have hinv : ∃ rq f k, Placed w.sched rq f k ∧ Running w.sched rq ∧ Told w f k := by
    refine hrun.invariant (P := fun w => ∃ rq f k, Placed w.sched rq f k ∧ Running w.sched rq ∧
      Told w f k) (fun w op w' hP hs => ?_) ⟨_, _, _, schedBooted_placed,
        .inr (List.mem_singleton_self 2), waitBooted_told⟩
    obtain ⟨rq, f, k, h, hr, ht⟩ := hP
    obtain ⟨hok, rfl⟩ := hs
    cases op with
    | setStatus v => exact ⟨rq, f, k, h, hr, ht.setStatus (h.running_alive hr) v⟩
    | sched op =>
      obtain ⟨rq', f', k', h1, h2, h3⟩ := h.next hr op (hok op rfl).1
      exact ⟨rq', f', k', h1, h2, ht.step h (hok op rfl) h1 h3⟩
  obtain ⟨rq, f, k, h, hr, ht⟩ := hinv
  have hc : (w.sched.childList w.sched.current).first = (k (.child w.sched.current)).head? :=
    (h.kin.list (.child w.sched.current)).first
  have hz : (w.sched.zombieList w.sched.current).first = (k (.zombie w.sched.current)).head? :=
    (h.kin.list (.zombie w.sched.current)).first
  refine ⟨ht.once, fun p z v hpz => ?_, ?_, ?_⟩
  · obtain ⟨h1, h2, h3, -⟩ := ht.told p z v hpz
    exact ⟨h1, h2, h3 ▸ ht.exits z h2⟩
  · intro h1 h2 t htp
    rw [hc, List.head?_eq_none_iff] at h1
    rw [hz, List.head?_eq_none_iff] at h2
    rcases ht.all t _ htp with ha | ha | ha | ha
    · rw [h1] at ha
      exact absurd ha List.not_mem_nil
    · rw [h2] at ha
      exact absurd ha List.not_mem_nil
    · exact ⟨_, ha⟩
    · exact absurd ha (h.running_alive hr)
  · intro hin he
    rw [hz, List.head?_eq_none_iff] at he
    rcases ht.inWait _ hin with hi | hi | hi
    · exact h.running_alive hr hi
    · exact h.not_waits (by rw [h.running hr]; exact nofun) _ hi
    · exact hi he

/-- thread 2 forks 3, which sets its status to 7 and vanishes; 2 waits -/
def waitRuns : WaitState :=
  [.sched (.fork 9), .setStatus 7, .sched (.vanish 9), .sched (.wait 9)].foldl WaitState.step waitBooted

theorem waitRuns_steps : ∃ ops, Steps WaitStep waitBooted ops waitRuns := by
  have h1 : (SchedOp.fork 9).Orderly waitBooted := ⟨(by decide : 0 < 9), rfl⟩
  have h3 : (SchedOp.vanish 9).Orderly ((waitBooted.step (.sched (.fork 9))).step (.setStatus 7)) :=
    ⟨⟨by decide, nofun⟩, rfl⟩
  have h4 : (SchedOp.wait 9).Orderly (((waitBooted.step (.sched (.fork 9))).step
      (.setStatus 7)).step (.sched (.vanish 9))) := ⟨⟨by decide, by decide⟩, rfl⟩
  have hs : ∀ {w op}, SchedOp.Orderly w op → WaitStep w (.sched op) (w.step (.sched op)) :=
    fun h => ⟨fun o ho => WaitOp.sched.inj ho ▸ h, rfl⟩
  have h2 : ∀ w v, WaitStep w (.setStatus v) (w.step (.setStatus v)) :=
    fun w v => ⟨(fun o ho => nomatch ho), rfl⟩
  exact ⟨_, (((Steps.single (hs h1)).snoc (h2 _ 7)).snoc (hs h3)).snoc (hs h4)⟩

theorem wait_tells_once_child :
    waitRuns.told = [(2, 3, 7)] ∧ (waitRuns.told.map fun x => x.2.1).Nodup := by
  obtain ⟨ops, h⟩ := waitRuns_steps
  exact ⟨rfl, (wait_tells_once h).1⟩

end

end Paravirt

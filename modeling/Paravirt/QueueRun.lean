import Paravirt.Queues

/-!
# Runs of the scheduler

* `SchedOp.Calm`       no thread that waits is killed or has its run flag set;
* `Moved`              what one operation does to those that wait, to the zombies and to the ids;
* `Placed.next`        one operation, one lemma for each kind before it;
* `queues_agree`       over whole runs from the state that `sched_init` leaves.
-/

set_option linter.unusedSectionVars false
set_option linter.unusedVariables false

namespace Paravirt
open DList

/-! ## one operation -/

/-- what `thread_wait` returns: the thread that waits, and the child it is told of -/
def SchedState.waited (s : SchedState) : SchedOp → List (Nat × Nat)
  | .wait _ | .waitReap _ =>
    match (s.zombieList s.current).first with
    | none => []
    | some z => [(s.current, z)]
  | _ => []

/-- the thread that begins to wait for its children -/
def SchedState.blocked (s : SchedState) : SchedOp → Option Nat
  | .wait _ =>
    if (s.zombieList s.current).first = none ∧ (s.childList s.current).first ≠ none then some s.current
    else none
  | _ => none

/-- the threads that vanish -/
def SchedState.leaving (s : SchedState) : SchedOp → List Nat
  | .vanish _ => [s.current]
  | .taskVanish tid _ => if s.inMap tid then [tid] else []
  | _ => []

/-- the idle thread makes no system call, the threads that vanish have a parent, and none that waits
is killed or has its run flag set -/
def SchedOp.Calm (s : SchedState) : SchedOp → Prop
  | .yield _ n | .fork n => 0 < n
  | .afterSwitch _ | .tick _ | .waitReap _ => True
  | .wait n | .sleep _ n => 0 < n ∧ s.current ≠ s.idle
  | .runflag tid _ _ _ _ n => 0 < n ∧ s.current ≠ s.idle ∧ s.state tid ≠ .waiting
  | .vanish n => 0 < n ∧ s.parent s.current ≠ none
  | .taskVanish tid n => 0 < n ∧ s.parent tid ≠ none ∧ s.state tid ≠ .waiting

/-- what becomes of those that wait for children, of zombies and of ids -/
structure Moved (s s' : SchedState) (out : List (Nat × Nat)) (blk : Option Nat)
    (gone : List Nat) (f f' : SchedState.WaitOn → List Nat)
    (k k' : Kin → List Nat) : Prop where
  waits : ∀ p, p ∈ f (.selfWait p) → p ∈ f' (.selfWait p) ∨ k' (.zombie p) ≠ []
  blocked : ∀ p, blk = some p → p ∈ f' (.selfWait p)
  zombies : ∀ p z, z ∈ k (.zombie p) → z ∈ k' (.zombie p) ∨ (p, z) ∈ out ∨ .vanish p ∈ s'.log
  new : ∀ p z, z ∈ k' (.zombie p) → z ∈ k (.zombie p) ∨ (s.inMap z = true ∧ .vanish z ∈ s'.log)
  told : ∀ p z, (p, z) ∈ out → z ∈ k (.zombie p) ∧ z ∉ k' (.zombie p)
  log : ∀ t, .vanish t ∈ s'.log ↔ t ∈ gone ∨ .vanish t ∈ s.log
  parent : ∀ t, t ≤ s.nextId → s'.parent t = s.parent t
  next : s.nextId ≤ s'.nextId
  left : ∀ t, s.inMap t = true → s'.inMap t = true ∨ ∀ p, s.parent t = some p → t ∈ k' (.zombie p)
  back : ∀ t, t ≤ s.nextId → s'.inMap t = true → s.inMap t = true
  born : ∀ t, s.nextId < t → s'.parent t ≠ none → s'.inMap t = true

section
variable {s s' s'' : SchedState} {rq rq' : List Nat} {f f' : SchedState.WaitOn → List Nat}
    {k k' : Kin → List Nat} {t p n : Nat} {out : List (Nat × Nat)}
    {blk : Option Nat} {gone : List Nat}

theorem Placed.running (h : Placed s rq f k) (hr : Running s rq) : s.state s.current = .runnable := by
  rcases hr with hr | hr
  · rw [hr]
    exact h.idle_state
  · exact h.state_of_mem hr

theorem Placed.running_old (h : Placed s rq f k) (hr : Running s rq) : s.current ≤ s.nextId :=
  h.toKnown.le_nextId (h.live _ (.inl (h.running hr)))

/-- the lists of waiting threads and of children stay -/
theorem Moved.still (hk : Known s) (hlog : ∀ u, .vanish u ∈ s'.log ↔ .vanish u ∈ s.log)
    (hp : s'.parent = s.parent) (hn : s'.nextId = s.nextId) (hm : s'.inMap = s.inMap)
    (hf : ∀ p, f' (.selfWait p) = f (.selfWait p)) : Moved s s' [] none [] f f' k k where
  waits p hp := .inl (hf p ▸ hp)
  blocked _ hb := nomatch hb
  zombies _ _ hz := .inl hz
  new _ _ hz := .inl hz
  told _ _ ho := absurd ho List.not_mem_nil
  log u := (hlog u).trans (or_iff_right List.not_mem_nil).symm
  parent t _ := by rw [hp]
  next := Nat.le_of_eq hn.symm
  left t ht := .inl (hm ▸ ht)
  back t _ ht := hm ▸ ht
  born t ht hpt := by
    rw [hp] at hpt
    obtain ⟨p, hpt⟩ := Option.ne_none_iff_exists'.mp hpt
    exact absurd ht (Nat.not_lt_of_le (hk.parents t p hpt).2)

/-- a yield follows -/
theorem Moved.yield (hm : Moved s s' out blk gone f f' k k') (n : Nat)
    (hlog : ∀ u, .vanish u ∈ (s'.schedYield n).log ↔ .vanish u ∈ s'.log) :
    Moved s (s'.schedYield n) out blk gone f f' k k' := by
  have hrest := s'.rest_schedYield n
  have h1 : (s'.schedYield n).parent = s'.parent := congrArg (fun s => s.parent) hrest
  have h2 : (s'.schedYield n).nextId = s'.nextId := congrArg (fun s => s.nextId) hrest
  have h3 : (s'.schedYield n).inMap = s'.inMap := congrArg (fun s => s.inMap) hrest
  constructor
  · exact hm.waits
  · exact hm.blocked
  · exact fun p z hz => (hm.zombies p z hz).imp_right (.imp_right (hlog p).mpr)
  · exact fun p z hz => (hm.new p z hz).imp_right (.imp_right (hlog z).mpr)
  · exact hm.told
  · exact fun t => (hlog t).trans (hm.log t)
  · rw [h1]
    exact hm.parent
  · rw [h2]
    exact hm.next
  · rw [h3]
    exact hm.left
  · rw [h3]
    exact hm.back
  · rw [h1, h3]
    exact hm.born

/-- the lists after a step, as the run lemma needs them -/
def Next (s s' : SchedState) (out : List (Nat × Nat)) (blk : Option Nat) (gone : List Nat)
    (f : SchedState.WaitOn → List Nat) (k : Kin → List Nat) : Prop :=
  ∃ rq' f' k', Placed s' rq' f' k' ∧ Running s' rq' ∧ Moved s s' out blk gone f f' k k'

theorem Next.same (h : Placed s rq f k) (hr : Running s rq) : Next s s [] none [] f k :=
  ⟨rq, f, k, h, hr, .still h.toKnown (fun _ => Iff.rfl) rfl rfl rfl fun _ => rfl⟩

/-- `sched_yield` at the end of an operation -/
theorem Next.yield (h : Placed s' rq' f' k') (hc : s'.state s'.current ≠ .done) (hn : 0 < n)
    (hm : Moved s s' out blk gone f f' k k') : Next s (s'.schedYield n) out blk gone f k := by
  obtain ⟨rq'', h1, h2, h3⟩ := h.yield hc hn
  exact ⟨rq'', f', k', h1, h2, hm.yield n h3⟩

theorem next_sysYield (h : Placed s rq f k) (hr : Running s rq) (hn : 0 < n) (tid : Option Nat) :
    Next s (s.sysYield n tid) [] none [] f k := by
  have hst := h.running hr
  cases tid with
  | none =>
    exact .yield h (by rw [hst]; exact nofun) hn
      (.still h.toKnown (fun _ => Iff.rfl) rfl rfl rfl fun _ => rfl)
  | some t =>
    show Next s (if s.inMap t = false ∨ s.state t ≠ .runnable then s else s.switchTo t) [] none [] f k
    split
    · exact .same h hr
    · next hc =>
      have ht : s.state t = .runnable := Classical.not_not.mp fun hn => hc (.inr hn)
      refine ⟨rq, f, k, ?_, ?_, ?_⟩
      · exact h.reorder (h.queues.switchTo t) rfl (fun _ => not_vanish_select) fun _ => Iff.rfl
      · by_cases hi : t = s.idle
        · exact .inl hi
        · exact .inr ((h.runnable t hi).mp ht)
      · exact .still h.toKnown (fun _ => ⟨not_vanish_select, List.mem_cons_of_mem _⟩) rfl rfl rfl fun _ => rfl

theorem next_afterSwitch (h : Placed s rq f k) (hr : Running s rq) (n : Nat) :
    Next s (s.afterSwitch n) [] none [] f k := by
  obtain ⟨rq', f', h1, h2⟩ := h.afterSwitch n
  refine ⟨rq', f', k, h1, ?_, ?_⟩
  · unfold Running
    rw [h2.current, h2.idle]
    exact hr.imp_right fun hc => h2.sub hc
  · exact .still h.toKnown (fun u => h2.log u) h2.parent h2.nextId h2.inMap
      fun p => h2.other _ nofun

theorem next_fork (h : Placed s rq f k) (hr : Running s rq) (hn : 0 < n) :
    Next s (s.fork n) [] none [] f k := by
  have hold := h.running_old hr
  have hst := h.running hr
  have hc := Placed.fork_eq s n (h.fresh _ (Nat.lt_succ_self _)).2
  have hcur : s.current ≠ s.nextId + 1 := Nat.ne_of_lt (Nat.lt_succ_of_le hold)
  rw [hc]
  refine .yield (h.fork hold _) ?_ hn ?_
  · show Function.update s.state _ _ s.current ≠ _
    rw [Function.update_of_ne hcur, hst]
    exact nofun
  · have hkz : ∀ p, Function.update k (.child s.current) (k (.child s.current) ++ [s.nextId + 1])
        (.zombie p) = k (.zombie p) := fun p =>
      Function.update_of_ne (Kin.child_ne_zombie _ _).symm _ _
    constructor
    · exact fun p hp => .inl hp
    · exact fun p hb => nomatch hb
    · exact fun p z hz => .inl ((hkz p).symm ▸ hz)
    · exact fun p z hz => .inl (hkz p ▸ hz)
    · exact fun p z ho => absurd ho List.not_mem_nil
    · exact fun t => Iff.trans ⟨not_vanish_put, List.mem_cons_of_mem _⟩
        (or_iff_right List.not_mem_nil).symm
    · intro t ht
      exact Function.update_of_ne (Nat.ne_of_lt (Nat.lt_succ_of_le ht)) _ _
    · exact Nat.le_succ _
    · intro t ht
      have hne : t ≠ s.nextId + 1 := Nat.ne_of_lt (Nat.lt_succ_of_le (h.toKnown.le_nextId ht))
      exact .inl ((Function.update_of_ne hne _ _).trans ht)
    · intro t ht hm
      have hne : t ≠ s.nextId + 1 := Nat.ne_of_lt (Nat.lt_succ_of_le ht)
      exact (Function.update_of_ne hne _ _).symm.trans hm
    · intro t ht hp
      show Function.update s.inMap _ _ t = true
      change Function.update s.parent _ _ t ≠ none at hp
      by_cases hne : t = s.nextId + 1
      · rw [hne, Function.update_self]
      · rw [Function.update_of_ne hne] at hp
        obtain ⟨p, hp⟩ := Option.ne_none_iff_exists'.mp hp
        exact absurd ht (Nat.not_lt_of_le (h.parents t p hp).2)

/-- the thread that runs waits on a list -/
theorem next_schedWaitOn (h : Placed s rq f k) (hr : s.current ∈ rq) (hn : 0 < n)
    {l : SchedState.WaitOn} (hl : l = .sleep ∨ l = .selfWait s.current) (ticks : Int)
    (hb : ∀ p, blk = some p → l = .selfWait s.current ∧ p = s.current) :
    Next s (s.schedWaitOn n l ticks s.current) [] blk [] f k := by
  have hst := h.state_of_mem hr
  have hblock := h.block hr hl (Function.update s.deadline s.current (int32 (s.ticks + ticks)))
  have hf : ∀ l' u, u ∈ f l' → u ∈ Function.update f l (f l ++ [s.current]) l' := by
    intro l' u hu
    by_cases hll : l' = l
    · subst hll
      rw [Function.update_self]
      exact List.mem_append_left _ hu
    · rw [Function.update_of_ne hll]
      exact hu
  have hin : s.current ∈ Function.update f l (f l ++ [s.current]) l := by
    rw [Function.update_self]
    exact List.mem_append_right _ (List.mem_singleton_self _)
  unfold SchedState.schedWaitOn
  rw [if_neg fun hc => hc hst]
  refine .yield hblock ?_ hn ?_
  · have hw := (hblock.waiting s.current).mpr ⟨l, hin⟩
    intro hd
    rcases hl with rfl | rfl <;> exact nomatch (hw.symm.trans hd : ThreadState.waiting = .done)
  · have hs : Moved s s [] none [] f f k k := .still h.toKnown (fun _ => Iff.rfl) rfl rfl rfl fun _ => rfl
    have hb' : ∀ p, blk = some p → p ∈ Function.update f l (f l ++ [s.current]) (.selfWait p) := by
      intro p hp
      obtain ⟨h1, h2⟩ := hb p hp
      rw [h2, ← h1]
      exact hin
    rcases hl with rfl | rfl <;>
      exact ⟨fun p hp => .inl (hf _ p hp), hb', hs.zombies, hs.new, hs.told, hs.log, hs.parent,
        hs.next, hs.left, hs.back, hs.born⟩

/-- the first zombie of a thread -/
theorem Placed.zombie_cons (h : Placed s rq f k) {z : Nat} (hz : (s.zombieList p).first = some z) :
    ∃ r, k (.zombie p) = z :: r := by
  have hfirst : (s.zombieList p).first = (k (.zombie p)).head? := (h.kin.list (.zombie p)).first
  rw [hz] at hfirst
  exact List.head?_eq_some_iff.mp hfirst.symm

theorem setState_self {st : ThreadState} (h : s.state t = st) : s.setState t st = s := by
  unfold SchedState.setState
  rw [Function.update_eq_self_iff.mpr h.symm]

/-- the thread that runs is told of its first zombie -/
theorem next_take (h : Placed s rq f k) (hr : Running s rq) {z : Nat}
    (hz : (s.zombieList s.current).first = some z) :
    Next s (SchedState.threadPut n z (s.zombieRemove s.current z)) [(s.current, z)] none [] f k := by
  obtain ⟨r, hk⟩ := h.zombie_cons hz
  have hst := setState_self (h.zombie s.current z (hk ▸ List.mem_cons_self ..)).2
  have h1 := (h.takeZombie hk .zombie (.inl rfl)).threadPut n z
  have h2 := Placed.Reaped.take s hk .zombie n
  rw [hst] at h1 h2
  have hnot : z ∉ r := by
    have hd := (h.kin.list (.zombie s.current)).nodup
    rw [hk] at hd
    exact (List.nodup_cons.mp hd).1
  refine ⟨rq, f, _, h1, ?_, ?_⟩
  · unfold Running
    rw [h2.current, h2.idle]
    exact hr
  · constructor
    · exact fun p hp => .inl hp
    · exact fun p hb => nomatch hb
    · intro p x hx
      by_cases hp : p = s.current
      · subst hp
        rw [hk] at hx
        rw [Function.update_self]
        rcases List.mem_cons.mp hx with hx | hx
        · exact .inr (.inl (hx ▸ List.mem_singleton_self _))
        · exact .inl hx
      · rw [Function.update_of_ne fun he => hp (Kin.zombie.inj he)]
        exact .inl hx
    · intro p x hx
      by_cases hp : p = s.current
      · subst hp
        rw [Function.update_self] at hx
        exact .inl (hk ▸ List.mem_cons_of_mem _ hx)
      · rw [Function.update_of_ne fun he => hp (Kin.zombie.inj he)] at hx
        exact .inl hx
    · intro p x hx
      obtain ⟨rfl, rfl⟩ := Prod.mk.inj (List.mem_singleton.mp hx)
      rw [Function.update_self, hk]
      exact ⟨List.mem_cons_self .., hnot⟩
    · rw [h2.log]
      exact fun t => (or_iff_right List.not_mem_nil).symm
    · rw [h2.parent]
      exact fun _ _ => rfl
    · exact Nat.le_of_eq h2.nextId.symm
    · rw [h2.inMap]
      exact fun _ ht => .inl ht
    · rw [h2.inMap]
      exact fun _ _ ht => ht
    · intro t ht hp
      rw [h2.parent] at hp
      obtain ⟨p, hp⟩ := Option.ne_none_iff_exists'.mp hp
      exact absurd ht (Nat.not_lt_of_le (h.parents t p hp).2)

/-- counts are in no clause -/
theorem Moved.counts (hm : Moved s s' out blk gone f f' k k') (c c' : Nat → Int) :
    Moved { s with count := c } { s' with count := c' } out blk gone f f' k k' where
  waits := hm.waits
  blocked := hm.blocked
  zombies := hm.zombies
  new := hm.new
  told := hm.told
  log := hm.log
  parent := hm.parent
  next := hm.next
  left := hm.left
  back := hm.back
  born := hm.born

/-- the reference that `thread_wait` takes -/
theorem Next.get (h : Next (s.threadGet t) s' out blk gone f k) : Next s s' out blk gone f k := by
  obtain ⟨rq', f', k', h1, h2, h3⟩ := h
  exact ⟨rq', f', k', h1, h2, h3.counts s.count s'.count⟩

/-- … and drops -/
theorem Next.put (h : Next s s' out blk gone f k) (n t : Nat) :
    Next s (SchedState.threadPut n t s') out blk gone f k := by
  obtain ⟨rq', f', k', h1, h2, h3⟩ := h
  have h4 := h1.threadPut n t
  obtain ⟨c, hc⟩ := SchedState.threadPut_counts n t s'
  rw [hc] at h4 ⊢
  exact ⟨rq', f', k', h4, h2, h3.counts s.count c⟩

theorem Placed.threadGet (h : Placed s rq f k) (t : Nat) : Placed (s.threadGet t) rq f k :=
  h.frame (s.threadGet t).count s.deadline s.ticks s.current

theorem next_threadWait (h : Placed s rq f k) (hr : Running s rq) (hn : 0 < n)
    (hi : s.current ≠ s.idle) :
    Next s (s.threadWait n) (s.waited (.wait n)) (s.blocked (.wait n)) [] f k := by
  unfold SchedState.threadWait SchedState.waited SchedState.blocked
  dsimp only
  cases hz : (s.zombieList s.current).first with
  | some z =>
    have h1 : ¬ ((s.childList s.current).first = none ∧ some z = none) := fun hc => nomatch hc.2
    have h2 : ¬ (some z = none ∧ (s.childList s.current).first ≠ none) := fun hc => nomatch hc.1
    rw [if_neg h1, if_neg h2]
    change Next s (match (s.zombieList s.current).first with
      | none => _
      | some z => _) _ _ _ f k
    rw [hz]
    exact ((next_take (h.threadGet s.current) hr hz).put n s.current).get
  | none =>
    by_cases hc : (s.childList s.current).first = none
    · rw [if_pos ⟨hc, rfl⟩, if_neg fun hn => hn.2 hc]
      exact .same h hr
    · rw [if_neg fun hn => hc hn.1, if_pos ⟨rfl, hc⟩]
      change Next s (match (s.zombieList s.current).first with
        | none => _
        | some z => _) _ _ _ f k
      rw [hz]
      exact (next_schedWaitOn (h.threadGet s.current) (hr.resolve_left hi) hn (.inr rfl) 0
        fun p hp => ⟨rfl, (Option.some.inj hp).symm⟩).get

theorem next_threadWaitReap (h : Placed s rq f k) (hr : Running s rq) :
    Next s (s.threadWaitReap n) (s.waited (.waitReap n)) none [] f k := by
  unfold SchedState.threadWaitReap SchedState.waited
  dsimp only
  cases hz : (s.zombieList s.current).first with
  | some z => exact (next_take h hr hz).put n s.current
  | none => exact (Next.same h hr).put n s.current

/-- the run flag makes a thread that does not wait runnable when it is suspended only -/
theorem SchedState.runflag_suspended {new : ThreadState} {ev1 nv1 ev2 nv2 : Int}
    (hnew : SchedState.runflagState (s.state t) ev1 nv1 ev2 nv2 = new) (hs : new ≠ .suspended)
    (hsame : new ≠ s.state t) (hw : s.state t ≠ .waiting)
    (hd : ¬ (s.inMap t = false ∨ s.state t = .zombie ∨ s.state t = .done)) :
    s.state t = .suspended := by
  have hnew' : new = .suspended ∨ new = .runnable := by
    rw [← hnew]
    unfold SchedState.runflagState
    repeat' split
    all_goals first | exact .inl rfl | exact .inr rfl
  cases hst : s.state t with
  | suspended => rfl
  | waiting => exact absurd hst hw
  | zombie => exact absurd (.inr (.inl hst)) hd
  | done => exact absurd (.inr (.inr hst)) hd
  | runnable => exact absurd ((hnew'.resolve_left hs).trans hst.symm) hsame

theorem next_runflag (h : Placed s rq f k) (hr : Running s rq) (hn : 0 < n) (hi : s.current ≠ s.idle)
    (hw : s.state t ≠ .waiting) (ev1 nv1 ev2 nv2 : Int) :
    Next s (s.sysCas2iRunflag n t ev1 nv1 ev2 nv2) [] none [] f k := by
  unfold SchedState.sysCas2iRunflag
  by_cases hd : s.inMap t = false ∨ s.state t = .zombie ∨ s.state t = .done
  · rw [if_pos hd]
    exact .same h hr
  rw [if_neg hd]
  dsimp only
  have hm : s.inMap t = true := by
    cases hm : s.inMap t with
    | true => rfl
    | false => exact absurd (.inl hm) hd
  generalize hnew : SchedState.runflagState (s.state t) ev1 nv1 ev2 nv2 = new
  by_cases hother : new = .suspended ∧ (t ≠ s.current ∨ s.state t ≠ .runnable)
  · rw [if_pos hother]
    exact .same h hr
  rw [if_neg hother]
  by_cases hsame : new = s.state t
  · rw [if_pos hsame]
    exact .same h hr
  rw [if_neg hsame]
  by_cases hs : new = .suspended
  · -- the current thread suspends itself
    rw [if_pos hs]
    have ht : t = s.current := Classical.not_not.mp fun hn => hother ⟨hs, .inl hn⟩
    have hin : t ∈ rq := ht ▸ hr.resolve_left hi
    obtain ⟨c, hc⟩ := SchedState.threadPut_counts n t (s.runqRemove t)
    unfold SchedState.removeRunnableThread
    rw [hc]
    have h1 := (h.suspend hin).frame c s.deadline s.ticks s.current
    refine .yield h1 ?_ hn ?_
    · show Function.update s.state t _ s.current ≠ _
      rw [← ht, Function.update_self]
      exact nofun
    · exact .still h.toKnown (fun _ => Iff.rfl) rfl rfl rfl fun _ => rfl
  · -- a suspended thread is resumed
    rw [if_neg hs]
    have hst := SchedState.runflag_suspended hnew hs hsame hw hd
    refine ⟨_, f, k, h.resume hst hm, hr.imp_right fun hc => List.mem_append_left _ hc, ?_⟩
    exact .still h.toKnown (fun _ => ⟨not_vanish_put, List.mem_cons_of_mem _⟩) rfl rfl rfl fun _ => rfl

/-- the thread that runs is not done when another vanishes, or it vanishes itself -/
theorem Placed.Gone.awake (hg : Gone s s' rq rq' f f' k k' p t) (h : Placed s' rq' f' k')
    (hr : Running s rq) (hpt : p ≠ t) : s'.state s'.current ≠ .done := by
  rw [hg.current]
  by_cases hc : s.current = t
  · have htz : t ∈ k' (.zombie p) := by
      rw [hg.kin _ fun he => hpt (Kin.zombie.inj he), Placed.buried_zombie, if_pos rfl]
      exact List.mem_append_right _ (List.mem_singleton_self t)
    rw [hc, (h.zombie p t htz).2]
    exact nofun
  · have hr' : Running s' rq' := by
      unfold Running
      rw [hg.current, hg.idle]
      exact hr.imp_right fun hin => hg.runs ((List.mem_erase_of_ne hc).mpr hin)
    have hst := h.running hr'
    rw [hg.current] at hst
    rw [hst]
    exact nofun

/-- **a thread that has a parent vanishes**, and the next one is selected -/
theorem next_vanish (h : Placed s rq f k) (hr : Running s rq) (hn : 0 < n) (hm : s.inMap t = true)
    (hp : s.parent t ≠ none) (hw : s.state t ≠ .waiting) :
    Next s ((s.threadVanishNoyield n t).schedYield n) [] none [t] f k := by
  obtain ⟨p, hp⟩ := Option.ne_none_iff_exists'.mp hp
  obtain ⟨rq', f', k', h1, h2⟩ := h.vanish hm hp hw n
  have hpt : p ≠ t := Nat.ne_of_lt (h.parents t p hp).1
  have hold := h.toKnown.le_nextId hm
  have hzp : k' (.zombie p) = k (.zombie p) ++ [t] := by
    rw [h2.kin _ fun he => hpt (Kin.zombie.inj he), Placed.buried_zombie, if_pos rfl]
  have hzq : ∀ q, q ≠ p → q ≠ t → k' (.zombie q) = k (.zombie q) := by
    intro q hq hqt
    rw [h2.kin _ fun he => hqt (Kin.zombie.inj he), Placed.buried_zombie, if_neg hq]
  have htz : t ∈ k' (.zombie p) := hzp ▸ List.mem_append_right _ (List.mem_singleton_self t)
  have hlogt : .vanish t ∈ (s.threadVanishNoyield n t).log := (h2.log t).mpr (.inl rfl)
  refine .yield h1 (h2.awake h1 hr hpt) hn ?_
  · constructor
    · intro q hq
      by_cases hqp : q = p
      · rw [hqp, hzp]
        exact .inr (List.append_ne_nil_of_right_ne_nil _ (List.cons_ne_nil _ _))
      · rw [h2.waits _ fun he => hqp (SchedState.WaitOn.selfWait.inj he)]
        exact .inl hq
    · exact fun q hb => nomatch hb
    · intro q z hz
      by_cases hqt : q = t
      · exact .inr (.inr (hqt ▸ hlogt))
      · by_cases hqp : q = p
        · rw [hqp] at hz ⊢
          exact .inl (hzp ▸ List.mem_append_left _ hz)
        · exact .inl (hzq q hqp hqt ▸ hz)
    · intro q z hz
      by_cases hqt : q = t
      · subst hqt
        exact .inl (h2.own hz)
      · by_cases hqp : q = p
        · rw [hqp, hzp] at hz
          rcases List.mem_append.mp hz with hz | hz
          · exact .inl (hqp ▸ hz)
          · rw [List.mem_singleton.mp hz]
            exact .inr ⟨hm, hlogt⟩
        · exact .inl (hzq q hqp hqt ▸ hz)
    · exact fun q z ho => absurd ho List.not_mem_nil
    · exact fun u => (h2.log u).trans (or_congr List.mem_singleton.symm Iff.rfl)
    · intro u _
      rw [h2.parent]
    · exact Nat.le_of_eq h2.nextId.symm
    · intro u hu
      by_cases hut : u = t
      · refine .inr fun q hq => ?_
        rw [hut] at hq ⊢
        rw [hp] at hq
        exact Option.some.inj hq ▸ htz
      · rw [h2.inMap, Function.update_of_ne hut]
        exact .inl hu
    · intro u _ hu
      rw [h2.inMap] at hu
      by_cases hut : u = t
      · exact hut ▸ hm
      · rw [Function.update_of_ne hut] at hu
        exact hu
    · intro u hu hq
      rw [h2.parent] at hq
      obtain ⟨q, hq⟩ := Option.ne_none_iff_exists'.mp hq
      exact absurd hu (Nat.not_lt_of_le (h.parents u q hq).2)

/-- **one operation** -/
theorem Placed.next (h : Placed s rq f k) (hr : Running s rq) (op : SchedOp) (hok : op.Calm s) :
    Next s (s.run op) (s.waited op) (s.blocked op) (s.leaving op) f k := by
  cases op with
  | yield tid n => exact next_sysYield h hr hok tid
  | afterSwitch n => exact next_afterSwitch h hr n
  | fork n => exact next_fork h hr hok
  | wait n => exact next_threadWait h hr hok.1 hok.2
  | waitReap n => exact next_threadWaitReap h hr
  | sleep ticks n =>
    exact next_schedWaitOn h (hr.resolve_left hok.2) hok.1 (.inl rfl) ticks fun _ hb => nomatch hb
  | runflag tid ev1 nv1 ev2 nv2 n => exact next_runflag h hr hok.1 hok.2.1 hok.2.2 ev1 nv1 ev2 nv2
  | tick numTick =>
    exact ⟨rq, f, k, h.frame s.count s.deadline _ s.current, hr,
      .still h.toKnown (fun _ => Iff.rfl) rfl rfl rfl fun _ => rfl⟩
  | vanish n =>
    have hst := h.running hr
    exact next_vanish h hr hok.1 (h.live _ (.inl hst)) hok.2 (by rw [hst]; exact nofun)
  | taskVanish tid n =>
    show Next s (if s.inMap tid then s.taskVanish n tid else s) [] none
      (if s.inMap tid then [tid] else []) f k
    split
    · next hm =>
      unfold SchedState.taskVanish
      rw [if_neg (h.mapped tid hm).2]
      exact next_vanish h hr hok.1 hm hok.2.1 hok.2.2
    · exact .same h hr

end

/-! ## whole runs -/

/-- what `sched_init` leaves: the idle thread is 1, and 2, the first thread, runs -/
def schedBooted : SchedState :=
  { SchedState.bare with
    state := fun t => if t = 1 ∨ t = 2 then .runnable else .suspended
    count := fun t => if t = 1 then 3 else if t = 2 then 4 else 0
    inMap := fun t => t = 1 || t = 2
    nextId := 2
    current := 2
    idle := 1
    log := [.select 2, .put 2]
    runnableQueue := ⟨some 2, some 2⟩ }

theorem schedBooted_placed : Placed schedBooted [2] (fun _ => []) (fun _ => []) := by
  have hstate : ∀ t, schedBooted.state t = if t = 1 ∨ t = 2 then .runnable else .suspended := fun _ => rfl
  have hmap : ∀ t, schedBooted.inMap t = true ↔ t = 1 ∨ t = 2 := by
    intro t
    show (decide (t = 1) || decide (t = 2)) = true ↔ _
    simp
  constructor
  · constructor
    · intro t ht
      rw [hstate, if_pos ((hmap t).mp ht)]
      exact ⟨nofun, nofun⟩
    · intro t ht
      rw [hmap]
      rw [hstate] at ht
      by_cases h : t = 1 ∨ t = 2
      · exact h
      · rw [if_neg h] at ht
        rcases ht with ht | ht <;> exact nomatch ht
    · intro t ht
      rcases List.mem_cons.mp ht with ht | ht
      · exact nomatch ht
      · exact nomatch List.mem_singleton.mp ht
    · intro t ht
      have h2 : 2 < t := ht
      have hn : ¬ (t = 1 ∨ t = 2) := by omega
      rw [hstate, if_neg hn]
      refine ⟨rfl, ?_⟩
      cases hm : schedBooted.inMap t with
      | false => rfl
      | true => exact absurd ((hmap t).mp hm) hn
    · exact fun t p hp => nomatch hp
    · rfl
    · rfl
    · exact (by decide : 1 ≤ 2)
  · exact ⟨⟨⟨rfl, trivial⟩, rfl, rfl, List.nodup_singleton 2⟩, IsList.nil, fun _ _ => List.not_mem_nil,
      fun _ _ _ => rfl⟩
  · exact Family.none _ _ fun l => by cases l <;> rfl
  · exact Family.none _ _ fun i => by cases i <;> rfl
  · intro t ht
    have h1 : t ≠ 1 := ht
    rw [hstate, List.mem_singleton]
    by_cases h2 : t = 2
    · rw [if_pos (.inr h2)]
      exact iff_of_true rfl h2
    · rw [if_neg (not_or.mpr ⟨h1, h2⟩)]
      exact iff_of_false nofun h2
  · exact (by decide : (1 : Nat) ∉ [2])
  · intro t
    rw [hstate]
    refine iff_of_false ?_ fun hc => absurd hc.choose_spec List.not_mem_nil
    split <;> exact nofun
  · exact fun p t ht => absurd ht List.not_mem_nil
  · exact fun p => rfl
  · exact fun p t => iff_of_false List.not_mem_nil fun hc => nomatch hc.1
  · exact fun p t ht => absurd ht List.not_mem_nil

/-- **the queues agree with the states of the threads**, in every state that a run of the scheduler
reaches -/
theorem queues_agree {s : SchedState} {ops : List SchedOp}
    (hrun : Steps (fun s op s' => op.Calm s ∧ SchedStep s op s') schedBooted ops s) :
    ∃ rq f k, Placed s rq f k ∧ Running s rq := by
  refine hrun.invariant_of (P := fun s => ∃ rq f k, Placed s rq f k ∧ Running s rq)
    (fun s op s' hP hok hs => ?_) ⟨_, _, _, schedBooted_placed, .inr (List.mem_singleton_self 2)⟩
  obtain ⟨rq, f, k, h, hr⟩ := hP
  obtain ⟨rq', f', k', h1, h2, -⟩ := h.next hr op hok
  rw [hs]
  exact ⟨rq', f', k', h1, h2⟩

/-- thread 2 forks 3, which runs and vanishes -/
theorem queues_agree_fork : ∃ rq f k, Placed ((schedBooted.run (.fork 9)).run (.vanish 9)) rq f k ∧
    Running ((schedBooted.run (.fork 9)).run (.vanish 9)) rq := by
  have h1 : (SchedOp.fork 9).Calm schedBooted := (by decide : 0 < 9)
  have h2 : (SchedOp.vanish 9).Calm (schedBooted.run (.fork 9)) := ⟨by decide, nofun⟩
  exact queues_agree (.snoc (.single ⟨h1, rfl⟩) ⟨h2, rfl⟩)

end Paravirt

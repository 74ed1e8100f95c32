import Paravirt.Wait
import Mathlib.Data.Finset.Card
import Mathlib.Algebra.BigOperators.Group.Finset.Basic

/-!
# The reference counts of threads

* `SchedState.holders`  who holds a thread: the map, its task, a queue, the lists of its parent;
* `SchedState.kids`     its children that are not freed;
* `WaitState.waitRefs`  `thread_wait` holds its caller until it returns;
* `Counted s k e`       the counts are those of the holders and of the children, and `e` more;
* `Counted.put`         `thread_put` drops one of them, and those of the threads it frees;
* `refs_exact`          over whole runs.

A thread has the map, its task and its place on a child list together: `tally` counts them as one.
-/

set_option linter.unusedSectionVars false
set_option linter.unusedVariables false

namespace Paravirt
open DList

namespace SchedState

/-- the children of `t` that are not freed -/
def kids (s : SchedState) (t : Nat) : Nat :=
  ((Finset.range (s.nextId + 1)).filter fun c => s.parent c = some t ∧ s.count c ≠ 0).card

/-- on the run queue or on a list to wait on; the idle thread is on none -/
def onQueue (s : SchedState) (t : Nat) : Bool :=
  t ≠ s.idle && (s.state t = .runnable || s.state t = .waiting)

/-- on the zombie list of its parent -/
def listed (s : SchedState) (k : Kin → List Nat) (t : Nat) : Bool :=
  match s.parent t with
  | none => false
  | some p => t ∈ k (.zombie p)

/-- on the child list of its parent -/
def isChild (s : SchedState) (k : Kin → List Nat) (t : Nat) : Bool :=
  match s.parent t with
  | none => false
  | some p => t ∈ k (.child p)

/-- `thread_init` takes the reference of the parent, also where there is none: nobody drops it then -/
def orphan (s : SchedState) (t : Nat) : Bool := s.inMap t && s.parent t = none

/-- the holders of a thread but for its children and itself: the map and its task; the child list of
its parent; nobody, where it has none; a queue; the zombie list of its parent -/
def holders (s : SchedState) (k : Kin → List Nat) (t : Nat) : Nat :=
  (if s.inMap t then 2 else 0) + (if s.isChild k t then 1 else 0) + (if s.orphan t then 1 else 0) +
    (if s.onQueue t then 1 else 0) + (if s.listed k t then 1 else 0)

/-- the holders of a thread where the child lists are as they should be -/
def tally (s : SchedState) (k : Kin → List Nat) (t : Nat) : Nat :=
  (if s.inMap t then 3 else 0) + (if s.onQueue t then 1 else 0) + (if s.listed k t then 1 else 0)

end SchedState

/-- the map, the task and the child list, or nobody -/
theorem Placed.holders_eq {s : SchedState} {rq : List Nat} {f : SchedState.WaitOn → List Nat}
    {k : Kin → List Nat} (h : Placed s rq f k) (t : Nat) : s.holders k t = s.tally k t := by
  unfold SchedState.holders SchedState.tally SchedState.isChild SchedState.orphan
  cases hp : s.parent t with
  | none => cases s.inMap t <;> simp
  | some p =>
    have hc := h.child p t
    rw [hp, and_iff_right rfl] at hc
    cases hm : s.inMap t <;> simp [hc, hm]

/-- the counts are exact but for the references `e` -/
def Counted (s : SchedState) (k : Kin → List Nat) (e : Nat → Nat) : Prop :=
  ∀ t, s.count t = (e t + s.tally k t + s.kids t : Nat)

/-- one more reference to `t` -/
def bump (e : Nat → Nat) (t : Nat) : Nat → Nat := fun u => e u + if u = t then 1 else 0

section
variable {s s' : SchedState} {k k' : Kin → List Nat} {e e' : Nat → Nat} {t p n : Nat}

theorem bump_self (e : Nat → Nat) (t : Nat) : bump e t t = e t + 1 := by
  unfold bump
  rw [if_pos rfl]

theorem bump_of_ne {u : Nat} (e : Nat → Nat) (h : u ≠ t) : bump e t u = e u := by
  unfold bump
  rw [if_neg h, Nat.add_zero]

/-- the children depend on who is freed only -/
theorem kids_congr (hn : s'.nextId = s.nextId) (hp : s'.parent = s.parent)
    (hc : ∀ c, s'.count c = 0 ↔ s.count c = 0) (t : Nat) : s'.kids t = s.kids t := by
  unfold SchedState.kids
  rw [hn, hp]
  apply congrArg
  apply Finset.filter_congr
  intro c _
  exact and_congr_right fun _ => not_congr (hc c)

theorem kids_eq (hn : s'.nextId = s.nextId) (hp : s'.parent = s.parent) (hc : s'.count = s.count)
    (t : Nat) : s'.kids t = s.kids t :=
  kids_congr hn hp (fun c => by rw [hc]) t

/-- the freed child of `p` -/
theorem kids_free (hp : s.parent t = some p) (ht : t ≤ s.nextId) (hc : s.count t ≠ 0) :
    s.kids p = ({ s with count := Function.update s.count t 0 } : SchedState).kids p + 1 := by
  unfold SchedState.kids
  have hin : t ∈ (Finset.range (s.nextId + 1)).filter fun c => s.parent c = some p ∧ s.count c ≠ 0 :=
    Finset.mem_filter.mpr ⟨Finset.mem_range.mpr (Nat.lt_succ_of_le ht), hp, hc⟩
  rw [← Finset.card_erase_add_one hin]
  apply congrArg (· + 1)
  apply congrArg
  ext c
  rw [Finset.mem_erase, Finset.mem_filter, Finset.mem_filter]
  show _ ↔ _ ∧ _ ∧ Function.update s.count t 0 c ≠ 0
  by_cases hct : c = t
  · subst hct
    rw [Function.update_self]
    exact iff_of_false (fun h => h.1 rfl) fun h => h.2.2 rfl
  · rw [Function.update_of_ne hct]
    exact and_iff_right hct

/-- the other threads have the children they had -/
theorem kids_free_other {q : Nat} (hq : s.parent t ≠ some q) :
    ({ s with count := Function.update s.count t 0 } : SchedState).kids q = s.kids q := by
  unfold SchedState.kids
  apply congrArg
  apply Finset.filter_congr
  intro c _
  show s.parent c = some q ∧ Function.update s.count t 0 c ≠ 0 ↔ _
  by_cases hct : c = t
  · subst hct
    exact iff_of_false (fun h => hq h.1) fun h => hq h.1
  · rw [Function.update_of_ne hct]

/-- the thread is not freed -/
theorem threadPut_keep (h : s.count t ≠ 1) : SchedState.threadPut (n + 1) t s =
    { s with count := Function.update s.count t (s.count t - 1) } := by
  have hc : Function.update s.count t (s.count t - 1) t ≠ 0 := by
    rw [Function.update_self]
    omega
  unfold SchedState.threadPut
  exact if_neg hc

/-- a thread without a parent is freed -/
theorem threadPut_last (h : s.count t = 1) (hp : s.parent t = none) :
    SchedState.threadPut (n + 1) t s = { s with count := Function.update s.count t 0 } := by
  have hc : Function.update s.count t (s.count t - 1) t = 0 := by
    rw [Function.update_self]
    omega
  have h0 : s.count t - 1 = 0 := by omega
  rw [SchedState.threadPut]
  refine (if_pos hc).trans ?_
  rw [h0, hp]

theorem threadPut_free (h : s.count t = 1) (hp : s.parent t = some p) :
    SchedState.threadPut (n + 1) t s =
      SchedState.threadPut n p { s with count := Function.update s.count t 0 } := by
  have hc : Function.update s.count t (s.count t - 1) t = 0 := by
    rw [Function.update_self]
    omega
  have h0 : s.count t - 1 = 0 := by omega
  rw [SchedState.threadPut]
  refine (if_pos hc).trans ?_
  rw [h0, hp]

/-- **thread_put** drops one reference, and frees what nobody holds then -/
theorem Counted.put : ∀ (n t : Nat) {s : SchedState} {e : Nat → Nat},
    (∀ c q, s.parent c = some q → q < c ∧ c ≤ s.nextId) → t < n → Counted s k (bump e t) →
    Counted (SchedState.threadPut n t s) k e := by
  intro n
  induction n with
  | zero => exact fun t s e _ ht => absurd ht (Nat.not_lt_zero t)
  | succ n ih =>
    intro t s e hpar ht h
    have hct := h t
    rw [bump_self] at hct
    by_cases hz : s.count t = 1
    · have hne : s.count t ≠ 0 := by omega
      cases hp : s.parent t with
      | none =>
        rw [threadPut_last hz hp]
        intro u
        show Function.update s.count t 0 u = (e u + s.tally k u + _ : Nat)
        rw [kids_free_other (by rw [hp]; exact nofun)]
        by_cases hu : u = t
        · subst hu
          rw [Function.update_self]
          omega
        · rw [Function.update_of_ne hu, h u, bump_of_ne e hu]
      | some q =>
        obtain ⟨hqt, hold⟩ := hpar t q hp
        have hother : ∀ u, u ≠ q → s.parent t ≠ some u := by
          intro u hu hc
          rw [hp] at hc
          exact hu (Option.some.inj hc).symm
        rw [threadPut_free hz hp]
        apply ih q
        · exact hpar
        · omega
        · intro u
          show Function.update s.count t 0 u = (bump e q u + s.tally k u + _ : Nat)
          by_cases hu : u = t
          · subst hu
            rw [Function.update_self, kids_free_other (hother u (by omega)), bump_of_ne e (by omega)]
            omega
          · rw [Function.update_of_ne hu, h u, bump_of_ne e hu]
            by_cases huq : u = q
            · subst huq
              rw [kids_free hp hold hne, bump_self]
              omega
            · rw [kids_free_other (hother u huq), bump_of_ne e huq]
    · rw [threadPut_keep hz]
      intro u
      show Function.update s.count t _ u = (e u + s.tally k u + _ : Nat)
      have hk : ({ s with count := Function.update s.count t (s.count t - 1) } : SchedState).kids u =
          s.kids u := by
        refine kids_congr ?_ ?_ (fun c => ?_) u
        · rfl
        · rfl
        show Function.update s.count t _ c = 0 ↔ _
        by_cases hc : c = t
        · subst hc
          rw [Function.update_self]
          omega
        · rw [Function.update_of_ne hc]
      rw [hk]
      by_cases hu : u = t
      · subst hu
        rw [Function.update_self]
        omega
      · rw [Function.update_of_ne hu, h u, bump_of_ne e hu]

/-! ## the holders of one thread change -/

theorem onQueue_congr (hi : s'.idle = s.idle)
    (h : s'.state t = .runnable ∨ s'.state t = .waiting ↔ s.state t = .runnable ∨ s.state t = .waiting) :
    s'.onQueue t = s.onQueue t := by
  unfold SchedState.onQueue
  rw [hi]
  apply congrArg
  rw [Bool.eq_iff_iff]
  simpa using h

theorem listed_congr (hp : s'.parent t = s.parent t)
    (hk : ∀ p, s.parent t = some p → (t ∈ k' (.zombie p) ↔ t ∈ k (.zombie p))) :
    s'.listed k' t = s.listed k t := by
  unfold SchedState.listed
  rw [hp]
  cases h : s.parent t with
  | none => rfl
  | some p => exact decide_eq_decide.mpr (hk p h)

theorem tally_congr (hm : s'.inMap t = s.inMap t) (hq : s'.onQueue t = s.onQueue t)
    (hl : s'.listed k' t = s.listed k t) : s'.tally k' t = s.tally k t := by
  unfold SchedState.tally
  rw [hm, hq, hl]

theorem listed_of (hp : s.parent t = some p) : s.listed k t = decide (t ∈ k (.zombie p)) := by
  unfold SchedState.listed
  rw [hp]

theorem tally_of {a b c : Bool} (hm : s.inMap t = a) (hq : s.onQueue t = b)
    (hl : s.listed k t = c) :
    s.tally k t = (if a then 3 else 0) + (if b then 1 else 0) + (if c then 1 else 0) := by
  unfold SchedState.tally
  rw [hm, hq, hl]

/-- holders of `t` turn into references that are about to be dropped, or the other way -/
theorem Counted.shift (h : Counted s k e) (hn : s'.nextId = s.nextId) (hp : s'.parent = s.parent)
    (hc : s'.count = s.count) (t : Nat)
    (hother : ∀ u, u ≠ t → s'.tally k' u = s.tally k u ∧ e' u = e u)
    (ht : e' t + s'.tally k' t = e t + s.tally k t) : Counted s' k' e' := by
  intro u
  rw [hc, kids_eq hn hp hc u, h u]
  by_cases hu : u = t
  · rw [hu, ht]
  · rw [(hother u hu).1, (hother u hu).2]

/-- nothing that the counts depend on has changed -/
theorem Counted.congr (h : Counted s k e) (hn : s'.nextId = s.nextId) (hp : s'.parent = s.parent)
    (hc : s'.count = s.count) (hm : s'.inMap = s.inMap) (hi : s'.idle = s.idle)
    (hq : ∀ t, s'.state t = .runnable ∨ s'.state t = .waiting ↔
      s.state t = .runnable ∨ s.state t = .waiting) : Counted s' k e := by
  apply h.shift hn hp hc 0
  · intro u _
    exact ⟨tally_congr (congrFun hm u) (onQueue_congr hi (hq u))
      (listed_congr (congrFun hp u) fun _ _ => Iff.rfl), rfl⟩
  · rw [tally_congr (congrFun hm 0) (onQueue_congr hi (hq 0))
      (listed_congr (congrFun hp 0) fun _ _ => Iff.rfl)]

theorem Counted.of_rest (h : Counted s k e) (hr : s'.rest = s.rest) : Counted s' k e := by
  have hst := SchedState.state_of_rest hr
  apply h.congr
  · exact congrArg (fun s => s.nextId) hr
  · exact congrArg (fun s => s.parent) hr
  · exact congrArg (fun s => s.count) hr
  · exact congrArg (fun s => s.inMap) hr
  · exact SchedState.idle_of_rest hr
  · rw [hst]
    exact fun _ => Iff.rfl

theorem Counted.woke {rq rq' : List Nat} {f f' : SchedState.WaitOn → List Nat}
    {l : SchedState.WaitOn} (h : Counted s k e) (hw : Placed.Woke s s' rq rq' f f' l) :
    Counted s' k e :=
  h.congr hw.nextId hw.parent hw.count hw.inMap hw.idle hw.awake

theorem Counted.runqRemove (h : Counted s k e) (t : Nat) : Counted (s.runqRemove t) k e :=
  h.congr rfl rfl rfl rfl rfl fun _ => Iff.rfl

/-- a thread in the map is held -/
theorem Counted.pos (h : Counted s k e) (hm : s.inMap t = true) : 3 ≤ s.count t := by
  have ht := h t
  unfold SchedState.tally at ht
  rw [if_pos hm] at ht
  omega

/-! ## the operations -/

variable {rq rq' : List Nat} {f f' : SchedState.WaitOn → List Nat}

/-- what `thread_put` does has nothing to do with the states -/
theorem threadPut_state (n : Nat) : ∀ (t : Nat) (s : SchedState) (g : Nat → ThreadState),
    SchedState.threadPut n t { s with state := g } =
      { SchedState.threadPut n t s with state := g } := by
  induction n with
  | zero => exact fun t s g => rfl
  | succ n ih =>
    intro t s g
    by_cases hz : s.count t = 1
    · cases hp : s.parent t with
      | none =>
        rw [threadPut_last hz hp]
        exact threadPut_last hz hp
      | some p =>
        rw [threadPut_free hz hp, ← ih p { s with count := Function.update s.count t 0 } g]
        exact threadPut_free hz hp
    · rw [threadPut_keep hz]
      exact threadPut_keep hz

theorem counted_suspend (h : Counted s k e) (hp : Placed s rq f k) (ht : t ∈ rq)
    (hn : t < n) :
    Counted ((s.removeRunnableThread n t).setState t .suspended) k e := by
  have hst := hp.state_of_mem ht
  have hi := hp.ne_idle ht
  have hcom := threadPut_state n t (s.runqRemove t) (Function.update s.state t .suspended)
  have hstate : (SchedState.threadPut n t (s.runqRemove t)).state = s.state := by
    obtain ⟨c, hc⟩ := SchedState.threadPut_counts n t (s.runqRemove t)
    rw [hc]
    rfl
  unfold SchedState.removeRunnableThread SchedState.setState
  rw [hstate, ← hcom]
  apply Counted.put n t
  · exact hp.parents
  · exact hn
  · refine h.shift rfl rfl rfl t (fun u hu => ⟨?_, bump_of_ne _ hu⟩) ?_
    · refine tally_congr rfl (onQueue_congr rfl ?_) (listed_congr rfl fun _ _ => Iff.rfl)
      show Function.update s.state t _ u = _ ∨ Function.update s.state t _ u = _ ↔ _
      rw [Function.update_of_ne hu]
    · rw [bump_self]
      have h1 : s.onQueue t = true := by simp [SchedState.onQueue, hi, hst]
      have h2 : ({ s.runqRemove t with state := Function.update s.state t .suspended } :
          SchedState).onQueue t = false := by
        simp [SchedState.onQueue]
      have h3 : ({ s.runqRemove t with state := Function.update s.state t .suspended } :
          SchedState).listed k t = s.listed k t := listed_congr rfl fun _ _ => Iff.rfl
      have e1 : s.tally k t = (if s.inMap t then 3 else 0) + 1 + (if s.listed k t then 1 else 0) :=
        tally_of rfl h1 rfl
      have e2 : ({ s.runqRemove t with state := Function.update s.state t .suspended } :
          SchedState).tally k t =
          (if s.inMap t then 3 else 0) + 0 + (if s.listed k t then 1 else 0) := tally_of rfl h2 h3
      rw [e1, e2]
      omega

theorem counted_resume (h : Counted s k e) (hi : t ≠ s.idle) (hst : s.state t = .suspended)
    (hm : s.inMap t = true) : Counted (s.addRunnableThread t) k e := by
  have hpos := h.pos hm
  have hk : ∀ u, (s.addRunnableThread t).kids u = s.kids u := by
    refine kids_congr ?_ ?_ fun c => ?_
    · rfl
    · rfl
    show Function.update s.count t (s.count t + 1) c = 0 ↔ _
    by_cases hc : c = t
    · subst hc
      rw [Function.update_self]
      omega
    · rw [Function.update_of_ne hc]
  intro u
  rw [hk u]
  show Function.update s.count t (s.count t + 1) u = _
  by_cases hu : u = t
  · subst hu
    rw [Function.update_self, h u]
    have h1 : s.onQueue u = false := by simp [SchedState.onQueue, hst]
    have h2 : (s.addRunnableThread u).onQueue u = true := by
      have hs := addRunnable_state s u
      have hidle : (s.addRunnableThread u).idle = s.idle := rfl
      unfold SchedState.onQueue
      rw [hs, hidle]
      simpa using hi
    have h3 : (s.addRunnableThread u).listed k u = s.listed k u := listed_congr rfl fun _ _ => Iff.rfl
    have e1 : s.tally k u = (if s.inMap u then 3 else 0) + 0 + (if s.listed k u then 1 else 0) :=
      tally_of rfl h1 rfl
    have e2 : (s.addRunnableThread u).tally k u =
        (if s.inMap u then 3 else 0) + 1 + (if s.listed k u then 1 else 0) := tally_of rfl h2 h3
    rw [e1, e2]
    omega
  · rw [Function.update_of_ne hu, h u]
    have hh : (s.addRunnableThread t).tally k u = s.tally k u := by
      refine tally_congr rfl (onQueue_congr rfl ?_) (listed_congr rfl fun _ _ => Iff.rfl)
      show Function.update s.state t _ u = _ ∨ Function.update s.state t _ u = _ ↔ _
      rw [Function.update_of_ne hu]
    rw [hh]

/-- **thread_put of a zombie** that has been taken off its list -/
theorem counted_release (h : Counted s k e) (hp : Placed s rq f k) {z : Nat} {r : List Nat}
    (hk : k (.zombie p) = z :: r) {st : ThreadState} (hst : st = .zombie ∨ st = .done) (hn : z < n) :
    Counted (SchedState.threadPut n z ((s.setState z st).zombieRemove p z))
      (Function.update k (.zombie p) r) e := by
  obtain ⟨hzp, hzs⟩ := hp.zombie p z (hk ▸ List.mem_cons_self ..)
  have hnot : z ∉ r := by
    have hd := (hp.kin.list (.zombie p)).nodup
    rw [hk] at hd
    exact (List.nodup_cons.mp hd).1
  apply Counted.put n z
  · exact hp.parents
  · exact hn
  · refine h.shift rfl rfl rfl z (fun u hu => ⟨?_, bump_of_ne _ hu⟩) ?_
    · refine tally_congr rfl (onQueue_congr rfl ?_) (listed_congr rfl fun q hq => ?_)
      · show Function.update s.state z _ u = _ ∨ Function.update s.state z _ u = _ ↔ _
        rw [Function.update_of_ne hu]
      · by_cases hqp : q = p
        · rw [hqp, Function.update_self, hk, List.mem_cons]
          exact (or_iff_right hu).symm
        · rw [Function.update_of_ne fun he => hqp (Kin.zombie.inj he)]
    · rw [bump_self]
      have h1 : ((s.setState z st).zombieRemove p z).onQueue z = s.onQueue z := by
        refine onQueue_congr rfl (iff_of_false ?_ (by rw [hzs]; simp))
        show ¬ (Function.update s.state z st z = _ ∨ Function.update s.state z st z = _)
        rw [Function.update_self]
        rcases hst with rfl | rfl <;> simp
      have h2 : s.listed k z = true := by
        rw [listed_of hzp, hk]
        exact decide_eq_true (List.mem_cons_self ..)
      have h3 : ((s.setState z st).zombieRemove p z).listed (Function.update k (.zombie p) r) z = false := by
        rw [listed_of (show ((s.setState z st).zombieRemove p z).parent z = some p from hzp),
          Function.update_self]
        exact decide_eq_false hnot
      have e1 : s.tally k z = (if s.inMap z then 3 else 0) + (if s.onQueue z then 1 else 0) + 1 :=
        tally_of rfl rfl h2
      have e2 : ((s.setState z st).zombieRemove p z).tally (Function.update k (.zombie p) r) z =
          (if s.inMap z then 3 else 0) + (if s.onQueue z then 1 else 0) + 0 := tally_of rfl h1 h3
      rw [e1, e2]
      omega

/-- a zombie list holds every id once at most -/
theorem zombies_length (hp : Placed s rq f k) (p : Nat) : (k (.zombie p)).length ≤ s.nextId + 1 := by
  have hsub : k (.zombie p) ⊆ List.range (s.nextId + 1) := by
    intro z hz
    have hz' := (hp.parents z p (hp.zombie p z hz).1).2
    exact List.mem_range.mpr (Nat.lt_succ_of_le hz')
  have hlen := ((hp.kin.list (.zombie p)).nodup.subperm hsub).length_le
  rwa [List.length_range] at hlen

theorem counted_reapLoop (n : Nat) : ∀ {s : SchedState} {k : Kin → List Nat}, Counted s k e →
    Placed s rq f k → s.nextId + (k (.zombie p)).length < n →
    ∃ k', Placed (SchedState.reapLoop p n (s.zombieList p).first s) rq f k' ∧
      Counted (SchedState.reapLoop p n (s.zombieList p).first s) k' e := by
  induction n with
  | zero => exact fun _ _ hn => absurd hn (Nat.not_lt_zero _)
  | succ n ih =>
    intro s k h hp hn
    have hl := hp.kin.list (.zombie p)
    have hfirst : (s.zombieList p).first = (k (.zombie p)).head? := hl.first
    rw [hfirst]
    cases hz : k (.zombie p) with
    | nil => exact ⟨k, hp, h⟩
    | cons z r =>
      rw [hz] at hl hn
      rw [List.length_cons] at hn
      have hzold := (hp.parents z p (hp.zombie p z (hz ▸ List.mem_cons_self ..)).1).2
      have hnext : (s.childLink z).next = r.head? := by rw [@IsList.link _ _ _ _ [] _ _ hl]
      have h1 := (hp.takeZombie hz .done (.inr rfl)).threadPut n z
      have h2 := counted_release h hp hz (.inr rfl) (show z < n by omega)
      have hw := Placed.Reaped.take s hz .done n
      have hfirst' : (SchedState.zombieList (SchedState.threadPut n z
          ((s.setState z .done).zombieRemove p z)) p).first = r.head? := by
        have hl' := (h1.kin.list (.zombie p)).first
        rw [Function.update_self] at hl'
        exact hl'
      have he : SchedState.reapLoop p (n + 1) (z :: r).head? s = SchedState.reapLoop p n r.head?
          (SchedState.threadPut n z ((s.setState z .done).zombieRemove p z)) := by
        show SchedState.reapLoop p n (s.childLink z).next _ = _
        rw [hnext]
      have hb := ih h2 h1 (by rw [hw.nextId, Function.update_self]; omega)
      rw [hfirst'] at hb
      rw [he]
      exact hb

/-- the thread that vanishes gives up the reference of its queue -/
theorem counted_leaveQueue (h : Counted s k e) (hp : Placed s rq f k) (hm : s.inMap t = true)
    (hw : s.state t ≠ .waiting) (hn : t < n) :
    Counted ((SchedState.threadPut n t { s with inMap := Function.update s.inMap t false }).leaveQueue n t)
      k (if s.state t = .runnable then bump e t else bump (bump e t) t) := by
  have h0 : Counted { s with inMap := Function.update s.inMap t false } k
      (bump (bump (bump e t) t) t) := by
    refine h.shift rfl rfl rfl t (fun u hu => ⟨?_, ?_⟩) ?_
    · exact tally_congr (Function.update_of_ne hu _ _) rfl rfl
    · rw [bump_of_ne _ hu, bump_of_ne _ hu, bump_of_ne _ hu]
    · rw [bump_self, bump_self, bump_self]
      have e1 : s.tally k t = 3 + (if s.onQueue t then 1 else 0) + (if s.listed k t then 1 else 0) :=
        tally_of hm rfl rfl
      have e2 : ({ s with inMap := Function.update s.inMap t false } : SchedState).tally k t =
          0 + (if s.onQueue t then 1 else 0) + (if s.listed k t then 1 else 0) := by
        have hm' : ({ s with inMap := Function.update s.inMap t false } : SchedState).inMap t = false :=
          Function.update_self ..
        exact tally_of hm' rfl rfl
      rw [e1, e2]
      omega
  have h1 := Counted.put n t (s := { s with inMap := Function.update s.inMap t false }) hp.parents hn h0
  obtain ⟨c, hc⟩ := SchedState.threadPut_counts n t { s with inMap := Function.update s.inMap t false }
  rw [hc] at h1 ⊢
  unfold SchedState.leaveQueue
  dsimp only
  cases hst : s.state t with
  | runnable =>
    rw [if_pos rfl]
    exact Counted.put n t hp.parents hn
      (h1.runqRemove t)
  | waiting => exact absurd hst hw
  | zombie => exact absurd hst (hp.mapped t hm).1
  | done => exact absurd hst (hp.mapped t hm).2
  | suspended =>
    rw [if_neg nofun]
    exact h1

/-- on the zombie list of its parent -/
theorem counted_bury {c : Nat → Int} (hp : Placed s rq f k) (hm : s.inMap t = true)
    (hpar : s.parent t = some p) (hi : t ≠ s.idle) (hw : s.state t ≠ .waiting)
    (h : Counted { s.runqRemove t with inMap := Function.update s.inMap t false, count := c } k
      (if s.state t = .runnable then bump e t else bump (bump e t) t)) :
    Counted ((({ s.runqRemove t with inMap := Function.update s.inMap t false, count := c } :
      SchedState).childRemove p t).setState t .zombie |>.zombieInsertTail p t) (Placed.buried k p t)
      (bump e t) := by
  have hz : s.listed k t = false := by
    rw [listed_of hpar]
    exact decide_eq_false fun hin => (hp.mapped t hm).1 (hp.zombie p t hin).2
  refine h.shift rfl rfl rfl t (fun u hu => ⟨?_, ?_⟩) ?_
  · refine tally_congr rfl (onQueue_congr rfl ?_) (listed_congr rfl fun q hq => ?_)
    · show Function.update s.state t _ u = _ ∨ Function.update s.state t _ u = _ ↔ _
      rw [Function.update_of_ne hu]
      exact Iff.rfl
    · rw [Placed.buried_zombie]
      split
      · next hqp =>
        rw [List.mem_append, List.mem_singleton, hqp]
        exact or_iff_left hu
      · exact Iff.rfl
  · split <;> simp only [bump_of_ne _ hu]
  · have e1 : ({ s.runqRemove t with inMap := Function.update s.inMap t false, count := c } :
        SchedState).tally k t = (if s.state t = .runnable then 1 else 0) := by
      have hq : ({ s.runqRemove t with inMap := Function.update s.inMap t false, count := c } :
          SchedState).onQueue t = decide (s.state t = .runnable) := by
        show (decide (t ≠ s.idle) && (decide (s.state t = .runnable) || decide (s.state t = .waiting))) = _
        rw [decide_eq_true hi, decide_eq_false hw]
        simp
      have hl : ({ s.runqRemove t with inMap := Function.update s.inMap t false, count := c } :
          SchedState).listed k t = false := hz
      rw [tally_of (Function.update_self ..) hq hl]
      simp
    have e2 : ((({ s.runqRemove t with inMap := Function.update s.inMap t false, count := c } :
        SchedState).childRemove p t).setState t .zombie |>.zombieInsertTail p t).tally
          (Placed.buried k p t) t = 1 := by
      have hq : ((({ s.runqRemove t with inMap := Function.update s.inMap t false, count := c } :
          SchedState).childRemove p t).setState t .zombie |>.zombieInsertTail p t).onQueue t = false := by
        show (decide (t ≠ s.idle) && (decide (Function.update s.state t .zombie t = .runnable) ||
          decide (Function.update s.state t .zombie t = .waiting))) = false
        rw [Function.update_self]
        simp
      have hl : ((({ s.runqRemove t with inMap := Function.update s.inMap t false, count := c } :
          SchedState).childRemove p t).setState t .zombie |>.zombieInsertTail p t).listed
            (Placed.buried k p t) t = true := by
        rw [listed_of (show ((({ s.runqRemove t with
          inMap := Function.update s.inMap t false, count := c } : SchedState).childRemove p t).setState t
            .zombie |>.zombieInsertTail p t).parent t = some p from hpar)]
        refine decide_eq_true ?_
        rw [Placed.buried_zombie, if_pos rfl]
        exact List.mem_append_right _ (List.mem_singleton_self t)
      exact tally_of (Function.update_self ..) hq hl
    rw [e1, e2]
    split
    · simp [bump_self]
    · simp [bump_self]

/-- **thread_vanish_noyield** -/
theorem counted_vanish (h : Counted s k e) (hp : Placed s rq f k) (hm : s.inMap t = true)
    (hpar : s.parent t = some p) (hw : s.state t ≠ .waiting) (hn : 2 * (s.nextId + 2) ≤ n) :
    ∃ rq' f' k', Placed (s.threadVanishNoyield n t) rq' f' k' ∧
      Counted (s.threadVanishNoyield n t) k' e := by
  have hpt : p ≠ t := Nat.ne_of_lt (hp.parents t p hpar).1
  have ho := hp.toKnown.le_nextId hm
  have hi : t ≠ s.idle := by
    intro he
    rw [he, hp.idle_parent] at hpar
    exact nomatch hpar
  obtain ⟨c, hc⟩ := hp.leaveQueue_eq hm hw n
  have c1 := counted_leaveQueue h hp hm hw (n := n) (by omega)
  rw [hc] at c1
  have c2 := counted_bury hp hm hpar hi hw c1
  have b1 := hp.bury hm hpar hw c
  obtain ⟨rq₁, f₁, h1, w1⟩ := b1.wakeupThreads n (.selfWait p)
  have hnext₁ := w1.nextId
  have hlen := zombies_length h1 t
  obtain ⟨k₂, h2, c3⟩ := counted_reapLoop n (c2.woke w1) h1 (p := t) (by
    rw [hnext₁] at hlen ⊢
    have hs : ∀ a : Nat, a ≤ s.nextId + 1 → s.nextId + a < n := fun a _ => by omega
    exact hs _ hlen)
  obtain ⟨k₂', h2', w2⟩ := h1.reapLoop (p := t) n
  obtain rfl : k₂ = k₂' := funext fun i => (h2.kin.list i).unique (h2'.kin.list i)
  obtain ⟨rq₃, f₃, h3, w3⟩ := h2.wakeupThreads n (.wait t)
  have c4 := c3.woke w3
  have hpar₃ := (w3.parent.trans w2.parent).trans w1.parent
  have hnext₃ := (w3.nextId.trans w2.nextId).trans w1.nextId
  have hown : t ∈ k₂ (.zombie p) := by
    rw [w2.other _ fun he => hpt (Kin.zombie.inj he), Placed.buried_zombie, if_pos rfl]
    exact List.mem_append_right _ (List.mem_singleton_self t)
  have hinMap := (w3.inMap.trans w2.inMap).trans w1.inMap
  have h4 := h3.noteVanish (t := t)
    ((congrFun hinMap t).trans (Function.update_self ..)) (by rw [hnext₃]; exact ho)
    (.inl (h3.zombie p t hown).2)
  unfold SchedState.threadVanishNoyield
  dsimp only
  rw [hc, Placed.toParent_eq hpar]
  refine ⟨rq₃, f₃, k₂, h4.threadPut n t, ?_⟩
  apply Counted.put n t
  · show ∀ c q, SchedState.parent _ c = some q → q < c ∧ c ≤ SchedState.nextId _
    exact h4.parents
  · omega
  · exact c4.congr rfl rfl rfl rfl rfl fun _ => Iff.rfl

/-- a child more -/
theorem kids_forked (h : Counted s k e) (hp : Placed s rq f k)
    (hm : s.inMap s.current = true) (u : Nat) :
    (Placed.forked s (Placed.forkCount s)).kids u = s.kids u + if u = s.current then 1 else 0 := by
  have hpos := h.pos hm
  have hold := hp.toKnown.le_nextId hm
  have hrange : (Placed.forked s (Placed.forkCount s)).nextId + 1 = (s.nextId + 1) + 1 := rfl
  have hnew : (Placed.forked s (Placed.forkCount s)).parent (s.nextId + 1) = some s.current :=
    Function.update_self ..
  have hcount : (Placed.forked s (Placed.forkCount s)).count (s.nextId + 1) = 4 :=
    Function.update_self ..
  have hfilter : (Finset.range (s.nextId + 1)).filter (fun c =>
      (Placed.forked s (Placed.forkCount s)).parent c = some u ∧
        (Placed.forked s (Placed.forkCount s)).count c ≠ 0) =
      (Finset.range (s.nextId + 1)).filter fun c => s.parent c = some u ∧ s.count c ≠ 0 := by
    apply Finset.filter_congr
    intro c hc
    have hc' : c ≠ s.nextId + 1 := Nat.ne_of_lt (Finset.mem_range.mp hc)
    show Function.update s.parent _ _ c = some u ∧ Function.update _ _ _ c ≠ 0 ↔ _
    rw [Function.update_of_ne hc', Function.update_of_ne hc']
    apply and_congr_right
    intro _
    by_cases hcc : c = s.current
    · rw [hcc, Function.update_self]
      omega
    · rw [Function.update_of_ne hcc]
  unfold SchedState.kids
  rw [hrange, Finset.range_add_one, Finset.filter_insert, hnew, hcount, hfilter]
  by_cases hu : u = s.current
  · rw [if_pos hu, if_pos ⟨congrArg some hu.symm, by decide⟩]
    apply Finset.card_insert_of_notMem
    intro hc
    exact absurd (Finset.mem_range.mp (Finset.mem_filter.mp hc).1) (Nat.lt_irrefl _)
  · rw [if_neg hu, if_neg fun hc => hu (Option.some.inj hc.1).symm]
    rfl

theorem counted_fork (h : Counted s k e) (hp : Placed s rq f k)
    (hm : s.inMap s.current = true) (he : e (s.nextId + 1) = 0) (kc : List Nat) :
    Counted ((Placed.forked s (Placed.forkCount s)).runqInsertTail (s.nextId + 1))
      (Function.update k (.child s.current) kc) e := by
  have hold := hp.toKnown.le_nextId hm
  obtain ⟨hst, hnm⟩ := hp.fresh (s.nextId + 1) (Nat.lt_succ_self _)
  have hkz : ∀ p, Function.update k (.child s.current) kc (.zombie p) = k (.zombie p) := fun p =>
    Function.update_of_ne (Kin.child_ne_zombie _ _).symm _ _
  intro u
  have hk : ((Placed.forked s (Placed.forkCount s)).runqInsertTail (s.nextId + 1)).kids u =
      s.kids u + if u = s.current then 1 else 0 := kids_forked h hp hm u
  rw [hk]
  show Function.update (Function.update s.count s.current _) (s.nextId + 1) 4 u = _
  by_cases hu : u = s.nextId + 1
  · subst hu
    have hcur : s.nextId + 1 ≠ s.current := by omega
    have hnone : s.kids (s.nextId + 1) = 0 := by
      refine Finset.card_eq_zero.mpr (Finset.filter_eq_empty_iff.mpr fun c _ hc => ?_)
      have := hp.parents c _ hc.1
      omega
    have hidle : s.nextId + 1 ≠ s.idle := by
      have := hp.idle_old
      omega
    have h1 : ((Placed.forked s (Placed.forkCount s)).runqInsertTail (s.nextId + 1)).inMap
        (s.nextId + 1) = true := Function.update_self ..
    have h2 : ((Placed.forked s (Placed.forkCount s)).runqInsertTail (s.nextId + 1)).onQueue
        (s.nextId + 1) = true := by
      show (decide (s.nextId + 1 ≠ s.idle) &&
        (decide (Function.update s.state (s.nextId + 1) .runnable (s.nextId + 1) = .runnable) || _)) = true
      rw [Function.update_self, decide_eq_true hidle]
      rfl
    have h3 : ((Placed.forked s (Placed.forkCount s)).runqInsertTail (s.nextId + 1)).listed
        (Function.update k (.child s.current) kc) (s.nextId + 1) = false := by
      rw [listed_of (show _ = some s.current from Function.update_self ..), hkz]
      refine decide_eq_false fun hin => ?_
      have hz := (hp.zombie _ _ hin).2
      rw [hst] at hz
      exact nomatch hz
    rw [Function.update_self, if_neg hcur, hnone, tally_of h1 h2 h3, he]
    rfl
  · rw [Function.update_of_ne hu]
    have hh : ((Placed.forked s (Placed.forkCount s)).runqInsertTail (s.nextId + 1)).tally
        (Function.update k (.child s.current) kc) u = s.tally k u := by
      refine tally_congr (Function.update_of_ne hu _ _) (onQueue_congr rfl ?_)
        (listed_congr (Function.update_of_ne hu _ _) fun q _ => by rw [hkz])
      show Function.update s.state _ _ u = _ ∨ Function.update s.state _ _ u = _ ↔ _
      rw [Function.update_of_ne hu]
    have hcu := h u
    rw [hh]
    by_cases huc : u = s.current
    · subst huc
      rw [Function.update_self, if_pos rfl, hcu]
      omega
    · rw [Function.update_of_ne huc, if_neg huc, hcu]
      omega

/-! ## one operation -/

/-- every thread in its place, and the counts exact but for `e` -/
def Tallied (s : SchedState) (e : Nat → Nat) : Prop := ∃ rq f k, Placed s rq f k ∧ Counted s k e

theorem Tallied.yield (h : Placed s rq f k) (hc : Counted s k e)
    (hcur : s.state s.current ≠ .done) (hn : 0 < n) : Tallied (s.schedYield n) e := by
  obtain ⟨rq', h1, -, -⟩ := h.yield hcur hn
  exact ⟨rq', f, k, h1, hc.of_rest (s.rest_schedYield n)⟩

theorem tallied_sysYield (h : Placed s rq f k) (hc : Counted s k e) (hr : Running s rq)
    (hn : 0 < n) (tid : Option Nat) : Tallied (s.sysYield n tid) e := by
  cases tid with
  | none =>
    apply Tallied.yield h hc _ hn
    rw [h.running hr]
    exact nofun
  | some t =>
    show Tallied (if s.inMap t = false ∨ s.state t ≠ .runnable then s else s.switchTo t) e
    split
    · exact ⟨rq, f, k, h, hc⟩
    · refine ⟨rq, f, k, ?_, hc.congr rfl rfl rfl rfl rfl fun _ => Iff.rfl⟩
      exact h.reorder (h.queues.switchTo t) rfl (fun _ => not_vanish_select) fun _ => Iff.rfl

theorem tallied_fork (h : Placed s rq f k) (hc : Counted s k e) (hr : Running s rq)
    (hn : 0 < n) (he : e (s.nextId + 1) = 0) : Tallied (s.fork n) e := by
  have hold := h.running_old hr
  have hst := h.running hr
  have hcur : s.current ≠ s.nextId + 1 := Nat.ne_of_lt (Nat.lt_succ_of_le hold)
  rw [Placed.fork_eq s n (h.fresh _ (Nat.lt_succ_self _)).2]
  apply Tallied.yield (h.fork hold _) (counted_fork hc h (h.live _ (.inl hst)) he _) _ hn
  show Function.update s.state _ _ s.current ≠ _
  rw [Function.update_of_ne hcur, hst]
  exact nofun

theorem tallied_schedWaitOn (h : Placed s rq f k) (hc : Counted s k e) (hr : s.current ∈ rq)
    (hn : 0 < n) {l : SchedState.WaitOn} (hl : l = .sleep ∨ l = .selfWait s.current) (ticks : Int) :
    Tallied (s.schedWaitOn n l ticks s.current) e := by
  have hst := h.state_of_mem hr
  have hblock := h.block hr hl (Function.update s.deadline s.current (int32 (s.ticks + ticks)))
  have hw := (hblock.waiting s.current).mpr ⟨l, by
    rw [Function.update_self]
    exact List.mem_append_right _ (List.mem_singleton_self _)⟩
  unfold SchedState.schedWaitOn
  rw [if_neg fun hc => hc hst]
  apply Tallied.yield hblock _ _ hn
  · -- from one queue to another
    have hq : ∀ u, Function.update s.state s.current .waiting u = .runnable ∨
        Function.update s.state s.current .waiting u = .waiting ↔
        s.state u = .runnable ∨ s.state u = .waiting := by
      intro u
      by_cases hu : u = s.current
      · rw [hu, Function.update_self, hst]
        exact iff_of_true (.inr rfl) (.inl rfl)
      · rw [Function.update_of_ne hu]
    rcases hl with rfl | rfl <;> exact hc.congr rfl rfl rfl rfl rfl hq
  · intro hd
    rcases hl with rfl | rfl <;> exact nomatch (hw.symm.trans hd : ThreadState.waiting = .done)

theorem tallied_take (h : Placed s rq f k) (hc : Counted s k e) {z : Nat}
    (hz : (s.zombieList s.current).first = some z) (hn : 2 * (s.nextId + 2) ≤ n) :
    Tallied (SchedState.threadPut n z (s.zombieRemove s.current z)) e := by
  obtain ⟨r, hk⟩ := h.zombie_cons hz
  obtain ⟨hzp, hzs⟩ := h.zombie s.current z (hk ▸ List.mem_cons_self ..)
  have hold := (h.parents z _ hzp).2
  have h1 := (h.takeZombie hk .zombie (.inl rfl)).threadPut n z
  have h2 := counted_release hc h hk (.inl rfl) (show z < n by omega)
  rw [setState_self hzs] at h1 h2
  exact ⟨rq, f, _, h1, h2⟩

theorem tallied_runflag (h : Placed s rq f k) (hc : Counted s k e) (hr : Running s rq)
    (hi : s.current ≠ s.idle) (hw : s.state t ≠ .waiting) (ev1 nv1 ev2 nv2 : Int)
    (hn : 2 * (s.nextId + 2) ≤ n) : Tallied (s.sysCas2iRunflag n t ev1 nv1 ev2 nv2) e := by
  have same : Tallied s e := ⟨rq, f, k, h, hc⟩
  unfold SchedState.sysCas2iRunflag
  by_cases hd : s.inMap t = false ∨ s.state t = .zombie ∨ s.state t = .done
  · rw [if_pos hd]
    exact same
  rw [if_neg hd]
  dsimp only
  have hm : s.inMap t = true := by
    cases hm : s.inMap t with
    | true => rfl
    | false => exact absurd (.inl hm) hd
  have hold := h.toKnown.le_nextId hm
  generalize hnew : SchedState.runflagState (s.state t) ev1 nv1 ev2 nv2 = new
  by_cases hother : new = .suspended ∧ (t ≠ s.current ∨ s.state t ≠ .runnable)
  · rw [if_pos hother]
    exact same
  rw [if_neg hother]
  by_cases hsame : new = s.state t
  · rw [if_pos hsame]
    exact same
  rw [if_neg hsame]
  by_cases hs : new = .suspended
  · rw [if_pos hs]
    have ht : t = s.current := Classical.not_not.mp fun hn => hother ⟨hs, .inl hn⟩
    have hin : t ∈ rq := ht ▸ hr.resolve_left hi
    have h2 := counted_suspend hc h hin (show t < n by omega)
    obtain ⟨c, hcount⟩ := SchedState.threadPut_counts n t (s.runqRemove t)
    unfold SchedState.removeRunnableThread at h2 ⊢
    rw [hcount] at h2 ⊢
    apply Tallied.yield ((h.suspend hin).frame c s.deadline s.ticks s.current) h2 _ (by omega)
    show Function.update s.state t _ s.current ≠ _
    rw [← ht, Function.update_self]
    exact nofun
  · rw [if_neg hs]
    have hst := SchedState.runflag_suspended hnew hs hsame hw hd
    have hti : t ≠ s.idle := by
      intro he
      rw [he, h.idle_state] at hst
      exact nomatch hst
    exact ⟨_, f, k, h.resume hst hm, counted_resume hc hti hst hm⟩

theorem tallied_vanish (h : Placed s rq f k) (hc : Counted s k e) (hr : Running s rq)
    (hm : s.inMap t = true) (hp : s.parent t ≠ none) (hw : s.state t ≠ .waiting)
    (hn : 2 * (s.nextId + 2) ≤ n) : Tallied ((s.threadVanishNoyield n t).schedYield n) e := by
  obtain ⟨p, hp⟩ := Option.ne_none_iff_exists'.mp hp
  have hpt : p ≠ t := Nat.ne_of_lt (h.parents t p hp).1
  obtain ⟨rq₁, f₁, k₁, h1, hg⟩ := h.vanish hm hp hw n
  obtain ⟨rq', f', k', h2, hc2⟩ := counted_vanish hc h hm hp hw hn
  exact .yield h2 hc2 (hg.awake h1 hr hpt) (by omega)

/-- the loops have turns enough to visit every thread twice -/
def SchedOp.Turns (s : SchedState) : SchedOp → Prop
  | .yield .. | .afterSwitch _ | .fork _ | .sleep .. | .tick _ => True
  | .wait n | .waitReap n | .runflag _ _ _ _ _ n | .vanish n | .taskVanish _ n =>
    2 * (s.nextId + 2) ≤ n

/-- `thread_wait` holds its caller -/
theorem Counted.get (h : Counted s k e) (hm : s.inMap t = true) :
    Counted (s.threadGet t) k (bump e t) := by
  have hpos := h.pos hm
  have hk : ∀ u, (s.threadGet t).kids u = s.kids u := by
    refine kids_congr rfl rfl fun c => ?_
    show Function.update s.count t (s.count t + 1) c = 0 ↔ _
    by_cases hc : c = t
    · subst hc
      rw [Function.update_self]
      omega
    · rw [Function.update_of_ne hc]
  intro u
  have hcu := h u
  rw [hk u]
  show Function.update s.count t (s.count t + 1) u = (bump e t u + s.tally k u + _ : Nat)
  by_cases hu : u = t
  · subst hu
    rw [Function.update_self, bump_self]
    omega
  · rw [Function.update_of_ne hu, bump_of_ne e hu, hcu]

/-- … and lets it go -/
theorem Tallied.put (h : Tallied s (bump e t)) (hn : t < n) :
    Tallied (SchedState.threadPut n t s) e := by
  obtain ⟨rq, f, k, hp, hc⟩ := h
  exact ⟨rq, f, k, hp.threadPut n t, Counted.put n t hp.parents hn hc⟩

/-- the first part of `thread_wait`: a thread that is switched away goes on being held -/
theorem tallied_threadWait (h : Placed s rq f k) (hc : Counted s k e) (hr : Running s rq)
    (hi : s.current ≠ s.idle) (hn : 2 * (s.nextId + 2) ≤ n) :
    Tallied (s.threadWait n) (match s.blocked (.wait n) with | none => e | some p => bump e p) := by
  have hold := h.running_old hr
  have hget := hc.get (h.live _ (.inl (h.running hr)))
  have hpg := h.threadGet s.current
  unfold SchedState.threadWait SchedState.blocked
  dsimp only
  cases hz : (s.zombieList s.current).first with
  | some z =>
    have h1 : ¬ ((s.childList s.current).first = none ∧ some z = none) := fun hc => nomatch hc.2
    have h2 : ¬ (some z = none ∧ (s.childList s.current).first ≠ none) := fun hc => nomatch hc.1
    rw [if_neg h1, if_neg h2]
    change Tallied (match (s.zombieList s.current).first with
      | none => _
      | some z => _) e
    rw [hz]
    exact (tallied_take hpg hget hz hn).put (by omega)
  | none =>
    by_cases hch : (s.childList s.current).first = none
    · rw [if_pos ⟨hch, rfl⟩, if_neg fun hn => hn.2 hch]
      exact ⟨rq, f, k, h, hc⟩
    · rw [if_neg fun hn => hch hn.1, if_pos ⟨rfl, hch⟩]
      change Tallied (match (s.zombieList s.current).first with
        | none => _
        | some z => _) (bump e s.current)
      rw [hz]
      exact tallied_schedWaitOn hpg hget (hr.resolve_left hi) (by omega) (.inr rfl) 0

/-- the rest of it -/
theorem tallied_threadWaitReap (h : Placed s rq f k) (hc : Counted s k (bump e s.current))
    (hr : Running s rq) (hn : 2 * (s.nextId + 2) ≤ n) : Tallied (s.threadWaitReap n) e := by
  have hold := h.running_old hr
  unfold SchedState.threadWaitReap
  split
  · exact Tallied.put ⟨rq, f, k, h, hc⟩ (by omega)
  · next hz => exact (tallied_take h hc hz hn).put (by omega)

/-- what an operation does to the references of those inside `thread_wait` -/
def WaitsTo (s : SchedState) (e e' : Nat → Nat) : SchedOp → Prop
  | .wait n => e' = match s.blocked (.wait n) with | none => e | some p => bump e p
  | .waitReap _ => e = bump e' s.current
  | _ => e' = e

/-- **one operation** -/
theorem Tallied.run (h : Placed s rq f k) (hc : Counted s k e) (hr : Running s rq)
    (op : SchedOp) (hok : op.Calm s) (hn : op.Turns s) (he : WaitsTo s e e' op)
    (hnew : e (s.nextId + 1) = 0) : Tallied (s.run op) e' := by
  have same : Tallied s e := ⟨rq, f, k, h, hc⟩
  cases op with
  | wait n =>
    obtain rfl : e' = _ := he
    exact tallied_threadWait h hc hr hok.2 hn
  | waitReap n =>
    obtain rfl : e = _ := he
    exact tallied_threadWaitReap h hc hr hn
  | yield tid n =>
    obtain rfl : e' = e := he
    exact tallied_sysYield h hc hr hok tid
  | afterSwitch n =>
    obtain rfl : e' = e := he
    obtain ⟨rq', f', h1, hw⟩ := h.afterSwitch n
    exact ⟨rq', f', k, h1, hc.woke hw⟩
  | fork n =>
    obtain rfl : e' = e := he
    exact tallied_fork h hc hr hok hnew
  | sleep ticks n =>
    obtain rfl : e' = e := he
    exact tallied_schedWaitOn h hc (hr.resolve_left hok.2) hok.1 (.inl rfl) ticks
  | runflag tid ev1 nv1 ev2 nv2 n =>
    obtain rfl : e' = e := he
    exact tallied_runflag h hc hr hok.2.1 hok.2.2 ev1 nv1 ev2 nv2 hn
  | tick numTick =>
    obtain rfl : e' = e := he
    exact ⟨rq, f, k, h.frame s.count s.deadline _ s.current,
      hc.congr rfl rfl rfl rfl rfl fun _ => Iff.rfl⟩
  | vanish n =>
    obtain rfl : e' = e := he
    have hst := h.running hr
    exact tallied_vanish h hc hr (h.live _ (.inl hst)) hok.2 (by rw [hst]; exact nofun) hn
  | taskVanish tid n =>
    obtain rfl : e' = e := he
    show Tallied (if s.inMap tid then s.taskVanish n tid else s) e'
    split
    · next hm =>
      unfold SchedState.taskVanish
      rw [if_neg (h.mapped tid hm).2]
      exact tallied_vanish h hc hr hm hok.2.1 hok.2.2 hn
    · exact same

/-! ## those inside thread_wait -/

/-- `thread_wait` holds its caller until it returns; one that is killed inside it stays held -/
def WaitState.waitRefs (w : WaitState) (t : Nat) : Nat := (w.inWait t).toNat

theorem bump_of_false {g : Nat → Bool} (h : g p = false) :
    (fun t => (Function.update g p true t).toNat) = bump (fun t => (g t).toNat) p := by
  funext t
  by_cases ht : t = p
  · rw [ht, bump_self, Function.update_self, h]
    rfl
  · rw [bump_of_ne _ ht, Function.update_of_ne ht]

theorem bump_of_true {g : Nat → Bool} (h : g p = true) :
    (fun t => (g t).toNat) = bump (fun t => (Function.update g p false t).toNat) p := by
  funext t
  by_cases ht : t = p
  · rw [ht, bump_self, Function.update_self, h]
    rfl
  · rw [bump_of_ne _ ht, Function.update_of_ne ht]

/-- it is the thread that runs which is switched away -/
theorem blocked_current {op : SchedOp} (h : s.blocked op = some p) : p = s.current := by
  unfold SchedState.blocked at h
  split at h
  · split at h
    · exact (Option.some.inj h).symm
    · exact nomatch h
  · exact nomatch h

theorem waitsTo_step {w : WaitState} {op : SchedOp} (h : op.Orderly w) :
    WaitsTo w.sched w.waitRefs (w.step (.sched op)).waitRefs op := by
  cases op with
  | wait n =>
    have hf : w.inWait w.sched.current = false := h.2
    show (fun t => (w.waiting (.wait n) t).toNat) = _
    unfold WaitState.waiting
    dsimp only
    cases hb : w.sched.blocked (.wait n) with
    | none => rfl
    | some p => exact bump_of_false (blocked_current hb ▸ hf)
  | waitReap n => exact bump_of_true h.2
  | yield tid n => rfl
  | afterSwitch n => rfl
  | fork n => rfl
  | sleep ticks n => rfl
  | runflag tid ev1 nv1 ev2 nv2 n => rfl
  | tick numTick => rfl
  | vanish n => rfl
  | taskVanish tid n => rfl

/-! ## whole runs -/

theorem schedBooted_counted : Counted schedBooted (fun _ => []) fun _ => 0 := by
  intro t
  have hk : schedBooted.kids t = 0 := by
    refine Finset.card_eq_zero.mpr (Finset.filter_eq_empty_iff.mpr fun c _ hc => ?_)
    exact nomatch hc.1
  have hl : schedBooted.listed (fun _ => []) t = false := rfl
  have hm : schedBooted.inMap t = (t = 1 || t = 2 : Bool) := rfl
  have hq : schedBooted.onQueue t = decide (t = 2) := by
    show (decide (t ≠ 1) && (decide ((if t = 1 ∨ t = 2 then ThreadState.runnable else .suspended) =
      .runnable) || decide ((if t = 1 ∨ t = 2 then ThreadState.runnable else .suspended) =
      .waiting))) = _
    by_cases h1 : t = 1
    · simp [h1]
    · by_cases h2 : t = 2 <;> simp [h1, h2]
  show (if t = 1 then 3 else if t = 2 then 4 else 0 : Int) = _
  rw [hk, tally_of hm hq hl]
  by_cases h1 : t = 1
  · subst h1
    rfl
  · by_cases h2 : t = 2
    · subst h2
      rfl
    · simp [h1, h2]

/-- nobody has a child that is not freed -/
theorem kids_eq_zero (h : Placed s rq f k) :
    s.kids t = 0 ↔ ∀ c, s.parent c = some t → s.count c = 0 := by
  unfold SchedState.kids
  rw [Finset.card_eq_zero, Finset.filter_eq_empty_iff]
  constructor
  · intro hk c hc
    refine Classical.not_not.mp fun hne => hk ?_ ⟨hc, hne⟩
    exact Finset.mem_range.mpr (Nat.lt_succ_of_le (h.parents c t hc).2)
  · exact fun hk c _ hc => hc.2 (hk c hc.1)

theorem onQueue_eq_false (h : Placed s rq f k) : s.onQueue t = false ↔ t ∉ rq ∧ ∀ l, t ∉ f l := by
  by_cases hi : t = s.idle
  · refine iff_of_true ?_ ⟨fun hin => h.idle_out (hi ▸ hin), ?_⟩
    · simp [SchedState.onQueue, hi]
    · refine h.not_waits ?_
      rw [hi, h.idle_state]
      exact nofun
  · have hw : (∀ l, t ∉ f l) ↔ s.state t ≠ .waiting := by
      rw [ne_eq, h.waiting t, not_exists]
    rw [hw, ← h.runnable t hi]
    simp [SchedState.onQueue, hi]

theorem listed_eq_false (h : Placed s rq f k) : s.listed k t = false ↔ ∀ p, t ∉ k (.zombie p) := by
  cases hp : s.parent t with
  | none =>
    refine iff_of_true ?_ fun p hin => ?_
    · unfold SchedState.listed
      rw [hp]
    · rw [(h.zombie p t hin).1] at hp
      exact nomatch hp
  | some p =>
    rw [listed_of hp, decide_eq_false_iff_not]
    refine ⟨fun hn q hin => hn ?_, fun hn => hn p⟩
    have hq := (h.zombie q t hin).1
    rw [hp] at hq
    exact Option.some.inj hq ▸ hin

/-- who is inside `thread_wait` was there before, or is the thread that ran -/
theorem waiting_cases {w : WaitState} {op : SchedOp} (h : op.Orderly w)
    (ht : w.waiting op t = true) : w.inWait t = true ∨ t = w.sched.current := by
  cases op with
  | wait n =>
    by_cases hc : t = w.sched.current
    · exact .inr hc
    · refine .inl ?_
      unfold WaitState.waiting at ht
      dsimp only at ht
      cases hb : w.sched.blocked (.wait n) with
      | none =>
        rw [hb] at ht
        exact ht
      | some p =>
        have hp := blocked_current hb
        rw [hb] at ht
        change Function.update w.inWait p true t = true at ht
        rwa [Function.update_of_ne fun he => hc (he.trans hp)] at ht
  | waitReap n =>
    by_cases hc : t = w.sched.current
    · exact .inr hc
    · change Function.update w.inWait w.sched.current false t = true at ht
      rw [Function.update_of_ne hc] at ht
      exact .inl ht
  | yield tid n => exact .inl ht
  | afterSwitch n => exact .inl ht
  | fork n => exact .inl ht
  | sleep ticks n => exact .inl ht
  | runflag tid ev1 nv1 ev2 nv2 n => exact .inl ht
  | tick numTick => exact .inl ht
  | vanish n => exact .inl ht
  | taskVanish tid n => exact .inl ht

/-- a step of the runs: the loops have turns enough -/
def RefStep (w : WaitState) (op : WaitOp) (w' : WaitState) : Prop :=
  (∀ o, op = .sched o → o.Turns w.sched) ∧ WaitStep w op w'

/-- the counts of a run: exact, with the references of those inside `thread_wait` -/
structure Refs (w : WaitState) : Prop where
  tallied : Tallied w.sched w.waitRefs
  running : ∃ rq f k, Placed w.sched rq f k ∧ Running w.sched rq
  old : ∀ t, w.inWait t = true → t ≤ w.sched.nextId

theorem Refs.step {w w' : WaitState} {op : WaitOp} (h : Refs w) (hs : RefStep w op w') : Refs w' := by
  obtain ⟨⟨rq, f, k, hp, hc⟩, ⟨rq₁, f₁, k₁, hp₁, hr⟩, hold⟩ := h
  obtain ⟨hn, hok, rfl⟩ := hs
  obtain rfl : rq = rq₁ := hp.queues.run.unique hp₁.queues.run
  cases op with
  | setStatus v => exact ⟨⟨rq, f, k, hp, hc⟩, ⟨rq, f, k, hp, hr⟩, hold⟩
  | sched op =>
    obtain ⟨rq', f', k', h1, h2, hm⟩ := hp.next hr op (hok op rfl).1
    have hnew : w.waitRefs (w.sched.nextId + 1) = 0 := by
      cases hin : w.inWait (w.sched.nextId + 1) with
      | false => exact congrArg Bool.toNat hin
      | true =>
        have := hold _ hin
        omega
    refine ⟨.run hp hc hr op (hok op rfl).1 (hn op rfl) (waitsTo_step (hok op rfl)) hnew,
      ⟨rq', f', k', h1, h2⟩, fun t ht => ?_⟩
    rcases waiting_cases (hok op rfl) ht with ht | rfl
    · exact (hold t ht).trans hm.next
    · exact (hp.running_old hr).trans hm.next

/-- **no thread is freed while it is held, and none is kept that is not**: in every state that a run
reaches, the counts are those of the holders, of the children that are not freed and of `thread_wait`,
and the threads whose count is 0 are those that are not in the map, on no queue, nobody's zombie, not
inside `thread_wait` and without a child that is not freed -/
theorem refs_exact {w : WaitState} {ops : List WaitOp} (hrun : Steps RefStep waitBooted ops w) :
    ∃ rq f k, Placed w.sched rq f k ∧
      (∀ t, w.sched.count t = (w.sched.holders k t + w.waitRefs t + w.sched.kids t : Nat)) ∧
      ∀ t, w.sched.count t = 0 ↔ w.sched.inMap t = false ∧ t ∉ rq ∧ (∀ l, t ∉ f l) ∧
        (∀ p, t ∉ k (.zombie p)) ∧ w.inWait t = false ∧
          ∀ c, w.sched.parent c = some t → w.sched.count c = 0 := by
  have hinv : Refs w := by
    refine hrun.invariant (P := Refs) (fun w op w' hP hs => hP.step hs) ⟨?_, ?_, ?_⟩
    · exact ⟨_, _, _, schedBooted_placed, schedBooted_counted⟩
    · exact ⟨_, _, _, schedBooted_placed, .inr (List.mem_singleton_self 2)⟩
    · exact fun t ht => nomatch ht
  obtain ⟨rq, f, k, h, hc⟩ := hinv.tallied
  refine ⟨rq, f, k, h, fun t => ?_, fun t => ?_⟩
  · rw [hc t, h.holders_eq, Nat.add_comm (w.waitRefs t)]
  · rw [hc t, ← kids_eq_zero h, ← listed_eq_false h, ← and_assoc (b := ∀ l, t ∉ f l),
      ← onQueue_eq_false h, Int.natCast_eq_zero]
    unfold SchedState.tally WaitState.waitRefs
    cases w.sched.inMap t <;> cases w.sched.onQueue t <;> cases w.sched.listed k t <;>
      cases w.inWait t <;> simp

end

/-- thread 2 forks 3, lets it run, is switched to again and waits -/
def refsBlocked : WaitState :=
  [.sched (.fork 20), .sched (.yield none 20), .sched (.wait 20)].foldl WaitState.step waitBooted

/-- 3 vanishes, and 2 goes on in `thread_wait` -/
def refsReaped : WaitState :=
  [.sched (.vanish 20), .sched (.waitReap 20)].foldl WaitState.step refsBlocked

theorem RefStep.sched {w : WaitState} {op : SchedOp} (h1 : op.Turns w.sched) (h2 : op.Orderly w) :
    RefStep w (.sched op) (w.step (.sched op)) :=
  ⟨fun o ho => WaitOp.sched.inj ho ▸ h1, fun o ho => WaitOp.sched.inj ho ▸ h2, rfl⟩

theorem refsBlocked_steps : ∃ ops, Steps RefStep waitBooted ops refsBlocked := by
  have h1 : RefStep waitBooted (.sched (.fork 20)) _ :=
    .sched trivial ⟨(by decide : 0 < 20), rfl⟩
  have h2 : RefStep (waitBooted.step (.sched (.fork 20))) (.sched (.yield none 20)) _ :=
    .sched trivial ⟨(by decide : 0 < 20), rfl⟩
  have h3 : RefStep ((waitBooted.step (.sched (.fork 20))).step (.sched (.yield none 20)))
      (.sched (.wait 20)) _ :=
    .sched (by show 2 * (_ + 2) ≤ 20; decide) ⟨⟨by decide, by decide⟩, rfl⟩
  exact ⟨_, ((Steps.single h1).snoc h2).snoc h3⟩

theorem refsReaped_steps : ∃ ops, Steps RefStep waitBooted ops refsReaped := by
  obtain ⟨ops, h⟩ := refsBlocked_steps
  have h4 : RefStep refsBlocked (.sched (.vanish 20)) _ :=
    .sched (by show 2 * (_ + 2) ≤ 20; decide) ⟨⟨by decide, by decide⟩, rfl⟩
  -- the deadline of the thread that waits is compared, and its sum is irreducible to `decide`
  have h5 : RefStep (refsBlocked.step (.sched (.vanish 20))) (.sched (.waitReap 20)) _ :=
    .sched (by show 2 * (_ + 2) ≤ 20; decide +kernel) ⟨trivial, by
      show WaitState.inWait _ _ = true
      decide +kernel⟩
  exact ⟨_, (h.snoc h4).snoc h5⟩

/-- while 2 waits it is held by the map, its task, nobody (it has no parent), a list, `thread_wait` and
its child; behind it 3 is freed -/
theorem refs_exact_child :
    (refsBlocked.sched.count 2 = 6 ∧ ∃ rq f k, Placed refsBlocked.sched rq f k ∧
      ∀ t, refsBlocked.sched.count t = (refsBlocked.sched.holders k t + refsBlocked.waitRefs t +
        refsBlocked.sched.kids t : Nat)) ∧
      refsReaped.sched.count 2 = 4 ∧ refsReaped.sched.count 3 = 0 ∧
        ∃ rq f k, Placed refsReaped.sched rq f k := by
  obtain ⟨ops, h⟩ := refsBlocked_steps
  obtain ⟨rq, f, k, hp, hc, -⟩ := refs_exact h
  obtain ⟨ops', h'⟩ := refsReaped_steps
  obtain ⟨rq', f', k', hp', -⟩ := refs_exact h'
  exact ⟨⟨by decide, rq, f, k, hp, hc⟩, by decide +kernel, by decide +kernel, rq', f', k', hp'⟩

end Paravirt

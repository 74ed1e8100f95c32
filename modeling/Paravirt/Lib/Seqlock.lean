import Mathlib.Logic.Function.Basic
import Mathlib.Logic.Function.Iterate
import Paravirt.Lib.Steps

/-!
# Reading under a version counter

One writer and one reader share the cells `ι → α` and a counter.  The writer increments the counter
before and after it changes cells, so the counter is odd while it does.  The reader takes the
counter, copies the cells one by one, and tries again when the counter it then sees is odd or not
the one it took.  Every access is a step of its own, and the steps interleave.

The word that the two share is the counter modulo `M`; `log e` is a ghost, the cells as they stood
at the even count `e`.

* `Step`           one access of the writer or of the reader;
* `Inv`            what the reader knows at each of its points;
* `snapshot`       a copy that is accepted is one of the log: all its cells are of one count, and of
                   one not older than the call.
-/

set_option linter.unusedSectionVars false

namespace Seqlock

variable {ι α : Type*} [DecidableEq ι]

/-- where the reader stands; `fetch` has the cells still to be copied -/
inductive Pc (ι : Type*) where
  | start
  | fetch (rest : List ι)
  | compare (odd : Bool)
  | done

structure State (ι α : Type*) where
  cells : ι → α
  count : Nat
  log : Nat → ι → α
  pc : Pc ι
  version : Nat
  copy : ι → α
  /-- the count that `version` was read from -/
  began : Nat

inductive Access (ι α : Type*) where
  | bump
  | store (i : ι) (v : α)
  | read

/-- the reader's next access; `done` has none -/
def State.read (M : Nat) (fields : List ι) (s : State ι α) : State ι α :=
  match s.pc with
  | .start => { s with pc := .fetch fields, version := s.count % M, began := s.count }
  | .fetch (i :: rest) => { s with pc := .fetch rest, copy := Function.update s.copy i (s.cells i) }
  | .fetch [] => { s with pc := .compare (s.count % M % 2 = 1) }
  | .compare odd => { s with pc := if odd = true ∨ s.version ≠ s.count % M then .start else .done }
  | .done => s

/-- the counter goes up; at an even count the cells are logged -/
def State.bump (s : State ι α) : State ι α :=
  { s with
    count := s.count + 1
    log := if s.count % 2 = 1 then Function.update s.log (s.count + 1) s.cells else s.log }

inductive Step (M : Nat) (fields : List ι) : State ι α → Access ι α → State ι α → Prop where
  | bump (s : State ι α) : Step M fields s .bump s.bump
  | store (s : State ι α) (i : ι) (v : α) (h : s.count % 2 = 1) :
      Step M fields s (.store i v) { s with cells := Function.update s.cells i v }
  | read (s : State ι α) : Step M fields s .read (s.read M fields)

/-- a cell that is copied already, at this point -/
def Pc.Copied (fields : List ι) (i : ι) : Pc ι → Prop
  | .start => False
  | .fetch rest => i ∈ fields ∧ i ∉ rest
  | .compare _ => i ∈ fields
  | .done => i ∈ fields

variable {M : Nat} {fields : List ι} {s s' : State ι α} {a : Access ι α} {first : Nat}

/-- what holds from the count `first` on -/
structure Inv (M first : Nat) (fields : List ι) (s : State ι α) : Prop where
  first_le : first ≤ s.count
  log : s.count % 2 = 0 → s.log s.count = s.cells
  began : s.pc ≠ .start → first ≤ s.began ∧ s.began ≤ s.count ∧ s.version = s.began % M
  /-- as long as the count stands still, the copy is right -/
  copied : s.began = s.count → s.count % 2 = 0 → ∀ i, s.pc.Copied fields i → s.copy i = s.cells i
  suffix : ∀ rest, s.pc = .fetch rest → rest <:+ fields
  /-- an even count seen once is the count taken, or a later one -/
  compare : s.pc = .compare false → s.began % 2 = 0 ∨ s.began < s.count
  done : s.pc = .done → s.began % 2 = 0 ∧ ∀ i ∈ fields, s.copy i = s.log s.began i

namespace Inv

theorem bump (h : Inv M first fields s) : Inv M first fields s.bump where
  first_le := Nat.le_succ_of_le h.first_le
  log := by
    intro hev
    change (s.count + 1) % 2 = 0 at hev
    show (if s.count % 2 = 1 then _ else s.log) (s.count + 1) = s.cells
    rw [if_pos (by omega)]
    exact Function.update_self ..
  began := by
    intro hp
    obtain ⟨h1, h2, h3⟩ := h.began hp
    exact ⟨h1, Nat.le_succ_of_le h2, h3⟩
  copied := by
    intro hb hev i hi
    change s.began = s.count + 1 at hb
    by_cases hs : s.pc = .start
    · change s.pc.Copied fields i at hi
      rw [hs] at hi
      exact hi.elim
    · have := (h.began hs).2.1
      omega
  suffix := h.suffix
  compare := by
    intro hp
    rcases h.compare hp with h1 | h1
    · exact .inl h1
    · exact .inr (Nat.lt_succ_of_lt h1)
  done := by
    intro hp
    obtain ⟨h1, h2⟩ := h.done hp
    have hle := (h.began (by rw [show s.pc = _ from hp]; simp)).2.1
    refine ⟨h1, fun i hi => ?_⟩
    show s.copy i = (if s.count % 2 = 1 then Function.update s.log (s.count + 1) s.cells else s.log)
      s.began i
    rw [h2 i hi]
    split
    · rw [Function.update_of_ne (by omega)]
    · rfl

theorem store (h : Inv M first fields s) (i : ι) (v : α) (hodd : s.count % 2 = 1) :
    Inv M first fields { s with cells := Function.update s.cells i v } where
  first_le := h.first_le
  log := fun hev => by
    change s.count % 2 = 0 at hev
    omega
  began := h.began
  copied := fun _ hev => by
    change s.count % 2 = 0 at hev
    omega
  suffix := h.suffix
  compare := h.compare
  done := h.done

theorem read (h : Inv M first fields s) (hM : M % 2 = 0) (hwrap : s.count < first + M) :
    Inv M first fields (s.read M fields) := by
  have hpar (n : Nat) : n % M % 2 = n % 2 := Nat.mod_mod_of_dvd n (Nat.dvd_of_mod_eq_zero hM)
  unfold State.read
  split
  · -- the counter is taken
    exact ⟨h.first_le, h.log, fun _ => ⟨h.first_le, Nat.le_refl _, rfl⟩,
      fun _ _ i hi => absurd hi.1 hi.2, fun rest hr => by
        have he : fields = rest := Pc.fetch.inj hr
        exact he ▸ List.suffix_refl _, (fun hp => by cases hp), (fun hp => by cases hp)⟩
  · rename_i i rest hpc
    have hpc' : s.pc ≠ .start := by simp [hpc]
    refine ⟨h.first_le, h.log, fun _ => h.began hpc', fun hb hev j hj => ?_, fun r hr => ?_,
      (fun hp => by cases hp), (fun hp => by cases hp)⟩
    · by_cases hji : j = i
      · rw [hji]
        exact Function.update_self ..
      · show Function.update s.copy i (s.cells i) j = s.cells j
        rw [Function.update_of_ne hji]
        apply h.copied hb hev
        rw [hpc]
        obtain ⟨h1, h2⟩ := hj
        refine ⟨h1, fun hc => ?_⟩
        rcases List.mem_cons.mp hc with hc | hc
        · exact hji hc
        · exact h2 hc
    · injection hr with hr
      rw [← hr]
      exact (List.suffix_cons i rest).trans (h.suffix _ hpc)
  · -- the parity is looked at
    rename_i hpc
    have hpc' : s.pc ≠ .start := by simp [hpc]
    obtain ⟨h1, h2, h3⟩ := h.began hpc'
    refine ⟨h.first_le, h.log, fun _ => h.began hpc', fun hb hev j hj => ?_,
      (fun r hr => by cases hr), fun hp => ?_, (fun hp => by cases hp)⟩
    · apply h.copied hb hev
      rw [hpc]
      exact ⟨hj, List.not_mem_nil⟩
    · injection hp with hp
      rw [hpar] at hp
      simp only [decide_eq_false_iff_not] at hp
      rcases Nat.lt_or_ge s.began s.count with hlt | hge
      · exact .inr hlt
      · left
        show s.began % 2 = 0
        have heq : s.began = s.count := by omega
        rw [heq]
        omega
  · -- the word is compared
    rename_i odd hpc
    have hpc' : s.pc ≠ .start := by simp [hpc]
    obtain ⟨h1, h2, h3⟩ := h.began hpc'
    split
    · exact ⟨h.first_le, h.log, fun hp => absurd rfl hp, fun _ _ j hj => hj.elim,
        (fun r hr => by cases hr), (fun hp => by cases hp), (fun hp => by cases hp)⟩
    · rename_i hok
      rw [not_or, not_not] at hok
      obtain ⟨hodd, hver⟩ := hok
      have hoddf : odd = false := by
        cases odd with
        | false => rfl
        | true => exact absurd rfl hodd
      -- the counter has not moved, for it cannot have gone round
      have heq : s.began = s.count := by
        rw [h3] at hver
        have hlt : s.count - s.began < M := by omega
        have hsub : (s.count - s.began) % M = 0 := Nat.sub_mod_eq_zero_of_mod_eq hver.symm
        rw [Nat.mod_eq_of_lt hlt] at hsub
        omega
      have hev : s.began % 2 = 0 := by
        rcases h.compare (by rw [hpc, hoddf]) with hc | hc
        · exact hc
        · omega
      have hcopy := h.copied heq (by rw [← heq]; exact hev)
      rw [hpc] at hcopy
      refine ⟨h.first_le, h.log, fun _ => ⟨h1, h2, h3⟩, fun _ _ j hj => hcopy j hj,
        (fun r hr => by cases hr), (fun hp => by cases hp), fun _ => ⟨hev, fun i hi => ?_⟩⟩
      show s.copy i = s.log s.began i
      rw [hcopy i hi, heq, h.log (by rw [← heq]; exact hev)]
  · exact h

end Inv

/-- a state before a call -/
theorem Inv.start (hpc : s.pc = .start) (hlog : s.count % 2 = 0 → s.log s.count = s.cells) :
    Inv M s.count fields s := by
  refine ⟨Nat.le_refl _, hlog, fun hp => absurd hpc hp, fun _ _ i hi => ?_, ?_, ?_, ?_⟩
  · rw [hpc] at hi
    exact hi.elim
  · intro rest hr
    rw [hpc] at hr
    cases hr
  · intro hp
    rw [hpc] at hp
    cases hp
  · intro hp
    rw [hpc] at hp
    cases hp

theorem count_mono (h : Step M fields s a s') : s.count ≤ s'.count := by
  cases h with
  | bump => exact Nat.le_succ _
  | store => exact Nat.le_refl _
  | read =>
    unfold State.read
    split <;> exact Nat.le_refl _

theorem run_inv {as : List (Access ι α)} (hrun : Steps (Step M fields) s as s') (hM : M % 2 = 0)
    (h : Inv M first fields s) (hwrap : s'.count < first + M) : Inv M first fields s' := by
  induction hrun with
  | nil => exact h
  | snoc hr hstep ih =>
    have hle := count_mono hstep
    have ih := ih (by omega)
    cases hstep with
    | bump => exact ih.bump
    | store i v hodd => exact ih.store i v hodd
    | read => exact ih.read hM (by omega)

/-- Whatever the writer does meanwhile, a copy that is accepted has all its cells from one even
count, not older than the call, provided the counter does not go round. -/
theorem snapshot {as : List (Access ι α)} (hrun : Steps (Step M fields) s as s') (hM : M % 2 = 0)
    (hpc : s.pc = .start) (hlog : s.count % 2 = 0 → s.log s.count = s.cells)
    (hwrap : s'.count < s.count + M) (hdone : s'.pc = .done) :
    ∃ e, s.count ≤ e ∧ e ≤ s'.count ∧ e % 2 = 0 ∧ s'.version = e % M ∧
      ∀ i ∈ fields, s'.copy i = s'.log e i := by
  have h := run_inv hrun hM (.start hpc hlog) hwrap
  obtain ⟨h1, h2, h3⟩ := h.began (by simp [hdone])
  obtain ⟨h4, h5⟩ := h.done hdone
  exact ⟨s'.began, h1, h2, h4, h3, h5⟩

/-- the reader alone -/
theorem steps_reads {as : List (Access ι α)} (h : Steps (Step M fields) s as s') (n : Nat) :
    ∃ as', Steps (Step M fields) s as' ((State.read M fields)^[n] s') := by
  induction n with
  | zero => exact ⟨as, h⟩
  | succ n ih =>
    obtain ⟨as', h'⟩ := ih
    rw [Function.iterate_succ_apply']
    exact ⟨as' ++ [.read], .snoc h' (.read _)⟩

end Seqlock

import Mathlib.Data.List.Basic
import Mathlib.Data.List.Pairwise
import Mathlib.Algebra.BigOperators.Group.List.Basic
import Mathlib.Algebra.Order.Ring.Nat

/-!
# Lists of extents

An extent is a run of consecutive numbers.  A list of extents is `Spaced` when the extents stand in
increasing order, none is empty and no two touch: every set of numbers has at most one such list.

* `Covered l b`             the number `b` lies in an extent of `l`;
* `Spaced.eq_of_covered`    two spaced lists of the same numbers are equal;
* `Spaced.exists_extent`    consecutive numbers lie in one extent;
* `Spaced.cut`, `covered_cut`       a piece is taken out of an extent;
* `spaced_insert`, `covered_mid`    an extent is put between two lists;
* `Joined`                  an extent is put in and joined to those it touches.
-/

structure Extent where
  start : Nat
  len : Nat
deriving DecidableEq, Repr

namespace Extent

def stop (x : Extent) : Nat := x.start + x.len

def Has (x : Extent) (b : Nat) : Prop := x.start ≤ b ∧ b < x.stop

instance (x : Extent) (b : Nat) : Decidable (x.Has b) := inferInstanceAs (Decidable (_ ∧ _))

/-- no number in both -/
def Apart (x y : Extent) : Prop := x.stop ≤ y.start ∨ y.stop ≤ x.start

theorem Apart.symm {x y : Extent} (h : x.Apart y) : y.Apart x := Or.symm h

theorem Has.apart {x y : Extent} {b : Nat} (hx : x.Has b) (hy : y.Has b) : ¬ x.Apart y := by
  intro h
  obtain ⟨h1, h2⟩ := hx
  obtain ⟨h3, h4⟩ := hy
  rcases h with h | h <;> omega

theorem apart_iff {x y : Extent} (hx : 0 < x.len) (hy : 0 < y.len) :
    x.Apart y ↔ ∀ b, x.Has b → ¬ y.Has b := by
  constructor
  · intro h b hb hb'
    exact hb.apart hb' h
  · intro h
    by_contra hc
    simp only [Apart, stop] at hc
    have hx' : x.Has (max x.start y.start) := ⟨by omega, by unfold stop; omega⟩
    exact h _ hx' ⟨by omega, by unfold stop; omega⟩

theorem has_start {x : Extent} (h : 0 < x.len) : x.Has x.start := ⟨Nat.le_refl _, by unfold stop; omega⟩

end Extent

namespace Extents

open Extent

def Covered (l : List Extent) (b : Nat) : Prop := ∃ x ∈ l, x.Has b

instance (l : List Extent) (b : Nat) : Decidable (Covered l b) :=
  inferInstanceAs (Decidable (∃ x ∈ l, x.Has b))

def Spaced (l : List Extent) : Prop :=
  l.Pairwise (fun x y => x.stop < y.start) ∧ ∀ x ∈ l, 0 < x.len

instance (l : List Extent) : Decidable (Spaced l) := inferInstanceAs (Decidable (_ ∧ _))

/-- how many numbers -/
def total (l : List Extent) : Nat := (l.map Extent.len).sum

variable {l l' p q : List Extent} {x y : Extent} {a b n : Nat}

/-! ## coverage -/

@[simp] theorem not_covered_nil : ¬ Covered [] b := by simp [Covered]

@[simp] theorem covered_cons : Covered (x :: l) b ↔ x.Has b ∨ Covered l b := by simp [Covered]

@[simp] theorem covered_append : Covered (p ++ q) b ↔ Covered p b ∨ Covered q b := by
  simp only [Covered, List.mem_append]
  constructor
  · rintro ⟨y, hy | hy, h⟩
    · exact .inl ⟨y, hy, h⟩
    · exact .inr ⟨y, hy, h⟩
  · rintro (⟨y, hy, h⟩ | ⟨y, hy, h⟩)
    · exact ⟨y, .inl hy, h⟩
    · exact ⟨y, .inr hy, h⟩

theorem covered_mid : Covered (p ++ x :: q) b ↔ x.Has b ∨ Covered (p ++ q) b := by
  simp only [covered_append, covered_cons]
  tauto

@[simp] theorem total_nil : total [] = 0 := rfl

@[simp] theorem total_cons : total (x :: l) = x.len + total l := by simp [total]

@[simp] theorem total_append : total (p ++ q) = total p + total q := by simp [total]

theorem len_le_total (h : x ∈ l) : x.len ≤ total l := by
  induction l with
  | nil => exact absurd h (List.not_mem_nil)
  | cons y l ih =>
    rw [total_cons]
    rcases List.mem_cons.mp h with rfl | h
    · omega
    · have := ih h
      omega

/-! ## spaced lists -/

@[simp] theorem spaced_nil : Spaced [] := ⟨.nil, by simp⟩

theorem spaced_cons : Spaced (x :: l) ↔ 0 < x.len ∧ (∀ y ∈ l, x.stop < y.start) ∧ Spaced l := by
  simp only [Spaced, List.pairwise_cons, List.forall_mem_cons]
  tauto

theorem spaced_append :
    Spaced (p ++ q) ↔ Spaced p ∧ Spaced q ∧ ∀ y ∈ p, ∀ z ∈ q, y.stop < z.start := by
  simp only [Spaced, List.pairwise_append, List.forall_mem_append]
  tauto

/-- an extent between two lists -/
theorem spaced_insert : Spaced (p ++ x :: q) ↔ Spaced p ∧ Spaced q ∧ 0 < x.len ∧
    (∀ y ∈ p, y.stop < x.start) ∧ ∀ z ∈ q, x.stop < z.start := by
  rw [spaced_append, spaced_cons]
  constructor
  · rintro ⟨hp, ⟨hx, hxq, hq⟩, h⟩
    exact ⟨hp, hq, hx, fun y hy => h y hy x List.mem_cons_self, hxq⟩
  · rintro ⟨hp, hq, hx, hpx, hxq⟩
    refine ⟨hp, ⟨hx, hxq, hq⟩, fun y hy z hz => ?_⟩
    rcases List.mem_cons.mp hz with rfl | hz
    · exact hpx y hy
    · have h1 := hpx y hy
      have h2 := hxq z hz
      unfold stop at h1 h2 ⊢
      omega

theorem Spaced.start_le (h : Spaced (x :: l)) (hb : Covered (x :: l) b) : x.start ≤ b := by
  obtain ⟨_, hl, _⟩ := spaced_cons.mp h
  rcases covered_cons.mp hb with hb | ⟨y, hy, hb⟩
  · exact hb.1
  · have h1 := hl y hy
    have h2 := hb.1
    unfold stop at h1
    omega

theorem Spaced.not_covered_stop (h : Spaced (x :: l)) : ¬ Covered (x :: l) x.stop := by
  obtain ⟨_, hl, _⟩ := spaced_cons.mp h
  intro hb
  rcases covered_cons.mp hb with hb | ⟨y, hy, hb⟩
  · exact Nat.lt_irrefl _ hb.2
  · exact absurd (hl y hy) (Nat.not_lt.mpr hb.1)

/-- the numbers behind the first extent -/
theorem Spaced.covered_tail (h : Spaced (x :: l)) :
    Covered l b ↔ Covered (x :: l) b ∧ x.stop ≤ b := by
  obtain ⟨_, hl, _⟩ := spaced_cons.mp h
  constructor
  · intro hb
    obtain ⟨y, hy, hyb⟩ := hb
    exact ⟨covered_cons.mpr (.inr ⟨y, hy, hyb⟩), Nat.le_of_lt (Nat.lt_of_lt_of_le (hl y hy) hyb.1)⟩
  · rintro ⟨hb, hs⟩
    rcases covered_cons.mp hb with hb | hb
    · exact absurd hb.2 (Nat.not_lt.mpr hs)
    · exact hb

/-- a spaced list is determined by its numbers -/
theorem Spaced.eq_of_covered (h : Spaced l) (h' : Spaced l')
    (hc : ∀ b, Covered l b ↔ Covered l' b) : l = l' := by
  induction l generalizing l' with
  | nil =>
    cases l' with
    | nil => rfl
    | cons y l' =>
      have hy := has_start (spaced_cons.mp h').1
      exact absurd ((hc _).mpr (covered_cons.mpr (.inl hy))) not_covered_nil
  | cons x l ih =>
    cases l' with
    | nil =>
      have hx := has_start (spaced_cons.mp h).1
      exact absurd ((hc _).mp (covered_cons.mpr (.inl hx))) not_covered_nil
    | cons y l' =>
      have hx := (spaced_cons.mp h).1
      have hy := (spaced_cons.mp h').1
      have hstart : x.start = y.start := by
        apply Nat.le_antisymm
        · exact h.start_le ((hc _).mpr (covered_cons.mpr (.inl (has_start hy))))
        · exact h'.start_le ((hc _).mp (covered_cons.mpr (.inl (has_start hx))))
      have hstop : x.stop = y.stop := by
        -- the end of the shorter one would be a number of the longer
        rcases Nat.lt_trichotomy x.stop y.stop with hlt | heq | hlt
        · refine absurd ((hc x.stop).mpr (covered_cons.mpr (.inl ⟨?_, hlt⟩))) h.not_covered_stop
          unfold stop
          omega
        · exact heq
        · refine absurd ((hc y.stop).mp (covered_cons.mpr (.inl ⟨?_, hlt⟩))) h'.not_covered_stop
          unfold stop
          omega
      have hxy : x = y := by
        cases x
        cases y
        simp only [stop] at hstart hstop
        simp only [Extent.mk.injEq]
        omega
      subst hxy
      congr 1
      apply ih (spaced_cons.mp h).2.2 (spaced_cons.mp h').2.2
      intro b
      rw [h.covered_tail, h'.covered_tail, hc b]

/-- consecutive numbers lie in one extent -/
theorem Spaced.exists_extent (h : Spaced l) (hn : 0 < n)
    (hc : ∀ b, a ≤ b → b < a + n → Covered l b) : ∃ x ∈ l, x.start ≤ a ∧ a + n ≤ x.stop := by
  obtain ⟨x, hx, hax⟩ := hc a (Nat.le_refl _) (by omega)
  refine ⟨x, hx, hax.1, ?_⟩
  -- otherwise the end of the extent would be a number of another
  by_contra hlt
  obtain ⟨y, hy, hsy⟩ := hc x.stop (Nat.le_of_lt hax.2) (by omega)
  obtain ⟨p, q, rfl⟩ := List.append_of_mem hx
  obtain ⟨_, _, _, hpx, hxq⟩ := spaced_insert.mp h
  have h1 := hsy.1
  have h2 := hsy.2
  rcases List.mem_append.mp hy with hy | hy
  · have := hpx y hy
    unfold stop at this h2
    omega
  · rcases List.mem_cons.mp hy with rfl | hy
    · omega
    · have := hxq y hy
      omega

/-! ## taking a piece out of an extent -/

/-- the extent without the `n` numbers from `a` on -/
def cut (x : Extent) (a n : Nat) : List Extent :=
  (if x.start < a then [⟨x.start, a - x.start⟩] else []) ++
    (if a + n < x.stop then [⟨a + n, x.stop - (a + n)⟩] else [])

theorem mem_cut (h : y ∈ cut x a n) (ha : x.start ≤ a) (hn : a + n ≤ x.stop) :
    0 < y.len ∧ x.start ≤ y.start ∧ y.stop ≤ x.stop := by
  simp only [cut, List.mem_append] at h
  rcases h with h | h
  · split at h
    · rw [List.mem_singleton] at h
      subst h
      unfold stop at *
      dsimp only
      omega
    · exact absurd h List.not_mem_nil
  · split at h
    · rw [List.mem_singleton] at h
      subst h
      unfold stop at *
      dsimp only
      omega
    · exact absurd h List.not_mem_nil

theorem covered_cut (ha : x.start ≤ a) (hn : a + n ≤ x.stop) :
    Covered (cut x a n) b ↔ x.Has b ∧ ¬ Extent.Has ⟨a, n⟩ b := by
  unfold cut
  split <;> split <;> simp [Has, stop] at * <;> omega

theorem spaced_cut (ha : x.start ≤ a) (hpos : 0 < n) (hn : a + n ≤ x.stop) :
    Spaced (cut x a n) := by
  unfold cut
  split <;> split <;> simp only [spaced_append, spaced_cons, List.nil_append, List.append_nil,
    List.mem_singleton, List.not_mem_nil, forall_eq, spaced_nil, stop] at * <;>
    simp <;> omega

theorem total_cut (ha : x.start ≤ a) (hn : a + n ≤ x.stop) :
    total (cut x a n) + n = x.len := by
  unfold cut
  split <;> split <;> simp [stop] at * <;> omega

theorem Spaced.cut (h : Spaced (p ++ x :: q)) (ha : x.start ≤ a) (hpos : 0 < n)
    (hn : a + n ≤ x.stop) : Spaced (p ++ cut x a n ++ q) := by
  obtain ⟨hp, hq, _, hpx, hxq⟩ := spaced_insert.mp h
  rw [List.append_assoc, spaced_append, spaced_append]
  refine ⟨hp, ⟨spaced_cut ha hpos hn, hq, fun y hy z hz => ?_⟩, fun y hy z hz => ?_⟩
  · have := (mem_cut hy ha hn).2.2
    have := hxq z hz
    omega
  · rcases List.mem_append.mp hz with hz | hz
    · have := (mem_cut hz ha hn).2.1
      have := hpx y hy
      omega
    · exact (spaced_append.mp h).2.2 y hy z (List.mem_cons_of_mem _ hz)

/-- after the cut the numbers of the piece, and only these, are gone -/
theorem Spaced.covered_cut_mid (h : Spaced (p ++ x :: q)) (ha : x.start ≤ a)
    (hn : a + n ≤ x.stop) :
    Covered (p ++ Extents.cut x a n ++ q) b ↔
      Covered (p ++ x :: q) b ∧ ¬ Extent.Has ⟨a, n⟩ b := by
  have hother : Covered (p ++ q) b → ¬ Extent.Has ⟨a, n⟩ b := by
    rintro ⟨y, hy, hyb⟩ hab
    obtain ⟨_, _, _, hpx, hxq⟩ := spaced_insert.mp h
    simp only [Has, stop] at *
    rcases List.mem_append.mp hy with hy | hy
    · have := hpx y hy
      omega
    · have := hxq y hy
      omega
  rw [covered_mid]
  simp only [covered_append, covered_cut ha hn] at *
  tauto

/-! ## putting an extent in -/

/-- `l'` is `l` with the extent `e`, joined to the extents it touches -/
def Joined (l : List Extent) (e : Extent) (l' : List Extent) : Prop :=
  ∃ p left right q m, l = p ++ left ++ right ++ q ∧ l' = p ++ m :: q ∧
    (left = [] ∧ m.start = e.start ∨ ∃ y, left = [y] ∧ y.stop = e.start ∧ m.start = y.start) ∧
    (right = [] ∧ m.stop = e.stop ∨ ∃ z, right = [z] ∧ z.start = e.stop ∧ m.stop = z.stop) ∧
    (∀ y ∈ p, y.stop < m.start) ∧ ∀ z ∈ q, m.stop < z.start

namespace Joined

variable {e : Extent}

theorem spaced (hj : Joined l e l') (h : Spaced l) (he : 0 < e.len) : Spaced l' := by
  obtain ⟨p, left, right, q, m, rfl, rfl, hleft, hright, hp, hq⟩ := hj
  have hm : 0 < m.len := by
    rcases hleft with ⟨rfl, hl⟩ | ⟨y, rfl, hy, hl⟩ <;>
      rcases hright with ⟨rfl, hr⟩ | ⟨z, rfl, hz, hr⟩ <;> unfold stop at * <;> omega
  rw [spaced_insert]
  rw [spaced_append, spaced_append, spaced_append] at h
  exact ⟨h.1.1.1, h.2.1, hm, hp, hq⟩

theorem covered (hj : Joined l e l') : Covered l' b ↔ Covered l b ∨ e.Has b := by
  obtain ⟨p, left, right, q, m, rfl, rfl, hleft, hright, -, -⟩ := hj
  have hm : m.Has b ↔ Covered left b ∨ e.Has b ∨ Covered right b := by
    rcases hleft with ⟨rfl, hl⟩ | ⟨y, rfl, hy, hl⟩ <;>
      rcases hright with ⟨rfl, hr⟩ | ⟨z, rfl, hz, hr⟩ <;>
      simp only [covered_cons, not_covered_nil, or_false, false_or, Has] at * <;>
      unfold stop at * <;> omega
  rw [covered_mid, hm]
  simp only [covered_append]
  tauto

theorem total (hj : Joined l e l') : Extents.total l' = Extents.total l + e.len := by
  obtain ⟨p, left, right, q, m, rfl, rfl, hleft, hright, -, -⟩ := hj
  have hm : m.len = Extents.total left + e.len + Extents.total right := by
    rcases hleft with ⟨rfl, hl⟩ | ⟨y, rfl, hy, hl⟩ <;>
      rcases hright with ⟨rfl, hr⟩ | ⟨z, rfl, hz, hr⟩ <;>
      simp only [total_cons, total_nil] <;> unfold stop at * <;> omega
  simp only [total_append, total_cons]
  omega

/-- the ends of an extent of the new list are ends of `e` or of extents of the old one -/
theorem ends (hj : Joined l e l') (hx : x ∈ l') :
    (x.start = e.start ∨ ∃ y ∈ l, x.start = y.start) ∧
      (x.stop = e.stop ∨ ∃ y ∈ l, x.stop = y.stop) := by
  obtain ⟨p, left, right, q, m, rfl, rfl, hleft, hright, -, -⟩ := hj
  have hold : x ∈ p ++ q → ∃ y ∈ p ++ left ++ right ++ q, x = y := by
    intro h
    refine ⟨x, ?_, rfl⟩
    simp only [List.mem_append] at h ⊢
    tauto
  by_cases hxm : x = m
  · subst hxm
    constructor
    · rcases hleft with ⟨-, hl⟩ | ⟨y, rfl, -, hl⟩
      · exact .inl hl
      · exact .inr ⟨y, by simp, hl⟩
    · rcases hright with ⟨-, hr⟩ | ⟨z, rfl, -, hr⟩
      · exact .inl hr
      · exact .inr ⟨z, by simp, hr⟩
  · have hpq : x ∈ p ++ q := by
      simp only [List.mem_append, List.mem_cons] at hx ⊢
      tauto
    obtain ⟨y, hy, rfl⟩ := hold hpq
    exact ⟨.inr ⟨x, hy, rfl⟩, .inr ⟨x, hy, rfl⟩⟩

end Joined

end Extents

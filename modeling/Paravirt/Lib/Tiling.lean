import Mathlib.Data.List.Perm.Basic
import Mathlib.Data.List.Perm.Subperm
import Mathlib.Data.List.Nodup
import Mathlib.Data.List.Range
import Mathlib.Data.List.Flatten
import Mathlib.Tactic.Ring

/-!
# Tilings by power-of-two blocks

A block `(a, k)` of unit `u` stands for the `2^k` cells `a, a + u, …, a + u*(2^k - 1)`.

* `cells u b`       the cells of a block;
* `Tiles u bs base` the blocks `bs` together have exactly the cells of the blocks `base`, each as
                    often: a permutation of the two cell lists;
* `Tiles.split`, `Tiles.merge`   a block is cut in halves, two neighbours are joined;
* `Tiles.pairwise_disjoint`, `Tiles.mem_iff`   over a base without repetition a tiling is a
                    partition in the usual sense;
* `Tiles.order_le`  over one base block no block is larger than the base.

Nothing asks for alignment: two neighbours of equal order may be joined wherever they lie.
-/

namespace Tiling

/-- a block: its first cell and its order -/
abbrev Block := Nat × Nat

def cells (u : Nat) (b : Block) : List Nat := (List.range (2^b.2)).map fun j => b.1 + u*j

def allCells (u : Nat) (bs : List Block) : List Nat := bs.flatMap (cells u)

def Tiles (u : Nat) (bs base : List Block) : Prop := (allCells u bs).Perm (allCells u base)

/-! ## the cells of a block -/

theorem length_cells (u : Nat) (b : Block) : (cells u b).length = 2^b.2 := by
  simp [cells]

theorem mem_cells {u : Nat} {b : Block} {x : Nat} :
    x ∈ cells u b ↔ ∃ j, j < 2^b.2 ∧ b.1 + u*j = x := by
  simp [cells]

theorem fst_mem_cells (u : Nat) (b : Block) : b.1 ∈ cells u b :=
  mem_cells.mpr ⟨0, Nat.two_pow_pos _, by rw [Nat.mul_zero, Nat.add_zero]⟩

/-- the two halves of a block -/
theorem cells_succ (u a k : Nat) :
    cells u (a, k+1) = cells u (a, k) ++ cells u (a + u * 2^k, k) := by
  have h : (2:Nat)^(k+1) = 2^k + 2^k := by ring
  simp only [cells]
  rw [h, List.range_add, List.map_append, List.map_map]
  congr 1
  apply List.map_congr_left
  intro j _
  show a + u * (2^k + j) = a + u * 2^k + u * j
  ring

theorem nodup_cells {u : Nat} (hu : 0 < u) (b : Block) : (cells u b).Nodup := by
  apply List.Nodup.map _ List.nodup_range
  intro i j hij
  exact Nat.eq_of_mul_eq_mul_left hu (Nat.add_left_cancel hij)

/-! ## lists of blocks -/

theorem allCells_nil (u : Nat) : allCells u [] = [] := rfl
theorem allCells_cons (u : Nat) (b : Block) (bs : List Block) :
    allCells u (b :: bs) = cells u b ++ allCells u bs := rfl
theorem allCells_append (u : Nat) (bs cs : List Block) :
    allCells u (bs ++ cs) = allCells u bs ++ allCells u cs := by
  simp [allCells]

theorem mem_allCells {u : Nat} {bs : List Block} {x : Nat} :
    x ∈ allCells u bs ↔ ∃ b ∈ bs, x ∈ cells u b := List.mem_flatMap

theorem allCells_perm {u : Nat} {bs cs : List Block} (h : bs.Perm cs) :
    (allCells u bs).Perm (allCells u cs) := h.flatMap_right _

namespace Tiles
variable {u : Nat} {bs cs base : List Block}

theorem refl (u : Nat) (bs : List Block) : Tiles u bs bs := List.Perm.refl _

theorem perm (h : Tiles u bs base) (hp : bs.Perm cs) : Tiles u cs base :=
  (allCells_perm hp).symm.trans h

theorem append_right (h : Tiles u bs base) (cs : List Block) : Tiles u (bs ++ cs) (base ++ cs) := by
  show (allCells u (bs ++ cs)).Perm (allCells u (base ++ cs))
  rw [allCells_append, allCells_append]
  exact List.Perm.append_right _ h

theorem append_left (h : Tiles u bs base) (cs : List Block) : Tiles u (cs ++ bs) (cs ++ base) := by
  show (allCells u (cs ++ bs)).Perm (allCells u (cs ++ base))
  rw [allCells_append, allCells_append]
  exact List.Perm.append_left _ h

/-- **a block is cut in halves** -/
theorem split {a k : Nat} (h : Tiles u ((a, k+1) :: bs) base) :
    Tiles u ((a, k) :: (a + u * 2^k, k) :: bs) base := by
  unfold Tiles at h ⊢
  rw [allCells_cons, cells_succ, List.append_assoc] at h
  exact h

/-- **two neighbours of equal order are joined** -/
theorem merge {a k : Nat} (h : Tiles u ((a, k) :: (a + u * 2^k, k) :: bs) base) :
    Tiles u ((a, k+1) :: bs) base := by
  unfold Tiles at h ⊢
  rw [allCells_cons, cells_succ, List.append_assoc]
  exact h

theorem nodup (h : Tiles u bs base) (hb : (allCells u base).Nodup) : (allCells u bs).Nodup :=
  h.nodup_iff.mpr hb

theorem mem_iff (h : Tiles u bs base) {x : Nat} :
    (∃ b ∈ bs, x ∈ cells u b) ↔ ∃ b ∈ base, x ∈ cells u b := by
  rw [← mem_allCells, ← mem_allCells]
  exact List.Perm.mem_iff h

theorem pairwise_disjoint (h : Tiles u bs base) (hb : (allCells u base).Nodup) :
    bs.Pairwise fun b c => (cells u b).Disjoint (cells u c) :=
  (List.nodup_flatMap.mp (h.nodup hb)).2

/-- a block of a tiling is no larger than the whole base -/
theorem length_le (h : Tiles u bs base) {b : Block} (hb : b ∈ bs) :
    2^b.2 ≤ (allCells u base).length := by
  have h1 : (cells u b).length ≤ (allCells u bs).length :=
    (List.sublist_flatten_of_mem (List.mem_map_of_mem hb)).length_le
  rw [length_cells] at h1
  exact h1.trans h.length_eq.le

theorem order_le {base : Block} (h : Tiles u bs [base]) {b : Block} (hb : b ∈ bs) :
    b.2 ≤ base.2 := by
  have h1 := h.length_le hb
  rw [allCells_cons, allCells_nil, List.append_nil, length_cells] at h1
  exact (Nat.pow_le_pow_iff_right Nat.one_lt_two).mp h1

end Tiles

theorem nodup_single {u : Nat} (hu : 0 < u) (b : Block) : (allCells u [b]).Nodup := by
  rw [allCells_cons, allCells_nil, List.append_nil]
  exact nodup_cells hu b

/-! ## blocks kept in lists indexed by their order -/

/-- the blocks of the lists `L 0, …, L n` -/
def byOrder (L : Nat → List Nat) (n : Nat) : List Block :=
  (List.range (n+1)).flatMap fun k => (L k).map fun a => (a, k)

theorem mem_byOrder {L : Nat → List Nat} {n : Nat} {b : Block} :
    b ∈ byOrder L n ↔ b.2 ≤ n ∧ b.1 ∈ L b.2 := by
  obtain ⟨a, k⟩ := b
  simp only [byOrder, List.mem_flatMap, List.mem_range, List.mem_map, Prod.mk.injEq]
  constructor
  · rintro ⟨i, hi, x, hx, rfl, rfl⟩
    exact ⟨Nat.lt_succ_iff.mp hi, hx⟩
  · rintro ⟨hk, ha⟩
    exact ⟨k, Nat.lt_succ_iff.mpr hk, a, ha, rfl, rfl⟩

/-- a block is added to one list -/
theorem byOrder_update_cons (L : Nat → List Nat) {n k : Nat} (hk : k ≤ n) (a : Nat) (l : List Nat)
    (hl : (L k).Perm l) :
    (byOrder (Function.update L k (a :: l)) n).Perm ((a, k) :: byOrder L n) := by
  have hsplit : List.range (n+1) = List.range k ++ k :: List.map (k + 1 + ·) (List.range (n - k)) := by
    have h1 : n + 1 = k + (1 + (n - k)) := by omega
    rw [h1, List.range_add, Nat.add_comm 1, List.range_succ_eq_map]
    simp [Function.comp_def, Nat.add_assoc, Nat.add_comm 1]
  have hlo : ∀ i ∈ List.range k, (Function.update L k (a :: l)) i = L i := by
    intro i hi
    exact Function.update_of_ne (Nat.ne_of_lt (List.mem_range.mp hi)) _ _
  have hhi : ∀ i ∈ List.map (k + 1 + ·) (List.range (n - k)),
      (Function.update L k (a :: l)) i = L i := by
    intro i hi
    obtain ⟨j, _, rfl⟩ := List.mem_map.mp hi
    exact Function.update_of_ne (by omega) _ _
  unfold byOrder
  rw [hsplit, List.flatMap_append, List.flatMap_cons, List.flatMap_append, List.flatMap_cons,
    List.flatMap_congr (fun i hi => by rw [hlo i hi]),
    List.flatMap_congr (l := List.map (k + 1 + ·) (List.range (n - k)))
      (fun i hi => by rw [hhi i hi]), Function.update_self, List.map_cons, List.cons_append]
  refine List.perm_middle.trans (List.Perm.cons _ (List.Perm.append_left _ ?_))
  exact List.Perm.append_right _ (hl.symm.map _)

/-- a block is taken from one list -/
theorem byOrder_update_erase (L : Nat → List Nat) {n k : Nat} (hk : k ≤ n) {a : Nat} {l : List Nat}
    (hl : (L k).Perm (a :: l)) :
    (byOrder L n).Perm ((a, k) :: byOrder (Function.update L k l) n) := by
  have h := byOrder_update_cons (Function.update L k l) hk a l
    (by rw [Function.update_self])
  rw [Function.update_idem] at h
  refine List.Perm.trans ?_ h
  unfold byOrder
  refine List.Perm.flatMap_left _ (fun i _ => List.Perm.map _ ?_)
  by_cases e : i = k
  · subst e; rw [Function.update_self]; exact hl
  · rw [Function.update_of_ne e]

end Tiling

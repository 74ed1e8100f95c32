import Paravirt.Lib.Tiling
import Mathlib.Data.Nat.ModEq

/-!
# Tilings by blocks on a grid

The blocks of unit `u` that come from halving one block at `F` again and again: a block of order `k`
starts a multiple of `u * 2^k` behind `F`.

* `OnGrid u F b`        `b` is one of them;
* `Halves u F k a c`    `a` and `c` are the lower and the upper half of a block of order `k + 1`;
* `gridAt u F p k`      the block of order `k` that holds the cell `p`;
* `Tiles.eq_base`       a tiling by blocks on the grid, no two of which are halves of one block, is
                        the base block alone.
-/

set_option linter.unusedSectionVars false
set_option linter.unusedVariables false

namespace Tiling

def OnGrid (u F : Nat) (b : Block) : Prop := ∃ m, b.1 = F + u * (2^b.2 * m)

def Halves (u F k a c : Nat) : Prop := (∃ m, a = F + u * (2^(k+1) * m)) ∧ c = a + u * 2^k

/-- the two halves of one block, in either order -/
def Buddies (u F k a c : Nat) : Prop := Halves u F k a c ∨ Halves u F k c a

def gridAt (u F p k : Nat) : Nat := F + u * (2^k * ((p - F) / (u * 2^k)))

variable {u F k a c : Nat}

theorem OnGrid.lower (h : OnGrid u F (a, k+1)) : OnGrid u F (a, k) := by
  obtain ⟨m, hm⟩ := h
  exact ⟨2 * m, by rw [hm]; ring⟩

theorem OnGrid.upper (h : OnGrid u F (a, k+1)) : OnGrid u F (a + u * 2^k, k) := by
  obtain ⟨m, hm⟩ := h
  refine ⟨2 * m + 1, ?_⟩
  have hm : a = F + u * (2^(k+1) * m) := hm
  show a + u * 2^k = _
  rw [hm]
  ring

theorem Halves.onGrid (h : Halves u F k a c) : OnGrid u F (a, k+1) := h.1

/-- an upper half is no lower half -/
theorem OnGrid.upper_not_lower (hu : 0 < u) (h : OnGrid u F (a, k+1)) (c : Nat) :
    ¬ Halves u F k (a + u * 2^k) c := by
  rintro ⟨⟨m', hm'⟩, -⟩
  obtain ⟨m, hm⟩ := h
  have hm : a = F + u * (2^(k+1) * m) := hm
  have hpos : 0 < u * 2^k := Nat.mul_pos hu (Nat.two_pow_pos k)
  have e : u * 2^k * (2 * m + 1) = u * 2^k * (2 * m') := by
    have h1 : u * (2^(k+1) * m) + u * 2^k = u * (2^(k+1) * m') := by omega
    have h2 : u * 2^k * (2 * m + 1) = u * (2^(k+1) * m) + u * 2^k := by ring
    have h3 : u * 2^k * (2 * m') = u * (2^(k+1) * m') := by ring
    rw [h2, h3, h1]
  have := Nat.eq_of_mul_eq_mul_left hpos e
  omega

theorem Halves.lower_eq {c' : Nat} (h : Halves u F k a c) (h' : c = c' + u * 2^k) : a = c' := by
  have := h.2
  omega

/-! ## the block that holds a cell -/

theorem OnGrid.gridAt_eq (hu : 0 < u) (h : OnGrid u F (a, k)) : gridAt u F a k = a := by
  obtain ⟨m, hm⟩ := h
  have hm : a = F + u * (2^k * m) := hm
  have hpos : 0 < u * 2^k := Nat.mul_pos hu (Nat.two_pow_pos k)
  have e : (a - F) / (u * 2^k) = m := by
    have h1 : a - F = u * 2^k * m := by
      rw [hm, Nat.add_sub_cancel_left]
      ring
    rw [h1, Nat.mul_div_cancel_left m hpos]
  unfold gridAt
  rw [e, ← hm]

theorem gridAt_gridAt (hu : 0 < u) (F p : Nat) {j : Nat} (hj : k ≤ j) :
    gridAt u F (gridAt u F p k) j = gridAt u F p j := by
  obtain ⟨d, rfl⟩ := Nat.exists_eq_add_of_le hj
  have hpos : 0 < u * 2^k := Nat.mul_pos hu (Nat.two_pow_pos k)
  have e : u * 2^(k+d) = u * 2^k * 2^d := by
    rw [Nat.pow_add]
    ring
  have h1 : gridAt u F p k - F = u * 2^k * ((p - F) / (u * 2^k)) := by
    unfold gridAt
    rw [Nat.add_sub_cancel_left]
    ring
  have h2 : (gridAt u F p k - F) / (u * 2^(k+d)) = (p - F) / (u * 2^(k+d)) := by
    rw [h1, e, Nat.mul_div_mul_left _ _ hpos, Nat.div_div_eq_div_mul]
  show F + u * (2^(k+d) * _) = F + u * (2^(k+d) * _)
  rw [h2]

/-- both halves of a block are in it -/
theorem Halves.gridAt_eq (hu : 0 < u) (h : Halves u F k a c) :
    gridAt u F a (k+1) = a ∧ gridAt u F c (k+1) = a := by
  have hg := h.onGrid
  refine ⟨hg.gridAt_eq hu, ?_⟩
  obtain ⟨⟨m, hm⟩, hc⟩ := h
  have hpos : 0 < u * 2^k := Nat.mul_pos hu (Nat.two_pow_pos k)
  have e1 : c - F = u * 2^k * (2 * m + 1) := by
    rw [hc, hm]
    have : F + u * (2^(k+1) * m) + u * 2^k = F + u * 2^k * (2 * m + 1) := by ring
    rw [this, Nat.add_sub_cancel_left]
  have e2 : u * 2^(k+1) = u * 2^k * 2 := by ring
  have e3 : (c - F) / (u * 2^(k+1)) = m := by
    rw [e1, e2, Nat.mul_div_mul_left _ _ hpos]
    omega
  unfold gridAt
  rw [e3, ← hm]

/-! ## a tiling without buddies -/

section
variable {bs : List Block} {K : Nat}

/-- the block of order `k` with index `n` starts in the block of order `k + e` with index `n / 2^e` -/
theorem mem_cells_grid (hu : 0 < u) {n m e : Nat} :
    F + u * (2^k * n) ∈ cells u (F + u * (2^(k+e) * m), k + e) ↔ n / 2^e = m := by
  have hpk : 0 < 2^k := Nat.two_pow_pos k
  rw [mem_cells]
  constructor
  · rintro ⟨j, hj, hje⟩
    simp only at hj hje
    -- in cells of order `k`, the longer block is `2^e` long from `2^e * m` on
    have hidx : 2^k * n = 2^k * (2^e * m) + j := by
      have h1 : u * (2^(k+e) * m + j) = u * (2^k * n) := by
        rw [Nat.mul_add]
        omega
      have h2 := Nat.eq_of_mul_eq_mul_left hu h1
      rw [← h2, Nat.pow_add, Nat.mul_assoc]
    have hj' : j < 2^k * 2^e := by
      rw [← Nat.pow_add]
      exact hj
    have h1 : n < 2^e * m + 2^e := by
      refine Nat.lt_of_mul_lt_mul_left (a := 2^k) ?_
      rw [hidx, Nat.mul_add]
      omega
    have h2 : 2^e * m ≤ n := by
      refine Nat.le_of_mul_le_mul_left ?_ hpk
      omega
    refine (Nat.div_eq_iff (Nat.two_pow_pos e)).mpr ?_
    rw [Nat.mul_comm m]
    omega
  · rintro rfl
    refine ⟨2^k * (n % 2^e), ?_, ?_⟩
    · show _ < 2^(k + e)
      rw [Nat.pow_add 2 k]
      exact Nat.mul_lt_mul_of_pos_left (Nat.mod_lt n (Nat.two_pow_pos e)) hpk
    · show F + u * (2^(k+e) * (n / 2^e)) + u * (2^k * (n % 2^e)) = F + u * (2^k * n)
      have h3 : 2^k * n = 2^(k+e) * (n / 2^e) + 2^k * (n % 2^e) := by
        rw [Nat.pow_add, Nat.mul_assoc, ← Nat.mul_add, Nat.div_add_mod]
      rw [h3]
      ring

/-- the indices of the blocks in the base -/
theorem mem_cells_base (hu : 0 < u) {n e : Nat} :
    F + u * (2^k * n) ∈ cells u (F, k + e) ↔ n < 2^e := by
  have h := mem_cells_grid (F := F) (k := k) hu (n := n) (m := 0) (e := e)
  rw [Nat.mul_zero, Nat.mul_zero, Nat.add_zero] at h
  rw [h]
  exact Nat.div_eq_zero_iff_lt (Nat.two_pow_pos e)

/-- the index of the other half -/
def other (m : Nat) : Nat := if m % 2 = 0 then m + 1 else m - 1

theorem other_lt {m d : Nat} (hm : m < 2^(d+1)) : other m < 2^(d+1) := by
  unfold other
  rw [Nat.pow_succ] at hm ⊢
  split <;> omega

theorem other_div (m : Nat) : other m / 2 = m / 2 := by
  unfold other
  split <;> omega

theorem other_buddies (m : Nat) :
    Buddies u F k (F + u * (2^k * m)) (F + u * (2^k * other m)) := by
  unfold other
  by_cases h : m % 2 = 0
  · rw [if_pos h]
    obtain ⟨q, rfl⟩ : ∃ q, m = 2 * q := ⟨m / 2, by omega⟩
    exact .inl ⟨⟨q, by ring⟩, by ring⟩
  · rw [if_neg h]
    obtain ⟨q, rfl⟩ : ∃ q, m = 2 * q + 1 := ⟨m / 2, by omega⟩
    refine .inr ⟨⟨q, ?_⟩, ?_⟩
    · rw [Nat.add_sub_cancel]
      ring
    · rw [Nat.add_sub_cancel]
      ring

/-- a block of the tiling that holds the start of another one is that one -/
theorem Tiles.eq_of_start_mem (hu : 0 < u) (ht : Tiles u bs [(F, K)]) {b c : Block} (hb : b ∈ bs)
    (hc : c ∈ bs) (h : b.1 ∈ cells u c) : b = c := by
  by_contra hne
  have hpw := ht.pairwise_disjoint (nodup_single hu _)
  have hsym : Std.Symm fun b c : Block => (cells u b).Disjoint (cells u c) :=
    ⟨fun b c h x hc hb => h hb hc⟩
  exact hpw.forall hb hc hne (fst_mem_cells u b) h

/-- a block of the tiling of least order is the whole base: else the block over its other half
would be that half, or would hold both -/
theorem Tiles.least_order (hu : 0 < u) (ht : Tiles u bs [(F, K)])
    (hg : ∀ b ∈ bs, OnGrid u F b)
    (hb : ∀ k a c, (a, k) ∈ bs → (c, k) ∈ bs → ¬ Halves u F k a c)
    (hmem : (a, k) ∈ bs) (hmin : ∀ b ∈ bs, k ≤ b.2) : k = K := by
  have hle : k ≤ K := ht.order_le hmem
  by_contra hne
  obtain ⟨d, rfl⟩ : ∃ d, K = k + (d + 1) := ⟨K - k - 1, by omega⟩
  obtain ⟨m, hm⟩ := hg _ hmem
  have hm : a = F + u * (2^k * m) := hm
  -- the block lies in the base, and so does its other half
  have hmlt : m < 2^(d+1) := by
    have h1 : ∃ b ∈ [(F, k + (d+1))], a ∈ cells u b :=
      ht.mem_iff.mp ⟨_, hmem, fst_mem_cells u (a, k)⟩
    have hc : a ∈ cells u (F, k + (d+1)) := by simpa using h1
    rw [hm] at hc
    exact (mem_cells_base hu).mp hc
  obtain ⟨⟨a', k'⟩, hmem', hin⟩ : ∃ b ∈ bs, F + u * (2^k * other m) ∈ cells u b :=
    ht.mem_iff.mpr ⟨_, List.mem_singleton_self _, (mem_cells_base hu).mpr (other_lt hmlt)⟩
  obtain ⟨e, hke⟩ : ∃ e, k' = k + e := Nat.exists_eq_add_of_le (hmin _ hmem')
  subst hke
  obtain ⟨m', hm'⟩ := hg _ hmem'
  have hm' : a' = F + u * (2^(k+e) * m') := hm'
  rw [hm'] at hin
  have hq : other m / 2^e = m' := (mem_cells_grid hu).mp hin
  cases e with
  | zero =>
    rw [Nat.pow_zero, Nat.div_one] at hq
    have ha' : a' = F + u * (2^k * other m) := by rw [hm', hq]; rfl
    have hbud := other_buddies (u := u) (F := F) (k := k) m
    rw [← hm, ← ha'] at hbud
    exact hbud.elim (hb k a a' hmem hmem') (hb k a' a hmem' hmem)
  | succ e =>
    -- it holds both halves
    have hq' : m / 2^(e+1) = m' := by
      rw [← hq, Nat.pow_succ', ← Nat.div_div_eq_div_mul, ← Nat.div_div_eq_div_mul, other_div]
    have hin' : a ∈ cells u (a', k + (e+1)) := by
      rw [hm, hm']
      exact (mem_cells_grid hu).mpr hq'
    have he := ht.eq_of_start_mem hu hmem hmem' hin'
    have := congrArg Prod.snd he
    simp only at this
    omega

theorem exists_least (bs : List Block) (hne : bs ≠ []) : ∃ b ∈ bs, ∀ c ∈ bs, b.2 ≤ c.2 := by
  induction bs with
  | nil => exact absurd rfl hne
  | cons b bs ih =>
    by_cases h : bs = []
    · subst h
      exact ⟨b, List.mem_cons_self .., by simp⟩
    · obtain ⟨c, hc, hmin⟩ := ih h
      by_cases hle : b.2 ≤ c.2
      · refine ⟨b, List.mem_cons_self .., fun x hx => ?_⟩
        rcases List.mem_cons.mp hx with rfl | hx
        · exact Nat.le_refl _
        · exact hle.trans (hmin x hx)
      · refine ⟨c, List.mem_cons_of_mem _ hc, fun x hx => ?_⟩
        rcases List.mem_cons.mp hx with rfl | hx
        · omega
        · exact hmin x hx

/-- a block without cells there is none -/
theorem allCells_eq_nil (h : (allCells u bs).length = 0) : bs = [] := by
  cases bs with
  | nil => rfl
  | cons b bs =>
    rw [allCells_cons, List.length_append, length_cells] at h
    have := Nat.two_pow_pos b.2
    omega

/-- **a tiling by blocks on the grid, no two of which are halves of one block, is the base alone** -/
theorem Tiles.eq_base (hu : 0 < u) (ht : Tiles u bs [(F, K)]) (hg : ∀ b ∈ bs, OnGrid u F b)
    (hb : ∀ k a c, (a, k) ∈ bs → (c, k) ∈ bs → ¬ Halves u F k a c) : bs = [(F, K)] := by
  have hlen : (allCells u bs).length = 2^K := by
    rw [ht.length_eq, allCells_cons, allCells_nil, List.append_nil, length_cells]
  have hne : bs ≠ [] := by
    rintro rfl
    have h0 : (allCells u []).length = 0 := rfl
    have := Nat.two_pow_pos K
    omega
  obtain ⟨⟨a, k⟩, hmem, hmin⟩ := exists_least bs hne
  obtain rfl := ht.least_order hu hg hb hmem hmin
  obtain ⟨l₁, l₂, rfl⟩ := List.append_of_mem hmem
  rw [allCells_append, allCells_cons, List.length_append, List.length_append, length_cells] at hlen
  have hlen : (allCells u l₁).length + (2^k + (allCells u l₂).length) = 2^k := hlen
  have h1 : l₁ = [] := allCells_eq_nil (u := u) (by omega)
  have h2 : l₂ = [] := allCells_eq_nil (u := u) (by omega)
  subst h1 h2
  -- the first cell of the base is in the block, which starts no earlier
  obtain ⟨m, hm⟩ := hg _ hmem
  have hm : a = F + u * (2^k * m) := hm
  have hF : F ∈ cells u (a, k) := by
    obtain ⟨b, hbm, hc⟩ := ht.mem_iff.mpr ⟨_, List.mem_singleton_self _, fst_mem_cells u (F, k)⟩
    rw [List.nil_append, List.mem_singleton] at hbm
    rw [← hbm]
    exact hc
  obtain ⟨j, -, hj⟩ := mem_cells.mp hF
  simp only at hj
  have ha : a = F := by omega
  rw [ha]
  rfl

end

end Tiling

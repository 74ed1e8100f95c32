import Paravirt.DemandLoad

/-!
# vm_area_zero on any range (kern/vm_area.c)

The count of the bytes done so far stays 0, so that each page is cleared up to its end or up to the
length of the whole range.  Only the last of several pages can come out wrong.

* `ZeroImage`            the bytes of the frames behind a range;
* `vmAreaZeroLoop_mem`   what the loop clears, page by page;
* `Touched.iff`          the image of the range, and the part of the last page past its end;
* `vmAreaZero_iff`       when this is what was asked for.
-/

set_option linter.unusedVariables false

namespace Paravirt

/-- byte `x` is behind an address of the range -/
def ZeroImage (mm : Mm) (pd addr length x : Nat) : Prop :=
  ∃ b, addr ≤ b ∧ b < addr + length ∧ ∃ f, frameAt mm pd b = some f ∧ x = f + pageDiv b

/-- the range lies inside the area -/
def VmArea.HasRange (vma : VmArea) (addr length : Nat) : Prop :=
  vma.startAddress ≤ addr ∧ addr + length ≤ vma.startAddress + vma.size

/-- the bytes of the range are cleared, and no others; a range that is not inside is refused -/
structure ZeroesExactly (mm : Mm) (pd : Nat) (vma : VmArea) (addr length : Nat) : Prop where
  inside : vma.HasRange addr length → (vmAreaZero mm pd vma addr length).2 = true ∧
    ∀ x, (ZeroImage mm pd addr length x → (vmAreaZero mm pd vma addr length).1.mem x = 0) ∧
      (¬ ZeroImage mm pd addr length x →
        (vmAreaZero mm pd vma addr length).1.mem x = mm.mem x)
  outside : ¬ vma.HasRange addr length → vmAreaZero mm pd vma addr length = (mm, false)

/-- the bounds check, in 32-bit sums -/
def VmArea.PassesCheck (vma : VmArea) (addr length : Nat) : Prop :=
  vma.startAddress ≤ addr ∧ u32 (addr + length) ≤ u32 (vma.startAddress + vma.size)

/-- in a range of several pages whose last is present, the bytes of the last page past the end of
the range and below the length of the range are 0 already -/
def RestIsZero (mm : Mm) (pd addr length : Nat) : Prop :=
  pageAddr addr < pageAddr (addr + length - 1) → ∀ f, frameAt mm pd (addr + length - 1) = some f →
    ∀ o, o < length → o < pageSize → ¬ ZeroImage mm pd addr length (f + o) → mm.mem (f + o) = 0

/-! ## the loop -/

/-- the bytes that are cleared in a page from `pgOffset` on -/
def bytesToZero (length pgOffset : Nat) : Nat :=
  if u32 (pgOffset + length) > pageSize then pageSize - pgOffset else length

/-- byte `x` is cleared in the page at `vpf` -/
def TouchedIn (mm : Mm) (pd length vpf pgOffset x : Nat) : Prop :=
  ∃ f, frameAt mm pd vpf = some f ∧ f + pgOffset ≤ x ∧
    x < f + pgOffset + bytesToZero length pgOffset

/-- byte `x` is cleared in one of the pages, the first from `pgOffset` on -/
def Touched (mm : Mm) (pd length : Nat) : List Nat → Nat → Nat → Prop
  | [], _, _ => False
  | vpf :: vpfs, pgOffset, x => TouchedIn mm pd length vpf pgOffset x ∨ Touched mm pd length vpfs 0 x

section
variable {mm : Mm} {pd addr length x : Nat}

theorem touched_zero {l : List Nat} :
    Touched mm pd length l 0 x ↔ ∃ vpf ∈ l, TouchedIn mm pd length vpf 0 x := by
  induction l with
  | nil => exact ⟨False.elim, fun ⟨_, h, _⟩ => absurd h List.not_mem_nil⟩
  | cons vpf l ih =>
    unfold Touched
    rw [ih]
    constructor
    · rintro (h | ⟨v, hv, h⟩)
      · exact ⟨vpf, List.mem_cons_self, h⟩
      · exact ⟨v, List.mem_cons_of_mem _ hv, h⟩
    · rintro ⟨v, hv, h⟩
      rcases List.mem_cons.mp hv with rfl | hv
      · exact .inl h
      · exact .inr ⟨v, hv, h⟩

/-- the entries are not written, so the frames stay the same -/
theorem touched_memset {l : List Nat} (dst n : Nat) : ∀ pgOffset,
    Touched (mm.memset dst 0 n) pd length l pgOffset x ↔ Touched mm pd length l pgOffset x := by
  induction l with
  | nil => exact fun _ => Iff.rfl
  | cons vpf l ih =>
    intro pgOffset
    unfold Touched
    rw [ih]
    rfl

theorem vmAreaZeroLoop_mem (l : List Nat) : ∀ (pgOffset : Nat) (mm : Mm),
    (Touched mm pd length l pgOffset x → (vmAreaZeroLoop pd length l pgOffset mm).mem x = 0) ∧
      (¬ Touched mm pd length l pgOffset x →
        (vmAreaZeroLoop pd length l pgOffset mm).mem x = mm.mem x) := by
  induction l with
  | nil => exact fun _ _ => ⟨False.elim, fun _ => rfl⟩
  | cons vpf l ih =>
    intro pgOffset mm
    unfold vmAreaZeroLoop Touched
    dsimp only
    by_cases h0 : pageAddr (mm.vmmGetMapping pd vpf) = 0
    · -- an absent page
      have hf : frameAt mm pd vpf = none := if_pos h0
      have hno : ¬ TouchedIn mm pd length vpf pgOffset x := by
        rintro ⟨f, hf', -⟩
        rw [hf] at hf'
        exact absurd hf'.symm (Option.some_ne_none f)
      rw [if_neg (not_not.mpr h0)]
      obtain ⟨h1, h2⟩ := ih 0 mm
      exact ⟨fun h => h1 (h.resolve_left hno), fun h => h2 fun h' => h (.inr h')⟩
    · have hf : frameAt mm pd vpf = some (p2v (pageAddr (mm.vmmGetMapping pd vpf))) := if_neg h0
      rw [if_pos h0]
      show (_ → (vmAreaZeroLoop pd length l 0 (mm.memset _ 0 (bytesToZero length pgOffset))).mem x
        = 0) ∧ (_ → (vmAreaZeroLoop pd length l 0
          (mm.memset _ 0 (bytesToZero length pgOffset))).mem x = mm.mem x)
      generalize p2v (pageAddr (mm.vmmGetMapping pd vpf)) = f at hf
      have hin : TouchedIn mm pd length vpf pgOffset x ↔
          f + pgOffset ≤ x ∧ x < f + pgOffset + bytesToZero length pgOffset := by
        constructor
        · rintro ⟨f', hf', h⟩
          rw [hf] at hf'
          cases hf'
          exact h
        · exact fun h => ⟨f, hf, h⟩
      obtain ⟨h1, h2⟩ := ih 0 (mm.memset (f + pgOffset) 0 (bytesToZero length pgOffset))
      rw [touched_memset] at h1 h2
      rw [hin]
      by_cases hc : f + pgOffset ≤ x ∧ x < f + pgOffset + bytesToZero length pgOffset
      · have hset : (mm.memset (f + pgOffset) 0 (bytesToZero length pgOffset)).mem x = 0 := if_pos hc
        refine ⟨fun _ => ?_, fun h => absurd (.inl hc) h⟩
        by_cases ht : Touched mm pd length l 0 x
        · exact h1 ht
        · exact (h2 ht).trans hset
      · have hset : (mm.memset (f + pgOffset) 0 (bytesToZero length pgOffset)).mem x = mm.mem x :=
          if_neg hc
        exact ⟨fun h => h1 (h.resolve_left hc), fun h => (h2 fun h' => h (.inr h')).trans hset⟩

/-! ## the pages of a range -/

theorem numPages_eq (h0 : 0 < length) (hlast : addr + length ≤ 2^32) :
    numPages addr length = (addr + length - 1) / 4096 - addr / 4096 + 1 := by
  have e1 : u32 (addr + length + 2^32 - 1) = addr + length - 1 := by
    unfold u32
    omega
  have e2 : u32 (pageAddr (addr + length - 1) + 2^32 - pageAddr addr)
      = pageAddr (addr + length - 1) - pageAddr addr := by
    rw [pageAddr_of_lt (by omega), pageAddr_of_lt (by omega)]
    unfold u32
    omega
  unfold numPages
  rw [e1, e2, Nat.shiftRight_eq_div_pow, pageAddr_of_lt (by omega), pageAddr_of_lt (by omega)]
  show (_ : Nat) / 4096 + 1 = _
  omega

theorem vmPages_eq_map (h0 : 0 < length) (hlast : addr + length ≤ 2^32) :
    vmPages addr length = (List.range ((addr + length - 1) / 4096 - addr / 4096 + 1)).map
      fun i => 4096 * (addr / 4096 + i) := by
  have hpage : ∀ i, i ≤ (addr + length - 1) / 4096 - addr / 4096 →
      u32 (pageAddr addr + i <<< pageShift) = 4096 * (addr / 4096 + i) := by
    intro i hi
    have hs : i <<< pageShift = i * 4096 := by
      have hshift : 2^pageShift = 4096 := by decide
      rw [Nat.shiftLeft_eq, hshift]
    rw [pageAddr_of_lt (by omega), hs, u32_of_lt (by omega)]
    omega
  unfold vmPages
  rw [numPages_eq h0 hlast]
  exact List.map_congr_left fun i hi => hpage i (Nat.lt_succ_iff.mp (List.mem_range.mp hi))

/-- the first page, and the others from the next page on to the last -/
theorem vmPages_eq_cons (h0 : 0 < length) (hlast : addr + length ≤ 2^32) :
    ∃ l, vmPages addr length = pageAddr addr :: l ∧
      ∀ v, v ∈ l ↔ ∃ q, addr / 4096 < q ∧ q ≤ (addr + length - 1) / 4096 ∧ v = 4096 * q := by
  -- no shift is left when the range is split, or the kernel unfolds the one of `i + 1`
  rw [vmPages_eq_map h0 hlast, List.range_succ_eq_map, List.map_cons, List.map_map]
  refine ⟨_, congrArg (· :: _) ?_, fun v => ?_⟩
  · rw [pageAddr_of_lt (by omega), Nat.mul_comm, Nat.add_zero]
  simp only [List.mem_map, List.mem_range, Function.comp_apply, Nat.succ_eq_add_one]
  constructor
  · rintro ⟨i, hi, rfl⟩
    exact ⟨addr / 4096 + (i + 1), by omega, by omega, rfl⟩
  · rintro ⟨q, h1, h2, rfl⟩
    exact ⟨q - addr / 4096 - 1, by omega, by omega⟩

theorem frameAt_pageAddr (mm : Mm) (pd a : Nat) : frameAt mm pd (pageAddr a) = frameAt mm pd a :=
  (samePage_pageAddr a).frameAt mm pd

theorem frameAt_page {b q : Nat} (hb : b < 2^32) (hq : b / 4096 = q) :
    frameAt mm pd (4096 * q) = frameAt mm pd b := by
  rw [← frameAt_pageAddr mm pd b, pageAddr_of_lt hb, hq, Nat.mul_comm]

/-- the end of the clearing in the first page -/
theorem bytesToZero_first (hfit : pageDiv addr + length < 2^32) :
    pageDiv addr + bytesToZero length (pageDiv addr) = min 4096 (pageDiv addr + length) := by
  have hd : pageDiv addr < 4096 := by
    rw [pageDiv_eq]
    exact Nat.mod_lt _ (by decide)
  unfold bytesToZero
  rw [u32_of_lt hfit]
  unfold pageSize
  split <;> omega

theorem bytesToZero_zero (hl : length < 2^32) : bytesToZero length 0 = min 4096 length := by
  unfold bytesToZero
  rw [Nat.zero_add, u32_of_lt hl]
  unfold pageSize
  split <;> omega

/-- nothing is cleared for the empty range -/
theorem touched_empty (l : List Nat) : ∀ pgOffset, pgOffset < 4096 →
    ¬ Touched mm pd 0 l pgOffset x := by
  induction l with
  | nil => exact fun _ _ => id
  | cons vpf l ih =>
    rintro pgOffset hp (⟨f, -, h1, h2⟩ | h)
    · have hb : bytesToZero 0 pgOffset = 0 := by
        unfold bytesToZero
        rw [Nat.add_zero, u32_of_lt (by omega)]
        exact if_neg (by unfold pageSize; omega)
      omega
    · exact ih 0 (by decide) h

/-- **what is cleared**: the image of the range, and the start of the last page of several -/
theorem Touched.iff (h0 : 0 < length) (hlast : addr + length ≤ 2^32)
    (hfit : pageDiv addr + length < 2^32) :
    Touched mm pd length (vmPages addr length) (pageDiv addr) x ↔
      ZeroImage mm pd addr length x ∨
        (pageAddr addr < pageAddr (addr + length - 1) ∧ ∃ f, frameAt mm pd (addr + length - 1) = some f ∧
          ∃ o, o < length ∧ o < pageSize ∧ x = f + o) := by
  obtain ⟨l, hl, hmem⟩ := vmPages_eq_cons h0 hlast
  have hp : pageSize = 4096 := rfl
  have hb0 := bytesToZero_first hfit
  have hb1 : bytesToZero length 0 = min 4096 length := bytesToZero_zero (by omega)
  have hdiv : pageDiv addr = addr % 4096 := pageDiv_eq addr
  rw [hl]
  unfold Touched
  rw [touched_zero, pageAddr_of_lt (by omega), pageAddr_of_lt (by omega)]
  constructor
  · rintro (⟨f, hf, h1, h2⟩ | ⟨v, hv, f, hf, h1, h2⟩)
    · -- the first page
      refine .inl ⟨addr + (x - f - pageDiv addr), by omega, by omega, f, ?_, ?_⟩
      · rw [← hf, Nat.mul_comm]
        exact (frameAt_page (by omega) (by omega)).symm
      · rw [pageDiv_eq]
        omega
    · obtain ⟨q, hq1, hq2, rfl⟩ := (hmem v).mp hv
      rw [Nat.add_zero] at h1 h2
      by_cases hq : q = (addr + length - 1) / 4096
      · refine .inr ⟨by omega, f, ?_, x - f, by omega, by omega, by omega⟩
        rw [← hf]
        exact (frameAt_page (by omega) hq.symm).symm
      · -- a page in the middle
        refine .inl ⟨4096 * q + (x - f), by omega, by omega, f, ?_, ?_⟩
        · rw [← hf]
          exact (frameAt_page (by omega) (by omega)).symm
        · rw [pageDiv_eq]
          omega
  · rintro (⟨b, h1, h2, f, hf, rfl⟩ | ⟨hlt, f, hf, o, ho, hop, rfl⟩)
    · have hdb := pageDiv_eq b
      have hfb : frameAt mm pd (4096 * (b / 4096)) = some f := by
        rw [← hf]
        exact frameAt_page (by omega) rfl
      by_cases hq : b / 4096 = addr / 4096
      · refine .inl ⟨f, ?_, by omega, by omega⟩
        rw [Nat.mul_comm, ← hq]
        exact hfb
      · refine .inr ⟨4096 * (b / 4096), (hmem _).mpr ⟨b / 4096, by omega, by omega, rfl⟩, f, hfb,
          by omega, by omega⟩
    · refine .inr ⟨4096 * ((addr + length - 1) / 4096),
        (hmem _).mpr ⟨(addr + length - 1) / 4096, by omega, Nat.le_refl _, rfl⟩, f, ?_, ?_, ?_⟩
      · rw [← hf]
        exact frameAt_page (by omega) rfl
      · omega
      · omega

/-! ## the function -/

/-- the condition under which the bytes of the range are cleared and no others -/
def ZeroingIsExact (mm : Mm) (pd : Nat) (vma : VmArea) (addr length : Nat) : Prop :=
  (vma.HasRange addr length → vma.PassesCheck addr length ∧ RestIsZero mm pd addr length) ∧
    (¬ vma.HasRange addr length → ¬ vma.PassesCheck addr length)

section
variable {vma : VmArea}

theorem vmAreaZero_of_passes (mm : Mm) (pd : Nat) (h : vma.PassesCheck addr length) : ∃ r : Mm,
    vmAreaZero mm pd vma addr length = (r, true) ∧
      ∀ x, (Touched mm pd length (vmPages addr length) (pageDiv addr) x → r.mem x = 0) ∧
        (¬ Touched mm pd length (vmPages addr length) (pageDiv addr) x → r.mem x = mm.mem x) := by
  refine ⟨_, if_neg fun hc => ?_, fun x => vmAreaZeroLoop_mem _ _ _⟩
  rcases hc with hc | hc
  · exact absurd h.1 (Nat.not_le.mpr hc)
  · exact absurd h.2 (Nat.not_le.mpr hc)

theorem vmAreaZero_of_not_passes (h : ¬ vma.PassesCheck addr length) :
    vmAreaZero mm pd vma addr length = (mm, false) := by
  refine if_pos ?_
  by_contra hc
  rw [not_or] at hc
  exact h ⟨Nat.not_lt.mp hc.1, Nat.not_lt.mp hc.2⟩

theorem passes_of_true (h : (vmAreaZero mm pd vma addr length).2 = true) :
    vma.PassesCheck addr length := by
  by_contra hc
  rw [vmAreaZero_of_not_passes hc] at h
  exact Bool.false_ne_true h

/-- **`vm_area_zero` clears exactly the range if and only if there was nothing left to clear behind
it** -/
theorem vmAreaZero_iff (hend : vma.startAddress + vma.size ≤ 2^32) (hsize : vma.size + 4096 ≤ 2^32)
    (haddr : addr < 2^32) (hlength : length < 2^32) :
    ZeroesExactly mm pd vma addr length ↔ ZeroingIsExact mm pd vma addr length := by
  -- what is cleared inside the area
  have htouch : vma.HasRange addr length → ∀ x,
      (Touched mm pd length (vmPages addr length) (pageDiv addr) x ↔
        ZeroImage mm pd addr length x ∨ (pageAddr addr < pageAddr (addr + length - 1) ∧
          ∃ f, frameAt mm pd (addr + length - 1) = some f ∧
            ∃ o, o < length ∧ o < pageSize ∧ x = f + o)) := by
    intro hin x
    obtain ⟨h1, h2⟩ := hin
    have hd := pageDiv_eq addr
    rcases Nat.eq_zero_or_pos length with rfl | h0
    · refine iff_of_false (touched_empty _ _ (by omega)) ?_
      rintro (⟨b, hb1, hb2, -⟩ | ⟨-, f, -, o, ho, -⟩)
      · omega
      · exact Nat.not_lt_zero o ho
    · exact Touched.iff h0 (by omega) (by omega)
  constructor
  · intro h
    refine ⟨fun hin => ?_, fun hout hpass => ?_⟩
    · obtain ⟨hret, hmem⟩ := h.inside hin
      have hpass := passes_of_true hret
      refine ⟨hpass, fun hlt f hf o ho hop hno => ?_⟩
      obtain ⟨r, hr, hr'⟩ := vmAreaZero_of_passes mm pd hpass
      rw [hr] at hmem
      have ht : Touched mm pd length (vmPages addr length) (pageDiv addr) (f + o) :=
        (htouch hin _).mpr (.inr ⟨hlt, f, hf, o, ho, hop, rfl⟩)
      exact ((hmem (f + o)).2 hno).symm.trans ((hr' (f + o)).1 ht)
    · have hret := h.outside hout
      obtain ⟨r, hr, -⟩ := vmAreaZero_of_passes mm pd hpass
      rw [hr] at hret
      exact Bool.false_ne_true (congrArg Prod.snd hret).symm
  · rintro ⟨hin, hout⟩
    refine ⟨fun hi => ?_, fun ho => vmAreaZero_of_not_passes (hout ho)⟩
    obtain ⟨hpass, hrest⟩ := hin hi
    obtain ⟨r, hr, hr'⟩ := vmAreaZero_of_passes mm pd hpass
    rw [hr]
    refine ⟨rfl, fun x => ⟨fun himg => (hr' x).1 ((htouch hi x).mpr (.inl himg)), fun hno => ?_⟩⟩
    by_cases ht : Touched mm pd length (vmPages addr length) (pageDiv addr) x
    · obtain ⟨hlt, f, hf, o, ho, hop, rfl⟩ := ((htouch hi x).mp ht).resolve_left hno
      exact ((hr' (f + o)).1 ht).trans (hrest hlt f hf o ho hop hno).symm
    · exact (hr' x).2 ht

end

/-- two pages at 0x1000000, with every byte `v` -/
def twoPages (v : Nat) : Mm where
  lomem := vmmZoneInit (fun _ => 0) 0xc2000000 16
  himem := vmmZoneInit (fun _ => 0) 0xc3000000 16
  kernelPageDir := 0xc0100000
  word t i :=
    if t = 0xc1000000 then (if i = 4 then 0x1001007 else 0)
    else if i = 0 then 0x1002007 else if i = 1 then 0x1003007 else 0
  queue := []
  mem _ := v

def twoPagesArea : VmArea :=
  ⟨0x1000000, 0x2000, 7, .zeropage, 0, 0, ⟨0, 0⟩, .zeropage, .write⟩

theorem twoPages_frames : frameAt (twoPages 255) 0xc1000000 (4096 * 0x1000) = some 0xc1002000 ∧
    frameAt (twoPages 255) 0xc1000000 (4096 * 0x1001) = some 0xc1003000 := by
  constructor <;> decide

/-- pages that are 0 behind the range -/
theorem vmAreaZero_iff_clear :
    ZeroesExactly (twoPages 0) 0xc1000000 twoPagesArea 0x1000800 0x1000 ↔
      ZeroingIsExact (twoPages 0) 0xc1000000 twoPagesArea 0x1000800 0x1000 :=
  vmAreaZero_iff (by decide) (by decide) (by decide) (by decide)

/-- the last byte of the second page is behind no address of the range -/
theorem twoPages_not_image :
    ¬ ZeroImage (twoPages 255) 0xc1000000 0x1000800 0x1000 0xc1003fff := by
  rintro ⟨b, h1, h2, f, hf, he⟩
  rw [pageDiv_eq] at he
  rcases (by omega : b / 4096 = 0x1000 ∨ b / 4096 = 0x1001) with hq | hq
  · rw [← frameAt_page (by omega) hq, twoPages_frames.1] at hf
    cases hf
    omega
  · rw [← frameAt_page (by omega) hq, twoPages_frames.2] at hf
    cases hf
    omega

/-- half a page on both sides of a boundary: the second half of the second page is cleared too -/
theorem vmAreaZero_past_end :
    (vmAreaZero (twoPages 255) 0xc1000000 twoPagesArea 0x1000800 0x1000).1.mem 0xc1003fff = 0 ∧
      ¬ ZeroesExactly (twoPages 255) 0xc1000000 twoPagesArea 0x1000800 0x1000 := by
  have hz : (vmAreaZero (twoPages 255) 0xc1000000 twoPagesArea 0x1000800 0x1000).1.mem 0xc1003fff
      = 0 := by decide
  refine ⟨hz, fun h => ?_⟩
  have hkeep := ((h.inside ⟨by decide, by decide⟩).2 0xc1003fff).2 twoPages_not_image
  rw [hz] at hkeep
  exact absurd hkeep (by decide)

end
end Paravirt

import Paravirt.Coalesce
import Paravirt.NewPages

/-!
# The memory given to the zones (kern/vmm_page.c, kern/vmm_zone.c)

`vmm_page_init` cuts the machine's frames into the kernel, the lomem zone and the himem zone, and
`vmm_buddy_init` cuts a zone into the table of its free lists and its first block.  Neither looks at
the size it is given, and neither can refuse.

* `pageInitZones`, `PageInitSound`   the two ranges, and what they have to be;
* `BuddyInitSound`                   the table and the first block inside a range;
* `pageInit_sound_iff`, `buddyInit_sound_iff`   the sizes that are large enough.
-/

namespace Paravirt

/-! ## vmm_page_init -/

/-- the page tables of the kernel come from its heap, so this stays 0 -/
def initPageCount : Nat := 0

/-- the start and the pages of lomem and of himem, as `vmm_zone_init` gets them -/
def pageInitZones (numPhysMemPpf : Nat) : (Nat × Nat) × (Nat × Nat) :=
  let kernelPages := userMemStart >>> pageShift + initPageCount
  let lomemFreeStart := p2v (kernelPages <<< pageShift)
  let lomemFreePages := u32 (numPhysMemPpf + 2^32 - kernelPages + 2^32 - vmmKernelStackPages)
  let highmemFreeStart :=
    p2v (u32 (u32 (numPhysMemPpf + 2^32 - vmmKernelStackPages) <<< pageShift))
  ((lomemFreeStart, lomemFreePages), (highmemFreeStart, vmmKernelStackPages))

/-- a range of pages that is not empty, above the kernel image and inside the `n` frames -/
structure InFrames (n : Nat) (r : Nat × Nat) : Prop where
  pos : 0 < r.2
  aboveKernel : vmmKernelBase + userMemStart ≤ r.1
  inside : r.1 + r.2 * pageSize ≤ vmmKernelBase + n * pageSize

structure PageInitSound (n : Nat) : Prop where
  lomem : InFrames n (pageInitZones n).1
  himem : InFrames n (pageInitZones n).2
  disjoint : (pageInitZones n).1.1 + (pageInitZones n).1.2 * pageSize ≤ (pageInitZones n).2.1 ∨
    (pageInitZones n).2.1 + (pageInitZones n).2.2 * pageSize ≤ (pageInitZones n).1.1

theorem inFrames_iff {n s p : Nat} : InFrames n (s, p) ↔
    0 < p ∧ 0xc1000000 ≤ s ∧ s + p * 4096 ≤ 0xc0000000 + n * 4096 :=
  ⟨fun h => ⟨h.pos, h.aboveKernel, h.inside⟩, fun h => ⟨h.1, h.2.1, h.2.2⟩⟩

theorem pageInitZones_lomem (n : Nat) :
    (pageInitZones n).1 = (0xc1000000, u32 (n + 2^32 - 4096 + 2^32 - 4096)) := rfl

theorem pageInitZones_himem {n : Nat} (h : 4096 ≤ n) (hmap : n ≤ 2^18) :
    (pageInitZones n).2 = (0xc0000000 + (n - 4096) * 4096, 4096) := by
  have h1 : u32 (n + 2^32 - vmmKernelStackPages) = n - 4096 := by
    unfold u32 vmmKernelStackPages
    omega
  have h2 : (n - 4096) <<< pageShift = (n - 4096) * 4096 := Nat.shiftLeft_eq _ _
  unfold pageInitZones
  dsimp only
  rw [h1, h2, u32_of_lt (by omega), p2v_eq (by omega), Nat.add_comm]
  rfl

/-- **the kernel and the stacks are 8192 frames, and at least one has to be left** -/
theorem pageInit_sound_iff {n : Nat} (hmap : n ≤ 2^18) : PageInitSound n ↔ 8192 < n := by
  constructor
  · intro h
    have hlo := h.lomem
    rw [pageInitZones_lomem, inFrames_iff] at hlo
    unfold u32 at hlo
    omega
  · intro h
    have hlo : u32 (n + 2^32 - 4096 + 2^32 - 4096) = n - 8192 := by
      unfold u32
      omega
    have hhi := pageInitZones_himem (n := n) (by omega) hmap
    constructor
    · rw [pageInitZones_lomem, hlo, inFrames_iff]
      omega
    · rw [hhi, inFrames_iff]
      omega
    · rw [pageInitZones_lomem, hlo, hhi]
      unfold pageSize
      dsimp only
      omega

/-! ## vmm_buddy_init -/

/-- the pages the table is given -/
def initStructPages (numPages : Nat) : Nat := freeAreaStructPages (vmmFloorLog2 (u32 numPages))

/-- the bytes of the table, one entry for each order up to `max_order` -/
def initTableBytes (start numPages : Nat) : Nat :=
  sizeofFreeArea * ((buddyInitBlock start numPages).2 + 1)

/-- the end of the first block -/
def initBlockEnd (start numPages : Nat) : Nat :=
  (buddyInitBlock start numPages).1 + pageSize * 2^(buddyInitBlock start numPages).2

structure BuddyInitSound (start numPages : Nat) : Prop where
  /-- `sizeof(vmb_free_area_t) * upper_order - 1` -/
  sizeSub : 1 ≤ sizeofFreeArea * vmmFloorLog2 (u32 numPages)
  /-- `free_area_struct_pages << PAGE_SHIFT` -/
  shift : initStructPages numPages * 2^pageShift < 2^32
  /-- `num_pages -= free_area_struct_pages` -/
  pagesSub : initStructPages numPages ≤ numPages
  tableInside : initTableBytes start numPages ≤ numPages * pageSize
  blockLower : start ≤ (buddyInitBlock start numPages).1
  blockUpper : initBlockEnd start numPages ≤ start + numPages * pageSize
  disjoint : start + initTableBytes start numPages ≤ (buddyInitBlock start numPages).1 ∨
    initBlockEnd start numPages ≤ start

section
variable {start numPages : Nat}

theorem floorLog2_pos (h2 : 2 ≤ numPages) (h31 : numPages < 2^31) :
    1 ≤ vmmFloorLog2 (u32 numPages) ∧ vmmFloorLog2 (u32 numPages) ≤ 31 := by
  have h32 : numPages < 2^32 := by omega
  rw [u32_of_lt h32]
  refine ⟨?_, vmmFloorLog2_le (by omega) h32⟩
  have hs := vmmFloorLog2_spec (n := numPages) (by omega) h32
  by_contra h0
  have e : vmmFloorLog2 numPages = 0 := by omega
  rw [e] at hs
  omega

theorem initStructPages_eq (h2 : 2 ≤ numPages) (h31 : numPages < 2^31) :
    initStructPages numPages = 1 := by
  obtain ⟨h1, h3⟩ := floorLog2_pos h2 h31
  exact freeAreaStructPages_one h1 h3

/-- one page is left to the table, wherever the range lies -/
theorem buddyInitBlock_wrap (h2 : 2 ≤ numPages) (h31 : numPages < 2^31) :
    buddyInitBlock start numPages = (u32 (start + 4096), vmmFloorLog2 (numPages - 1)) := by
  have hsp := initStructPages_eq h2 h31
  unfold initStructPages at hsp
  have e : u32 (numPages + 2^32 - 1) = numPages - 1 := by
    unfold u32
    omega
  unfold buddyInitBlock
  dsimp only
  rw [hsp, e]
  rfl

/-- with one page `sizeof(vmb_free_area_t) * 0 - 1` wraps -/
theorem not_sizeSub_one : ¬ 1 ≤ sizeofFreeArea * vmmFloorLog2 (u32 1) := by decide

/-- **one page for the table and one for the block, and the block starts in the address space** -/
theorem buddyInit_sound_iff (hs : start < 2^32) (h1 : 1 ≤ numPages) (h31 : numPages < 2^31) :
    BuddyInitSound start numPages ↔ 2 ≤ numPages ∧ start + pageSize < 2^32 := by
  have hp : pageSize = 4096 := rfl
  have hsz : sizeofFreeArea = 12 := rfl
  constructor
  · intro h
    have h2 : 2 ≤ numPages := by
      by_contra hlt
      obtain rfl : numPages = 1 := by omega
      exact not_sizeSub_one h.sizeSub
    refine ⟨h2, ?_⟩
    have hlow := h.blockLower
    rw [buddyInitBlock_wrap h2 h31] at hlow
    unfold u32 at hlow
    dsimp only at hlow
    omega
  · rintro ⟨h2, hfit⟩
    obtain ⟨hl1, -⟩ := floorLog2_pos h2 h31
    have hblk : buddyInitBlock start numPages = (u32 (start + 4096), vmmFloorLog2 (numPages - 1)) :=
      buddyInitBlock_wrap h2 h31
    rw [u32_of_lt (by omega)] at hblk
    have hlog := (vmmFloorLog2_spec (n := numPages - 1) (by omega) (by omega)).1
    have hlog31 := vmmFloorLog2_le (n := numPages - 1) (by omega) (by omega)
    have hsp := initStructPages_eq h2 h31
    have htable : initTableBytes start numPages = 12 * (vmmFloorLog2 (numPages - 1) + 1) := by
      unfold initTableBytes
      rw [hblk, hsz]
    have hend : initBlockEnd start numPages
        = start + 4096 + 4096 * 2^vmmFloorLog2 (numPages - 1) := by
      unfold initBlockEnd
      rw [hblk, hp]
    generalize vmmFloorLog2 (numPages - 1) = k at *
    generalize 2^k = b at *
    rw [hp] at hfit
    constructor
    · rw [hsz]
      omega
    · rw [hsp]
      decide
    · omega
    · rw [htable, hp]
      omega
    · rw [hblk]
      omega
    · rw [hend, hp]
      omega
    · rw [hblk, htable]
      dsimp only
      omega

/-- **zone set-up is sound exactly for these sizes** -/
theorem zone_setup_sound_iff {n : Nat} (hn : 0 < n) (hmap : n * pageSize ≤ 2^30)
    (hs : start < 2^32) (h1 : 1 ≤ numPages) (h31 : numPages < 2^31) :
    (PageInitSound n ↔ 8192 < n) ∧
      (BuddyInitSound start numPages ↔ 2 ≤ numPages ∧ start + pageSize < 2^32) := by
  have hn18 : n ≤ 2^18 := by
    unfold pageSize at hmap
    omega
  exact ⟨pageInit_sound_iff hn18, buddyInit_sound_iff hs h1 h31⟩

end

/-- a machine of 64 MB, and the himem zone on it -/
theorem zone_setup_sound_64 :
    (PageInitSound 16384 ↔ 8192 < 16384) ∧
      (BuddyInitSound 0xc3000000 4096 ↔ 2 ≤ 4096 ∧ 0xc3000000 + pageSize < 2^32) :=
  zone_setup_sound_iff (by decide) (by decide) (by decide) (by decide) (by decide)

/-- on 4097 frames lomem has 2^32 - 4095 pages; one page of lomem holds neither table nor block -/
theorem zone_setup_small :
    (pageInitZones 4097).1.2 = 2^32 - 4095 ∧ ¬ PageInitSound 4097 ∧
      buddyInitBlock 0xc1000000 1 = (0xc1000000, 31) ∧ ¬ BuddyInitSound 0xc1000000 1 := by
  refine ⟨rfl, fun h => ?_, by decide, fun h => not_sizeSub_one h.sizeSub⟩
  exact absurd ((pageInit_sound_iff (by decide)).mp h) (by decide)

end Paravirt

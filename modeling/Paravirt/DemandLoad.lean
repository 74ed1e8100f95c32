import Paravirt.MmMap
import Paravirt.VmArea

/-!
# The nopage methods on one page

* `vmAreaCreate_page`   `vm_area_create` on one page: the page is mapped afterwards, to the frame it
                        had if it had one;
* `vmAreaZero_page`, `vmAreaLoad_page`   contents written inside one page;
* `VmArea.initial`      the bytes an area puts into its part of a frame;
* `callNopage_done`     a `nopage` method maps the page and fills the part its area covers, or fails
                        because the file does not hold that part.
-/

set_option linter.unusedSectionVars false
set_option linter.unusedVariables false

namespace Paravirt
open Tiling

/-! ## pages of a range -/

theorem pageAddr_of_lt {a : Nat} (h : a < 2^32) : pageAddr a = a / 4096 * 4096 := by
  rw [pageAddr_eq]
  omega

theorem pageAddr_le (a : Nat) : pageAddr a ≤ a := by
  rw [pageAddr_eq]
  omega

theorem pageAddr_lt (a : Nat) : pageAddr a < 2^32 := by
  rw [pageAddr_eq]
  omega

theorem pageAddr_pageAddr (a : Nat) : pageAddr (pageAddr a) = pageAddr a := by
  rw [pageAddr_eq, pageAddr_eq]
  omega

theorem samePage_iff {a b : Nat} (ha : a < 2^32) (hb : b < 2^32) :
    SamePage a b ↔ pageAddr a = pageAddr b := by
  unfold SamePage
  rw [pdeIndex_eq, pdeIndex_eq, pteIndex_eq, pteIndex_eq, pageAddr_of_lt ha, pageAddr_of_lt hb]
  omega

theorem samePage_pageAddr (a : Nat) : SamePage (pageAddr a) a := by
  unfold SamePage
  rw [pdeIndex_eq, pdeIndex_eq, pteIndex_eq, pteIndex_eq, pageAddr_eq]
  omega

theorem SamePage.mapping {a b : Nat} (h : SamePage a b) (mm : Mm) (pd : Nat) :
    mm.vmmGetMapping pd a = mm.vmmGetMapping pd b := by
  rw [Mm.vmmGetMapping_eq, Mm.vmmGetMapping_eq]
  unfold mappingAt
  rw [h.1, h.2]

/-- a range inside one page -/
theorem vmPages_single {addr len : Nat} (ha : addr < 2^32) (h0 : 0 < len)
    (h1 : addr % 4096 + len ≤ 4096) : vmPages addr len = [pageAddr addr] := by
  have e1 : u32 (addr + len + 2^32 - 1) = addr + len - 1 := by
    unfold u32
    omega
  have e2 : pageAddr (addr + len - 1) = pageAddr addr := by
    rw [pageAddr_of_lt (by omega), pageAddr_of_lt ha]
    omega
  have e3 : numPages addr len = 1 := by
    unfold numPages u32
    rw [show (addr + len + 2^32 - 1) % 2^32 = addr + len - 1 from e1, e2, Nat.add_sub_cancel_left]
    rfl
  have e4 : u32 (pageAddr addr + 0 <<< pageShift) = pageAddr addr := by
    rw [Nat.zero_shiftLeft, Nat.add_zero]
    exact u32_of_lt (pageAddr_lt addr)
  unfold vmPages
  rw [e3]
  show [u32 (pageAddr addr + 0 <<< pageShift)] = _
  rw [e4]

/-! ## the frame behind an address -/

/-- the page mapped at an address -/
def frameAt (mm : Mm) (pd a : Nat) : Option Nat :=
  if pageAddr (mm.vmmGetMapping pd a) = 0 then none
  else some (p2v (pageAddr (mm.vmmGetMapping pd a)))

/-- the byte a user program reads at an address -/
def userByte (mm : Mm) (pd a : Nat) : Option Nat :=
  (frameAt mm pd a).map fun f => mm.mem (f + pageDiv a)

theorem SamePage.frameAt {a b : Nat} (h : SamePage a b) (mm : Mm) (pd : Nat) :
    frameAt mm pd a = Paravirt.frameAt mm pd b := by
  unfold Paravirt.frameAt
  rw [h.mapping]

theorem frameAt_of_mapping {mm : Mm} {pd a f flags : Nat} (hf : IsFrame f) (hfl : flags < 4096)
    (h : mm.vmmGetMapping pd a = flags ||| v2p f) : frameAt mm pd a = some f := by
  unfold frameAt
  rw [h, hf.pageAddr_or hfl, if_neg hf.v2p_pos, hf.p2v_v2p]

namespace MmInv
variable {base live : List Block} {dirs : List Nat} {mm : Mm} {pd a f : Nat}

theorem uses_of_frameAt (hd : pd ∈ dirs) (ha : UserPde (pdeIndex a))
    (h : frameAt mm pd a = some f) :
    Uses mm.word dirs (.page pd (pdeIndex a) (pteIndex a)) f := by
  unfold frameAt at h
  split at h
  · cases h
  · rename_i hne
    cases h
    exact uses_of_mapping hd ha hne

/-- the entry a mapped page gets when its mapping is read and written back -/
theorem entryVal_mapping (h : MmInv base live dirs mm) (hd : pd ∈ dirs) (ha : UserPde (pdeIndex a))
    (hf : frameAt mm pd a = some f) (flags : Nat) :
    entryVal (pageAddr (mm.vmmGetMapping pd a)) flags = flags ||| v2p f ∧ IsFrame f := by
  have hfr := (h.isFrame_of_use (uses_of_frameAt hd ha hf)).1
  refine ⟨?_, hfr⟩
  unfold frameAt at hf
  split at hf
  · cases hf
  · rename_i hne
    have e : v2p f = v2p (pageAddr (mm.vmmGetMapping pd a)) := by
      injection hf with hf
      rw [← hf]
      unfold v2p p2v
      rw [Nat.and_or_distrib_right, show 0xc0000000 &&& 0x3fffffff = 0 by decide, Nat.or_zero]
    unfold entryVal
    rw [if_pos hne, e]

end MmInv

/-! ## vm_area_create on one page -/

/-- the state between two operations: nothing is pending -/
structure Ready (base live : List Block) (dirs : List Nat) (mm : Mm) : Prop where
  inv : MmInv base live dirs mm
  queue : mm.queue = []

namespace Ready
variable {base live : List Block} {dirs : List Nat} {mm : Mm} {pd a f flags : Nat}

theorem eff_eq (h : Ready base live dirs mm) : mm.eff = mm := Mm.eff_of_nil h.queue

theorem of_eff (h : MmInv base live dirs mm.eff) : Ready base live dirs mm.eff := ⟨h, rfl⟩

/-- contents do not matter -/
theorem setMem (h : Ready base live dirs mm) (mem : Nat → Nat) :
    Ready base live dirs { mm with mem := mem } := ⟨h.inv.congr rfl rfl rfl, h.queue⟩

/-- a page is mapped again with other flags -/
theorem remap (h : Ready base live dirs mm) (hd : pd ∈ dirs) (ha : UserPde (pdeIndex a))
    (hf : frameAt mm pd a = some f) (hfl : flags < 4096) {ppf : Nat}
    (hp : entryVal ppf flags = flags ||| v2p f) :
    ∃ mm' live', mm.vmmMapPage pd a ppf flags = (mm', true) ∧ Ready base live' dirs mm'.eff ∧
      (∀ b ∈ live, b ∈ live') ∧ mm'.mem = mm.mem ∧ mm'.lomem = mm.lomem ∧
      mm'.himem = mm.himem ∧ frameAt mm'.eff pd a = some f ∧
      MmInv.Same dirs pd [a] mm mm' := by
  have hI : MmInv base live dirs mm.eff := by
    rw [h.eff_eq]
    exact h.inv
  have huse := MmInv.uses_of_frameAt hd ha hf
  have hfr := (h.inv.isFrame_of_use huse).1
  have e1 : p2v (pageAddr (entryVal ppf flags)) = f := by
    rw [hp, hfr.pageAddr_or hfl, hfr.p2v_v2p]
  have hne : mm.eff.word pd (pdeIndex a) ≠ 0 := by
    rw [h.eff_eq]
    cases huse with
    | page _ _ h0 _ => exact h0
  rcases hI.mapPage_user hd (.nil h.queue pd []) ha (by simp) ppf flags (fun _ => by
      rw [e1, h.eff_eq]
      exact ⟨h.inv.live_of_use _ _ huse, fun u hu => h.inv.inj u _ _ hu huse⟩) with
    ⟨_, _, h0⟩ | ⟨mm', live', e, r1, _, r3, r4, r5, r6, _, r8⟩
  · exact absurd h0 hne
  · refine ⟨mm', live', e, .of_eff r1, r3, r4.mem, r8.1 hne, r5, ?_, r4⟩
    rw [hp] at r6
    exact frameAt_of_mapping hfr hfl r6

end Ready

/-- what one call of `vm_area_create`, or of a `nopage` method, on the page of `a` leaves alone -/
structure PageOnly (dirs : List Nat) (pd a : Nat) (mm mm' : Mm) : Prop where
  himem : mm'.himem = mm.himem
  mapping : ∀ d ∈ dirs, ∀ b, UserPde (pdeIndex b) → ¬ (d = pd ∧ SamePage b a) →
    mm'.vmmGetMapping d b = mm.vmmGetMapping d b

theorem PageOnly.refl (dirs : List Nat) (pd a : Nat) (mm : Mm) : PageOnly dirs pd a mm mm :=
  ⟨rfl, fun _ _ _ _ _ => rfl⟩

theorem PageOnly.trans {dirs : List Nat} {pd a : Nat} {m1 m2 m3 : Mm}
    (h1 : PageOnly dirs pd a m1 m2) (h2 : PageOnly dirs pd a m2 m3) : PageOnly dirs pd a m1 m3 :=
  ⟨h2.himem.trans h1.himem, fun d hd b hb hne =>
    (h2.mapping d hd b hb hne).trans (h1.mapping d hd b hb hne)⟩

section
variable {base live : List Block} {dirs : List Nat} {mm : Mm} {pd a : Nat}

/-- the allocator has a page for the fault, and one for the page table if that is missing -/
def FramesFor (mm : Mm) (pd a : Nat) : Prop :=
  CanServe 1 mm.lomem ∧ (mm.word pd (pdeIndex a) = 0 → CanServe 2 mm.lomem)

/-- **`vm_area_create` on one page** maps it: to the frame it had, or to a new one -/
theorem vmAreaCreate_page (h : Ready base live dirs mm) (hd : pd ∈ dirs) {vma : VmArea}
    (hfl : vma.flags < 4096) (ha : UserPde (pdeIndex a))
    (hcan : frameAt mm pd a = none → FramesFor mm pd a) :
    ∃ mm' live' f, vmAreaCreateLoop pd vma.flags [a] mm = (mm', true) ∧
      Ready base live' dirs mm' ∧ (∀ b ∈ live, b ∈ live') ∧ mm'.mem = mm.mem ∧
      frameAt mm' pd a = some f ∧ (∀ g, frameAt mm pd a = some g → g = f) ∧
      (frameAt mm pd a = none → mm.vmmPpfAlloc.2 = some f) ∧ PageOnly dirs pd a mm mm' ∧
      (frameAt mm pd a = none → ∀ i, mm.word pd i ≠ 0 → mm'.word pd i ≠ 0) := by
  have hI : MmInv base live dirs mm.eff := by
    rw [h.eff_eq]
    exact h.inv
  have hsame : ∀ {mm' : Mm}, MmInv.Same dirs pd [a] mm mm' → mm'.himem = mm.himem →
      PageOnly dirs pd a mm mm'.eff := by
    intro mm' hs hh
    refine ⟨hh, fun d hd' b hb hne => ?_⟩
    have := hs.mapping d hd' b hb (fun e x hx hsp => hne ⟨e, List.mem_singleton.mp hx ▸ hsp⟩)
    rw [h.eff_eq] at this
    exact this
  cases hm : frameAt mm pd a with
  | some g =>
    obtain ⟨hp, hfr⟩ := h.inv.entryVal_mapping hd ha hm vma.flags
    obtain ⟨mm', live', e, r1, r2, r3, r4, r5, r6, r7⟩ := h.remap hd ha hm hfl hp
    have hne : pageAddr (mm.vmmGetMapping pd a) ≠ 0 := by
      intro h0
      unfold frameAt at hm
      rw [if_pos h0] at hm
      cases hm
    refine ⟨mm'.eff, live', g, ?_, r1, r2, r3, r6, fun g' hg => by cases hg; rfl,
      fun hn => absurd hn (by simp), hsame r7 r5, fun hn => absurd hn (by simp)⟩
    unfold vmAreaCreateLoop
    dsimp only
    rw [if_neg hne, e]
    rfl
  | none =>
    have h0 : pageAddr (mm.vmmGetMapping pd a) = 0 := by
      by_contra hne
      unfold frameAt at hm
      rw [if_neg hne] at hm
      cases hm
    obtain ⟨hc1, hc2⟩ := hcan hm
    rcases hI.alloc with ⟨_, hno⟩ | ⟨z, f, e, h1, hfresh, hz⟩
    · exact absurd hc1 hno
    · have hfl' : (f, 1) ∈ (f, 1) :: live := List.mem_cons_self
      have hfr := (h1.isFrame_of_live hfl').1
      have hunused : ∀ u, ¬ Uses ({ mm with lomem := z } : Mm).eff.word dirs u f :=
        hI.not_uses_of_not_live hfresh
      rcases h1.mapPage_user hd (.nil h.queue pd []) ha (by simp) f vma.flags (fun _ => by
          rw [hfr.entryVal, hfr.pageAddr_or hfl, hfr.p2v_v2p]
          exact ⟨hfl', fun u hu => absurd hu (hunused u)⟩) with
        ⟨_, hno, h0⟩ | ⟨mm', live', e', r1, _, r3, r4, r5, r6, r7, _, r8⟩
      · have hw : ({ mm with lomem := z } : Mm).eff.word = mm.word := by
          show mm.eff.word = mm.word
          rw [h.eff_eq]
        rw [hw] at h0
        exact absurd (hz 1 (hc2 h0)) hno
      · rw [hfr.entryVal] at r6
        refine ⟨mm'.eff, live', f, ?_, .of_eff r1, fun b hb => r3 b (List.mem_cons_of_mem _ hb),
          r4.mem, frameAt_of_mapping hfr hfl r6, fun g hg => absurd hg (by simp),
          fun _ => by rw [e], hsame ⟨r4.mem, r4.mapping⟩ r5, fun _ i hi => r8.keep hd i ?_⟩
        swap
        · show mm.eff.word pd i ≠ 0
          rw [h.eff_eq]
          exact hi
        unfold vmAreaCreateLoop
        dsimp only
        rw [if_pos h0, e]
        dsimp only
        rw [e']
        rfl

end

/-! ## areas -/

/-- an area as `vm_area_alloc` sets it up: it is not empty, does not wrap, and has the methods of
its type; demand-loaded areas lie in user memory -/
structure VmArea.Ok (vma : VmArea) : Prop where
  pos : 0 < vma.size
  noWrap : vma.startAddress + vma.size ≤ 2^32
  flags : vma.flags < 4096
  nopage : match vma.type with
    | .file => vma.nopage = .file
    | .zeropage => vma.nopage = .zeropage
    | .alloc => vma.nopage = .alloc
    | _ => vma.nopage = .default
  user : vma.nopage ≠ .default →
    userMemStart ≤ vma.startAddress ∧ vma.startAddress + vma.size ≤ vmmKernelBase

/-- the bytes of an area -/
def VmArea.Contains (vma : VmArea) (a : Nat) : Prop :=
  vma.startAddress ≤ a ∧ a < vma.startAddress + vma.size

/-- the byte of the file at offset `off` -/
def fileByte (fs : Nat → Option ExecFile) (file : Nat) (off : Int) : Nat :=
  match fs file with
  | none => 0
  | some f => f.execbytes off

/-- the offset in its file of the part of the page of `a` that a file area covers -/
def VmArea.partOffset (vma : VmArea) (a : Nat) : Nat :=
  u32 (vma.src.startOffset + ((vma.clip a).1 - vma.startAddress))

/-- the file behind a file area holds the bytes of the page of `a` -/
def VmArea.PartBacked (fs : Nat → Option ExecFile) (vma : VmArea) (a : Nat) : Prop :=
  vma.type = .file → vma.src.ptr ≠ 0 ∧
    getbytesCount (fs vma.src.ptr) (vma.partOffset a) (vma.clip a).2 = (vma.clip a).2

/-- what a fault on the page of `a` puts at the address `b` of an area: `none` for an `ALLOC` area -/
def VmArea.initial (fs : Nat → Option ExecFile) (vma : VmArea) (a b : Nat) : Option Nat :=
  match vma.type with
  | .file => some (fileByte fs vma.src.ptr (toInt (vma.partOffset a) + (b - (vma.clip a).1 : Nat)))
  | .zeropage => some 0
  | _ => none

namespace VmArea
variable {vma : VmArea}

theorem initial_file (fs : Nat → Option ExecFile) (h : vma.type = .file) (a b : Nat) :
    vma.initial fs a b = some (fileByte fs vma.src.ptr
      (toInt (vma.partOffset a) + (b - (vma.clip a).1 : Nat))) := by
  unfold initial
  rw [h]

theorem initial_zeropage (fs : Nat → Option ExecFile) (h : vma.type = .zeropage) (a b : Nat) :
    vma.initial fs a b = some 0 := by
  unfold initial
  rw [h]

theorem initial_alloc (fs : Nat → Option ExecFile) (h : vma.type = .alloc) (a b : Nat) :
    vma.initial fs a b = none := by
  unfold initial
  rw [h]

theorem endAddress_eq (hpos : 0 < vma.size) (hwrap : vma.startAddress + vma.size ≤ 2^32) :
    vma.endAddress = vma.startAddress + vma.size - 1 := by
  unfold VmArea.endAddress u32
  omega

theorem covers_iff_pages (hpos : 0 < vma.size) (hwrap : vma.startAddress + vma.size ≤ 2^32)
    (a : Nat) : vma.covers a = true ↔ pageAddr vma.startAddress ≤ pageAddr a ∧
      pageAddr a ≤ pageAddr (vma.startAddress + vma.size - 1) := by
  unfold covers
  rw [endAddress_eq hpos hwrap]
  exact decide_eq_true_iff

theorem Ok.endAddress (h : vma.Ok) : vma.endAddress = vma.startAddress + vma.size - 1 :=
  endAddress_eq h.pos h.noWrap

theorem Ok.covers_iff (h : vma.Ok) (a : Nat) :
    vma.covers a = true ↔ pageAddr vma.startAddress ≤ pageAddr a ∧
      pageAddr a ≤ pageAddr (vma.startAddress + vma.size - 1) :=
  covers_iff_pages h.pos h.noWrap a

/-- the page of a byte of the area -/
theorem Ok.covers_of_contains (h : vma.Ok) {a : Nat} (ha : vma.Contains a) :
    vma.covers a = true := by
  have h1 := h.noWrap
  have h0 := h.pos
  obtain ⟨h2, h3⟩ := ha
  rw [h.covers_iff, pageAddr_of_lt (by omega), pageAddr_of_lt (by omega),
    pageAddr_of_lt (by omega)]
  omega

theorem clip_eq (vma : VmArea) (a : Nat) : vma.clip a =
    (if vma.startAddress ≥ pageAddr a then vma.startAddress else pageAddr a,
      pageSize - ((if vma.startAddress ≥ pageAddr a then vma.startAddress else pageAddr a)
        - pageAddr a) - (pageAddr a + (pageSize - 1) - vma.endAddress)) := by
  unfold VmArea.clip
  dsimp only
  split
  · rfl
  · rename_i h
    rw [Nat.sub_eq_zero_of_le (Nat.le_of_not_lt h)]
    rfl

/-- the part of a page that an area covers -/
theorem Ok.clip (h : vma.Ok) {a : Nat} (ha : a < 2^32) (hc : vma.covers a = true) :
    (vma.clip a).1 = max vma.startAddress (pageAddr a) ∧ 0 < (vma.clip a).2 ∧
      (vma.clip a).1 + (vma.clip a).2 = min (vma.startAddress + vma.size) (pageAddr a + 4096) := by
  have h1 := h.noWrap
  have h2 := h.pos
  obtain ⟨hc1, hc2⟩ := (h.covers_iff a).mp hc
  rw [pageAddr_of_lt (by omega)] at hc1
  rw [pageAddr_of_lt (by omega : vma.startAddress + vma.size - 1 < 2^32)] at hc2
  rw [pageAddr_of_lt ha] at hc1 hc2
  have hp := pageAddr_of_lt ha
  rw [clip_eq, h.endAddress, hp]
  have hps : pageSize = 4096 := rfl
  generalize pageSize = ps at hps ⊢
  have e : (if vma.startAddress ≥ a / 4096 * 4096 then vma.startAddress else a / 4096 * 4096)
      = max vma.startAddress (a / 4096 * 4096) := by
    split <;> omega
  rw [e]
  refine ⟨rfl, ?_, ?_⟩
  · show 0 < _ - _ - _
    omega
  · show max vma.startAddress (a / 4096 * 4096) + (_ - _ - _) = _
    omega

end VmArea

/-! ## the nopage methods -/

/-- `n` bytes at `dst` are given by `g` -/
def Mm.fill (mm : Mm) (dst n : Nat) (g : Nat → Nat) : Mm :=
  { mm with mem := fun x => if dst ≤ x ∧ x < dst + n then g (x - dst) else mm.mem x }

section
variable {base live : List Block} {dirs : List Nat} {mm : Mm} {pd a : Nat}

/-- a range inside the page of `a` lies in the same part of the frame -/
theorem pageDiv_sub {lo b a : Nat} (h1 : pageAddr a ≤ lo) (h2 : lo ≤ b) (h3 : b < pageAddr a + 4096)
    (ha : a < 2^32) : pageDiv b = pageDiv lo + (b - lo) := by
  rw [pageDiv_eq, pageDiv_eq]
  rw [pageAddr_of_lt ha] at h1 h3
  omega

/-- the mapping of a page that has a frame -/
theorem mapping_of_frameAt {f lo : Nat} (hf : frameAt mm pd lo = some f) :
    pageAddr (mm.vmmGetMapping pd (pageAddr lo)) ≠ 0 ∧
      p2v (pageAddr (mm.vmmGetMapping pd (pageAddr lo))) = f := by
  rw [(samePage_pageAddr lo).mapping]
  unfold frameAt at hf
  split at hf
  · cases hf
  · rename_i hne
    cases hf
    exact ⟨hne, rfl⟩

/-- **`vm_area_zero` inside one page** -/
theorem vmAreaZero_page (h : Ready base live dirs mm) {vma : VmArea} (hok : vma.Ok) {f lo len : Nat}
    (hf : frameAt mm pd lo = some f) (h0 : 0 < len) (h1 : lo % 4096 + len ≤ 4096)
    (h2 : vma.startAddress ≤ lo) (h3 : lo + len ≤ vma.startAddress + vma.size)
    (hu : vma.startAddress + vma.size < 2^32) :
    (vmAreaZero mm pd vma lo len).1 = mm.memset (f + pageDiv lo) 0 len := by
  have hlo : lo < 2^32 := by omega
  have e1 : u32 (vma.startAddress + vma.size) = vma.startAddress + vma.size := u32_of_lt hu
  have e2 : u32 (lo + len) = lo + len := u32_of_lt (by omega)
  have hcond : ¬ (vma.startAddress > lo ∨ u32 (vma.startAddress + vma.size) < u32 (lo + len)) := by
    rw [e1, e2]
    omega
  have hm := mapping_of_frameAt hf
  have hlen : ¬ (u32 (pageDiv lo + len) > pageSize) := by
    rw [pageDiv_eq, u32_of_lt (by omega)]
    show ¬ (lo % 4096 + len > 4096)
    omega
  unfold vmAreaZero
  rw [if_neg hcond, vmPages_single hlo h0 h1]
  unfold vmAreaZeroLoop vmAreaZeroLoop
  dsimp only
  rw [if_pos hm.1, if_neg hlen, hm.2]
  exact (h.setMem _).eff_eq

/-- what `vm_area_load` asks of the area and the range -/
theorem vmAreaLoad_allowed {vma : VmArea} (hty : vma.type = .file) (hptr : vma.src.ptr ≠ 0)
    {lo len : Nat} (h0 : 0 < len) (h2 : vma.startAddress ≤ lo)
    (h3 : lo + len ≤ vma.startAddress + vma.size) (hu : vma.startAddress + vma.size < 2^32) :
    ¬ (vma.startAddress > lo ∨ u32 (vma.startAddress + vma.size) < u32 (lo + len) ∨
      vma.type ≠ .file ∨ vma.src.ptr = 0) := by
  have e1 : u32 (vma.startAddress + vma.size) = vma.startAddress + vma.size := u32_of_lt hu
  have e2 : u32 (lo + len) = lo + len := u32_of_lt (by omega)
  rw [e1, e2]
  rintro (hc | hc | hc | hc)
  · omega
  · omega
  · exact hc hty
  · exact hptr hc

/-- the bytes read over the zeroed ones -/
theorem getbytes_memset (m : Mm) (file : ExecFile) {off len : Nat} (dst : Nat)
    (hcount : getbytesCount (some file) off len = len) :
    (m.memset dst 0 len).getbytes (some file) off len dst
      = (m.fill dst len fun i => file.execbytes (toInt off + (i : Nat)), (len : Int)) := by
  unfold Mm.getbytes Mm.memset Mm.fill
  rw [hcount]
  dsimp only
  congr 2
  funext x
  rw [Int.toNat_natCast]
  by_cases hx : dst ≤ x ∧ x < dst + len
  · rw [if_pos hx, if_pos hx]
  · rw [if_neg hx, if_neg hx, if_neg hx]

/-- one turn of the loop is the whole load of a range inside one page -/
theorem vmAreaLoad_single (fs : Nat → Option ExecFile) {vma : VmArea} {file : ExecFile}
    (hfile : fs vma.src.ptr = some file) (hty : vma.type = .file) (hptr : vma.src.ptr ≠ 0)
    {f lo len : Nat} (hf : frameAt mm pd lo = some f) (h0 : 0 < len) (h1 : lo % 4096 + len ≤ 4096)
    (h2 : vma.startAddress ≤ lo) (h3 : lo + len ≤ vma.startAddress + vma.size)
    (hu : vma.startAddress + vma.size < 2^32) {foff : Nat}
    (hfo : foff = u32 (vma.src.startOffset + (lo - vma.startAddress)))
    (hcount : getbytesCount (some file) foff len = len) :
    vmAreaLoad fs mm pd vma lo len =
      (((mm.fill (f + pageDiv lo) len fun i => file.execbytes (toInt foff + (i : Nat))).vmmMapPage pd
        (pageAddr lo) f (vma.flags ||| pgFlagPresent)).1.eff, (len : Int)) := by
  have hlen : ¬ (pageDiv lo + (len - 0) > pageSize) := by
    rw [pageDiv_eq]
    show ¬ (lo % 4096 + (len - 0) > 4096)
    omega
  have e3 : u32 foff = foff := by
    rw [hfo]
    exact Nat.mod_mod _ _
  unfold vmAreaLoad
  rw [if_neg (vmAreaLoad_allowed hty hptr h0 h2 h3 hu), ← hfo, vmPages_single (by omega) h0 h1, hfile]
  unfold vmAreaLoadLoop
  dsimp only
  rw [(mapping_of_frameAt hf).2, if_neg hlen, Nat.sub_zero, Nat.add_zero, e3,
    getbytes_memset mm file _ hcount]
  dsimp only
  rw [if_neg (by omega), if_neg (by omega)]
  unfold vmAreaLoadLoop
  rw [Nat.zero_add, Int.toNat_natCast]
  rfl

/-- the frame behind the page of `lo` gets other contents and is mapped there again -/
theorem Ready.refill (h : Ready base live dirs mm) (hd : pd ∈ dirs) {f lo flags : Nat}
    (hlo : UserPde (pdeIndex lo)) (hf : frameAt mm pd lo = some f) (hfl : flags < 4096)
    (mem : Nat → Nat) :
    ∃ mm' live', ({ mm with mem := mem }.vmmMapPage pd (pageAddr lo) f flags).1 = mm' ∧
      Ready base live' dirs mm'.eff ∧ (∀ b ∈ live, b ∈ live') ∧ mm'.mem = mem ∧
      mm'.lomem = mm.lomem ∧ frameAt mm'.eff pd lo = some f ∧ PageOnly dirs pd lo mm mm'.eff := by
  have hr := h.setMem mem
  have hsame := samePage_pageAddr lo
  have hup : UserPde (pdeIndex (pageAddr lo)) := by
    rw [hsame.1]
    exact hlo
  have hf2 : frameAt { mm with mem := mem } pd (pageAddr lo) = some f := by
    rw [hsame.frameAt]
    exact hf
  have hfr := (hr.inv.isFrame_of_use (MmInv.uses_of_frameAt hd hup hf2)).1
  obtain ⟨m3, live3, e6, r1, r2, r3, r4, r5, r6, r7⟩ := hr.remap hd hup hf2 hfl (hfr.entryVal flags)
  refine ⟨m3, live3, by rw [e6], r1, r2, r3, r4, ?_, r5, ?_⟩
  · rw [← hsame.frameAt]
    exact r6
  · intro d hd' b hb hne
    have := r7.mapping d hd' b hb fun e x hx hsp => hne ⟨e, ?_⟩
    · rw [hr.eff_eq] at this
      exact this
    · rw [List.mem_singleton.mp hx] at hsp
      exact ⟨hsp.1.trans hsame.1, hsp.2.trans hsame.2⟩

/-- **`vm_area_load` inside one page** -/
theorem vmAreaLoad_page (fs : Nat → Option ExecFile) (h : Ready base live dirs mm) (hd : pd ∈ dirs)
    {vma : VmArea} (hok : vma.Ok) (hty : vma.type = .file) (hptr : vma.src.ptr ≠ 0) {f lo len : Nat}
    (hf : frameAt mm pd lo = some f) (h0 : 0 < len) (h1 : lo % 4096 + len ≤ 4096)
    (h2 : vma.startAddress ≤ lo) (h3 : lo + len ≤ vma.startAddress + vma.size)
    (hu : vma.startAddress + vma.size < 2^32) (hlo : UserPde (pdeIndex lo)) {foff : Nat}
    (hfo : foff = u32 (vma.src.startOffset + (lo - vma.startAddress)))
    (hcount : getbytesCount (fs vma.src.ptr) foff len = len) :
    ∃ mm' live', vmAreaLoad fs mm pd vma lo len = (mm', (len : Int)) ∧
      Ready base live' dirs mm' ∧ (∀ b ∈ live, b ∈ live') ∧ mm'.lomem = mm.lomem ∧
      frameAt mm' pd lo = some f ∧ PageOnly dirs pd lo mm mm' ∧
      mm'.mem = (mm.fill (f + pageDiv lo) len fun i =>
        fileByte fs vma.src.ptr (toInt foff + (i : Nat))).mem := by
  obtain ⟨file, hfile⟩ : ∃ file, fs vma.src.ptr = some file := by
    cases hc : fs vma.src.ptr with
    | none =>
      rw [hc] at hcount
      exact absurd hcount (by simp only [getbytesCount]; omega)
    | some file => exact ⟨file, rfl⟩
  rw [hfile] at hcount
  have hflags : vma.flags ||| pgFlagPresent < 4096 :=
    Nat.or_lt_two_pow (n := 12) hok.flags (by decide)
  obtain ⟨m3, live3, e6, r1, r2, r3, r4, r5, r6⟩ := h.refill hd hlo hf hflags
    (mm.fill (f + pageDiv lo) len fun i => file.execbytes (toInt foff + (i : Nat))).mem
  refine ⟨m3.eff, live3, ?_, r1, r2, r4, r5, r6, ?_⟩
  · rw [vmAreaLoad_single fs hfile hty hptr hf h0 h1 h2 h3 hu hfo hcount, ← e6]
    rfl
  · show m3.mem = _
    rw [r3]
    unfold fileByte
    rw [hfile]

theorem getbytes_snd (m : Mm) (file : Option ExecFile) (off n buf : Nat) :
    (m.getbytes file off n buf).2 = getbytesCount file off n := by
  unfold Mm.getbytes
  cases file <;> rfl

theorem vmAreaLoadLoop_neg {vma : VmArea} {file : Option ExecFile} {foffset length vpf lo n : Nat}
    {vpfs : List Nat} (hn : (if lo + length > pageSize then pageSize - lo else length) = n)
    (hc : getbytesCount file (u32 foffset) n ≠ n) (m : Mm) :
    (vmAreaLoadLoop pd vma file foffset length (vpf :: vpfs) lo 0 m).2 < 0 := by
  unfold vmAreaLoadLoop
  simp only [Nat.sub_zero, Nat.add_zero, hn]
  generalize hr : Mm.getbytes _ _ _ _ _ = r
  obtain ⟨m', k⟩ := r
  have hk : k = getbytesCount file (u32 foffset) n := by
    rw [← getbytes_snd _ file (u32 foffset) n _, hr]
  by_cases hneg : k < 0
  · simp only [if_pos hneg]
    exact hneg
  · have hne : k = 0 ∨ k ≠ n := .inr (by rw [hk]; exact hc)
    simp only [if_neg hneg, if_pos hne]
    exact Int.negSucc_lt_zero 0

/-- where the file does not hold the part asked for, `vm_area_load` fails -/
theorem vmAreaLoad_neg (fs : Nat → Option ExecFile) {vma : VmArea} {lo len foff : Nat}
    (hlo : lo < 2^32) (h0 : 0 < len) (h1 : lo % 4096 + len ≤ 4096)
    (hfo : foff = u32 (vma.src.startOffset + (lo - vma.startAddress)))
    (hcount : ¬ (vma.src.ptr ≠ 0 ∧ getbytesCount (fs vma.src.ptr) foff len = len)) :
    (vmAreaLoad fs mm pd vma lo len).2 < 0 := by
  have e3 : u32 foff = foff := by
    rw [hfo]
    exact Nat.mod_mod _ _
  have hlen : ¬ (pageDiv lo + len > pageSize) := by
    rw [pageDiv_eq]
    show ¬ (lo % 4096 + len > 4096)
    omega
  unfold vmAreaLoad
  by_cases hc : vma.startAddress > lo ∨ u32 (vma.startAddress + vma.size) < u32 (lo + len) ∨
      vma.type ≠ .file ∨ vma.src.ptr = 0
  · rw [if_pos hc]
    exact Int.negSucc_lt_zero 0
  · have hptr : vma.src.ptr ≠ 0 := fun h => hc (.inr (.inr (.inr h)))
    rw [if_neg hc]
    simp only [vmPages_single hlo h0 h1]
    refine vmAreaLoadLoop_neg (if_neg hlen) ?_ mm
    rw [← hfo, e3]
    exact fun h => hcount ⟨hptr, h⟩

theorem userPde_of_range {a : Nat} (h1 : userMemStart ≤ pageAddr a)
    (h2 : pageAddr a < vmmKernelBase)
    (ha : a < 2^32) : UserPde (pdeIndex a) := by
  unfold userMemStart at h1
  unfold vmmKernelBase at h2
  rw [pageAddr_of_lt ha] at h1 h2
  rw [pdeIndex_eq]
  unfold UserPde
  omega

theorem VmArea.Ok.userPde {vma : VmArea} (h : vma.Ok) (hn : vma.nopage ≠ .default) (ha : a < 2^32)
    (hc : vma.covers a = true) :
    UserPde (pdeIndex a) ∧ vma.startAddress + vma.size < 2^32 := by
  obtain ⟨h1, h2⟩ := h.user hn
  obtain ⟨hc1, hc2⟩ := (h.covers_iff a).mp hc
  have h3 := h.pos
  unfold userMemStart at h1
  unfold vmmKernelBase at h2
  refine ⟨userPde_of_range ?_ ?_ ha, by omega⟩
  · rw [pageAddr_of_lt (by omega)] at hc1
    unfold userMemStart
    omega
  · rw [pageAddr_of_lt (by omega : vma.startAddress + vma.size - 1 < 2^32)] at hc2
    unfold vmmKernelBase
    omega

/-- the bytes of its page that an area fills, and with what -/
structure Filled (fs : Nat → Option ExecFile) (vma : VmArea) (a f : Nat) (mem mem' : Nat → Nat) :
    Prop where
  inside : ∀ b, b < 2^32 → pageAddr b = pageAddr a → vma.Contains b → ∀ v,
    vma.initial fs a b = some v → mem' (f + pageDiv b) = v
  outside : ∀ b, b < 2^32 → pageAddr b = pageAddr a → ¬ vma.Contains b →
    mem' (f + pageDiv b) = mem (f + pageDiv b)
  other : ∀ x, x < f ∨ f + 4096 ≤ x → mem' x = mem x

theorem Filled.congr {fs : Nat → Option ExecFile} {vma : VmArea} {f : Nat} {mem mem' m : Nat → Nat}
    (h : Filled fs vma a f mem mem') (e : mem = m) : Filled fs vma a f m mem' := e ▸ h

theorem Filled.of_fill {fs : Nat → Option ExecFile} {vma : VmArea} {f : Nat} (hok : vma.Ok)
    (ha : a < 2^32) (hc : vma.covers a = true) {g : Nat → Nat}
    (hg : ∀ b, (vma.clip a).1 ≤ b → vma.Contains b → ∀ v, vma.initial fs a b = some v →
      g (b - (vma.clip a).1) = v) {mm mm' : Mm}
    (hm : mm'.mem = (mm.fill (f + pageDiv (vma.clip a).1) (vma.clip a).2 g).mem) :
    Filled fs vma a f mm.mem mm'.mem := by
  obtain ⟨c1, c2, c3⟩ := hok.clip ha hc
  have hle : pageAddr a ≤ (vma.clip a).1 := by
    rw [c1]
    exact Nat.le_max_right _ _
  have hin : ∀ b, pageAddr b = pageAddr a → b < 2^32 → pageAddr a ≤ b ∧ b < pageAddr a + 4096 := by
    intro b hb hb'
    rw [← hb, pageAddr_of_lt hb']
    omega
  have hlo : (vma.clip a).1 < 2^32 ∧ pageAddr (vma.clip a).1 = pageAddr a := by
    have h1 := hok.noWrap
    have h2 := hok.pos
    have h4 : (vma.clip a).1 < pageAddr a + 4096 := by omega
    rw [pageAddr_of_lt ha] at hle h4 ⊢
    have h5 : (vma.clip a).1 < 2^32 := by omega
    refine ⟨h5, ?_⟩
    rw [pageAddr_of_lt h5]
    omega
  refine ⟨fun b hlt hb hcon v hv => ?_, fun b hlt hb hcon => ?_, fun x hx => ?_⟩
  · obtain ⟨h1, h2⟩ := hin b hb hlt
    obtain ⟨h3, h4⟩ := hcon
    have hle' : (vma.clip a).1 ≤ b := by
      rw [c1]
      exact Nat.max_le.mpr ⟨h3, h1⟩
    have e := pageDiv_sub hle hle' h2 ha
    rw [hm]
    show (if _ then _ else _) = v
    rw [if_pos (by omega), e,
      show f + (pageDiv (vma.clip a).1 + (b - (vma.clip a).1)) - (f + pageDiv (vma.clip a).1)
        = b - (vma.clip a).1 by omega]
    exact hg b hle' ⟨h3, h4⟩ v hv
  · obtain ⟨h1, h2⟩ := hin b hb hlt
    rw [hm]
    show (if _ then _ else _) = _
    rw [if_neg]
    rintro ⟨h3, h4⟩
    refine hcon ?_
    have e1 := pageDiv_eq b
    have e2 := pageDiv_eq (vma.clip a).1
    rw [pageAddr_of_lt ha] at h1 h2 hle
    have h5 := hlo.2
    rw [pageAddr_of_lt hlo.1, pageAddr_of_lt ha] at h5
    rw [pageAddr_of_lt ha] at c1 c3
    unfold VmArea.Contains
    omega
  · rw [hm]
    show (if _ then _ else _) = _
    rw [if_neg]
    have e := pageDiv_eq (vma.clip a).1
    have h5 := hlo.2
    rw [pageAddr_of_lt hlo.1, pageAddr_of_lt ha] at h5
    rw [pageAddr_of_lt ha] at c1 c3
    omega

theorem vmaNopageAlloc_eq {vma : VmArea} {m1 : Mm}
    (h1 : vmAreaCreate mm pd vma (pageAddr a) pageSize = (m1, true)) :
    vmaNopageAlloc mm pd vma a = (m1, 0) := by
  unfold vmaNopageAlloc
  rw [h1]

theorem vmaNopageFile_of_create {fs : Nat → Option ExecFile} {vma : VmArea} {m1 : Mm}
    (h1 : vmAreaCreate mm pd vma (pageAddr a) pageSize = (m1, true)) :
    vmaNopageFile fs mm pd vma a =
      ((vmAreaLoad fs m1 pd vma (vma.clip a).1 (vma.clip a).2).1.vmmFlushMmuUpdateQueue,
        (vmAreaLoad fs m1 pd vma (vma.clip a).1 (vma.clip a).2).2) := by
  unfold vmaNopageFile
  rw [h1, if_pos rfl]

theorem vmaNopageFile_eq {fs : Nat → Option ExecFile} {vma : VmArea} {m1 m2 : Mm} {rc : Int}
    (h1 : vmAreaCreate mm pd vma (pageAddr a) pageSize = (m1, true))
    (h2 : vmAreaLoad fs m1 pd vma (vma.clip a).1 (vma.clip a).2 = (m2, rc)) :
    vmaNopageFile fs mm pd vma a = (m2.vmmFlushMmuUpdateQueue, rc) := by
  rw [vmaNopageFile_of_create h1, h2]

theorem vmaNopageZeropage_eq {vma : VmArea} {m1 m2 : Mm}
    (h1 : vmAreaCreate mm pd vma (pageAddr a) pageSize = (m1, true))
    (h2 : (vmAreaZero m1 pd vma (vma.clip a).1 (vma.clip a).2).1 = m2) :
    vmaNopageZeropage mm pd vma a = (m2, 0) := by
  unfold vmaNopageZeropage
  rw [h1, if_pos rfl, h2]

theorem callNopage_alloc {fs : Nat → Option ExecFile} {vma : VmArea} (h : vma.nopage = .alloc) :
    vma.callNopage fs mm pd a = some (vmaNopageAlloc mm pd vma a) := by
  unfold VmArea.callNopage
  rw [h]

theorem callNopage_file {fs : Nat → Option ExecFile} {vma : VmArea} (h : vma.nopage = .file) :
    vma.callNopage fs mm pd a = some (vmaNopageFile fs mm pd vma a) := by
  unfold VmArea.callNopage
  rw [h]

theorem callNopage_zeropage {fs : Nat → Option ExecFile} {vma : VmArea}
    (h : vma.nopage = .zeropage) :
    vma.callNopage fs mm pd a = some (vmaNopageZeropage mm pd vma a) := by
  unfold VmArea.callNopage
  rw [h]

theorem Mm.memset_eq_fill (mm : Mm) (dst v n : Nat) :
    mm.memset dst v n = mm.fill dst n (fun _ => v) :=
  rfl

/-- contents have nothing to do with mappings -/
theorem Mm.fill_mapping (mm : Mm) (dst n : Nat) (g : Nat → Nat) (d b : Nat) :
    (mm.fill dst n g).vmmGetMapping d b = mm.vmmGetMapping d b := by
  rw [Mm.vmmGetMapping_eq, Mm.vmmGetMapping_eq]
  rfl

theorem frameAt_fill (mm : Mm) (dst n : Nat) (g : Nat → Nat) (d b : Nat) :
    frameAt (mm.fill dst n g) d b = frameAt mm d b := by
  unfold frameAt
  rw [Mm.fill_mapping]

theorem Ready.fill (h : Ready base live dirs mm) (dst n : Nat) (g : Nat → Nat) :
    Ready base live dirs (mm.fill dst n g) := h.setMem _

theorem PageOnly.fill (mm : Mm) (dst n : Nat) (g : Nat → Nat) :
    PageOnly dirs pd a mm (mm.fill dst n g) :=
  ⟨rfl, fun d _ b _ _ => mm.fill_mapping dst n g d b⟩

/-- one page is created as a whole -/
theorem vmAreaCreate_pageAddr (ha : a < 2^32) (vma : VmArea) :
    vmAreaCreate mm pd vma (pageAddr a) pageSize
      = vmAreaCreateLoop pd vma.flags [pageAddr a] mm := by
  have hps : pageSize = 4096 := rfl
  unfold vmAreaCreate
  rw [vmPages_single (pageAddr_lt a) (by rw [hps]; decide)
    (by rw [hps, pageAddr_of_lt ha]; omega), pageAddr_pageAddr]

/-- the part of the page that `nopage` works on is a range of the area inside the page -/
structure VmArea.Part (vma : VmArea) (a lo len : Nat) : Prop where
  pos : 0 < len
  lt : lo < 2^32
  page : pageAddr lo = pageAddr a
  fit : lo % 4096 + len ≤ 4096
  start : vma.startAddress ≤ lo
  stop : lo + len ≤ vma.startAddress + vma.size

theorem VmArea.Ok.part {vma : VmArea} (hok : vma.Ok) (ha : a < 2^32) (hc : vma.covers a = true) :
    vma.Part a (vma.clip a).1 (vma.clip a).2 := by
  obtain ⟨c1, c2, c3⟩ := hok.clip ha hc
  have h1 := hok.noWrap
  generalize (vma.clip a).1 = lo at c1 c3 ⊢
  generalize (vma.clip a).2 = len at c2 c3 ⊢
  have hp := pageAddr_of_lt ha
  have hlo : lo < 2^32 := by omega
  have hpage : pageAddr lo = pageAddr a := by
    rw [pageAddr_of_lt hlo]
    omega
  refine ⟨c2, hlo, hpage, ?_, ?_, ?_⟩
  · rw [pageAddr_of_lt hlo] at hpage
    omega
  · omega
  · omega

/-- what `nopage` did to the page: it is mapped to `f`, and the area's part of it is filled -/
structure NopageDone (fs : Nat → Option ExecFile) (base live live' : List Block) (dirs : List Nat)
    (pd a : Nat) (vma : VmArea) (f : Nat) (mm mm' : Mm) : Prop where
  ready : Ready base live' dirs mm'
  keep : ∀ b ∈ live, b ∈ live'
  frame : frameAt mm' pd a = some f
  same : ∀ g, frameAt mm pd a = some g → g = f
  fresh : frameAt mm pd a = none → mm.vmmPpfAlloc.2 = some f
  only : PageOnly dirs pd a mm mm'
  filled : Filled fs vma a f mm.mem mm'.mem

/-- after `vm_area_create` nothing is filled yet -/
structure PageCreated (base live live' : List Block) (dirs : List Nat) (pd a f : Nat)
    (mm mm' : Mm) :
    Prop where
  ready : Ready base live' dirs mm'
  keep : ∀ b ∈ live, b ∈ live'
  frame : frameAt mm' pd a = some f
  same : ∀ g, frameAt mm pd a = some g → g = f
  fresh : frameAt mm pd a = none → mm.vmmPpfAlloc.2 = some f
  only : PageOnly dirs pd a mm mm'
  mem : mm'.mem = mm.mem

theorem framesFor_pageAddr : FramesFor mm pd (pageAddr a) ↔ FramesFor mm pd a := by
  unfold FramesFor
  rw [(samePage_pageAddr a).1]

theorem vmAreaCreate_created (h : Ready base live dirs mm) (hd : pd ∈ dirs) {vma : VmArea}
    (hfl : vma.flags < 4096) (hu : UserPde (pdeIndex a)) (ha : a < 2^32)
    (hcan : frameAt mm pd a = none → FramesFor mm pd a) :
    ∃ m1 live1 f, vmAreaCreate mm pd vma (pageAddr a) pageSize = (m1, true) ∧
      PageCreated base live live1 dirs pd a f mm m1 := by
  have hsp := samePage_pageAddr a
  have hup : UserPde (pdeIndex (pageAddr a)) := by
    rw [hsp.1]
    exact hu
  have hfa : ∀ m : Mm, frameAt m pd (pageAddr a) = frameAt m pd a := fun m => hsp.frameAt m pd
  obtain ⟨m1, live1, f, e, r1, r2, r3, r4, r5, r6, r7, -⟩ := vmAreaCreate_page h hd hfl hup
    (fun hnone => framesFor_pageAddr.mpr (hcan (by rw [← hfa]; exact hnone)))
  rw [hfa] at r4 r6
  refine ⟨m1, live1, f, (vmAreaCreate_pageAddr ha vma).trans e, r1, r2, r4, ?_, r6,
    ⟨r7.himem, ?_⟩, r3⟩
  · intro g hg
    exact r5 g (by rw [hfa]; exact hg)
  · intro d hd' b hb hne
    exact r7.mapping d hd' b hb fun hx => hne ⟨hx.1, hx.2.1.trans hsp.1, hx.2.2.trans hsp.2⟩

/-- a part of the page filled after it was created -/
theorem PageCreated.done {fs : Nat → Option ExecFile} {live1 live2 : List Block} {m1 m2 : Mm}
    {f : Nat}
    {vma : VmArea} (h : PageCreated base live live1 dirs pd a f mm m1) (hr : Ready base live2 dirs m2)
    (hk : ∀ b ∈ live1, b ∈ live2) (hf : frameAt m2 pd a = some f) (ho : PageOnly dirs pd a m1 m2)
    (hfill : Filled fs vma a f m1.mem m2.mem) :
    NopageDone fs base live live2 dirs pd a vma f mm m2 where
  ready := hr
  keep b hb := hk b (h.keep b hb)
  frame := hf
  same := h.same
  fresh := h.fresh
  only := h.only.trans ho
  filled := hfill.congr h.mem

section
variable {fs : Nat → Option ExecFile} {vma : VmArea} {live1 : List Block} {m1 : Mm} {f : Nat}

theorem nopageFile_done (h : PageCreated base live live1 dirs pd a f mm m1) (hd : pd ∈ dirs)
    (he : vmAreaCreate mm pd vma (pageAddr a) pageSize = (m1, true)) (hok : vma.Ok)
    (hty : vma.type = .file) (hb : vma.PartBacked fs a) (ha : a < 2^32) (hc : vma.covers a = true)
    (hu : UserPde (pdeIndex a)) (hlt : vma.startAddress + vma.size < 2^32) :
    ∃ m2 live2 rc, vmaNopageFile fs mm pd vma a = (m2, rc) ∧ 0 ≤ rc ∧
      NopageDone fs base live live2 dirs pd a vma f mm m2 := by
  have hp := hok.part ha hc
  have hsp : SamePage (vma.clip a).1 a := (samePage_iff hp.lt ha).mpr hp.page
  have hfl : frameAt m1 pd (vma.clip a).1 = some f := by
    rw [hsp.frameAt]
    exact h.frame
  obtain ⟨hptr, hcount⟩ := hb hty
  obtain ⟨m2, live2, e2, s1, s2, -, s4, s5, s6⟩ := vmAreaLoad_page fs h.ready hd hok hty hptr hfl
    hp.pos hp.fit hp.start hp.stop hlt (by rw [hsp.1]; exact hu) rfl hcount
  refine ⟨m2, live2, ((vma.clip a).2 : Nat), ?_, Int.natCast_nonneg _, h.done s1 s2 ?_ ⟨s5.himem, ?_⟩ ?_⟩
  · rw [vmaNopageFile_eq he e2, Mm.flush_eq, s1.eff_eq]
  · rw [← hsp.frameAt]
    exact s4
  · intro d hd' b hb' hne
    exact s5.mapping d hd' b hb' fun hx => hne ⟨hx.1, hx.2.1.trans hsp.1, hx.2.2.trans hsp.2⟩
  · refine Filled.of_fill hok ha hc ?_ s6
    intro b hle hcon v hv
    rw [VmArea.initial_file fs hty] at hv
    exact Option.some.inj hv

theorem snd_neg_of_eq {r : Mm × Int} {m2 : Mm} {n : Int} (h : r = (m2, n)) (hn : n < 0) :
    r.2 < 0 := by
  rw [h]
  exact hn

theorem nopageFile_neg (he : vmAreaCreate mm pd vma (pageAddr a) pageSize = (m1, true))
    (hok : vma.Ok)
    (hty : vma.type = .file) (hb : ¬ vma.PartBacked fs a) (ha : a < 2^32) (hc : vma.covers a = true) :
    (vmaNopageFile fs mm pd vma a).2 < 0 := by
  have hp := hok.part ha hc
  have hcount : ¬ (vma.src.ptr ≠ 0 ∧ getbytesCount (fs vma.src.ptr) (vma.partOffset a) (vma.clip a).2
      = (vma.clip a).2) := fun h => hb fun _ => h
  have hneg : (vmAreaLoad fs m1 pd vma (vma.clip a).1 (vma.clip a).2).2 < 0 :=
    vmAreaLoad_neg fs hp.lt hp.pos hp.fit rfl hcount
  exact snd_neg_of_eq (vmaNopageFile_of_create he) hneg

/-- the part the area covers is filled with `g` -/
theorem PageCreated.fill_done (h : PageCreated base live live1 dirs pd a f mm m1) (hok : vma.Ok)
    (ha : a < 2^32) (hc : vma.covers a = true) {g : Nat → Nat} {dst n : Nat}
    (hdst : dst = f + pageDiv (vma.clip a).1) (hn : n = (vma.clip a).2)
    (hg : ∀ b, (vma.clip a).1 ≤ b → vma.Contains b → ∀ v, vma.initial fs a b = some v →
      g (b - (vma.clip a).1) = v) :
    NopageDone fs base live live1 dirs pd a vma f mm (m1.fill dst n g) := by
  have hfr : frameAt (m1.fill dst n g) pd a = some f := (frameAt_fill ..).trans h.frame
  have hfill : Filled fs vma a f m1.mem (m1.fill dst n g).mem :=
    Filled.of_fill hok ha hc hg (by rw [hdst, hn])
  exact h.done (h.ready.fill dst n g) (fun b hb => hb) hfr (.fill m1 dst n g) hfill

theorem nopageZeropage_done (h : PageCreated base live live1 dirs pd a f mm m1)
    (he : vmAreaCreate mm pd vma (pageAddr a) pageSize = (m1, true)) (hok : vma.Ok)
    (hty : vma.type = .zeropage) (ha : a < 2^32) (hc : vma.covers a = true)
    (hlt : vma.startAddress + vma.size < 2^32) :
    ∃ m2 live2 rc, vmaNopageZeropage mm pd vma a = (m2, rc) ∧ 0 ≤ rc ∧
      NopageDone fs base live live2 dirs pd a vma f mm m2 := by
  have hp := hok.part ha hc
  have hsp : SamePage (vma.clip a).1 a := (samePage_iff hp.lt ha).mpr hp.page
  have hfl : frameAt m1 pd (vma.clip a).1 = some f := by
    rw [hsp.frameAt]
    exact h.frame
  have e2 := vmAreaZero_page h.ready hok hfl hp.pos hp.fit hp.start hp.stop hlt
  rw [Mm.memset_eq_fill] at e2
  refine ⟨_, live1, 0, vmaNopageZeropage_eq he e2, Int.le_refl 0, h.fill_done hok ha hc rfl rfl ?_⟩
  intro b _ _ v hv
  rw [VmArea.initial_zeropage fs hty] at hv
  exact Option.some.inj hv

theorem nopageAlloc_done (h : PageCreated base live live1 dirs pd a f mm m1)
    (he : vmAreaCreate mm pd vma (pageAddr a) pageSize = (m1, true)) (hty : vma.type = .alloc) :
    ∃ m2 live2 rc, vmaNopageAlloc mm pd vma a = (m2, rc) ∧ 0 ≤ rc ∧
      NopageDone fs base live live2 dirs pd a vma f mm m2 := by
  refine ⟨m1, live1, 0, vmaNopageAlloc_eq he, Int.le_refl 0,
    h.done h.ready (fun b hb => hb) h.frame (.refl ..) ?_⟩
  refine ⟨fun b _ _ _ v hv => ?_, fun _ _ _ _ => rfl, fun _ _ => rfl⟩
  rw [VmArea.initial_alloc fs hty] at hv
  cases hv

variable (fs) in
/-- **a `nopage` method maps the page and fills the part the area covers**, unless the file does not
hold it -/
theorem callNopage_done (h : Ready base live dirs mm) (hd : pd ∈ dirs) (hok : vma.Ok)
    (hn : vma.nopage ≠ .default) (ha : a < 2^32) (hc : vma.covers a = true)
    (hcan : frameAt mm pd a = none → FramesFor mm pd a) :
    (∃ r, vma.callNopage fs mm pd a = some r ∧ r.2 < 0 ∧ ¬ vma.PartBacked fs a) ∨
    ∃ m2 live2 f rc, vma.callNopage fs mm pd a = some (m2, rc) ∧ 0 ≤ rc ∧ vma.PartBacked fs a ∧
      NopageDone fs base live live2 dirs pd a vma f mm m2 := by
  obtain ⟨hu, hlt⟩ := hok.userPde hn ha hc
  obtain ⟨m1, live1, f, he, hcr⟩ := vmAreaCreate_created h hd hok.flags hu ha hcan
  have hnp := hok.nopage
  cases hty : vma.type with
  | file =>
    rw [hty] at hnp
    rw [callNopage_file hnp]
    by_cases hb : vma.PartBacked fs a
    · obtain ⟨m2, live2, rc, e, h0, hdone⟩ :=
        nopageFile_done hcr hd he hok hty hb ha hc hu hlt
      exact .inr ⟨m2, live2, f, rc, congrArg some e, h0, hb, hdone⟩
    · exact .inl ⟨_, rfl, nopageFile_neg he hok hty hb ha hc, hb⟩
  | zeropage =>
    rw [hty] at hnp
    rw [callNopage_zeropage hnp]
    obtain ⟨m2, live2, rc, e, h0, hdone⟩ := nopageZeropage_done hcr he hok hty ha hc hlt
    exact .inr ⟨m2, live2, f, rc, congrArg some e, h0, fun h => (by rw [hty] at h; cases h), hdone⟩
  | alloc =>
    rw [hty] at hnp
    rw [callNopage_alloc hnp]
    obtain ⟨m2, live2, rc, e, h0, hdone⟩ := nopageAlloc_done hcr he hty
    exact .inr ⟨m2, live2, f, rc, congrArg some e, h0, fun h => (by rw [hty] at h; cases h), hdone⟩
  | kernelStack => rw [hty] at hnp; exact absurd hnp hn
  | direct => rw [hty] at hnp; exact absurd hnp hn
  | cow => rw [hty] at hnp; exact absurd hnp hn
  | copy => rw [hty] at hnp; exact absurd hnp hn

end

end

end Paravirt

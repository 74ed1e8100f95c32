import Paravirt.MmInv

/-!
# Page tables in machine memory (kern/vmm_page.c)

The hypervisor keeps page tables in terms of machine addresses: an entry holds a machine page, an
update names the machine address of an entry, and the kernel gets at an entry through the
pseudo-physical map.  `Mm` has the same functions with machine and pseudo-physical pages
identified.

* `Xen`              machine memory, the two frame maps, the update queue, the lomem zone;
* `Xen.vmmMapPage`, `Xen.vmmGetMapping`, `Xen.vmmQueueMmuUpdate`, `Xen.vmmFlushMmuUpdateQueue`;
* `OwnPde`           the entries of a directory below the hypervisor's own;
* `Xen.Wf`           directories whose tables are frames of the domain, each used once;
* `Xen.Wf.load_pde`, `Xen.Wf.pte`, `Xen.Wf.load_pte`   the pointer detours are transparent.
-/

set_option linter.unusedSectionVars false
set_option linter.unusedVariables false

namespace Paravirt
open Tiling

/-! ## the functions -/

structure Xen where
  lomem : VmmZone
  /-- the word at a machine address -/
  mem : Nat → Nat
  xenMfnList : Nat → Nat
  machineToPhysMapping : Nat → Nat
  queue : List (Nat × Nat)

def Xen.machToPhys (x : Xen) (mach : Nat) : Nat :=
  (x.machineToPhysMapping (mach >>> 12) <<< 12) ||| pageDiv mach

def Xen.physToMach (x : Xen) (phys : Nat) : Nat :=
  (x.xenMfnList (phys >>> 12) <<< 12) ||| pageDiv phys

/-- the word at a kernel virtual address -/
def Xen.load (x : Xen) (vaddr : Nat) : Nat := x.mem (x.physToMach (v2p vaddr))

/-- `HYPERVISOR_mmu_update` applies the requests in order -/
def mmuUpdate (mem : Nat → Nat) : List (Nat × Nat) → Nat → Nat
  | [] => mem
  | (ptr, v) :: q => mmuUpdate (Function.update mem ptr v) q

def Xen.vmmFlushMmuUpdateQueue (x : Xen) : Xen :=
  { x with mem := mmuUpdate x.mem x.queue, queue := [] }

def Xen.vmmQueueMmuUpdate (x : Xen) (ptr value : Nat) : Xen :=
  let x := { x with queue := x.queue ++ [(ptr, value)] }
  if x.queue.length = xenUpdateQueueSize then x.vmmFlushMmuUpdateQueue else x

def Xen.vmmPpfAlloc (x : Xen) : Xen × Option Nat :=
  let (z, p) := vmmBuddyGetFreePages x.lomem 1
  ({ x with lomem := z }, p)

/-- `memset(page, 0, PAGE_SIZE)` -/
def Xen.zeroPage (x : Xen) (page : Nat) : Xen :=
  let m := x.physToMach (v2p page)
  { x with mem := fun a => if m ≤ a ∧ a < m + 4096 then 0 else x.mem a }

/-- `VMM_GET_PDE` -/
def vmmGetPde (pageDir vaddr : Nat) : Nat := pageDir + 4 * pdeIndex vaddr

/-- `VMM_GET_PGTAB` -/
def Xen.vmmGetPgtab (x : Xen) (pageDir vaddr : Nat) : Nat :=
  pageAddr (x.load (vmmGetPde pageDir vaddr))

/-- `VMM_GET_PTE`, a machine address -/
def Xen.vmmGetPte (x : Xen) (pageDir vaddr : Nat) : Nat :=
  if x.vmmGetPgtab pageDir vaddr = 0 then 0
  else x.vmmGetPgtab pageDir vaddr + 4 * pteIndex vaddr

def pdFlagRsvd : Nat := 0x40

/-- the branch of `vmm_map_page` for a missing page table -/
def Xen.mapPageTable (x : Xen) (pageDir vaddr : Nat) : Xen × Bool :=
  let pdeMa := x.physToMach (v2p (p2v (vmmGetPde pageDir vaddr)))
  match x.vmmPpfAlloc with
  | (x, none) => (x, false)
  | (x, some ptPpf) =>
    let x := x.zeroPage ptPpf
    let ptPpfMa := x.physToMach (v2p ptPpf)
    let x := x.vmmQueueMmuUpdate (x.vmmGetPte pageDir ptPpf)
      (pgtabAttribSuRo ||| pgFlagPresent ||| pageAddr ptPpfMa)
    let x := x.vmmQueueMmuUpdate pdeMa
      ((pgtabAttribUsrRw ||| pgFlagPresent ||| pageAddr ptPpfMa) &&& (0xffffffff ^^^ pdFlagRsvd))
    (x.vmmFlushMmuUpdateQueue, true)

/-- what a page-table entry is to hold; a `NULL` page is a zero mapping -/
def Xen.mapVal (x : Xen) (ppf flags : Nat) : Nat :=
  if ppf ≠ 0 then flags ||| x.physToMach (v2p ppf) else 0

/-- the rest of `vmm_map_page`: the entry is compared IN MEMORY -/
def Xen.mapPageEntry (x : Xen) (pageDir vaddr ppf flags : Nat) : Xen :=
  let pteMa := x.vmmGetPte pageDir vaddr
  let pte := p2v (x.machToPhys pteMa)
  if x.load pte ≠ x.mapVal ppf flags then x.vmmQueueMmuUpdate pteMa (x.mapVal ppf flags) else x

/-- `vmm_map_page`; `false` is the return value -1 -/
def Xen.vmmMapPage (x : Xen) (pageDir vaddr ppf flags : Nat) : Xen × Bool :=
  if x.load (p2v (vmmGetPde pageDir vaddr)) = 0 then
    match x.mapPageTable pageDir vaddr with
    | (x, false) => (x, false)
    | (x, true) => (x.mapPageEntry pageDir vaddr ppf flags, true)
  else (x.mapPageEntry pageDir vaddr ppf flags, true)

def Xen.vmmGetMapping (x : Xen) (pageDir vaddr : Nat) : Nat :=
  if x.load (p2v (vmmGetPde pageDir vaddr)) = 0 then 0
  else
    let pteMa := x.vmmGetPte pageDir vaddr
    if pteMa = 0 then 0
    else
      let mappingMa := x.load (p2v (x.machToPhys pteMa))
      let ppfMa := pageAddr mappingMa
      let ppfPa := if ppfMa ≠ 0 then x.machToPhys ppfMa else 0
      ppfPa ||| pageDiv mappingMa

/-! ## the frame maps -/

/-- the machine page of a kernel virtual page -/
def Xen.machOf (x : Xen) (f : Nat) : Nat := x.xenMfnList (v2p f / 4096) * 4096

/-- on the domain's frames the two maps are inverse, and no machine frame is 0 -/
structure Xen.FrameMaps (x : Xen) (dom : Nat → Prop) : Prop where
  frame : ∀ f, dom f → IsFrame f
  inv : ∀ f, dom f → x.machineToPhysMapping (x.xenMfnList (v2p f / 4096)) = v2p f / 4096
  pos : ∀ f, dom f → x.xenMfnList (v2p f / 4096) ≠ 0
  lt : ∀ f, dom f → x.xenMfnList (v2p f / 4096) < 2^20

theorem shift_or {a b : Nat} (hb : b < 4096) : (a <<< 12) ||| b = a * 4096 + b := by
  rw [Nat.shiftLeft_eq]
  have h := Nat.two_pow_add_eq_or_of_lt (i := 12) (b := b) (by omega) a
  rw [Nat.mul_comm] at h
  exact h.symm

theorem or_or_self (a b : Nat) : (a ||| b) ||| b = a ||| b := by rw [Nat.or_assoc, Nat.or_self]

theorem p2v_p2v (a : Nat) : p2v (p2v a) = p2v a := or_or_self a _

namespace Xen.FrameMaps
variable {x : Xen} {dom : Nat → Prop} {f g i j : Nat}

theorem physToMach (h : x.FrameMaps dom) (hf : dom f) (hi : i < 4096) :
    x.physToMach (v2p f + i) = x.machOf f + i := by
  have hfr := h.frame f hf
  have h3 := hfr.dvd
  have h1 := hfr.base
  unfold vmmKernelBase at h1
  have e : (v2p f + i) >>> 12 = v2p f / 4096 := by
    rw [Nat.shiftRight_eq_div_pow, hfr.v2p]
    omega
  have e2 : pageDiv (v2p f + i) = i := by
    rw [pageDiv_eq, hfr.v2p]
    omega
  unfold Xen.physToMach Xen.machOf
  rw [e, e2, shift_or hi]

theorem physToMach_v2p (h : x.FrameMaps dom) (hf : dom f) :
    x.physToMach (v2p f) = x.machOf f := by
  have h0 := h.physToMach hf (i := 0) (by decide)
  rwa [Nat.add_zero, Nat.add_zero] at h0

theorem v2p_add (h : x.FrameMaps dom) (hf : dom f) (hi : i < 4096) :
    v2p (f + i) = v2p f + i := by
  have hfr := h.frame f hf
  have h1 := hfr.base
  have h2 := hfr.top
  have h3 := hfr.dvd
  unfold vmmKernelBase at h1
  rw [v2p_eq, v2p_eq]
  omega

theorem p2v_add (h : x.FrameMaps dom) (hf : dom f) (hi : i < 4096) : p2v (f + i) = f + i := by
  have hfr := h.frame f hf
  have h1 := hfr.base
  have h2 := hfr.top
  have h3 := hfr.dvd
  unfold vmmKernelBase at h1
  have e : p2v (f + i - 0xc0000000) = f + i := by
    rw [p2v_eq (by omega)]
    omega
  calc p2v (f + i) = p2v (p2v (f + i - 0xc0000000)) := by rw [e]
    _ = f + i := by rw [p2v_p2v, e]

theorem load (h : x.FrameMaps dom) (hf : dom f) (hi : i < 4096) :
    x.load (f + i) = x.mem (x.machOf f + i) := by
  unfold Xen.load
  rw [h.v2p_add hf hi, h.physToMach hf hi]

theorem machOf_div (h : x.FrameMaps dom) (hf : dom f) (hi : i < 4096) :
    (x.machOf f + i) / 4096 = x.xenMfnList (v2p f / 4096) ∧ (x.machOf f + i) % 4096 = i := by
  unfold Xen.machOf
  omega

theorem machToPhys (h : x.FrameMaps dom) (hf : dom f) (hi : i < 4096) :
    p2v (x.machToPhys (x.machOf f + i)) = f + i := by
  have hfr := h.frame f hf
  have h1 := hfr.base
  have h2 := hfr.top
  have h3 := hfr.dvd
  unfold vmmKernelBase at h1
  obtain ⟨e1, e2⟩ := h.machOf_div hf hi
  unfold Xen.machToPhys
  rw [Nat.shiftRight_eq_div_pow, e1, h.inv f hf, pageDiv_eq, e2, shift_or hi, hfr.v2p,
    p2v_eq (by omega)]
  omega

theorem machToPhys_page (h : x.FrameMaps dom) (hf : dom f) :
    x.machToPhys (x.machOf f) = v2p f := by
  have hfr := h.frame f hf
  have h1 := hfr.base
  have h3 := hfr.dvd
  unfold vmmKernelBase at h1
  obtain ⟨e1, e2⟩ := h.machOf_div hf (i := 0) (by decide)
  rw [Nat.add_zero] at e1 e2
  unfold Xen.machToPhys
  rw [Nat.shiftRight_eq_div_pow, e1, h.inv f hf, pageDiv_eq, e2, shift_or (by decide), hfr.v2p]
  omega

/-- two words of domain frames are the same word only when they are the same word of the same
frame -/
theorem machOf_inj (h : x.FrameMaps dom) (hf : dom f) (hg : dom g) (hi : i < 4096) (hj : j < 4096)
    (e : x.machOf f + i = x.machOf g + j) : f = g ∧ i = j := by
  obtain ⟨f1, f2⟩ := h.machOf_div hf hi
  obtain ⟨g1, g2⟩ := h.machOf_div hg hj
  have e1 : x.xenMfnList (v2p f / 4096) = x.xenMfnList (v2p g / 4096) := by
    rw [← f1, ← g1, e]
  have e2 : v2p f / 4096 = v2p g / 4096 := by rw [← h.inv f hf, ← h.inv g hg, e1]
  have hfr := h.frame f hf
  have hgr := h.frame g hg
  have a1 := hfr.base
  have a2 := hfr.dvd
  have a3 := hgr.base
  have a4 := hgr.dvd
  unfold vmmKernelBase at a1 a3
  rw [hfr.v2p, hgr.v2p] at e2
  refine ⟨by omega, ?_⟩
  rw [← f2, ← g2, e]

theorem machOf_pos (h : x.FrameMaps dom) (hf : dom f) : x.machOf f ≠ 0 := by
  have := h.pos f hf
  unfold Xen.machOf
  omega

/-- an entry made of flags and a machine page -/
theorem pageAddr_or (h : x.FrameMaps dom) (hf : dom f) {flags : Nat} (hfl : flags < 4096) :
    pageAddr (flags ||| x.machOf f) = x.machOf f ∧ pageDiv (flags ||| x.machOf f) = flags := by
  have hlt := h.lt f hf
  have e : flags ||| x.machOf f = x.machOf f + flags := by
    unfold Xen.machOf
    rw [Nat.or_comm, ← shift_or hfl, Nat.shiftLeft_eq]
  rw [e, pageAddr_eq, pageDiv_eq]
  unfold Xen.machOf
  omega

end Xen.FrameMaps

/-! ## directories and tables -/

/-- entry `i` of a directory -/
def Xen.pde (x : Xen) (d i : Nat) : Nat := x.mem (x.machOf d + 4 * i)

/-- the machine address of the page-table entry of `va`, once there is a table -/
def Xen.slot (x : Xen) (d va : Nat) : Nat := pageAddr (x.pde d (pdeIndex va)) + 4 * pteIndex va

/-- the page-table entry of `va` -/
def Xen.entry (x : Xen) (d va : Nat) : Nat :=
  if x.pde d (pdeIndex va) = 0 then 0 else x.mem (x.slot d va)

theorem Xen.slot_congr {x x' : Xen} {d va : Nat}
    (h : x'.pde d (pdeIndex va) = x.pde d (pdeIndex va)) : x'.slot d va = x.slot d va := by
  unfold Xen.slot
  rw [h]

def hypervisorVirtStart : Nat := 0xfc000000

/-- the directory entries below `HYPERVISOR_VIRT_START`.  Those behind are the hypervisor's in each
directory (`machine_to_phys_mapping` is read through one of them); they map pages that are not the
domain's, and the directory itself -/
def OwnPde (i : Nat) : Prop := i < 1008

instance (i : Nat) : Decidable (OwnPde i) := inferInstanceAs (Decidable (_ < _))

structure Xen.Wf (base live : List Block) (dom : Nat → Prop) (dirs : List Nat) (x : Xen) :
    Prop where
  maps : x.FrameMaps dom
  good : GoodBase base
  cell : ∀ c ∈ allCells pageSize base, dom c
  low : ∀ c ∈ allCells pageSize base, OwnPde (pdeIndex c)
  zone : ZoneInv base live x.lomem
  dir : ∀ d ∈ dirs, dom d ∧ (d ∈ allCells pageSize base → (d, 1) ∈ live)
  table : ∀ d ∈ dirs, ∀ i, OwnPde i → x.pde d i ≠ 0 → ∃ t, dom t ∧
    pageAddr (x.pde d i) = x.machOf t ∧ t ∉ dirs ∧ (t ∈ allCells pageSize base → (t, 1) ∈ live)
  inj : ∀ d ∈ dirs, ∀ d' ∈ dirs, ∀ i, OwnPde i → ∀ i', OwnPde i' → x.pde d i ≠ 0 →
    x.pde d' i' ≠ 0 → pageAddr (x.pde d i) = pageAddr (x.pde d' i') → i = i' ∧ (d = d' ∨ ¬ UserPde i)
  kmap : ∀ d ∈ dirs, ∀ c ∈ allCells pageSize base, x.pde d (pdeIndex c) ≠ 0
  shared : ∀ d ∈ dirs, ∀ d' ∈ dirs, ∀ i, OwnPde i → ¬ UserPde i → x.pde d i ≠ 0 →
    x.pde d' i ≠ 0 → x.pde d i = x.pde d' i

theorem pdeIndex_lt (va : Nat) : pdeIndex va < 1024 := by
  rw [pdeIndex_eq]
  omega

theorem pteIndex_lt (va : Nat) : pteIndex va < 1024 := by
  rw [pteIndex_eq]
  omega

namespace Xen.Wf
variable {base live : List Block} {dom : Nat → Prop} {dirs : List Nat} {x : Xen} {d va : Nat}

/-- fewer directories -/
theorem mono (h : x.Wf base live dom dirs) {dirs' : List Nat} (hs : ∀ d ∈ dirs', d ∈ dirs) :
    x.Wf base live dom dirs' where
  maps := h.maps
  good := h.good
  cell := h.cell
  low := h.low
  zone := h.zone
  dir d hd := h.dir d (hs d hd)
  table d hd i hi hp := by
    obtain ⟨t, ht, e, hne, hl⟩ := h.table d (hs d hd) i hi hp
    exact ⟨t, ht, e, fun hc => hne (hs t hc), hl⟩
  inj d hd d' hd' := h.inj d (hs d hd) d' (hs d' hd')
  kmap d hd := h.kmap d (hs d hd)
  shared d hd d' hd' := h.shared d (hs d hd) d' (hs d' hd')

theorem load_pde (h : x.Wf base live dom dirs) (hd : d ∈ dirs) (va : Nat) :
    x.load (vmmGetPde d va) = x.pde d (pdeIndex va) := by
  have hi := pdeIndex_lt va
  exact h.maps.load (h.dir d hd).1 (by omega)

theorem p2v_pde (h : x.Wf base live dom dirs) (hd : d ∈ dirs) (va : Nat) :
    p2v (vmmGetPde d va) = vmmGetPde d va := by
  have hi := pdeIndex_lt va
  exact h.maps.p2v_add (h.dir d hd).1 (by omega)

theorem pde_ma (h : x.Wf base live dom dirs) (hd : d ∈ dirs) (va : Nat) :
    x.physToMach (v2p (vmmGetPde d va)) = x.machOf d + 4 * pdeIndex va := by
  have hi := pdeIndex_lt va
  unfold vmmGetPde
  rw [h.maps.v2p_add (h.dir d hd).1 (by omega), h.maps.physToMach (h.dir d hd).1 (by omega)]

/-- the word of a table -/
theorem slot_eq (h : x.Wf base live dom dirs) (hd : d ∈ dirs) (ho : OwnPde (pdeIndex va))
    (hp : x.pde d (pdeIndex va) ≠ 0) :
    ∃ t, dom t ∧ x.slot d va = x.machOf t + 4 * pteIndex va ∧
      pageAddr (x.pde d (pdeIndex va)) = x.machOf t ∧ t ∉ dirs ∧
      (t ∈ allCells pageSize base → (t, 1) ∈ live) := by
  obtain ⟨t, ht, e, hne, hl⟩ := h.table d hd _ ho hp
  exact ⟨t, ht, by unfold Xen.slot; rw [e], e, hne, hl⟩

theorem vmmGetPte (h : x.Wf base live dom dirs) (hd : d ∈ dirs) (ho : OwnPde (pdeIndex va))
    (hp : x.pde d (pdeIndex va) ≠ 0) : x.vmmGetPte d va = x.slot d va := by
  obtain ⟨t, ht, -, e, -, -⟩ := h.slot_eq hd ho hp
  have e2 : x.vmmGetPgtab d va = pageAddr (x.pde d (pdeIndex va)) := by
    unfold Xen.vmmGetPgtab
    rw [h.load_pde hd]
  unfold Xen.vmmGetPte
  rw [e2, if_neg (by rw [e]; exact h.maps.machOf_pos ht)]
  rfl

theorem load_pte (h : x.Wf base live dom dirs) (hd : d ∈ dirs) (ho : OwnPde (pdeIndex va))
    (hp : x.pde d (pdeIndex va) ≠ 0) :
    x.load (p2v (x.machToPhys (x.slot d va))) = x.mem (x.slot d va) := by
  obtain ⟨t, ht, e, -, -, -⟩ := h.slot_eq hd ho hp
  have hi := pteIndex_lt va
  rw [e, h.maps.machToPhys ht (by omega), h.maps.load ht (by omega)]

/-- a table word is not a directory word -/
theorem slot_ne_dir (h : x.Wf base live dom dirs) (hd : d ∈ dirs) (ho : OwnPde (pdeIndex va))
    (hp : x.pde d (pdeIndex va) ≠ 0) {d' i : Nat} (hd' : d' ∈ dirs) (hi : i < 1024) :
    x.slot d va ≠ x.machOf d' + 4 * i := by
  obtain ⟨t, ht, e, -, hne, -⟩ := h.slot_eq hd ho hp
  have hj := pteIndex_lt va
  intro he
  rw [e] at he
  obtain ⟨rfl, -⟩ := h.maps.machOf_inj ht (h.dir d' hd').1 (by omega) (by omega) he
  exact hne hd'

/-- two addresses go through one entry only if they have the same page and the same table -/
theorem slot_inj (h : x.Wf base live dom dirs) {d' va' : Nat} (hd : d ∈ dirs) (hd' : d' ∈ dirs)
    (ho : OwnPde (pdeIndex va)) (ho' : OwnPde (pdeIndex va'))
    (hp : x.pde d (pdeIndex va) ≠ 0) (hp' : x.pde d' (pdeIndex va') ≠ 0)
    (e : x.slot d va = x.slot d' va') :
    pdeIndex va = pdeIndex va' ∧ pteIndex va = pteIndex va' ∧
      x.pde d (pdeIndex va) = x.pde d' (pdeIndex va') := by
  obtain ⟨t, ht, e1, e2, -, -⟩ := h.slot_eq hd ho hp
  obtain ⟨t', ht', e1', e2', -, -⟩ := h.slot_eq hd' ho' hp'
  have hj := pteIndex_lt va
  have hj' := pteIndex_lt va'
  rw [e1, e1'] at e
  obtain ⟨rfl, e3⟩ := h.maps.machOf_inj ht ht' (by omega) (by omega) e
  obtain ⟨e4, e5⟩ := h.inj d hd d' hd' _ ho _ ho' hp hp'
    (e2.trans e2'.symm)
  refine ⟨e4, by omega, ?_⟩
  rw [← e4] at hp' ⊢
  rcases e5 with rfl | hk
  · rfl
  · exact h.shared d hd d' hd' _ ho hk hp hp'

theorem congr (h : x.Wf base live dom dirs) (x' : Xen) (h1 : x'.lomem = x.lomem)
    (h2 : x'.xenMfnList = x.xenMfnList)
    (h3 : x'.machineToPhysMapping = x.machineToPhysMapping)
    (h4 : ∀ d ∈ dirs, ∀ i, OwnPde i → x'.pde d i = x.pde d i) : x'.Wf base live dom dirs where
  maps := by
    refine ⟨h.maps.frame, fun f hf => ?_, fun f hf => ?_, fun f hf => ?_⟩
    · rw [h2, h3]; exact h.maps.inv f hf
    · rw [h2]; exact h.maps.pos f hf
    · rw [h2]; exact h.maps.lt f hf
  good := h.good
  cell := h.cell
  low := h.low
  zone := by rw [h1]; exact h.zone
  dir := h.dir
  table d hd i hi hp := by
    have e : x'.machOf = x.machOf := by unfold Xen.machOf; rw [h2]
    rw [h4 d hd i hi] at hp ⊢
    rw [e]
    exact h.table d hd i hi hp
  inj d hd d' hd' i hi i' hi' hp hp' e := by
    rw [h4 d hd i hi] at hp e
    rw [h4 d' hd' i' hi'] at hp' e
    exact h.inj d hd d' hd' i hi i' hi' hp hp' e
  kmap d hd c hc := by rw [h4 d hd _ (h.low c hc)]; exact h.kmap d hd c hc
  shared d hd d' hd' i hi hk := by
    rw [h4 d hd i hi, h4 d' hd' i hi]
    exact h.shared d hd d' hd' i hi hk

end Xen.Wf

/-! ## the queue -/

/-- the state once the pending updates are applied -/
def Xen.eff (x : Xen) : Xen := x.vmmFlushMmuUpdateQueue

@[simp] theorem Xen.eff_lomem (x : Xen) : x.eff.lomem = x.lomem := rfl
@[simp] theorem Xen.eff_xenMfnList (x : Xen) : x.eff.xenMfnList = x.xenMfnList := rfl
@[simp] theorem Xen.eff_machOf (x : Xen) : x.eff.machOf = x.machOf := rfl

theorem Xen.eff_of_nil {x : Xen} (h : x.queue = []) : x.eff = x := by
  show { x with mem := mmuUpdate x.mem x.queue, queue := [] } = x
  rw [h, mmuUpdate, ← h]

theorem mmuUpdate_append (q q' : List (Nat × Nat)) (mem : Nat → Nat) :
    mmuUpdate mem (q ++ q') = mmuUpdate (mmuUpdate mem q) q' := by
  induction q generalizing mem with
  | nil => rfl
  | cons u q ih => exact ih _

theorem mmuUpdate_of_not_mem {q : List (Nat × Nat)} {a : Nat} (mem : Nat → Nat)
    (h : ∀ u ∈ q, u.1 ≠ a) : mmuUpdate mem q a = mem a := by
  induction q generalizing mem with
  | nil => rfl
  | cons u q ih =>
    show mmuUpdate (Function.update mem u.1 u.2) q a = _
    rw [ih _ fun v hv => h v (List.mem_cons_of_mem _ hv),
      Function.update_of_ne (h u List.mem_cons_self).symm]

theorem mmuUpdate_congr {a : Nat} (q : List (Nat × Nat)) {mem mem' : Nat → Nat}
    (h : mem a = mem' a) : mmuUpdate mem q a = mmuUpdate mem' q a := by
  induction q generalizing mem mem' with
  | nil => exact h
  | cons u q ih =>
    refine ih ?_
    by_cases e : a = u.1
    · rw [e, Function.update_self, Function.update_self]
    · rw [Function.update_of_ne e, Function.update_of_ne e, h]

/-- queueing an update is making it, for the state that counts -/
theorem Xen.vmmQueueMmuUpdate_eff (x : Xen) (a v : Nat) :
    (x.vmmQueueMmuUpdate a v).eff = { x.eff with mem := Function.update x.eff.mem a v } := by
  have e : mmuUpdate x.mem (x.queue ++ [(a, v)]) = Function.update x.eff.mem a v := by
    rw [mmuUpdate_append]
    rfl
  unfold Xen.vmmQueueMmuUpdate
  simp only
  split
  · show { x with mem := mmuUpdate (mmuUpdate x.mem (x.queue ++ [(a, v)])) [], queue := [] } = _
    rw [e]
    rfl
  · show { x with mem := mmuUpdate x.mem (x.queue ++ [(a, v)]), queue := [] } = _
    rw [e]
    rfl

/-- what is pending goes to page-table entries -/
def Xen.Pend (dirs : List Nat) (x : Xen) : Prop :=
  ∀ u ∈ x.queue, ∃ d ∈ dirs, ∃ va, OwnPde (pdeIndex va) ∧ x.pde d (pdeIndex va) ≠ 0 ∧
    u.1 = x.slot d va

theorem Xen.Pend.nil {dirs : List Nat} {x : Xen} (h : x.queue = []) : x.Pend dirs := by
  intro u hu
  rw [h] at hu
  exact absurd hu List.not_mem_nil

namespace Xen.Wf
variable {base live : List Block} {dom : Nat → Prop} {dirs : List Nat} {x : Xen} {d va : Nat}

theorem eff_pde (h : x.Wf base live dom dirs) (hp : x.Pend dirs) (hd : d ∈ dirs) {i : Nat}
    (hi : i < 1024) : x.eff.pde d i = x.pde d i := by
  refine mmuUpdate_of_not_mem _ fun u hu => ?_
  obtain ⟨d', hd', va', ho, h0, e⟩ := hp u hu
  rw [e]
  exact h.slot_ne_dir hd' ho h0 hd hi

theorem eff_slot (h : x.Wf base live dom dirs) (hp : x.Pend dirs) (hd : d ∈ dirs) (va : Nat) :
    x.eff.slot d va = x.slot d va :=
  Xen.slot_congr (h.eff_pde hp hd (pdeIndex_lt va))

theorem eff (h : x.Wf base live dom dirs) (hp : x.Pend dirs) : x.eff.Wf base live dom dirs :=
  h.congr _ rfl rfl rfl fun _ hd _ hi => h.eff_pde hp hd (Nat.lt_trans hi (by decide))

/-- an update of a page-table entry, queued -/
theorem queueSlot (h : x.Wf base live dom dirs) (hp : x.Pend dirs) (hd : d ∈ dirs)
    (ho : OwnPde (pdeIndex va)) (h0 : x.pde d (pdeIndex va) ≠ 0) (v : Nat) :
    (x.vmmQueueMmuUpdate (x.slot d va) v).Wf base live dom dirs ∧
      (x.vmmQueueMmuUpdate (x.slot d va) v).Pend dirs := by
  have hpend : ∀ u ∈ x.queue ++ [(x.slot d va, v)],
      ∃ d ∈ dirs, ∃ va, OwnPde (pdeIndex va) ∧ x.pde d (pdeIndex va) ≠ 0 ∧
        u.1 = x.slot d va := by
    intro u hu
    rcases List.mem_append.mp hu with hu | hu
    · exact hp u hu
    · rw [List.mem_singleton.mp hu]
      exact ⟨d, hd, va, ho, h0, rfl⟩
  have hw : ({ x with queue := x.queue ++ [(x.slot d va, v)] } : Xen).Wf base live dom dirs :=
    h.congr _ rfl rfl rfl fun _ _ _ _ => rfl
  unfold Xen.vmmQueueMmuUpdate
  simp only
  split
  · exact ⟨hw.eff hpend, Xen.Pend.nil rfl⟩
  · exact ⟨hw, hpend⟩

/-- which is no word of a directory -/
theorem queueSlot_pde (h : x.Wf base live dom dirs) (hp : x.Pend dirs) (hd : d ∈ dirs)
    (ho : OwnPde (pdeIndex va)) (h0 : x.pde d (pdeIndex va) ≠ 0) (v : Nat) {d' i : Nat}
    (hd' : d' ∈ dirs) (hi : i < 1024) :
    (x.vmmQueueMmuUpdate (x.slot d va) v).pde d' i = x.pde d' i := by
  obtain ⟨hw, hpend⟩ := h.queueSlot hp hd ho h0 v
  rw [← hw.eff_pde hpend hd' hi, Xen.vmmQueueMmuUpdate_eff]
  refine (Function.update_of_ne (h.slot_ne_dir hd ho h0 hd' hi).symm _ _).trans ?_
  exact h.eff_pde hp hd' hi

end Xen.Wf

end Paravirt

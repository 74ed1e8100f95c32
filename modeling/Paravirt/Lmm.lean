import Paravirt.Zone
import Paravirt.Lib.Extents
import Mathlib.Algebra.Group.Nat.Defs
import Mathlib.Data.List.Flatten

/-!
# The kernel heap (410kern/lmm)

A region keeps its free memory as a list of nodes in address order; a node is the header at the
start of a free block, so it is modelled by the extent of the block.  An assertion that fails is
`none`.

* `lmmAlloc`, `lmmAllocGen`, `lmmFree`   the functions of the source, over the list of regions;
* `RegionOk`             the free list is in order, aligned, without two nodes that touch, and the
                         counter of free bytes is right;
* `LmmRegion.take`       a region after an allocation;
* `lmmAlloc_spec`, `lmmAllocGen_spec`, `lmmFree_spec`   what the three do to such regions.
-/

namespace Paravirt

open Extents

/-! ## the source -/

/-- `(n + ALIGN_MASK) & ~ALIGN_MASK`; a header is two words -/
def alignUp (n : Nat) : Nat := u32 (n + 7) / 8 * 8

/-- `n & ~ALIGN_MASK` -/
def alignDown (n : Nat) : Nat := n / 8 * 8

/-- `struct lmm_region`, without the link to the next one -/
structure LmmRegion where
  nodes : List Extent
  min : Nat
  max : Nat
  flags : Nat
  pri : Nat
  free : Nat
deriving DecidableEq

/-- the assertions of a region that is looked at -/
def LmmRegion.HeadOk (reg : LmmRegion) : Prop :=
  match reg.nodes with
  | [] => reg.free = 0 ∨ reg.min = 0
  | node :: _ => reg.min ≤ node.start

instance (reg : LmmRegion) : Decidable reg.HeadOk := by
  unfold LmmRegion.HeadOk
  split <;> infer_instance

/-- the assertions of a node that is looked at, before the nodes `rest` -/
def NodeOk (regMax : Nat) (node : Extent) (rest : List Extent) : Prop :=
  node.start % 8 = 0 ∧ node.len % 8 = 0 ∧ (∀ next ∈ rest.head?, node.start < next.start) ∧
    node.start < regMax

instance (regMax : Nat) (node : Extent) (rest : List Extent) :
    Decidable (NodeOk regMax node rest) := by
  unfold NodeOk
  infer_instance

/-- the loop of `lmm_alloc` over the nodes of a region -/
def allocNode (regMax size : Nat) : List Extent → Option (Option (Nat × List Extent))
  | [] => some none
  | node :: rest =>
    if ¬ NodeOk regMax node rest then none
    else if size ≤ node.len then
      if size < node.len then
        some (some (node.start, ⟨u32 (node.start + size), node.len - size⟩ :: rest))
      else some (some (node.start, rest))
    else (allocNode regMax size rest).map (Option.map fun r => (r.1, node :: r.2))

/-- the loop over the regions; `size` is rounded -/
def allocRegion (size flags : Nat) : List LmmRegion → Option (Option (Nat × List LmmRegion))
  | [] => some none
  | reg :: regs =>
    if ¬ (reg.HeadOk ∧ reg.free ≤ u32sub reg.max reg.min) then none
    else if flags &&& (2^32 - 1 - reg.flags) ≠ 0 then
      (allocRegion size flags regs).map (Option.map fun r => (r.1, reg :: r.2))
    else (allocNode reg.max size reg.nodes).bind fun r =>
      match r with
      | none => (allocRegion size flags regs).map (Option.map fun r => (r.1, reg :: r.2))
      | some (block, nodes) =>
        if size ≤ reg.free then
          some (some (block, { reg with nodes := nodes, free := reg.free - size } :: regs))
        else none

/-- `lmm_alloc`; the inner `none` is the null pointer -/
def lmmAlloc (lmm : List LmmRegion) (size flags : Nat) : Option (Option (Nat × List LmmRegion)) :=
  if 0 < size then allocRegion (alignUp size) flags lmm else none

/-- one bit of the alignment loop of `lmm_alloc_gen` -/
def alignBit (alignOfs addr i : Nat) : Nat :=
  if (addr ^^^ alignOfs).testBit i then u32 (addr + 2^i) else addr

/-- the alignment loop -/
def alignAddr (alignOfs : Nat) : Nat → Nat → Nat
  | 0, addr => addr
  | bits + 1, addr => alignBit alignOfs (alignAddr alignOfs bits addr) bits

/-- what `lmm_alloc_gen` is asked for -/
structure GenReq where
  size : Nat
  flags : Nat
  alignBits : Nat
  alignOfs : Nat
  inMin : Nat
  inSize : Nat

/-- `in_max` -/
def GenReq.inMax (r : GenReq) : Nat := u32 (r.inMin + r.inSize)

/-- the address at which a block in this node has to start -/
def GenReq.addr (r : GenReq) (node : Extent) : Nat :=
  alignAddr r.alignOfs r.alignBits (if node.start < r.inMin then r.inMin else node.start)

/-- the size that is taken out for a block at `addr` -/
def GenReq.taken (r : GenReq) (addr : Nat) : Nat := alignUp (addr % 8 + r.size)

/-- the loop of `lmm_alloc_gen` over the nodes of a region; the address, and the nodes left -/
def genNode (r : GenReq) (regMax : Nat) : List Extent → Option (Option (Nat × List Extent))
  | [] => some none
  | node :: rest =>
    if ¬ NodeOk regMax node rest then none
    else if node.len < r.size then (genNode r regMax rest).map (Option.map fun s => (s.1, node :: s.2))
    else if node.len < u32 (u32sub (r.addr node) node.start + r.size) then
      (genNode r regMax rest).map (Option.map fun s => (s.1, node :: s.2))
    else if r.inMax < u32 (r.addr node + r.size) then some none
    else if alignDown (r.addr node) < node.start then none
    else
      let anode := alignDown (r.addr node)
      let split := u32sub anode node.start
      let size := r.taken (r.addr node)
      let tail := if size < node.len - split then
          ⟨u32 (anode + size), node.len - split - size⟩ :: rest else rest
      some (some (r.addr node, if node.start < anode then ⟨node.start, split⟩ :: tail else tail))

/-- the loop over the regions -/
def genRegion (r : GenReq) : List LmmRegion → Option (Option (Nat × List LmmRegion))
  | [] => some none
  | reg :: regs =>
    if ¬ (reg.HeadOk ∧ reg.free ≤ u32sub reg.max reg.min) then none
    else if r.flags &&& (2^32 - 1 - reg.flags) ≠ 0 ∨ r.inMax ≤ reg.min ∨ reg.max ≤ r.inMin then
      (genRegion r regs).map (Option.map fun s => (s.1, reg :: s.2))
    else (genNode r reg.max reg.nodes).bind fun s =>
      match s with
      | none => (genRegion r regs).map (Option.map fun s => (s.1, reg :: s.2))
      | some (addr, nodes) =>
        if r.taken addr ≤ reg.free then
          some (some (addr, { reg with nodes := nodes, free := reg.free - r.taken addr } :: regs))
        else none

/-- `lmm_alloc_gen` -/
def lmmAllocGen (lmm : List LmmRegion) (r : GenReq) : Option (Option (Nat × List LmmRegion)) :=
  if 0 < r.size then genRegion r lmm else none

/-- the search of `lmm_free` for the nodes around `node`: those before it, nearest first, and
those behind it -/
def findPlace (node : Nat) : List Extent → List Extent → List Extent × List Extent
  | prevs, [] => (prevs, [])
  | prevs, nextnode :: nodes =>
    if nextnode.start < node then findPlace node (nextnode :: prevs) nodes
    else (prevs, nextnode :: nodes)

/-- a new node, joined to the next one -/
def newNode (node size : Nat) : List Extent → List Extent
  | [] => [⟨node, size⟩]
  | nextnode :: rest =>
    if nextnode.start ≤ u32 (node + size) then ⟨node, u32 (size + nextnode.len)⟩ :: rest
    else ⟨node, size⟩ :: nextnode :: rest

/-- the previous node grows by `size` bytes at `node`, and over the next node -/
def growPrev (prevnode : Extent) (node size : Nat) : List Extent → Option (List Extent)
  | [] => some [⟨prevnode.start, u32 (prevnode.len + size)⟩]
  | nextnode :: rest =>
    if nextnode.start ≤ u32 (node + size) then
      if u32 (node + size) = nextnode.start then
        some (⟨prevnode.start, u32 (prevnode.len + u32 (size + nextnode.len))⟩ :: rest)
      else none
    else some (⟨prevnode.start, u32 (prevnode.len + size)⟩ :: nextnode :: rest)

/-- the free list with the block in its place -/
def linkNode (node size : Nat) : List Extent × List Extent → Option (List Extent)
  | ([], nexts) => some (newNode node size nexts)
  | (prevnode :: prevs, nexts) =>
    if node ≤ u32 (prevnode.start + prevnode.len) then
      if u32 (prevnode.start + prevnode.len) = node then
        (growPrev prevnode node size nexts).map (prevs.reverse ++ ·)
      else none
    else some (prevs.reverse ++ prevnode :: newNode node size nexts)

/-- the loop of `lmm_free` over the regions; `node` and `size` are aligned -/
def freeRegion (node size : Nat) : List LmmRegion → Option (List LmmRegion)
  | [] => none
  | reg :: regs =>
    if ¬ reg.HeadOk then none
    else if reg.min ≤ node ∧ node < reg.max then
      if u32 (reg.free + size) ≤ u32sub reg.max reg.min then
        (linkNode node size (findPlace node [] reg.nodes)).map fun nodes =>
          { reg with nodes := nodes, free := u32 (reg.free + size) } :: regs
      else none
    else (freeRegion node size regs).map (reg :: ·)

/-- `lmm_free` -/
def lmmFree (lmm : List LmmRegion) (block size : Nat) : Option (List LmmRegion) :=
  if block = 0 ∨ size = 0 then none
  else freeRegion (alignDown block) (alignUp (block % 8 + size)) lmm

/-! ## regions in order -/

structure RegionOk (reg : LmmRegion) : Prop where
  spaced : Spaced reg.nodes
  aligned : ∀ x ∈ reg.nodes, x.start % 8 = 0 ∧ x.len % 8 = 0
  inside : ∀ x ∈ reg.nodes, reg.min ≤ x.start ∧ x.stop ≤ reg.max
  notNull : ∀ x ∈ reg.nodes, 0 < x.start
  free : reg.free = total reg.nodes
  minMax : reg.min ≤ reg.max
  max : reg.max < 2^32

/-- a region out of which `n` bytes at `a` are taken; they lie in the node between `p` and `q` -/
def LmmRegion.take (reg : LmmRegion) (p q : List Extent) (x : Extent) (a n : Nat) : LmmRegion :=
  { reg with nodes := p ++ cut x a n ++ q, free := reg.free - n }

variable {reg : LmmRegion} {regs : List LmmRegion} {p q : List Extent} {x y : Extent}
  {a n size node : Nat}

theorem alignUp_eq (h : n + 7 < 2^32) : alignUp n = (n + 7) / 8 * 8 := by
  unfold alignUp u32
  rw [Nat.mod_eq_of_lt h]

theorem alignUp_mod (n : Nat) : alignUp n % 8 = 0 := Nat.mul_mod_left _ _

theorem alignDown_mod (n : Nat) : alignDown n % 8 = 0 := Nat.mul_mod_left _ _

theorem u32sub_of_le {a b : Nat} (h : b ≤ a) (ha : a < 2^32) : u32sub a b = a - b := by
  unfold u32sub u32
  omega

/-- a spaced list between two bounds is no longer than their distance -/
theorem total_le {lo hi : Nat} (h : lo ≤ hi) {l : List Extent} (hl : Spaced l)
    (hin : ∀ x ∈ l, lo ≤ x.start ∧ x.stop ≤ hi) : total l ≤ hi - lo := by
  induction l generalizing lo with
  | nil => exact Nat.zero_le _
  | cons x l ih =>
    obtain ⟨hx, hxl, hl⟩ := spaced_cons.mp hl
    obtain ⟨h1, h2⟩ := hin x List.mem_cons_self
    have ih := ih h2 hl fun y hy =>
      ⟨Nat.le_of_lt (hxl y hy), (hin y (List.mem_cons_of_mem _ hy)).2⟩
    rw [total_cons]
    unfold Extent.stop at h2 ih
    omega

namespace RegionOk

theorem free_le (h : RegionOk reg) : reg.free ≤ u32sub reg.max reg.min := by
  rw [u32sub_of_le h.minMax h.max, h.free]
  exact total_le h.minMax h.spaced h.inside

theorem headOk (h : RegionOk reg) : reg.HeadOk := by
  have hfree := h.free
  have hin := h.inside
  unfold LmmRegion.HeadOk
  cases hn : reg.nodes with
  | nil =>
    rw [hn] at hfree
    exact Or.inl hfree
  | cons x l =>
    rw [hn] at hin
    exact (hin x List.mem_cons_self).1

/-- a node of the list passes the assertions -/
theorem nodeOk (h : RegionOk reg) (hn : reg.nodes = p ++ x :: q) : NodeOk reg.max x q := by
  have hx : x ∈ reg.nodes := by rw [hn]; exact List.mem_append_right _ List.mem_cons_self
  have hs := h.spaced
  rw [hn] at hs
  obtain ⟨_, _, hpos, _, hq⟩ := spaced_insert.mp hs
  obtain ⟨h1, h2⟩ := h.aligned x hx
  have h3 := (h.inside x hx).2
  refine ⟨h1, h2, fun next hnext => ?_, ?_⟩
  · have := hq next (List.mem_of_mem_head? hnext)
    unfold Extent.stop at this
    omega
  · unfold Extent.stop at h3
    omega

theorem take (h : RegionOk reg) (hn : reg.nodes = p ++ x :: q) (ha : x.start ≤ a) (hpos : 0 < n)
    (hax : a + n ≤ x.stop) (h8 : a % 8 = 0) (hn8 : n % 8 = 0) : RegionOk (reg.take p q x a n) := by
  have hx : x ∈ reg.nodes := by rw [hn]; exact List.mem_append_right _ List.mem_cons_self
  obtain ⟨hx1, hx2⟩ := h.aligned x hx
  obtain ⟨hx3, hx4⟩ := h.inside x hx
  have hx5 := h.notNull x hx
  have hmem : ∀ y ∈ p ++ cut x a n ++ q, y ∈ reg.nodes ∨ y ∈ cut x a n := by
    intro y hy
    rw [hn]
    simp only [List.mem_append, List.mem_cons] at hy ⊢
    tauto
  have h8' : ∀ y ∈ cut x a n, y.start % 8 = 0 ∧ y.len % 8 = 0 := by
    intro y hy
    unfold cut at hy
    unfold Extent.stop at hax hy
    split at hy <;> split at hy <;> simp at hy
    · rcases hy with rfl | rfl
      · dsimp only
        omega
      · dsimp only
        omega
    · subst hy
      dsimp only
      omega
    · subst hy
      dsimp only
      omega
  refine ⟨?_, fun y hy => ?_, fun y hy => ?_, fun y hy => ?_, ?_, h.minMax, h.max⟩
  · have hs := h.spaced
    rw [hn] at hs
    exact hs.cut ha hpos hax
  · rcases hmem y hy with hy | hy
    · exact h.aligned y hy
    · exact h8' y hy
  · rcases hmem y hy with hy | hy
    · exact h.inside y hy
    · obtain ⟨_, h1, h2⟩ := mem_cut hy ha hax
      show reg.min ≤ y.start ∧ y.stop ≤ reg.max
      omega
  · rcases hmem y hy with hy | hy
    · exact h.notNull y hy
    · have := (mem_cut hy ha hax).2.1
      omega
  · have ht := total_cut ha hax
    show reg.free - n = total (p ++ cut x a n ++ q)
    rw [h.free, hn]
    simp only [total_append, total_cons]
    omega

end RegionOk

/-! ## allocation -/

theorem cut_head (hsize : size ≤ x.len) (hx : x.stop < 2^32) :
    cut x x.start size =
      if size < x.len then [⟨u32 (x.start + size), x.len - size⟩] else [] := by
  unfold cut Extent.stop u32
  unfold Extent.stop at hx
  rw [if_neg (Nat.lt_irrefl _), List.nil_append]
  split
  · rename_i h
    rw [if_pos (by omega), Nat.mod_eq_of_lt (by omega)]
    congr 2
    omega
  · rw [if_neg (by omega)]

/-- the first node that is large enough is cut, or none is -/
theorem allocNode_spec (h : RegionOk reg) (size : Nat) (hn : reg.nodes = p ++ q) :
    (allocNode reg.max size q = some none ∧ ∀ x ∈ q, x.len < size) ∨
    ∃ p' x q', q = p' ++ x :: q' ∧ (∀ y ∈ p', y.len < size) ∧ size ≤ x.len ∧
      allocNode reg.max size q = some (some (x.start, p' ++ cut x x.start size ++ q')) := by
  induction q generalizing p with
  | nil => exact .inl ⟨rfl, by simp⟩
  | cons x q ih =>
    have hok : NodeOk reg.max x q := h.nodeOk hn
    have hx : x ∈ reg.nodes := by rw [hn]; exact List.mem_append_right _ List.mem_cons_self
    have hstop : x.stop < 2^32 := Nat.lt_of_le_of_lt (h.inside x hx).2 h.max
    unfold allocNode
    rw [if_neg (not_not.mpr hok)]
    by_cases hsize : size ≤ x.len
    · right
      refine ⟨[], x, q, rfl, by simp, hsize, ?_⟩
      rw [if_pos hsize, cut_head hsize hstop]
      split <;> rfl
    · rw [if_neg hsize]
      have hn' : reg.nodes = (p ++ [x]) ++ q := by rw [hn, List.append_assoc]; rfl
      rcases ih hn' with ⟨hr, hall⟩ | hr
      · left
        rw [hr]
        refine ⟨rfl, ?_⟩
        simp only [List.forall_mem_cons]
        exact ⟨Nat.lt_of_not_le hsize, hall⟩
      · obtain ⟨p', y, q', hq, hall, hy, hr⟩ := hr
        right
        refine ⟨x :: p', y, q', by rw [hq]; rfl, ?_, hy, by rw [hr]; rfl⟩
        simp only [List.forall_mem_cons]
        exact ⟨Nat.lt_of_not_le hsize, hall⟩

/-- a region whose attributes serve the request -/
def LmmRegion.Serves (reg : LmmRegion) (flags : Nat) : Prop :=
  flags &&& (2^32 - 1 - reg.flags) = 0

def NoRoom (size flags : Nat) (regs : List LmmRegion) : Prop :=
  ∀ reg ∈ regs, reg.Serves flags → ∀ x ∈ reg.nodes, x.len < size

/-- `regs'` is `regs` with `size` bytes taken out at `block`: at the start of the first node that
is large enough, in a region that serves -/
def FirstFit (size flags : Nat) (regs : List LmmRegion) (block : Nat) (regs' : List LmmRegion) :
    Prop :=
  ∃ pre reg post p x q, regs = pre ++ reg :: post ∧ reg.nodes = p ++ x :: q ∧
    reg.Serves flags ∧ size ≤ x.len ∧ NoRoom size flags pre ∧ (∀ y ∈ p, y.len < size) ∧
    block = x.start ∧ regs' = pre ++ reg.take p q x x.start size :: post

/-- what a search over `regs` may end in -/
def AllocSpec (size flags : Nat) (regs : List LmmRegion)
    (r : Option (Option (Nat × List LmmRegion))) : Prop :=
  (r = some none ∧ NoRoom size flags regs) ∨
    ∃ block regs', r = some (some (block, regs')) ∧ FirstFit size flags regs block regs'

/-- a region is passed over when it does not serve, or has no room -/
theorem AllocSpec.pass {flags : Nat} {r : Option (Option (Nat × List LmmRegion))}
    (h : AllocSpec size flags regs r)
    (hno : reg.Serves flags → ∀ x ∈ reg.nodes, x.len < size) :
    AllocSpec size flags (reg :: regs) (r.map (Option.map fun r => (r.1, reg :: r.2))) := by
  rcases h with ⟨rfl, hall⟩ | ⟨block, regs', rfl, h⟩
  · left
    refine ⟨rfl, fun r hr => ?_⟩
    rcases List.mem_cons.mp hr with rfl | hr
    · exact hno
    · exact hall r hr
  · obtain ⟨pre, reg', post, p, x, q, rfl, hn, hs, hx, hpre, hp, hb, rfl⟩ := h
    right
    refine ⟨block, _, rfl, reg :: pre, reg', post, p, x, q, rfl, hn, hs, hx, fun r hr => ?_, hp, hb,
      rfl⟩
    rcases List.mem_cons.mp hr with rfl | hr
    · exact hno
    · exact hpre r hr

theorem allocRegion_spec (h : ∀ reg ∈ regs, RegionOk reg) (size flags : Nat) :
    AllocSpec size flags regs (allocRegion size flags regs) := by
  induction regs with
  | nil => exact .inl ⟨rfl, fun _ hr => absurd hr List.not_mem_nil⟩
  | cons reg regs ih =>
    have hreg := h reg List.mem_cons_self
    have ih := ih fun r hr => h r (List.mem_cons_of_mem _ hr)
    have hguard : ¬ ¬ (reg.HeadOk ∧ reg.free ≤ u32sub reg.max reg.min) :=
      not_not.mpr ⟨hreg.headOk, hreg.free_le⟩
    by_cases hs : reg.Serves flags
    · have hs' : ¬ flags &&& (2^32 - 1 - reg.flags) ≠ 0 := not_not.mpr hs
      rw [allocRegion, if_neg hguard, if_neg hs']
      have hnil : reg.nodes = [] ++ reg.nodes := rfl
      rcases allocNode_spec hreg size hnil with ⟨hr, hall⟩ | hr
      · rw [hr]
        exact ih.pass fun _ => hall
      · obtain ⟨p, x, q, hn, hp, hx, hr⟩ := hr
        have hfree : size ≤ reg.free := by
          rw [hreg.free]
          exact Nat.le_trans hx (len_le_total (by
            rw [hn]; exact List.mem_append_right _ List.mem_cons_self))
        rw [hr]
        show AllocSpec _ _ _ (if size ≤ reg.free then _ else none)
        rw [if_pos hfree]
        exact .inr ⟨_, _, rfl, [], reg, regs, p, x, q, rfl, hn, hs, hx,
          fun _ hr => absurd hr List.not_mem_nil, hp, rfl, rfl⟩
    · have hs' : flags &&& (2^32 - 1 - reg.flags) ≠ 0 := hs
      rw [allocRegion, if_neg hguard, if_pos hs']
      exact ih.pass fun hs' => absurd hs' hs

/-! ## aligned allocation -/

/-- the loop moves the address up to the next one with the wanted low bits -/
theorem alignAddr_spec {ofs bits addr : Nat} (hbits : bits ≤ 31) (haddr : addr < 2^31) :
    addr ≤ alignAddr ofs bits addr ∧ alignAddr ofs bits addr < addr + 2^bits ∧
      alignAddr ofs bits addr % 2^bits = ofs % 2^bits := by
  induction bits with
  | zero => simp [alignAddr, Nat.mod_one]
  | succ k ih =>
    obtain ⟨h1, h2, h3⟩ := ih (by omega)
    have hk : 2^k ≤ 2^30 := Nat.pow_le_pow_right (by omega) (by omega)
    have hpow : 2^(k+1) = 2 * 2^k := by rw [Nat.pow_succ]; omega
    have hstep : alignAddr ofs (k+1) addr = alignBit ofs (alignAddr ofs k addr) k := rfl
    rw [hstep]
    generalize alignAddr ofs k addr = w at h1 h2 h3 ⊢
    have hmod (c : Nat) : c % 2^(k+1) = c % 2^k + 2^k * (c / 2^k % 2) := by
      rw [Nat.pow_succ, Nat.mod_mul]
    have hbit (c : Nat) : c.testBit k = decide (c / 2^k % 2 = 1) := Nat.testBit_eq_decide_div_mod_eq
    unfold alignBit
    rw [Nat.testBit_xor, hbit, hbit]
    have hw2 : w / 2^k % 2 < 2 := Nat.mod_lt _ (by omega)
    have ho2 : ofs / 2^k % 2 < 2 := Nat.mod_lt _ (by omega)
    by_cases hsame : w / 2^k % 2 = ofs / 2^k % 2
    · rw [if_neg (by rw [hsame]; simp)]
      refine ⟨h1, by omega, ?_⟩
      rw [hmod, hmod, h3, hsame]
    · -- the bit differs, and so it is flipped by the addition
      have hu : u32 (w + 2^k) = w + 2^k := Nat.mod_eq_of_lt (by omega)
      have hdiv : (w + 2^k) / 2^k = w / 2^k + 1 := Nat.add_div_right _ (Nat.two_pow_pos k)
      have hflip : (w / 2^k + 1) % 2 = ofs / 2^k % 2 := by omega
      have hdiff : (decide (w / 2^k % 2 = 1) ^^ decide (ofs / 2^k % 2 = 1)) = true := by
        rcases Nat.lt_or_ge (w / 2^k % 2) 1 with h | h
        · have e1 : w / 2^k % 2 = 0 := by omega
          have e2 : ofs / 2^k % 2 = 1 := by omega
          rw [e1, e2]
          rfl
        · have e1 : w / 2^k % 2 = 1 := by omega
          have e2 : ofs / 2^k % 2 = 0 := by omega
          rw [e1, e2]
          rfl
      rw [if_pos hdiff, hu]
      refine ⟨by omega, by omega, ?_⟩
      rw [hmod, hmod, Nat.add_mod_right, h3, hdiv, hflip]

/-- the block at `addr`: aligned and ordered as the request asks, its memory `n` bytes at `a` -/
structure GenFits (r : GenReq) (addr a n : Nat) : Prop where
  aligned : addr % 2^r.alignBits = r.alignOfs % 2^r.alignBits
  min : r.inMin ≤ addr
  max : addr + r.size ≤ r.inMax
  start : a = alignDown addr
  len : n = r.taken addr
  within : a ≤ addr ∧ addr + r.size ≤ a + n

/-- a request whose numbers stay in a word -/
structure GenReq.Small (r : GenReq) : Prop where
  pos : 0 < r.size
  alignBits : r.alignBits ≤ 30
  inMin : r.inMin ≤ 2^30

/-- the address lies behind the start of the node and the minimum, and is aligned -/
theorem GenReq.addr_spec {r : GenReq} (hr : r.Small) (hx : x.start ≤ 2^30) :
    x.start ≤ r.addr x ∧ r.inMin ≤ r.addr x ∧ r.addr x < 2^31 ∧
      r.addr x % 2^r.alignBits = r.alignOfs % 2^r.alignBits := by
  have hmin := hr.inMin
  have hbase : (if x.start < r.inMin then r.inMin else x.start) ≤ 2^30 := by
    split <;> omega
  have hle : x.start ≤ (if x.start < r.inMin then r.inMin else x.start) ∧
      r.inMin ≤ (if x.start < r.inMin then r.inMin else x.start) := by
    split <;> omega
  obtain ⟨h1, h2, h3⟩ := @alignAddr_spec r.alignOfs r.alignBits _
    (Nat.le_trans hr.alignBits (by omega)) (Nat.lt_of_le_of_lt hbase (by omega))
  have hpow : 2^r.alignBits ≤ 2^30 := Nat.pow_le_pow_right (by omega) hr.alignBits
  exact ⟨Nat.le_trans hle.1 h1, Nat.le_trans hle.2 h1, Nat.lt_of_lt_of_le h2 (by omega), h3⟩

/-- what is left of a node before and behind a block, as the loop computes it -/
theorem genNode_cut {rest : List Extent} {a n : Nat} (hx : x.stop < 2^32) (ha : x.start ≤ a)
    (hn : a + n ≤ x.stop) :
    (if x.start < a then
        ⟨x.start, u32sub a x.start⟩ :: if n < x.len - u32sub a x.start then
          ⟨u32 (a + n), x.len - u32sub a x.start - n⟩ :: rest else rest
      else if n < x.len - u32sub a x.start then
        ⟨u32 (a + n), x.len - u32sub a x.start - n⟩ :: rest else rest) = cut x a n ++ rest := by
  unfold Extent.stop at hx hn
  have hsplit : u32sub a x.start = a - x.start := u32sub_of_le ha (by omega)
  have hend : u32 (a + n) = a + n := Nat.mod_eq_of_lt (by omega)
  have hrest : x.len - (a - x.start) - n = x.start + x.len - (a + n) := by omega
  have hiff : n < x.len - (a - x.start) ↔ a + n < x.start + x.len := by omega
  rw [hsplit, hend, hrest]
  simp only [hiff]
  unfold cut Extent.stop
  split <;> split <;> rfl

/-- a node that the loop chooses is cut at an address that fits -/
theorem genNode_spec {r : GenReq} (hr : r.Small) (h : RegionOk reg)
    (hlow : ∀ x ∈ reg.nodes, x.stop ≤ 2^30) (hn : reg.nodes = p ++ q) :
    genNode r reg.max q = some none ∨
    ∃ p' x q' addr a n, q = p' ++ x :: q' ∧ GenFits r addr a n ∧ x.start ≤ a ∧ 0 < n ∧
      a + n ≤ x.stop ∧ n % 8 = 0 ∧ a % 8 = 0 ∧
      genNode r reg.max q = some (some (addr, p' ++ cut x a n ++ q')) := by
  induction q generalizing p with
  | nil => exact .inl rfl
  | cons x q ih =>
    have hok : NodeOk reg.max x q := h.nodeOk hn
    have hx : x ∈ reg.nodes := by rw [hn]; exact List.mem_append_right _ List.mem_cons_self
    have hstop := hlow x hx
    obtain ⟨hx8, hlen8⟩ := h.aligned x hx
    have hn' : reg.nodes = (p ++ [x]) ++ q := by rw [hn, List.append_assoc]; rfl
    have hskip : (genNode r reg.max q).map (Option.map fun s => (s.1, x :: s.2)) = some none ∨
        ∃ p' y q' addr a n, x :: q = p' ++ y :: q' ∧ GenFits r addr a n ∧ y.start ≤ a ∧ 0 < n ∧
          a + n ≤ y.stop ∧ n % 8 = 0 ∧ a % 8 = 0 ∧
          (genNode r reg.max q).map (Option.map fun s => (s.1, x :: s.2)) =
            some (some (addr, p' ++ cut y a n ++ q')) := by
      rcases ih hn' with hs | ⟨p', y, q', addr, a, n, hq, hf, h1, h2, h3, h4, h5, hs⟩
      · rw [hs]
        exact .inl rfl
      · rw [hs, hq]
        exact .inr ⟨x :: p', y, q', addr, a, n, rfl, hf, h1, h2, h3, h4, h5, rfl⟩
    unfold Extent.stop at hstop
    obtain ⟨ha1, ha2, ha3, ha4⟩ := GenReq.addr_spec hr (x := x) (by omega)
    have hpos := hr.pos
    rw [genNode, if_neg (not_not.mpr hok)]
    split
    · exact hskip
    rename_i hsize
    split
    · exact hskip
    rename_i hroom
    split
    · exact .inl rfl
    rename_i hmax
    generalize r.addr x = addr at *
    have hsub : u32sub addr x.start = addr - x.start := u32sub_of_le (by omega) (by omega)
    rw [hsub] at hroom
    have hroom' : addr - x.start + r.size ≤ x.len := by
      unfold u32 at hroom
      omega
    have hmax' : addr + r.size ≤ r.inMax := by
      unfold u32 at hmax
      omega
    have htaken : r.taken addr = (addr % 8 + r.size + 7) / 8 * 8 := alignUp_eq (by omega)
    have hdown : alignDown addr = addr / 8 * 8 := rfl
    rw [if_neg (by rw [hdown]; omega)]
    right
    refine ⟨[], x, q, addr, alignDown addr, r.taken addr, rfl,
      ⟨ha4, by omega, hmax', rfl, rfl, by omega, by omega⟩, by omega, by omega, ?_, ?_,
      alignDown_mod _, ?_⟩
    · unfold Extent.stop
      omega
    · rw [htaken]
      exact Nat.mul_mod_left _ _
    · dsimp only
      rw [genNode_cut (by unfold Extent.stop; omega) (by omega) (by unfold Extent.stop; omega)]
      rfl

/-- `regs'` is `regs` with the memory of the block at `addr` taken out -/
def GenTakes (r : GenReq) (regs : List LmmRegion) (addr : Nat) (regs' : List LmmRegion) : Prop :=
  ∃ pre reg post p x q a n, regs = pre ++ reg :: post ∧ reg.nodes = p ++ x :: q ∧
    reg.Serves r.flags ∧ GenFits r addr a n ∧ x.start ≤ a ∧ 0 < n ∧ a + n ≤ x.stop ∧ n % 8 = 0 ∧
    a % 8 = 0 ∧ regs' = pre ++ reg.take p q x a n :: post

theorem genRegion_spec {r : GenReq} (hr : r.Small)
    (h : ∀ reg ∈ regs, RegionOk reg ∧ ∀ x ∈ reg.nodes, x.stop ≤ 2^30) :
    genRegion r regs = some none ∨
      ∃ addr regs', genRegion r regs = some (some (addr, regs')) ∧ GenTakes r regs addr regs' := by
  induction regs with
  | nil => exact .inl rfl
  | cons reg regs ih =>
    obtain ⟨hreg, hlow⟩ := h reg List.mem_cons_self
    have ih := ih fun r hr => h r (List.mem_cons_of_mem _ hr)
    have hskip : (genRegion r regs).map (Option.map fun s => (s.1, reg :: s.2)) = some none ∨
        ∃ addr regs', (genRegion r regs).map (Option.map fun s => (s.1, reg :: s.2)) =
          some (some (addr, regs')) ∧ GenTakes r (reg :: regs) addr regs' := by
      rcases ih with hs | ⟨addr, regs', hs, ht⟩
      · rw [hs]
        exact .inl rfl
      · obtain ⟨pre, reg', post, p, x, q, a, n, rfl, hn, ht⟩ := ht
        rw [hs]
        obtain ⟨hsv, hf, h1, h2, h3, h4, h5, rfl⟩ := ht
        exact .inr ⟨addr, _, rfl, reg :: pre, reg', post, p, x, q, a, n, rfl, hn, hsv, hf, h1, h2,
          h3, h4, h5, rfl⟩
    have hguard : ¬ ¬ (reg.HeadOk ∧ reg.free ≤ u32sub reg.max reg.min) :=
      not_not.mpr ⟨hreg.headOk, hreg.free_le⟩
    rw [genRegion, if_neg hguard]
    split
    · exact hskip
    rename_i hs
    have hserves : reg.Serves r.flags := by
      by_contra hc
      exact hs (.inl hc)
    have hnil : reg.nodes = [] ++ reg.nodes := rfl
    rcases genNode_spec hr hreg hlow hnil with hg | hg
    · rw [hg]
      exact hskip
    · obtain ⟨p, x, q, addr, a, n, hn, hf, h1, h2, h3, h4, h5, hg⟩ := hg
      have hx : x ∈ reg.nodes := by rw [hn]; exact List.mem_append_right _ List.mem_cons_self
      have hlen := len_le_total hx
      rw [← hreg.free] at hlen
      have hfree : r.taken addr ≤ reg.free := by
        rw [← hf.len]
        unfold Extent.stop at h3
        omega
      rw [hg]
      right
      refine ⟨addr, reg.take p q x a n :: regs, ?_, [], reg, regs, p, x, q, a, n, rfl, hn, hserves,
        hf, h1, h2, h3, h4, h5, rfl⟩
      show (if r.taken addr ≤ reg.free then _ else none) = _
      rw [if_pos hfree, ← hf.len]
      rfl

/-! ## freeing -/

theorem findPlace_spec (node : Nat) (prevs nodes : List Extent) (hs : Spaced nodes)
    (hp : ∀ y ∈ prevs, y.start < node) :
    ∃ prevs' nexts, findPlace node prevs nodes = (prevs', nexts) ∧
      prevs'.reverse ++ nexts = prevs.reverse ++ nodes ∧ (∀ y ∈ prevs', y.start < node) ∧
      ∀ z ∈ nexts, node ≤ z.start := by
  induction nodes generalizing prevs with
  | nil => exact ⟨prevs, [], rfl, rfl, hp, by simp⟩
  | cons x nodes ih =>
    obtain ⟨_, hx, hs'⟩ := spaced_cons.mp hs
    unfold findPlace
    split
    · rename_i hlt
      obtain ⟨prevs', nexts, hf, happ, h1, h2⟩ := ih (x :: prevs) hs' (by
        simp only [List.forall_mem_cons]
        exact ⟨hlt, hp⟩)
      refine ⟨prevs', nexts, hf, ?_, h1, h2⟩
      rw [happ, List.reverse_cons, List.append_assoc]
      rfl
    · rename_i hge
      refine ⟨prevs, x :: nodes, rfl, rfl, hp, ?_⟩
      simp only [List.forall_mem_cons]
      refine ⟨Nat.le_of_not_lt hge, fun z hz => ?_⟩
      have := hx z hz
      unfold Extent.stop at this
      omega

/-- the right half of the join: the block and the nodes behind it -/
theorem newNode_spec {nexts : List Extent} (hs : Spaced nexts)
    (hge : ∀ z ∈ nexts, node + size ≤ z.start) (hlt : ∀ z ∈ nexts, z.stop < 2^32)
    (hend : node + size < 2^32) :
    ∃ right q m, nexts = right ++ q ∧ newNode node size nexts = m :: q ∧ m.start = node ∧
      (right = [] ∧ m.stop = node + size ∨
        ∃ z, right = [z] ∧ z.start = node + size ∧ m.stop = z.stop) ∧
      ∀ z ∈ q, m.stop < z.start := by
  have hu : u32 (node + size) = node + size := Nat.mod_eq_of_lt hend
  cases nexts with
  | nil => exact ⟨[], [], ⟨node, size⟩, rfl, rfl, rfl, .inl ⟨rfl, rfl⟩, by simp⟩
  | cons z rest =>
    obtain ⟨hz, hzr, hs'⟩ := spaced_cons.mp hs
    have hzge := hge z List.mem_cons_self
    have hzlt := hlt z List.mem_cons_self
    unfold Extent.stop at hzlt
    rw [newNode, hu]
    split
    · rename_i hle
      have hlen : u32 (size + z.len) = size + z.len := Nat.mod_eq_of_lt (by omega)
      refine ⟨[z], rest, ⟨node, u32 (size + z.len)⟩, rfl, rfl, rfl, .inr ⟨z, rfl, by omega, ?_⟩, ?_⟩
      · show node + u32 (size + z.len) = z.start + z.len
        omega
      · intro w hw
        have := hzr w hw
        show node + u32 (size + z.len) < w.start
        unfold Extent.stop at this
        omega
    · rename_i hgt
      refine ⟨[], z :: rest, ⟨node, size⟩, rfl, rfl, rfl, .inl ⟨rfl, rfl⟩, ?_⟩
      intro w hw
      show node + size < w.start
      rcases List.mem_cons.mp hw with rfl | hw
      · omega
      · have := hzr w hw
        unfold Extent.stop at this
        omega

/-- growing over the block gives the node that `newNode` gives, with the previous one in front -/
theorem growPrev_eq {prev : Extent} {nexts : List Extent} (hprev : prev.stop = node)
    (hge : ∀ z ∈ nexts, node + size ≤ z.start) (hlt : ∀ z ∈ nexts, z.stop < 2^32)
    (hend : node + size < 2^32) {m : Extent} {q : List Extent}
    (h : newNode node size nexts = m :: q) :
    growPrev prev node size nexts = some (⟨prev.start, prev.len + m.len⟩ :: q) := by
  have hu : u32 (node + size) = node + size := Nat.mod_eq_of_lt hend
  unfold Extent.stop at hprev
  cases nexts with
  | nil =>
    simp only [newNode, List.cons.injEq] at h
    obtain ⟨rfl, rfl⟩ := h
    have hlen : u32 (prev.len + size) = prev.len + size := Nat.mod_eq_of_lt (by omega)
    rw [growPrev, hlen]
  | cons z rest =>
    have hzge := hge z List.mem_cons_self
    have hzlt := hlt z List.mem_cons_self
    unfold Extent.stop at hzlt
    rw [newNode, hu] at h
    rw [growPrev, hu]
    split at h
    · rename_i hle
      rw [List.cons.injEq] at h
      obtain ⟨rfl, rfl⟩ := h
      have hlen : u32 (size + z.len) = size + z.len := Nat.mod_eq_of_lt (by omega)
      have hlen' : u32 (prev.len + (size + z.len)) = prev.len + (size + z.len) :=
        Nat.mod_eq_of_lt (by omega)
      rw [if_pos hle, if_pos (by omega), hlen, hlen']
    · rename_i hgt
      rw [List.cons.injEq] at h
      obtain ⟨rfl, rfl⟩ := h
      have hlen : u32 (prev.len + size) = prev.len + size := Nat.mod_eq_of_lt (by omega)
      rw [if_neg hgt, hlen]

/-- a block apart from the free list is joined to it -/
theorem linkNode_spec {nodes : List Extent} (hs : Spaced nodes) (hpos : 0 < size)
    (hapart : ∀ x ∈ nodes, x.Apart ⟨node, size⟩) (hlt : ∀ x ∈ nodes, x.stop < 2^32)
    (hend : node + size < 2^32) :
    ∃ nodes', linkNode node size (findPlace node [] nodes) = some nodes' ∧
      Joined nodes ⟨node, size⟩ nodes' := by
  obtain ⟨prevs, nexts, hf, happ, hbefore, hbehind⟩ := findPlace_spec node [] nodes hs (by simp)
  rw [List.reverse_nil, List.nil_append] at happ
  subst happ
  rw [hf]
  obtain ⟨hsp, hsn, hpn⟩ := spaced_append.mp hs
  have hprevs : ∀ y ∈ prevs, y.stop ≤ node := by
    intro y hy
    rcases hapart y (List.mem_append_left _ (List.mem_reverse.mpr hy)) with h | h
    · exact h
    · have := hbefore y hy
      unfold Extent.stop at h
      dsimp only at h
      omega
  have hnexts : ∀ z ∈ nexts, node + size ≤ z.start := by
    intro z hz
    have hpz := hsn.2 z hz
    rcases hapart z (List.mem_append_right _ hz) with h | h
    · have := hbehind z hz
      unfold Extent.stop at h
      dsimp only at h
      omega
    · exact h
  have hltn : ∀ z ∈ nexts, z.stop < 2^32 := fun z hz => hlt z (List.mem_append_right _ hz)
  obtain ⟨right, q, m, hnx, hnew, hm, hright, hq⟩ := newNode_spec hsn hnexts hltn hend
  cases prevs with
  | nil =>
    rw [linkNode, hnew]
    refine ⟨_, rfl, [], [], right, q, m, by rw [hnx]; rfl, rfl, .inl ⟨rfl, hm⟩, hright, by simp, hq⟩
  | cons prev prevs =>
    have hprev := hprevs prev List.mem_cons_self
    have hprevlt := hlt prev (List.mem_append_left _ (List.mem_reverse.mpr List.mem_cons_self))
    unfold Extent.stop at hprev hprevlt
    have hu : u32 (prev.start + prev.len) = prev.start + prev.len := Nat.mod_eq_of_lt hprevlt
    rw [List.reverse_cons] at hsp hs ⊢
    obtain ⟨_, hsprev, hpp⟩ := spaced_append.mp hsp
    have hgap : ∀ y ∈ prevs, y.stop < prev.start := by
      intro y hy
      exact hpp y (List.mem_reverse.mpr hy) prev List.mem_cons_self
    rw [linkNode, hu]
    split
    · rename_i hle
      rw [if_pos (by omega), growPrev_eq (by unfold Extent.stop; omega) hnexts hltn hend hnew]
      refine ⟨_, rfl, prevs.reverse, [prev], right, q, ⟨prev.start, prev.len + m.len⟩, ?_, rfl,
        .inr ⟨prev, rfl, ?_, rfl⟩, ?_, ?_, ?_⟩
      · rw [hnx]
        simp
      · show prev.start + prev.len = node
        omega
      · have hstop : Extent.stop ⟨prev.start, prev.len + m.len⟩ = m.stop := by
          unfold Extent.stop
          dsimp only
          omega
        rw [hstop]
        exact hright
      · intro y hy
        exact hgap y (List.mem_reverse.mp hy)
      · intro z hz
        have := hq z hz
        unfold Extent.stop at this ⊢
        dsimp only
        omega
    · rename_i hgt
      rw [hnew]
      refine ⟨_, rfl, prevs.reverse ++ [prev], [], right, q, m, ?_, ?_, .inl ⟨rfl, hm⟩, hright, ?_,
        hq⟩
      · rw [hnx]
        simp
      · simp
      · intro y hy
        rw [hm]
        rcases List.mem_append.mp hy with hy | hy
        · have := hgap y (List.mem_reverse.mp hy)
          unfold Extent.stop at this ⊢
          omega
        · rw [List.mem_singleton.mp hy]
          unfold Extent.stop
          omega

/-- a region with a block put back -/
theorem RegionOk.put (h : RegionOk reg) (hpos : 0 < size) (h0 : 0 < node) (hn8 : node % 8 = 0)
    (hs8 : size % 8 = 0) (hmin : reg.min ≤ node) (hmax : node + size ≤ reg.max)
    {nodes : List Extent} (hj : Joined reg.nodes ⟨node, size⟩ nodes) :
    RegionOk { reg with nodes := nodes, free := reg.free + size } := by
  have hs : Spaced nodes := hj.spaced h.spaced hpos
  refine ⟨hs, fun x hx => ?_, fun x hx => ?_, fun x hx => ?_, ?_, h.minMax, h.max⟩
  · obtain ⟨h1, h2⟩ := hj.ends hx
    have hstart : x.start % 8 = 0 := by
      rcases h1 with h1 | ⟨y, hy, h1⟩
      · rw [h1]
        exact hn8
      · rw [h1]
        exact (h.aligned y hy).1
    have hstop : x.stop % 8 = 0 := by
      rcases h2 with h2 | ⟨y, hy, h2⟩
      · rw [h2]
        unfold Extent.stop
        dsimp only
        omega
      · obtain ⟨h3, h4⟩ := h.aligned y hy
        rw [h2]
        unfold Extent.stop
        omega
    unfold Extent.stop at hstop
    omega
  · obtain ⟨h1, h2⟩ := hj.ends hx
    constructor
    · rcases h1 with h1 | ⟨y, hy, h1⟩
      · rw [h1]
        exact hmin
      · rw [h1]
        exact (h.inside y hy).1
    · rcases h2 with h2 | ⟨y, hy, h2⟩
      · rw [h2]
        exact hmax
      · rw [h2]
        exact (h.inside y hy).2
  · rcases (hj.ends hx).1 with h1 | ⟨y, hy, h1⟩
    · rw [h1]
      exact h0
    · rw [h1]
      exact h.notNull y hy
  · rw [hj.total, ← h.free]

/-- a block of one of the regions goes back to it -/
theorem freeRegion_spec (h : ∀ reg ∈ regs, RegionOk reg) {pre post : List LmmRegion}
    (hregs : regs = pre ++ reg :: post) (hpre : ∀ r ∈ pre, ¬ (r.min ≤ node ∧ node < r.max))
    (hpos : 0 < size) (h0 : 0 < node) (hn8 : node % 8 = 0) (hs8 : size % 8 = 0)
    (hmin : reg.min ≤ node) (hmax : node + size ≤ reg.max)
    (hapart : ∀ x ∈ reg.nodes, x.Apart ⟨node, size⟩) :
    ∃ nodes, Joined reg.nodes ⟨node, size⟩ nodes ∧
      freeRegion node size regs =
        some (pre ++ { reg with nodes := nodes, free := reg.free + size } :: post) := by
  induction pre generalizing regs with
  | nil =>
    rw [List.nil_append] at hregs
    subst hregs
    have hreg := h reg List.mem_cons_self
    have hlt : reg.max < 2^32 := hreg.max
    obtain ⟨nodes, hl, hj⟩ := linkNode_spec hreg.spaced hpos hapart
      (fun x hx => Nat.lt_of_le_of_lt (hreg.inside x hx).2 hreg.max) (by omega)
    have hok := (hreg.put hpos h0 hn8 hs8 hmin hmax hj).free_le
    have hle := u32sub_of_le hreg.minMax hreg.max
    change reg.free + size ≤ u32sub reg.max reg.min at hok
    have hu : u32 (reg.free + size) = reg.free + size := Nat.mod_eq_of_lt (by omega)
    refine ⟨nodes, hj, ?_⟩
    rw [freeRegion, if_neg (not_not.mpr hreg.headOk), if_pos ⟨hmin, by omega⟩, hu, if_pos hok, hl]
    rfl
  | cons r pre ih =>
    subst hregs
    obtain ⟨nodes, hj, hf⟩ := ih (fun r hr => h r (List.mem_cons_of_mem _ hr)) rfl
      (fun r hr => hpre r (List.mem_cons_of_mem _ hr))
    refine ⟨nodes, hj, ?_⟩
    change freeRegion node size (pre ++ reg :: post) = _ at hf
    rw [List.cons_append, freeRegion, if_neg (not_not.mpr (h r List.mem_cons_self).headOk),
      if_neg (hpre r List.mem_cons_self), hf]
    rfl

end Paravirt

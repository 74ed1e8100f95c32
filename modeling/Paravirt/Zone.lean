import Mathlib.Logic.Function.Basic
import Mathlib.Algebra.Group.Nat.Defs
import Mathlib.Algebra.Group.Int.Defs
import Mathlib.Tactic.Common

/-!
# The buddy allocator (kern/vmm_zone.c)

Addresses are kernel virtual addresses, natural numbers below `2^32`; `u32` is the wrap of the
32-bit sums the code forms.  A zone holds

* `freeAreaList i`   the `vmb_free_area_t` of order `i`: its counter `numFree` and its free list,
                     front first (the `free_link` pointers of `variable_queue.h` as a list);
* `order a`          the `order` field of the node header stored in the free page `a` itself.

`NULL` is `none`.  The `buddy` field of a node is written and never read, so it is left out.
-/

set_option linter.unusedVariables false

namespace Paravirt

def pageShift : Nat := 12
def pageSize : Nat := 4096

/-- the value of a 32-bit unsigned expression -/
def u32 (n : Nat) : Nat := n % 2^32

theorem u32_of_lt {n : Nat} (h : n < 2^32) : u32 n = n := Nat.mod_eq_of_lt h

def u32sub (a b : Nat) : Nat := u32 (a + (2^32 - u32 b))

theorem u32sub_add {a b : Nat} (h : a + b < 2^32) : u32sub (a + b) b = a := by
  unfold u32sub
  rw [u32_of_lt (show b < 2^32 by omega)]
  unfold u32
  omega

/-! ## vmm_floor_log2 (kern/vmm_page.c) -/

/-- `if (n >= 1<<b) { n >>= b; pos += b; }` -/
def log2Step (b : Nat) (s : Nat × Nat) : Nat × Nat :=
  if s.1 ≥ 1 <<< b then (s.1 >>> b, s.2 + b) else s

def vmmFloorLog2 (n : Nat) : Nat :=
  let s := log2Step 2 (log2Step 4 (log2Step 8 (log2Step 16 (n, 0))))
  let pos := if s.1 ≥ 1 <<< 1 then s.2 + 1 else s.2
  if s.1 = 0 then 0 else pos

/-! ## the zone -/

structure VmbFreeArea where
  numFree : Int
  freeList : List Nat
  deriving DecidableEq, Repr, Inhabited

structure VmmZone where
  freeAreaList : Nat → VmbFreeArea
  order : Nat → Nat
  start : Nat
  numPages : Nat
  maxOrder : Nat

/-- `free_area_list[i].num_free++; Q_INSERT_FRONT(&free_area_list[i].free_list, node)` -/
def VmmZone.pushFront (z : VmmZone) (i node : Nat) : VmmZone :=
  { z with
    freeAreaList := Function.update z.freeAreaList i
      { numFree := (z.freeAreaList i).numFree + 1
        freeList := node :: (z.freeAreaList i).freeList } }

/-- `free_area_list[i].num_free--; Q_REMOVE(&free_area_list[i].free_list, node)` -/
def VmmZone.remove (z : VmmZone) (i node : Nat) : VmmZone :=
  { z with
    freeAreaList := Function.update z.freeAreaList i
      { numFree := (z.freeAreaList i).numFree - 1
        freeList := (z.freeAreaList i).freeList.erase node } }

/-- `node->order = k` -/
def VmmZone.setOrder (z : VmmZone) (node k : Nat) : VmmZone :=
  { z with order := Function.update z.order node k }

/-- the address `(uint32_t)node + (PAGE_SIZE << i)` -/
def buddyAddr (node i : Nat) : Nat := u32 (node + pageSize <<< i)

/-! ## vmm_buddy_init, vmm_zone_init -/

/-- `sizeof(vmb_free_area_t)`, a packed struct of an int and two pointers -/
def sizeofFreeArea : Nat := 12

/-- `((sizeof(vmb_free_area_t) * upper_order - 1) >> PAGE_SHIFT) + 1`; the product is unsigned, so
the subtraction wraps when `upper_order` is 0 -/
def freeAreaStructPages (upperOrder : Nat) : Nat :=
  u32 (sizeofFreeArea * upperOrder + 2^32 - 1) >>> pageShift + 1

/-- where `vmm_buddy_init` puts the first node, and the order it gives it -/
def buddyInitBlock (memStart numPages : Nat) : Nat × Nat :=
  let structPages := freeAreaStructPages (vmmFloorLog2 (u32 numPages))
  let firstPage := u32 (memStart + structPages <<< pageShift)
  -- `num_pages -= free_area_struct_pages` may go negative; `vmm_floor_log2` reads it as unsigned
  (firstPage, vmmFloorLog2 (u32 (numPages + 2^32 - structPages)))

/-- `hdr` is what the `order` words of the pages held before.  When the first node lands on the
free area table itself, its header overwrites entry 0: `node->order` is `num_free`,
`node->buddy` and `free_link.next` are the two pointers of the list head. -/
def vmmBuddyInit (hdr : Nat → Nat) (memStart numPages : Nat) : VmmZone :=
  let (firstPage, upperOrder) := buddyInitBlock memStart numPages
  let table : Nat → VmbFreeArea := fun i =>
    if firstPage = memStart ∧ i = 0 then ⟨upperOrder, []⟩ else ⟨0, []⟩
  VmmZone.pushFront
    { freeAreaList := table
      order := Function.update hdr firstPage upperOrder
      start := memStart
      numPages := numPages
      maxOrder := upperOrder }
    upperOrder firstPage

def vmmZoneInit (hdr : Nat → Nat) (start numPages : Nat) : VmmZone :=
  vmmBuddyInit hdr start numPages

/-! ## vmm_buddy_get_free_pages -/

/-- the body of the loop of `buddy_split_node`: the upper half goes to the next lower list -/
def splitStep (z : VmmZone) (node : Nat) : VmmZone :=
  let k := z.order node - 1
  let z := z.setOrder node k
  let newNode := buddyAddr node k
  let z := z.setOrder newNode k
  z.pushFront k newNode

def splitLoop : Nat → VmmZone → Nat → VmmZone
  | 0, z, _ => z
  | n+1, z, node => splitLoop n (splitStep z node) node

/-- `for (i = node->order; i > order; i--)` -/
def buddySplitNode (z : VmmZone) (node order : Nat) : VmmZone × Option Nat :=
  let z := splitLoop (z.order node - order) z node
  (z, if z.order node = order then some node else none)

/-- the loop over the orders `i, …, upper_order`; `n` counts the orders left -/
def getLoop : Nat → Nat → VmmZone → Nat → VmmZone × Option Nat
  | 0, _, z, _ => (z, none)
  | n+1, i, z, order =>
    if (z.freeAreaList i).numFree = 0 then getLoop n (i+1) z order
    else
      let node := (z.freeAreaList i).freeList.headD 0
      buddySplitNode (z.remove i node) node order

def vmmBuddyGetFreePages (z : VmmZone) (order : Nat) : VmmZone × Option Nat :=
  getLoop (z.maxOrder + 1 - order) order z order

/-! ## vmm_buddy_free_pages -/

/-- what one `Q_FOREACH` over the free list of order `i` finds for `node` -/
inductive Scan where
  /-- no neighbour: `curpos == NULL` after the loop -/
  | nothing
  /-- `curpos` is removed and `node` goes on -/
  | merge (curpos node : Nat)
  /-- `node` is already on the list -/
  | doubleFree
  deriving DecidableEq, Repr

def scanFreeList (i node : Nat) : List Nat → Scan
  | [] => .nothing
  | curpos :: rest =>
    if curpos > node then
      if buddyAddr node i ≠ curpos then scanFreeList i node rest else .merge curpos node
    else if curpos < node then
      if buddyAddr curpos i = node then .merge curpos curpos else scanFreeList i node rest
    else .doubleFree

/-- the merge loop over the orders `i, …, upper_order`.  The second component is the node to
insert, `none` when the function has returned on a double free. -/
def freeLoop : Nat → Nat → VmmZone → Nat → VmmZone × Option Nat
  | 0, _, z, node => (z, some node)
  | n+1, i, z, node =>
    match scanFreeList i node (z.freeAreaList i).freeList with
    | .nothing => (z, some node)
    | .doubleFree => (z, none)
    | .merge curpos node =>
      freeLoop n (i+1) ((z.setOrder node (z.order node + 1)).remove i curpos) node

def vmmBuddyFreePages (z : VmmZone) (pgaddr order : Nat) : VmmZone :=
  match freeLoop (z.maxOrder + 1 - order) order (z.setOrder pgaddr order) pgaddr with
  | (z, none) => z
  | (z, some node) => z.pushFront (z.order node) node

end Paravirt

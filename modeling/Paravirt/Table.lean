import Paravirt.Vq
import Mathlib.Algebra.Group.Nat.Defs
import Mathlib.Algebra.Group.Int.Defs

/-!
# The task and thread tables (kern/inc/variable_hash.h, kern/sched.c)

A table is an array of queue heads with the three functions `HASH_INIT` is given.  Both tables of
the scheduler are one definition: they differ in the size of the array.

* `jenkinsHash`, `schedHashfn`   the index of an id;
* `HashTable`                    the macros on a table;
* `MapStep`                      a call of the scheduler, or a step of the rest of the kernel;
* `MapInv`                       a bucket holds the present objects of its index;
* `sched_tables_are_maps`        what a lookup returns after any run.
-/

set_option linter.unusedSectionVars false

namespace Paravirt
open DList

/-! ## the hash -/

/-- byte `i` of an `int` -/
def idByte (id : Int32) (i : Nat) : UInt32 := (id.toUInt32 >>> UInt32.ofNat (8*i)) &&& 0xff

def jenkinsRound (hash key : UInt32) : UInt32 :=
  let hash := hash + key
  let hash := hash + (hash <<< 10)
  hash ^^^ (hash >>> 6)

def jenkinsHash (id : Int32) : UInt32 :=
  let hash := (List.range 4).foldl (fun hash i => jenkinsRound hash (idByte id i)) 0
  let hash := hash + (hash <<< 3)
  let hash := hash ^^^ (hash >>> 11)
  hash + (hash <<< 15)

def schedHashcmp (id1 id2 : Int32) : Int := if id1 = id2 then 0 else if id1 > id2 then 1 else -1

def schedHashfn (size : Nat) (id : Int32) : UInt32 := jenkinsHash id &&& UInt32.ofNat (size - 1)

def VMM_MAX_TASKS : Nat := 4096
def VMM_MAX_THREADS : Nat := 4096
def TASK_MAP_SIZE : Nat := VMM_MAX_TASKS <<< 1
def THREAD_MAP_SIZE : Nat := VMM_MAX_THREADS <<< 1

def schedTaskHashfn : Int32 → UInt32 := schedHashfn TASK_MAP_SIZE
def schedThreadHashfn : Int32 → UInt32 := schedHashfn THREAD_MAP_SIZE

theorem schedHashcmp_eq_zero {a b : Int32} : schedHashcmp a b = 0 ↔ a = b := by
  unfold schedHashcmp
  by_cases h : a = b
  · rw [if_pos h]
    exact ⟨fun _ => h, fun _ => rfl⟩
  rw [if_neg h]
  refine ⟨fun hc => ?_, fun hc => absurd hc h⟩
  split at hc <;> omega

/-- the mask of a table that is not empty gives an index of the table -/
theorem schedHashfn_lt {size : Nat} (h0 : 0 < size) (hs : size < 2^32) (id : Int32) :
    (schedHashfn size id).toNat < size := by
  have h1 : (schedHashfn size id).toNat ≤ (UInt32.ofNat (size - 1)).toNat := by
    unfold schedHashfn
    rw [UInt32.toNat_and]
    exact Nat.and_le_right
  have h2 : (UInt32.ofNat (size - 1)).toNat = size - 1 := by
    rw [UInt32.toNat_ofNat']
    exact Nat.mod_eq_of_lt (by omega)
  omega

/-! ## the macros -/

/-- `task_t` or `thread_t`: the id, the reference count, and in `heap` the link and the buckets -/
structure MapObjs (ν : Type*) where
  heap : QHeap ν Unit Nat
  id : ν → Int32
  count : ν → Int

structure HashTable where
  size : Nat
  hashfn : Int32 → UInt32
  hashcmp : Int32 → Int32 → Int
  hashfn_lt : ∀ id, (hashfn id).toNat < size
  hashcmp_zero : ∀ a b, hashcmp a b = 0 ↔ a = b

namespace HashTable
variable {ν : Type*} [DecidableEq ν]

/-- `hashkey`: `sched_task_hashkey`, `sched_thread_hashkey` -/
def hashkey (s : MapObjs ν) (o : ν) : Int32 := s.id o

/-- `HASH_INIT` -/
def init (T : HashTable) (s : MapObjs ν) : MapObjs ν :=
  { s with heap.heads := fun i => if i < T.size then .empty else s.heap.heads i }

/-- `HASH_INSERT` -/
def insert (T : HashTable) (s : MapObjs ν) (key : Int32) (o : ν) : MapObjs ν :=
  { s with heap := s.heap.qInsertTail () (T.hashfn key).toNat o }

/-- `HASH_REMOVE` -/
def remove (T : HashTable) (s : MapObjs ν) (key : Int32) (o : ν) : MapObjs ν :=
  { s with heap := s.heap.qRemove () (T.hashfn key).toNat o }

/-- the loop of `HASH_LOOKUP`: the cursor is the result, `none` is out of fuel -/
def lookupLoop (T : HashTable) (s : MapObjs ν) (key : Int32) : Nat → Option ν → Option (Option ν)
  | 0, _ => none
  | _ + 1, none => some none
  | fuel + 1, some o =>
    if T.hashcmp key (hashkey s o) = 0 then some (some o)
    else T.lookupLoop s key fuel (s.heap.links () o).next

/-- `HASH_LOOKUP` -/
def lookup (T : HashTable) (s : MapObjs ν) (fuel : Nat) (key : Int32) : Option (Option ν) :=
  T.lookupLoop s key fuel (s.heap.heads (T.hashfn key).toNat).first

/-! ## the calls of the scheduler -/

def get (s : MapObjs ν) (o : ν) : MapObjs ν :=
  { s with count := Function.update s.count o (s.count o + 1) }

/-- the count; what the release of the last reference does is left to the steps that follow -/
def put (s : MapObjs ν) (o : ν) : MapObjs ν :=
  { s with count := Function.update s.count o (s.count o - 1) }

def add (T : HashTable) (s : MapObjs ν) (o : ν) : MapObjs ν :=
  let s := get s o
  T.insert s (s.id o) o

def erase (T : HashTable) (s : MapObjs ν) (o : ν) : MapObjs ν := put (T.remove s (s.id o) o) o

def find (T : HashTable) (s : MapObjs ν) (fuel : Nat) (id : Int32) : Option (Option ν) :=
  T.lookup s fuel id

end HashTable

def schedTaskMap : HashTable where
  size := TASK_MAP_SIZE
  hashfn := schedTaskHashfn
  hashcmp := schedHashcmp
  hashfn_lt := schedHashfn_lt (by decide) (by decide)
  hashcmp_zero _ _ := schedHashcmp_eq_zero

def schedThreadMap : HashTable where
  size := THREAD_MAP_SIZE
  hashfn := schedThreadHashfn
  hashcmp := schedHashcmp
  hashfn_lt := schedHashfn_lt (by decide) (by decide)
  hashcmp_zero _ _ := schedHashcmp_eq_zero

section
variable {ν : Type*} [DecidableEq ν]

def schedAddTask : MapObjs ν → ν → MapObjs ν := schedTaskMap.add
def schedFindTask : MapObjs ν → Nat → Int32 → Option (Option ν) := schedTaskMap.find
def schedRemoveTask : MapObjs ν → ν → MapObjs ν := schedTaskMap.erase
def schedAddThread : MapObjs ν → ν → MapObjs ν := schedThreadMap.add
def schedFindThread : MapObjs ν → Nat → Int32 → Option (Option ν) := schedThreadMap.find
def schedRemoveThread : MapObjs ν → ν → MapObjs ν := schedThreadMap.erase

end

/-! ## runs -/

/-- the objects, and which of them were added and not removed since -/
structure MapState (ν : Type*) where
  objs : MapObjs ν
  present : ν → Prop

inductive MapOp (ν : Type*) where
  | add (o : ν)
  | remove (o : ν)
  | find (id : Int32)
  | other

/-- a call on the table, or a step of the rest of the kernel, which may allocate, free and set up
objects that are not present, and take and drop references to all of them -/
def MapStep {ν : Type*} (add remove : MapObjs ν → ν → MapObjs ν) (s : MapState ν) :
    MapOp ν → MapState ν → Prop
  | .add o, t => (∀ x, s.present x → s.objs.id x ≠ s.objs.id o) ∧ t.objs = add s.objs o ∧
      ∀ x, t.present x ↔ s.present x ∨ x = o
  | .remove o, t => s.present o ∧ t.objs = remove s.objs o ∧
      ∀ x, t.present x ↔ s.present x ∧ x ≠ o
  | .find _, t => t = s
  | .other, t => t.present = s.present ∧ t.objs.heap.heads = s.objs.heap.heads ∧
      ∀ x, s.present x → t.objs.id x = s.objs.id x ∧
        t.objs.heap.links () x = s.objs.heap.links () x

/-- what a lookup returns, and that the buckets are lists, is told of a state by `present` -/
structure IsMap {ν : Type*} (T : HashTable) (find : MapObjs ν → Nat → Int32 → Option (Option ν))
    (s : MapState ν) : Prop where
  found : ∀ o, s.present o → ∃ n, ∀ fuel ≥ n, find s.objs fuel (s.objs.id o) = some (some o)
  absent : ∀ id, (∀ o, s.present o → s.objs.id o ≠ id) →
    ∃ n, ∀ fuel ≥ n, find s.objs fuel id = some none
  buckets : ∃ bucket : Nat → List ν, ∀ i < T.size,
    IsList (s.objs.heap.links ()) (s.objs.heap.heads i) (bucket i) ∧
      ∀ o, o ∈ bucket i ↔ s.present o ∧ (T.hashfn (s.objs.id o)).toNat = i

namespace HashTable
variable {ν : Type*} [DecidableEq ν] {T : HashTable} {s t : MapState ν}

/-- bucket `i` of the array as the list it stands for -/
structure MapInv (T : HashTable) (s : MapState ν) (bucket : Nat → Option (List ν)) : Prop where
  lists : QInv (fun _ => ()) ⟨s.objs.heap, bucket⟩
  size : ∀ i, (bucket i).isSome ↔ i < T.size
  mem : ∀ i l o, bucket i = some l → (o ∈ l ↔ s.present o ∧ (T.hashfn (s.objs.id o)).toNat = i)
  inj : ∀ x y, s.present x → s.present y → s.objs.id x = s.objs.id y → x = y

section
variable {bucket : Nat → Option (List ν)} (h : MapInv T s bucket)
include h

theorem MapInv.bucket_of (id : Int32) : ∃ l, bucket (T.hashfn id).toNat = some l :=
  Option.isSome_iff_exists.mp ((h.size _).mpr (T.hashfn_lt id))

theorem MapInv.mem_bucket {o : ν} (ho : s.present o) :
    ∃ l, bucket (T.hashfn (s.objs.id o)).toNat = some l ∧ o ∈ l := by
  obtain ⟨l, hl⟩ := h.bucket_of (s.objs.id o)
  exact ⟨l, hl, (h.mem _ l o hl).mpr ⟨ho, rfl⟩⟩

/-- one operation on the bucket of an object -/
theorem MapInv.edit (op : QOp ν Nat) (ho : op.Ok (fun _ => ()) bucket) {o : ν}
    (hid : op.head = (T.hashfn (s.objs.id o)).toNat)
    (hq : op.exec (fun _ => ()) s.objs.heap = some t.objs.heap) (hids : t.objs.id = s.objs.id)
    (hmem : ∀ l x, bucket op.head = some l → (x ∈ op.edit l ↔ t.present x ∧
      (T.hashfn (s.objs.id x)).toNat = op.head))
    (hpres : ∀ x, x ≠ o → (t.present x ↔ s.present x))
    (hinj : ∀ x y, t.present x → t.present y → s.objs.id x = s.objs.id y → x = y) :
    ∃ bucket', MapInv T t bucket' := by
  obtain ⟨q, hq', -, -, hinv⟩ := h.lists.step ho
  rw [hq] at hq'
  cases hq'
  obtain ⟨l₀, hl₀⟩ := h.bucket_of (s.objs.id o)
  rw [← hid] at hl₀
  refine ⟨_, hinv, fun i => ?_, fun i l x hi => ?_, ?_⟩
  · by_cases hi : i = op.head
    · rw [hi, Function.update_self, hid]
      exact ⟨fun _ => T.hashfn_lt _, fun _ => rfl⟩
    · rw [Function.update_of_ne hi]
      exact h.size i
  · rw [hids]
    by_cases hc : i = op.head
    · rw [hc, Function.update_self] at hi
      obtain rfl : op.edit ((bucket op.head).getD []) = l := Option.some.inj hi
      rw [hl₀, Option.getD_some, hc]
      exact hmem l₀ x hl₀
    · rw [Function.update_of_ne hc] at hi
      rw [h.mem i l x hi]
      by_cases hx : x = o
      · rw [hx]
        exact ⟨fun hx => absurd (hx.2.symm.trans hid.symm) hc,
          fun hx => absurd (hx.2.symm.trans hid.symm) hc⟩
      · rw [hpres x hx]
  · rw [hids]
    exact hinj

theorem MapInv.add {o : ν} (hfresh : ∀ x, s.present x → s.objs.id x ≠ s.objs.id o)
    (hobjs : t.objs = T.add s.objs o) (hpres : ∀ x, t.present x ↔ s.present x ∨ x = o) :
    ∃ bucket', MapInv T t bucket' := by
  have habs : ¬ s.present o := fun hc => hfresh o hc rfl
  obtain ⟨l₀, hl₀⟩ := h.bucket_of (s.objs.id o)
  refine h.edit (.insertTail (T.hashfn (s.objs.id o)).toNat o) (o := o)
    ⟨fun hc => ?_, fun a l ha => ?_, fun e i l he _ hi hc => ?_⟩ rfl ?_ ?_ (fun l x hl => ?_)
    (fun x hx => ?_) fun x y hx hy hxy => ?_
  · exact absurd (hl₀.symm.trans hc) (Option.some_ne_none _)
  · exact absurd ha.symm (Option.some_ne_none _)
  · cases he
    exact habs ((h.mem i l o hi).mp hc).1
  · rw [hobjs]
    rfl
  · rw [hobjs]
    rfl
  · show x ∈ l ++ [o] ↔ _ ∧ (T.hashfn (s.objs.id x)).toNat = (T.hashfn (s.objs.id o)).toNat
    rw [List.mem_append, List.mem_singleton, h.mem _ l x hl, hpres]
    constructor
    · rintro (⟨hx, hi⟩ | rfl)
      · exact ⟨.inl hx, hi⟩
      · exact ⟨.inr rfl, rfl⟩
    · rintro ⟨hx | hx, hi⟩
      · exact .inl ⟨hx, hi⟩
      · exact .inr hx
  · rw [hpres]
    exact ⟨fun h' => h'.resolve_right hx, .inl⟩
  · rcases (hpres x).mp hx with hx | rfl
    · rcases (hpres y).mp hy with hy | rfl
      · exact h.inj x y hx hy hxy
      · exact absurd hxy (hfresh x hx)
    · rcases (hpres y).mp hy with hy | rfl
      · exact absurd hxy.symm (hfresh y hy)
      · rfl

theorem MapInv.erase {o : ν} (ho : s.present o) (hobjs : t.objs = T.erase s.objs o)
    (hpres : ∀ x, t.present x ↔ s.present x ∧ x ≠ o) : ∃ bucket', MapInv T t bucket' := by
  obtain ⟨l₀, hl₀, hmem₀⟩ := h.mem_bucket ho
  refine h.edit (.remove (T.hashfn (s.objs.id o)).toNat o) (o := o)
    ⟨fun hc => ?_, fun a l ha hl => ?_, fun e i l he => ?_⟩ rfl ?_ ?_ (fun l x hl => ?_)
    (fun x hx => ?_) fun x y hx hy hxy => ?_
  · exact absurd (hl₀.symm.trans hc) (Option.some_ne_none _)
  · cases ha
    exact (h.mem _ l o hl).mpr ⟨ho, rfl⟩
  · exact absurd he.symm (Option.some_ne_none _)
  · rw [hobjs]
    rfl
  · rw [hobjs]
    rfl
  · have hnodup := (h.lists.isList _ l hl).nodup
    show x ∈ l.erase o ↔ _ ∧ (T.hashfn (s.objs.id x)).toNat = (T.hashfn (s.objs.id o)).toNat
    rw [hnodup.mem_erase_iff, h.mem _ l x hl, hpres]
    exact ⟨fun hx => ⟨⟨hx.2.1, hx.1⟩, hx.2.2⟩, fun hx => ⟨hx.1.2, hx.1.1, hx.2⟩⟩
  · rw [hpres]
    exact ⟨fun h' => h'.1, fun h' => ⟨h', hx⟩⟩
  · exact h.inj x y ((hpres x).mp hx).1 ((hpres y).mp hy).1 hxy

theorem MapInv.other (hpres : t.present = s.present)
    (hheads : t.objs.heap.heads = s.objs.heap.heads)
    (hkept : ∀ x, s.present x → t.objs.id x = s.objs.id x ∧
      t.objs.heap.links () x = s.objs.heap.links () x) : MapInv T t bucket where
  lists := by
    refine ⟨fun i l hi => ?_, h.lists.disjoint⟩
    show IsList (t.objs.heap.links ()) (t.objs.heap.heads i) l
    rw [hheads]
    exact (h.lists.isList i l hi).congr fun x hx => (hkept x ((h.mem i l x hi).mp hx).1).2
  size := h.size
  mem i l o hi := by
    rw [h.mem i l o hi, hpres]
    refine and_congr_right fun ho => ?_
    rw [(hkept o ho).1]
  inj x y hx hy hxy := by
    rw [hpres] at hx hy
    rw [(hkept x hx).1, (hkept y hy).1] at hxy
    exact h.inj x y hx hy hxy

end

theorem MapInv.step {bucket : Nat → Option (List ν)} (h : MapInv T s bucket) {op : MapOp ν}
    (hs : MapStep T.add T.erase s op t) : ∃ bucket', MapInv T t bucket' := by
  cases op with
  | add o => exact h.add hs.1 hs.2.1 hs.2.2
  | remove o => exact h.erase hs.1 hs.2.1 hs.2.2
  | find id =>
    cases hs
    exact ⟨bucket, h⟩
  | other => exact ⟨bucket, h.other hs.1 hs.2.1 hs.2.2⟩

/-- an array of empty buckets, in memory of any contents -/
theorem MapInv.init (T : HashTable) (m : MapObjs ν) :
    MapInv T ⟨T.init m, fun _ => False⟩ fun i => if i < T.size then some [] else none where
  lists := by
    have hcase : ∀ i l, (if i < T.size then some ([] : List ν) else none) = some l →
        i < T.size ∧ l = [] := by
      intro i l hi
      split at hi
      · next h =>
        cases hi
        exact ⟨h, rfl⟩
      · exact absurd hi.symm (Option.some_ne_none _)
    refine ⟨fun i l hi => ?_, fun i j l l' _ _ hi _ x hx => ?_⟩
    · obtain ⟨h1, rfl⟩ := hcase i l hi
      show IsList _ (if i < T.size then .empty else m.heap.heads i) []
      rw [if_pos h1]
      exact .nil
    · obtain ⟨-, rfl⟩ := hcase i l hi
      exact absurd hx List.not_mem_nil
  size i := by
    by_cases h : i < T.size
    · rw [if_pos h]
      exact ⟨fun _ => h, fun _ => rfl⟩
    · rw [if_neg h]
      exact ⟨fun hc => absurd hc.symm Bool.true_eq_false.mp, fun hc => absurd hc h⟩
  mem i l o hi := by
    split at hi
    · cases hi
      exact ⟨fun hc => absurd hc List.not_mem_nil, fun hc => hc.1.elim⟩
    · exact absurd hi.symm (Option.some_ne_none _)
  inj x y hx := hx.elim

/-! ## the lookup -/

/-- the walk returns the first object of the list with the key, and `NULL` if there is none -/
theorem lookupLoop_eq {m : MapObjs ν} {key : Int32} {o : Option ν} {l : List ν}
    (h : Follows (fun x => (m.heap.links () x).next) o l) :
    ∀ fuel, l.length < fuel →
      T.lookupLoop m key fuel o = some (l.find? fun x => m.id x = key) := by
  induction h with
  | nil =>
    intro fuel hf
    obtain ⟨fuel, rfl⟩ := Nat.exists_eq_add_one_of_ne_zero (Nat.ne_of_gt hf)
    rfl
  | @cons a l _ ih =>
    intro fuel hf
    obtain ⟨fuel, rfl⟩ := Nat.exists_eq_add_one_of_ne_zero (Nat.ne_zero_of_lt hf)
    show (if T.hashcmp key (m.id a) = 0 then _ else _) = _
    by_cases hk : m.id a = key
    · have hd : decide (m.id a = key) = true := decide_eq_true hk
      rw [if_pos ((T.hashcmp_zero _ _).mpr hk.symm), List.find?_cons, hd]
    · have hd : decide (m.id a = key) = false := decide_eq_false hk
      rw [if_neg fun hc => hk ((T.hashcmp_zero _ _).mp hc).symm, List.find?_cons, hd]
      exact ih fuel (Nat.lt_of_succ_lt_succ hf)

theorem MapInv.isMap {bucket : Nat → Option (List ν)} (h : MapInv T s bucket) :
    IsMap T T.find s := by
  have hfind : ∀ id, ∃ l, bucket (T.hashfn id).toNat = some l ∧ ∀ fuel, l.length < fuel →
      T.find s.objs fuel id = some (l.find? fun x => s.objs.id x = id) := by
    intro id
    obtain ⟨l, hl⟩ := h.bucket_of id
    exact ⟨l, hl, lookupLoop_eq (h.lists.spells.next _ l hl)⟩
  refine ⟨fun o ho => ?_, fun id hid => ?_, fun i => (bucket i).getD [], fun i hi => ?_⟩
  · obtain ⟨l, hl, hf⟩ := hfind (s.objs.id o)
    have hmem := (h.mem _ l o hl).mpr ⟨ho, rfl⟩
    refine ⟨l.length + 1, fun fuel hfuel => (hf fuel hfuel).trans (congrArg some ?_)⟩
    cases hx : l.find? fun x => s.objs.id x = s.objs.id o with
    | none => exact absurd (decide_eq_true rfl) (List.find?_eq_none.mp hx o hmem)
    | some x =>
      have hid : s.objs.id x = s.objs.id o := of_decide_eq_true (List.find?_some hx :)
      have hp := ((h.mem _ l x hl).mp (List.mem_of_find?_eq_some hx)).1
      rw [h.inj x o hp ho hid]
  · obtain ⟨l, hl, hf⟩ := hfind id
    refine ⟨l.length + 1, fun fuel hfuel => (hf fuel hfuel).trans (congrArg some ?_)⟩
    refine List.find?_eq_none.mpr fun x hx hc => hid x ((h.mem _ l x hl).mp hx).1 ?_
    exact of_decide_eq_true hc
  · obtain ⟨l, hl⟩ := Option.isSome_iff_exists.mp ((h.size i).mpr hi)
    dsimp only
    rw [hl, Option.getD_some]
    exact ⟨h.lists.isList i l hl, fun o => h.mem i l o hl⟩

/-- **a table is a map** after any run from memory of any contents -/
theorem isMap_of_run {m : MapObjs ν} {ops : List (MapOp ν)}
    (hrun : Steps (MapStep T.add T.erase) ⟨T.init m, fun _ => False⟩ ops s) : IsMap T T.find s := by
  have hinv : ∃ bucket, MapInv T s bucket :=
    hrun.invariant (P := fun s => ∃ bucket, MapInv T s bucket) (fun _ _ _ h hs => h.elim
      fun _ h => h.step hs) ⟨_, .init T m⟩
  obtain ⟨bucket, h⟩ := hinv
  exact h.isMap

end HashTable

/-- **the task table and the thread table are finite maps** -/
theorem sched_tables_are_maps {ν : Type*} [DecidableEq ν] (m : MapObjs ν) (ops : List (MapOp ν))
    (s : MapState ν) :
    (Steps (MapStep schedAddTask schedRemoveTask) ⟨schedTaskMap.init m, fun _ => False⟩ ops s →
      IsMap schedTaskMap schedFindTask s) ∧
    (Steps (MapStep schedAddThread schedRemoveThread)
        ⟨schedThreadMap.init m, fun _ => False⟩ ops s →
      IsMap schedThreadMap schedFindThread s) :=
  ⟨HashTable.isMap_of_run, HashTable.isMap_of_run⟩

/-- objects `true` with id -1 and `false` with id 7, in memory that was never set up -/
def twoObjs : MapObjs Bool :=
  ⟨⟨fun _ _ => ⟨some true, none⟩, fun _ => ⟨some false, some true⟩⟩, fun o => if o then -1 else 7,
    fun _ => 1⟩

theorem twoObjs_run {init : MapObjs Bool} {add remove : MapObjs Bool → Bool → MapObjs Bool}
    (hid : ∀ o, (add init true).id o = twoObjs.id o) :
    Steps (MapStep add remove) ⟨init, fun _ => False⟩ [.add true, .add false, .remove true]
      ⟨remove (add (add init true) false) true, fun x => x = false⟩ := by
  have h1 : MapStep add remove ⟨init, fun _ => False⟩ (.add true)
      ⟨add init true, fun x => x = true⟩ :=
    ⟨fun _ h => h.elim, rfl, fun x => ⟨.inr, fun h => h.resolve_left id⟩⟩
  have h2 : MapStep add remove ⟨add init true, fun x => x = true⟩ (.add false)
      ⟨add (add init true) false, fun _ => True⟩ := by
    refine ⟨fun x hx => ?_, rfl, fun x => by cases x <;> simp⟩
    obtain rfl : x = true := hx
    show (add init true).id true ≠ (add init true).id false
    rw [hid, hid]
    decide
  have h3 : MapStep add remove ⟨add (add init true) false, fun _ => True⟩ (.remove true)
      ⟨remove (add (add init true) false) true, fun x => x = false⟩ :=
    ⟨trivial, rfl, fun x => by cases x <;> simp⟩
  exact ((Steps.single h1).snoc h2).snoc h3

theorem sched_tables_are_maps_two :
    IsMap schedTaskMap schedFindTask ⟨schedRemoveTask (schedAddTask (schedAddTask
      (schedTaskMap.init twoObjs) true) false) true, fun x => x = false⟩ ∧
    IsMap schedThreadMap schedFindThread ⟨schedRemoveThread (schedAddThread (schedAddThread
      (schedThreadMap.init twoObjs) true) false) true, fun x => x = false⟩ :=
  ⟨(sched_tables_are_maps twoObjs _ _).1 (twoObjs_run fun _ => rfl),
    (sched_tables_are_maps twoObjs _ _).2 (twoObjs_run fun _ => rfl)⟩

end Paravirt

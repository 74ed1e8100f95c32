import Paravirt.Lib.DList
import Paravirt.Lib.Steps

/-!
# The intrusive queue (kern/inc/variable_queue.h)

A node has one link for each link name, and a head goes with one link name.  The macros are
sequences of assignments to the fields of heads and links, in the order of the source; `none` is an
access through `NULL`.

* `QHeap`            all heads, and all links of all nodes;
* `qInsertFront`, `qInsertTail`, `qInsertAfter`, `qInsertBefore`, `qRemove`   the macros, each with a
  lemma that says which operation of `DList` it is;
* `QStep`            an operation together with the edit of the abstract lists it stands for;
* `QInv`             every list is spelled by its head, and no node is on two lists of one link;
* `queue_refines_list`   what holds after any sequence of operations, and of the next one.
-/

set_option linter.unusedSectionVars false

namespace Paravirt
open DList

/-- heads `η` and, for each link name in `κ`, the links of the nodes `ν` -/
structure QHeap (ν κ η : Type*) where
  links : κ → ν → Link ν
  heads : η → Head ν

variable {ν κ η : Type*} [DecidableEq ν] [DecidableEq κ] [DecidableEq η]

namespace QHeap

/-! ## assignments -/

def putFirst (q : QHeap ν κ η) (h : η) (o : Option ν) : QHeap ν κ η :=
  { q with heads := Function.update q.heads h ⟨o, (q.heads h).last⟩ }

def putLast (q : QHeap ν κ η) (h : η) (o : Option ν) : QHeap ν κ η :=
  { q with heads := Function.update q.heads h ⟨(q.heads h).first, o⟩ }

def putNext (q : QHeap ν κ η) (k : κ) (e : ν) (o : Option ν) : QHeap ν κ η :=
  { q with links := Function.update q.links k (setNext (q.links k) (some e) o) }

def putPrev (q : QHeap ν κ η) (k : κ) (e : ν) (o : Option ν) : QHeap ν κ η :=
  { q with links := Function.update q.links k (setPrev (q.links k) (some e) o) }

/-- `if (p != NULL) p->next = o` -/
def putNextIf (q : QHeap ν κ η) (k : κ) (p : Option ν) (o : Option ν) : QHeap ν κ η :=
  match p with
  | some p => q.putNext k p o
  | none => q

/-- `if (n != NULL) n->prev = o` -/
def putPrevIf (q : QHeap ν κ η) (k : κ) (n : Option ν) (o : Option ν) : QHeap ν κ η :=
  match n with
  | some n => q.putPrev k n o
  | none => q

/-! ## the macros -/

def qInitHead (q : QHeap ν κ η) (h : η) : QHeap ν κ η := (q.putFirst h none).putLast h none

def qInitElem (q : QHeap ν κ η) (k : κ) (e : ν) : QHeap ν κ η :=
  (q.putNext k e none).putPrev k e none

def qInsertFront (q : QHeap ν κ η) (k : κ) (h : η) (e : ν) : QHeap ν κ η :=
  let q := q.putPrevIf k (q.heads h).first (some e)
  let q := q.qInitElem k e
  let q := q.putNext k e (q.heads h).first
  let q := q.putFirst h (some e)
  if (q.heads h).last = none then q.putLast h (some e) else q

def qInsertTail (q : QHeap ν κ η) (k : κ) (h : η) (e : ν) : QHeap ν κ η :=
  let q := q.putNextIf k (q.heads h).last (some e)
  let q := q.qInitElem k e
  let q := q.putPrev k e (q.heads h).last
  let q := q.putLast h (some e)
  if (q.heads h).first = none then q.putFirst h (some e) else q

def qInsertAfter (q : QHeap ν κ η) (k : κ) (h : η) (inq e : ν) : Option (QHeap ν κ η) :=
  if (q.heads h).last = some inq then some (q.qInsertTail k h e)
  else
    let q := q.putNext k e (q.links k inq).next
    let q := q.putPrev k e (some inq)
    match (q.links k inq).next with
    | none => none
    | some n => some ((q.putPrev k n (some e)).putNext k inq (some e))

def qInsertBefore (q : QHeap ν κ η) (k : κ) (h : η) (inq e : ν) : Option (QHeap ν κ η) :=
  if (q.heads h).first = some inq then some (q.qInsertFront k h e)
  else
    let q := q.putPrev k e (q.links k inq).prev
    let q := q.putNext k e (some inq)
    match (q.links k inq).prev with
    | none => none
    | some p => some ((q.putNext k p (some e)).putPrev k inq (some e))

def qRemove (q : QHeap ν κ η) (k : κ) (h : η) (e : ν) : QHeap ν κ η :=
  let q := if (q.heads h).first = some e then q.putFirst h (q.links k e).next else q
  let q := if (q.heads h).last = some e then q.putLast h (q.links k e).prev else q
  let q := q.putNextIf k (q.links k e).prev (q.links k e).next
  let q := q.putPrevIf k (q.links k e).next (q.links k e).prev
  (q.putPrev k e none).putNext k e none

/-! ## the macros are the operations on one list -/

/-- one link and one head are replaced -/
def put (q : QHeap ν κ η) (k : κ) (h : η) (r : (ν → Link ν) × Head ν) : QHeap ν κ η :=
  ⟨Function.update q.links k r.1, Function.update q.heads h r.2⟩

section
variable (q : QHeap ν κ η) (k : κ) (h : η) (r : (ν → Link ν) × Head ν) (o : Option ν) (e : ν)

theorem put_self : q.put k h (q.links k, q.heads h) = q := by
  unfold put
  rw [Function.update_eq_self, Function.update_eq_self]

@[simp] theorem put_links : (q.put k h r).links k = r.1 := Function.update_self ..
@[simp] theorem put_heads : (q.put k h r).heads h = r.2 := Function.update_self ..

@[simp] theorem put_putFirst : (q.put k h r).putFirst h o = q.put k h (r.1, ⟨o, r.2.last⟩) := by
  unfold putFirst
  rw [put_heads]
  unfold put
  rw [Function.update_idem]

@[simp] theorem put_putLast : (q.put k h r).putLast h o = q.put k h (r.1, ⟨r.2.first, o⟩) := by
  unfold putLast
  rw [put_heads]
  unfold put
  rw [Function.update_idem]

@[simp] theorem put_putNext :
    (q.put k h r).putNext k e o = q.put k h (setNext r.1 (some e) o, r.2) := by
  unfold putNext
  rw [put_links]
  unfold put
  rw [Function.update_idem]

@[simp] theorem put_putPrev :
    (q.put k h r).putPrev k e o = q.put k h (setPrev r.1 (some e) o, r.2) := by
  unfold putPrev
  rw [put_links]
  unfold put
  rw [Function.update_idem]

/-- `Q_INIT_ELEM` and one link set after it write the whole link -/
theorem setNext_init (l : ν → Link ν) (b : Option ν) :
    setNext (setPrev (setNext l (some e) none) (some e) none) (some e) b
      = Function.update l e ⟨b, none⟩ := by
  show Function.update (Function.update (Function.update l e _) e _) e _ = _
  rw [Function.update_idem, Function.update_idem, setPrev_self]

theorem setPrev_init (l : ν → Link ν) (b : Option ν) :
    setPrev (setPrev (setNext l (some e) none) (some e) none) (some e) b
      = Function.update l e ⟨none, b⟩ := by
  show Function.update (Function.update (Function.update l e _) e _) e _ = _
  rw [Function.update_idem, Function.update_idem, setPrev_self, setNext_self]

theorem setPrev_setNext_self (l : ν → Link ν) (a b : Option ν) :
    setPrev (setNext l (some e) a) (some e) b = Function.update l e ⟨a, b⟩ := by
  show Function.update (Function.update l e _) e _ = _
  rw [Function.update_idem, setNext_self]

theorem setNext_setPrev_self (l : ν → Link ν) (a b : Option ν) :
    setNext (setPrev l (some e) a) (some e) b = Function.update l e ⟨b, a⟩ := by
  show Function.update (Function.update l e _) e _ = _
  rw [Function.update_idem, setPrev_self]

theorem put_putNextIf (p : Option ν) :
    (q.put k h r).putNextIf k p o = q.put k h (setNext r.1 p o, r.2) := by
  cases p with
  | none => rfl
  | some p => exact put_putNext q k h r o p

theorem put_putPrevIf (n : Option ν) :
    (q.put k h r).putPrevIf k n o = q.put k h (setPrev r.1 n o, r.2) := by
  cases n with
  | none => rfl
  | some n => exact put_putPrev q k h r o n

theorem if_putFirst (c : Prop) [Decidable c] :
    (if c then (q.put k h r).putFirst h o else q.put k h r)
      = q.put k h (r.1, ⟨if c then o else r.2.first, r.2.last⟩) := by
  by_cases hc : c
  · rw [if_pos hc, if_pos hc, put_putFirst]
  · rw [if_neg hc, if_neg hc]

theorem if_putLast (c : Prop) [Decidable c] :
    (if c then (q.put k h r).putLast h o else q.put k h r)
      = q.put k h (r.1, ⟨r.2.first, if c then o else r.2.last⟩) := by
  by_cases hc : c
  · rw [if_pos hc, if_pos hc, put_putLast]
  · rw [if_neg hc, if_neg hc]

theorem put_qInsertFront :
    (q.put k h r).qInsertFront k h e = q.put k h (insertFront r.1 r.2 e) := by
  unfold qInsertFront qInitElem
  simp only [put_heads, put_putPrevIf, put_putNext, put_putPrev, put_putFirst, if_putLast,
    setNext_init]
  rfl

theorem put_qInsertTail :
    (q.put k h r).qInsertTail k h e = q.put k h (insertTail r.1 r.2 e) := by
  unfold qInsertTail qInitElem
  simp only [put_heads, put_putNextIf, put_putNext, put_putPrev, put_putLast, if_putFirst,
    setPrev_init]
  rfl

theorem put_qRemove : (q.put k h r).qRemove k h e = q.put k h (remove r.1 r.2 e) := by
  unfold qRemove
  simp only [put_heads, put_links, put_putNextIf, put_putPrevIf, put_putNext, put_putPrev,
    if_putFirst, if_putLast, setNext_setPrev_self]
  rfl

/-- behind a node that is not the last, where the node has a next one -/
theorem put_qInsertAfter {inq : ν} (hne : inq ≠ e) (hn : r.2.last ≠ some inq → (r.1 inq).next ≠ none) :
    (q.put k h r).qInsertAfter k h inq e = some (q.put k h (insertAfter r.1 r.2 inq e)) := by
  unfold qInsertAfter insertAfter
  simp only [put_heads, put_links, put_putNext, put_putPrev, setPrev_setNext_self]
  by_cases hl : r.2.last = some inq
  · rw [if_pos hl, if_pos hl, put_qInsertTail]
  · rw [if_neg hl, if_neg hl, Function.update_of_ne hne]
    cases hx : (r.1 inq).next with
    | none => exact absurd hx (hn hl)
    | some n => rfl

theorem put_qInsertBefore {inq : ν} (hne : inq ≠ e)
    (hp : r.2.first ≠ some inq → (r.1 inq).prev ≠ none) :
    (q.put k h r).qInsertBefore k h inq e = some (q.put k h (insertBefore r.1 r.2 inq e)) := by
  unfold qInsertBefore insertBefore
  simp only [put_heads, put_links, put_putNext, put_putPrev, setNext_setPrev_self]
  by_cases hf : r.2.first = some inq
  · rw [if_pos hf, if_pos hf, put_qInsertFront]
  · rw [if_neg hf, if_neg hf, Function.update_of_ne hne]
    cases hx : (r.1 inq).prev with
    | none => exact absurd hx (hp hf)
    | some p => rfl

end
end QHeap

/-! ## runs -/

inductive QOp (ν η : Type*) where
  | initHead (h : η)
  | insertFront (h : η) (e : ν)
  | insertTail (h : η) (e : ν)
  | insertAfter (h : η) (inq e : ν)
  | insertBefore (h : η) (inq e : ν)
  | remove (h : η) (e : ν)
  deriving DecidableEq, Repr

namespace QOp

/-- the macro; `link` gives the link name that goes with a head -/
def exec (link : η → κ) (q : QHeap ν κ η) : QOp ν η → Option (QHeap ν κ η)
  | initHead h => some (q.qInitHead h)
  | insertFront h e => some (q.qInsertFront (link h) h e)
  | insertTail h e => some (q.qInsertTail (link h) h e)
  | insertAfter h inq e => q.qInsertAfter (link h) h inq e
  | insertBefore h inq e => q.qInsertBefore (link h) h inq e
  | remove h e => some (q.qRemove (link h) h e)

def head : QOp ν η → η
  | initHead h | insertFront h _ | insertTail h _ | insertAfter h _ _ | insertBefore h _ _
  | remove h _ => h

/-- the node an operation puts on a list -/
def inserted : QOp ν η → Option ν
  | insertFront _ e | insertTail _ e | insertAfter _ _ e | insertBefore _ _ e => some e
  | initHead _ | remove _ _ => none

/-- the node that has to be on the list already -/
def anchor : QOp ν η → Option ν
  | insertAfter _ a _ | insertBefore _ a _ | remove _ a => some a
  | initHead _ | insertFront _ _ | insertTail _ _ => none

/-- `a` is replaced by the nodes `m` -/
def splice (a : ν) (m l : List ν) : List ν := l.flatMap fun x => if x = a then m else [x]

/-- the list after the operation -/
def edit (l : List ν) : QOp ν η → List ν
  | initHead _ => []
  | insertFront _ e => e :: l
  | insertTail _ e => l ++ [e]
  | insertAfter _ a e => splice a [a, e] l
  | insertBefore _ a e => splice a [e, a] l
  | remove _ e => l.erase e

/-- a head that was not initialised has no list, and is not used before it is -/
structure Ok (link : η → κ) (lists : η → Option (List ν)) (op : QOp ν η) : Prop where
  init : lists op.head = none → op = initHead op.head
  anchor : ∀ a l, op.anchor = some a → lists op.head = some l → a ∈ l
  inserted : ∀ e h l, op.inserted = some e → link h = link op.head → lists h = some l → e ∉ l

end QOp

/-- the heap, and the list each head stands for -/
structure QState (ν κ η : Type*) where
  heap : QHeap ν κ η
  lists : η → Option (List ν)

def QStep (link : η → κ) (s : QState ν κ η) (op : QOp ν η) (t : QState ν κ η) : Prop :=
  op.Ok link s.lists ∧ op.exec link s.heap = some t.heap ∧
    t.lists = Function.update s.lists op.head (some (op.edit ((s.lists op.head).getD [])))

/-- every list is met by the walks along `next` and along `prev`, which end in `NULL` -/
structure QSpells (link : η → κ) (s : QState ν κ η) : Prop where
  next : ∀ h l, s.lists h = some l →
    Follows (fun x => (s.heap.links (link h) x).next) (s.heap.heads h).first l
  prev : ∀ h l, s.lists h = some l →
    Follows (fun x => (s.heap.links (link h) x).prev) (s.heap.heads h).last l.reverse
  first : ∀ h l, s.lists h = some l → ((s.heap.heads h).first = none ↔ l = [])
  last : ∀ h l, s.lists h = some l → ((s.heap.heads h).last = none ↔ l = [])

/-- what an operation may write: its head, and the links of its list and of the node it inserts -/
structure QFrame (link : η → κ) (s : QState ν κ η) (op : QOp ν η) (q : QHeap ν κ η) : Prop where
  heads : ∀ h, h ≠ op.head → q.heads h = s.heap.heads h
  links : ∀ k, k ≠ link op.head → q.links k = s.heap.links k
  nodes : ∀ x, x ∉ (s.lists op.head).getD [] → op.inserted ≠ some x →
    q.links (link op.head) x = s.heap.links (link op.head) x

/-- a removed node has `NULL` links -/
def QRemoved (link : η → κ) (op : QOp ν η) (q : QHeap ν κ η) : Prop :=
  ∀ h e, op = .remove h e → q.links (link h) e = .null

structure QInv (link : η → κ) (s : QState ν κ η) : Prop where
  isList : ∀ h l, s.lists h = some l → IsList (s.heap.links (link h)) (s.heap.heads h) l
  disjoint : ∀ h h' l l', h ≠ h' → link h = link h' → s.lists h = some l → s.lists h' = some l' →
    ∀ x ∈ l, x ∉ l'

section
variable {link : η → κ} {s t : QState ν κ η} {op : QOp ν η}

theorem QInv.spells (h : QInv link s) : QSpells link s where
  next i l hl := (h.isList i l hl).follows_next
  prev i l hl := (h.isList i l hl).follows_prev
  first i l hl := by
    rw [(h.isList i l hl).first]
    exact List.head?_eq_none_iff
  last i l hl := by
    rw [(h.isList i l hl).last]
    exact List.getLast?_eq_none_iff

theorem QOp.splice_of_not_mem {a : ν} (m : List ν) {l : List ν} (h : a ∉ l) : splice a m l = l := by
  induction l with
  | nil => rfl
  | cons b l ih =>
    have hb : b ≠ a := fun hc => h (hc ▸ List.mem_cons_self)
    show (if b = a then m else [b]) ++ splice a m l = _
    rw [if_neg hb, ih fun hc => h (List.mem_cons_of_mem _ hc)]
    rfl

theorem QOp.splice_append {l₁ l₂ : List ν} {a : ν} (m : List ν) (h1 : a ∉ l₁) (h2 : a ∉ l₂) :
    splice a m (l₁ ++ a :: l₂) = l₁ ++ (m ++ l₂) := by
  have e : splice a m (l₁ ++ a :: l₂)
      = splice a m l₁ ++ ((if a = a then m else [a]) ++ splice a m l₂) := List.flatMap_append
  rw [e, splice_of_not_mem m h1, splice_of_not_mem m h2, if_pos rfl]

/-- **one operation**: it is possible, its list is edited, and its frame is left alone -/
theorem QInv.exec (h : QInv link s) (ho : op.Ok link s.lists) :
    ∃ r : (ν → Link ν) × Head ν, op.exec link s.heap = some (s.heap.put (link op.head) op.head r) ∧
      IsList r.1 r.2 (op.edit ((s.lists op.head).getD [])) ∧
      (∀ x, x ∉ (s.lists op.head).getD [] → op.inserted ≠ some x →
        r.1 x = s.heap.links (link op.head) x) ∧
      ∀ i e, op = .remove i e → r.1 e = .null := by
  by_cases hop : op = .initHead op.head
  · generalize op.head = i at hop ⊢
    subst hop
    refine ⟨(s.heap.links (link i), .empty), ?_, IsList.nil, fun x _ _ => rfl, nofun⟩
    have h1 : (s.heap.put (link i) i (s.heap.links (link i), s.heap.heads i)).qInitHead i
        = s.heap.put (link i) i (s.heap.links (link i), .empty) := by
      unfold QHeap.qInitHead
      rw [QHeap.put_putFirst, QHeap.put_putLast]
      rfl
    rw [QHeap.put_self] at h1
    exact congrArg some h1
  obtain ⟨l, hlist⟩ := Option.ne_none_iff_exists'.mp fun hc => hop (ho.init hc)
  have hl := h.isList _ _ hlist
  have hin : ∀ e, op.inserted = some e → e ∉ l := fun e he => ho.inserted e _ l he rfl hlist
  have hmem : ∀ a, op.anchor = some a → a ∈ l := fun a ha => ho.anchor a l ha hlist
  rw [hlist, Option.getD_some]
  clear ho hlist
  cases op with
  | initHead i => exact absurd rfl hop
  | insertFront i e =>
    have h1 := QHeap.put_qInsertFront s.heap (link i) i (s.heap.links (link i), s.heap.heads i) e
    rw [QHeap.put_self] at h1
    refine ⟨_, congrArg some h1, hl.insertFront (hin e rfl), fun x hx hne => ?_, nofun⟩
    exact insertFront_links (fun hc => hne (congrArg some hc.symm)) (hl.link_none hx).1
  | insertTail i e =>
    have h1 := QHeap.put_qInsertTail s.heap (link i) i (s.heap.links (link i), s.heap.heads i) e
    rw [QHeap.put_self] at h1
    refine ⟨_, congrArg some h1, hl.insertTail (hin e rfl), fun x hx hne => ?_, nofun⟩
    exact insertTail_links (fun hc => hne (congrArg some hc.symm)) (hl.link_none hx).2
  | insertAfter i a e =>
    have he := hin e rfl
    obtain ⟨l₁, l₂, rfl⟩ := List.append_of_mem (hmem a rfl)
    obtain ⟨-, h1, h2⟩ := hl.split_nodup
    have hae : a ≠ e := fun hc => he (by simp [hc])
    have hx := QHeap.put_qInsertAfter s.heap (link i) i (s.heap.links (link i), s.heap.heads i) e
      hae hl.next_ne_none
    rw [QHeap.put_self] at hx
    refine ⟨_, hx, ?_, fun x hxl hne => ?_, nofun⟩
    · show IsList _ _ (QOp.splice a [a, e] (l₁ ++ a :: l₂))
      rw [QOp.splice_append _ h1 h2]
      exact hl.insertAfter he
    · exact hl.insertAfter_links hxl fun hc => hne (congrArg some hc.symm)
  | insertBefore i a e =>
    have he := hin e rfl
    obtain ⟨l₁, l₂, rfl⟩ := List.append_of_mem (hmem a rfl)
    obtain ⟨-, h1, h2⟩ := hl.split_nodup
    have hae : a ≠ e := fun hc => he (by simp [hc])
    have hx := QHeap.put_qInsertBefore s.heap (link i) i (s.heap.links (link i), s.heap.heads i) e
      hae hl.prev_ne_none
    rw [QHeap.put_self] at hx
    refine ⟨_, hx, ?_, fun x hxl hne => ?_, nofun⟩
    · show IsList _ _ (QOp.splice a [e, a] (l₁ ++ a :: l₂))
      rw [QOp.splice_append _ h1 h2]
      exact hl.insertBefore he
    · exact hl.insertBefore_links hxl fun hc => hne (congrArg some hc.symm)
  | remove i e =>
    obtain ⟨l₁, l₂, rfl⟩ := List.append_of_mem (hmem e rfl)
    obtain ⟨-, h1, h2⟩ := hl.split_nodup
    have hx := QHeap.put_qRemove s.heap (link i) i (s.heap.links (link i), s.heap.heads i) e
    rw [QHeap.put_self] at hx
    refine ⟨_, congrArg some hx, ?_, fun x hxl _ => hl.remove_links hxl, fun j x hj => ?_⟩
    · show IsList _ _ ((l₁ ++ e :: l₂).erase e)
      rw [List.erase_append_right _ h1, List.erase_cons_head]
      exact hl.remove
    · cases hj
      exact IsList.remove_self e

theorem QOp.mem_splice {a x : ν} {m l : List ν} (hx : x ∈ splice a m l) : x ∈ l ∨ x ∈ m := by
  obtain ⟨y, hy, hxy⟩ := List.mem_flatMap.mp hx
  by_cases he : y = a
  · rw [if_pos he] at hxy
    exact .inr hxy
  · rw [if_neg he] at hxy
    exact .inl (List.mem_singleton.mp hxy ▸ hy)

/-- an edited list has no other nodes than the list and the node inserted -/
theorem QOp.mem_edit {l : List ν} {x : ν} (hx : x ∈ op.edit l)
    (ha : ∀ a, op.anchor = some a → a ∈ l) : x ∈ l ∨ op.inserted = some x := by
  have hpair : ∀ a b, x ∈ [a, b] → x = a ∨ x = b := fun a b h => by simpa using h
  cases op with
  | initHead i => exact absurd hx List.not_mem_nil
  | insertFront i e =>
    rcases List.mem_cons.mp hx with rfl | hx
    · exact .inr rfl
    · exact .inl hx
  | insertTail i e =>
    rcases List.mem_append.mp hx with hx | hx
    · exact .inl hx
    · exact .inr (congrArg some (List.mem_singleton.mp hx).symm)
  | insertAfter i a e =>
    rcases QOp.mem_splice hx with hx | hx
    · exact .inl hx
    rcases hpair a e hx with rfl | rfl
    · exact .inl (ha x rfl)
    · exact .inr rfl
  | insertBefore i a e =>
    rcases QOp.mem_splice hx with hx | hx
    · exact .inl hx
    rcases hpair e a hx with rfl | rfl
    · exact .inr rfl
    · exact .inl (ha x rfl)
  | remove i e => exact .inl (List.mem_of_mem_erase hx)

/-- an operation keeps the frame, and the lists of all heads -/
theorem QInv.step (h : QInv link s) (ho : op.Ok link s.lists) :
    ∃ q, op.exec link s.heap = some q ∧ QFrame link s op q ∧ QRemoved link op q ∧
      QInv link ⟨q, Function.update s.lists op.head
        (some (op.edit ((s.lists op.head).getD [])))⟩ := by
  obtain ⟨r, hexec, hl, hframe, hnull⟩ := h.exec ho
  have hedit : ∀ x ∈ op.edit ((s.lists op.head).getD []),
      x ∈ (s.lists op.head).getD [] ∨ op.inserted = some x := by
    intro x hx
    refine QOp.mem_edit hx fun a ha => ?_
    cases hlist : s.lists op.head with
    | none =>
      rw [ho.init hlist] at ha
      exact absurd ha.symm (Option.some_ne_none _)
    | some l => exact ho.anchor a l ha hlist
  -- a node of another list of the link is neither on the list nor inserted
  have hother : ∀ i l, i ≠ op.head → link i = link op.head → s.lists i = some l → ∀ x ∈ l,
      x ∉ (s.lists op.head).getD [] ∧ op.inserted ≠ some x := by
    intro i l hne hk hi x hx
    refine ⟨fun hc => ?_, fun hc => ho.inserted x i l hc hk hi hx⟩
    cases hlist : s.lists op.head with
    | none =>
      rw [hlist] at hc
      exact absurd hc List.not_mem_nil
    | some l' =>
      rw [hlist] at hc
      exact h.disjoint i _ l l' hne hk hi hlist x hx hc
  refine ⟨_, hexec, ⟨fun i hi => Function.update_of_ne hi _ _, fun k hk =>
    Function.update_of_ne hk _ _, fun x hx hne => ?_⟩, fun i e hop => ?_, ?_⟩
  · rw [QHeap.put_links]
    exact hframe x hx hne
  · have hi : i = op.head := (congrArg QOp.head hop).symm
    rw [hi, QHeap.put_links]
    exact hnull i e hop
  · have hcase : ∀ i l, Function.update s.lists op.head
        (some (op.edit ((s.lists op.head).getD []))) i = some l →
        (i = op.head ∧ l = op.edit ((s.lists op.head).getD [])) ∨
          (i ≠ op.head ∧ s.lists i = some l) := by
      intro i l hi
      by_cases hc : i = op.head
      · rw [hc, Function.update_self] at hi
        exact .inl ⟨hc, (Option.some.inj hi).symm⟩
      · rw [Function.update_of_ne hc] at hi
        exact .inr ⟨hc, hi⟩
    refine ⟨fun i l hi => ?_, fun i j l l' hne hk hi hj x hx hx' => ?_⟩
    · rcases hcase i l hi with ⟨rfl, rfl⟩ | ⟨hc, hi⟩
      · show IsList ((s.heap.put _ _ r).links _) ((s.heap.put _ _ r).heads _) _
        rw [QHeap.put_links, QHeap.put_heads]
        exact hl
      · have hi' := h.isList i l hi
        unfold QHeap.put
        dsimp only
        rw [Function.update_of_ne hc]
        by_cases hk : link i = link op.head
        · rw [hk, Function.update_self]
          rw [hk] at hi'
          exact hi'.congr fun x hx => hframe x (hother i l hc hk hi x hx).1 (hother i l hc hk hi x hx).2
        · rw [Function.update_of_ne hk]
          exact hi'
    · rcases hcase i l hi with ⟨rfl, rfl⟩ | ⟨hc, hi⟩
      · rcases hcase j l' hj with ⟨rfl, rfl⟩ | ⟨hc', hj⟩
        · exact hne rfl
        · obtain ⟨h1, h2⟩ := hother j l' hc' hk.symm hj x hx'
          exact (hedit x hx).elim h1 h2
      · rcases hcase j l' hj with ⟨rfl, rfl⟩ | ⟨hc', hj⟩
        · obtain ⟨h1, h2⟩ := hother i l hc hk hi x hx
          exact (hedit x hx').elim h1 h2
        · exact h.disjoint i j l l' hne hk hi hj x hx hx'

theorem QInv.of_step (h : QInv link s) (hs : QStep link s op t) : QInv link t := by
  obtain ⟨ho, hexec, hlists⟩ := hs
  obtain ⟨q, hq, -, -, hinv⟩ := h.step ho
  obtain ⟨heap, lists⟩ := t
  rw [hq] at hexec
  cases hexec
  cases hlists
  exact hinv

/-- **the intrusive queue is a list**: after any sequence of operations on a heap of any contents,
walks from either end of a queue meet the list it stands for, and the next operation is possible,
leaves what is not of its list alone, and gives a removed node `NULL` links -/
theorem queue_refines_list {q₀ : QHeap ν κ η} {ops : List (QOp ν η)}
    (hrun : Steps (QStep link) ⟨q₀, fun _ => none⟩ ops s) :
    QSpells link s ∧ ∀ op : QOp ν η, op.Ok link s.lists →
      ∃ q, op.exec link s.heap = some q ∧ QFrame link s op q ∧ QRemoved link op q := by
  have hinv : QInv link s :=
    hrun.invariant (fun _ _ _ h hs => h.of_step hs) ⟨nofun, nofun⟩
  refine ⟨hinv.spells, fun op ho => ?_⟩
  obtain ⟨q, hq, hf, hr, -⟩ := hinv.step ho
  exact ⟨q, hq, hf, hr⟩

theorem QInv.exists_step (h : QInv link s) (op : QOp ν η) (ho : op.Ok link s.lists) :
    ∃ t, QStep link s op t ∧ QInv link t ∧ t.lists =
      Function.update s.lists op.head (some (op.edit ((s.lists op.head).getD []))) := by
  obtain ⟨q, hq, -, -, hinv⟩ := h.step ho
  exact ⟨_, ⟨ho, hq, rfl⟩, hinv, rfl⟩

end

/-- the conditions on an operation where there is one queue -/
theorem QOp.Ok.of_one {lists : Unit → Option (List ν)} {l : List ν} {op : QOp ν Unit}
    (hl : lists () = some l) (ha : ∀ a, op.anchor = some a → a ∈ l)
    (he : ∀ e, op.inserted = some e → e ∉ l) : op.Ok (fun _ => ()) lists where
  init h := by
    rw [hl] at h
    exact absurd h (Option.some_ne_none _)
  anchor a l' h h' := by
    rw [hl] at h'
    exact Option.some.inj h' ▸ ha a h
  inserted e _ l' h _ h' := by
    rw [hl] at h'
    exact Option.some.inj h' ▸ he e h

/-- a heap of stale links; a queue is initialised, and gets two nodes -/
theorem queue_refines_list_two : ∃ s : QState Nat Unit Unit,
    s.lists () = some [1, 2] ∧ QSpells (fun _ => ()) s ∧
      ∀ op : QOp Nat Unit, op.Ok (fun _ => ()) s.lists → ∃ q, op.exec (fun _ => ()) s.heap = some q ∧
        QFrame (fun _ => ()) s op q ∧ QRemoved (fun _ => ()) op q := by
  have h₀ : QInv (fun _ : Unit => ()) (⟨⟨fun _ _ => ⟨some 7, some 7⟩, fun _ => ⟨some 7, none⟩⟩,
    fun _ => none⟩ : QState Nat Unit Unit) := ⟨nofun, nofun⟩
  obtain ⟨s₁, r₁, h₁, e₁⟩ := h₀.exists_step (.initHead ()) ⟨fun _ => rfl, nofun, nofun⟩
  have e₁' : s₁.lists () = some [] := by rw [e₁]; rfl
  obtain ⟨s₂, r₂, h₂, e₂⟩ := h₁.exists_step (.insertFront () 1)
    (.of_one e₁' nofun fun _ _ => List.not_mem_nil)
  have e₂' : s₂.lists () = some [1] := by rw [e₂, e₁']; rfl
  have hnew : ∀ e, (QOp.insertAfter () 1 2).inserted = some e → e ∉ [1] := by
    intro e he
    cases he
    decide
  obtain ⟨s₃, r₃, h₃, e₃⟩ := h₂.exists_step (.insertAfter () 1 2)
    (.of_one e₂' (fun a ha => by cases ha; exact List.mem_singleton_self 1) hnew)
  have e₃' : s₃.lists () = some [1, 2] := by rw [e₃, e₂']; rfl
  obtain ⟨ha, hb⟩ := queue_refines_list (.snoc (.snoc (Steps.single r₁) r₂) r₃)
  exact ⟨s₃, e₃', ha, hb⟩

end Paravirt

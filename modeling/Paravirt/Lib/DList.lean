import Mathlib.Logic.Function.Basic
import Mathlib.Data.List.Induction
import Mathlib.Data.List.Nodup

/-!
# Doubly linked lists whose links lie in their elements

A list is a head and a function that gives each element its two links.  The operations are those of
an intrusive queue: they write the links and the head, and ask nobody whether the element is on the
list or not.

* `insertFront`, `insertTail`, `insertAfter`, `insertBefore`, `remove`   the operations;
* `Seg links p l n`     `l` is linked in order, with `p` before its first and `n` after its last;
* `IsList links h l`    the head and the links spell the list `l`;
* `IsList.insertFront`, `IsList.insertTail`, `IsList.remove`   what the operations do to it;
* `IsList.unique`       they spell no other;
* `insertFront_links`, `insertTail_links`, `IsList.remove_links`   and that they touch the links of
  the list and of the element only;
* `IsList.reverse`      a list read from its end, with the two links of each element exchanged;
* `IsList.follows_next`, `IsList.follows_prev`   what a walk from either end of a list meets;
* `IsList.insertFront_both`, `IsList.insertTail_both`   two lists in one set of links.
-/

set_option linter.unusedSectionVars false
set_option linter.unusedVariables false

namespace DList

structure Link (α : Type*) where
  next : Option α
  prev : Option α
  deriving DecidableEq, Repr

structure Head (α : Type*) where
  first : Option α
  last : Option α
  deriving DecidableEq, Repr

variable {α : Type*} [DecidableEq α]

def Link.null : Link α := ⟨none, none⟩
def Head.empty : Head α := ⟨none, none⟩

/-- `e->next = n`, where there is an `e` -/
def setNext (links : α → Link α) : Option α → Option α → α → Link α
  | none, _ => links
  | some e, n => Function.update links e ⟨n, (links e).prev⟩

/-- `e->prev = p`, where there is an `e` -/
def setPrev (links : α → Link α) : Option α → Option α → α → Link α
  | none, _ => links
  | some e, p => Function.update links e ⟨(links e).next, p⟩

def insertFront (links : α → Link α) (h : Head α) (e : α) : (α → Link α) × Head α :=
  (Function.update (setPrev links h.first (some e)) e ⟨h.first, none⟩,
    ⟨some e, if h.last = none then some e else h.last⟩)

def insertTail (links : α → Link α) (h : Head α) (e : α) : (α → Link α) × Head α :=
  (Function.update (setNext links h.last (some e)) e ⟨none, h.last⟩,
    ⟨if h.first = none then some e else h.first, some e⟩)

def remove (links : α → Link α) (h : Head α) (e : α) : (α → Link α) × Head α :=
  let links' := setNext links (links e).prev (links e).next
  (Function.update (setPrev links' (links' e).next (links' e).prev) e .null,
    ⟨if h.first = some e then (links e).next else h.first,
      if h.last = some e then (links e).prev else h.last⟩)

/-- `e` is put behind `a` -/
def insertAfter (links : α → Link α) (h : Head α) (a e : α) : (α → Link α) × Head α :=
  if h.last = some a then insertTail links h e
  else
    let n := (links a).next
    (setNext (setPrev (Function.update links e ⟨n, some a⟩) n (some e)) (some a) (some e), h)

/-- `e` is put before `a` -/
def insertBefore (links : α → Link α) (h : Head α) (a e : α) : (α → Link α) × Head α :=
  if h.first = some a then insertFront links h e
  else
    let p := (links a).prev
    (setPrev (setNext (Function.update links e ⟨some a, p⟩) p (some e)) (some a) (some e), h)

/-! ## segments -/

def Seg (links : α → Link α) : Option α → List α → Option α → Prop
  | _, [], _ => True
  | p, a :: l, n => links a = ⟨l.head?.or n, p⟩ ∧ Seg links (some a) l n

variable {links links' : α → Link α} {h : Head α} {p n : Option α} {l l₁ l₂ : List α} {a e : α}

theorem Seg.congr (hs : Seg links p l n) (hl : ∀ x ∈ l, links' x = links x) : Seg links' p l n := by
  induction l generalizing p with
  | nil => trivial
  | cons a l ih =>
    refine ⟨?_, ih hs.2 fun x hx => hl x (List.mem_cons_of_mem _ hx)⟩
    rw [hl a (List.mem_cons_self ..)]
    exact hs.1

theorem seg_append :
    Seg links p (l₁ ++ l₂) n ↔ Seg links p l₁ (l₂.head?.or n) ∧ Seg links (l₁.getLast?.or p) l₂ n := by
  induction l₁ generalizing p with
  | nil => simp [Seg]
  | cons a l₁ ih =>
    have e1 : (l₁ ++ l₂).head?.or n = l₁.head?.or (l₂.head?.or n) := by
      cases l₁ <;> simp
    have e2 : (a :: l₁).getLast?.or p = l₁.getLast?.or (some a) := by
      cases l₁ with
      | nil => rfl
      | cons b l₁ => rw [List.getLast?_cons_cons, List.getLast?_cons]; rfl
    rw [List.cons_append]
    show links a = ⟨(l₁ ++ l₂).head?.or n, p⟩ ∧ Seg links (some a) (l₁ ++ l₂) n ↔
      (links a = ⟨l₁.head?.or (l₂.head?.or n), p⟩ ∧ Seg links (some a) l₁ (l₂.head?.or n)) ∧ _
    rw [e1, ih, e2, and_assoc]

theorem setNext_of_ne (h : p ≠ some e) : setNext links p n e = links e := by
  cases p with
  | none => rfl
  | some b => exact Function.update_of_ne (fun he => h (congrArg some he.symm)) _ _

theorem setPrev_of_ne (h : n ≠ some e) : setPrev links n p e = links e := by
  cases n with
  | none => rfl
  | some b => exact Function.update_of_ne (fun he => h (congrArg some he.symm)) _ _

theorem setNext_self (links : α → Link α) (e : α) (n : Option α) :
    setNext links (some e) n e = ⟨n, (links e).prev⟩ := Function.update_self ..

theorem setPrev_self (links : α → Link α) (e : α) (p : Option α) :
    setPrev links (some e) p e = ⟨(links e).next, p⟩ := Function.update_self ..

/-- another element behind the last one -/
theorem Seg.setNext (hs : Seg links p l n) (hd : l.Nodup) (m : Option α) :
    Seg (setNext links l.getLast? m) p l m := by
  cases l using List.reverseRecOn with
  | nil => trivial
  | append_singleton l a =>
    rw [List.getLast?_concat]
    obtain ⟨h1, h2⟩ := seg_append.mp hs
    have hd' := List.nodup_append.mp hd
    refine seg_append.mpr ⟨h1.congr fun x hx => ?_, ?_, trivial⟩
    · exact setNext_of_ne fun he => hd'.2.2 x hx a (List.mem_singleton_self a)
        (Option.some.inj he).symm
    · have e : DList.setNext links (some a) m a = ⟨m, (links a).prev⟩ := Function.update_self ..
      rw [e, h2.1]
      rfl

/-- another element before the first one -/
theorem Seg.setPrev (hs : Seg links p l n) (hd : l.Nodup) (q : Option α) :
    Seg (setPrev links l.head? q) q l n := by
  cases l with
  | nil => trivial
  | cons a l =>
    have hd' := List.nodup_cons.mp hd
    refine ⟨?_, hs.2.congr fun x hx => setPrev_of_ne fun he => ?_⟩
    · show Function.update links a ⟨(links a).next, q⟩ a = _
      rw [Function.update_self, hs.1]
    · exact hd'.1 (Option.some.inj he ▸ hx)

/-! ## lists -/

structure IsList (links : α → Link α) (h : Head α) (l : List α) : Prop where
  seg : Seg links none l none
  first : h.first = l.head?
  last : h.last = l.getLast?
  nodup : l.Nodup

theorem IsList.nil : IsList links .empty [] := ⟨trivial, rfl, rfl, List.nodup_nil⟩

theorem IsList.congr (hl : IsList links h l) (hx : ∀ x ∈ l, links' x = links x) :
    IsList links' h l := ⟨hl.seg.congr hx, hl.first, hl.last, hl.nodup⟩

theorem Seg.unique : ∀ (l l' : List α) (p : Option α), Seg links p l none → Seg links p l' none →
    l.head? = l'.head? → l = l' := by
  intro l
  induction l with
  | nil =>
    intro l' p _ _ hh
    exact (List.head?_eq_none_iff.mp hh.symm).symm
  | cons a l ih =>
    intro l' p h1 h2 hh
    cases l' with
    | nil => exact nomatch hh
    | cons b l' =>
      obtain rfl : a = b := Option.some.inj hh
      have hn : l.head?.or none = l'.head?.or none := congrArg Link.next (h1.1.symm.trans h2.1)
      rw [Option.or_none, Option.or_none] at hn
      rw [ih l' (some a) h1.2 h2.2 hn]

/-- links and head spell one list only -/
theorem IsList.unique {l' : List α} (hl : IsList links h l) (hl' : IsList links h l') : l = l' :=
  Seg.unique l l' none hl.seg hl'.seg (hl.first.symm.trans hl'.first)

/-- the links of an element -/
theorem IsList.link (hl : IsList links h (l₁ ++ e :: l₂)) :
    links e = ⟨l₂.head?, l₁.getLast?⟩ := by
  have hs := (seg_append.mp hl.seg).2.1
  rw [hs]
  cases l₂.head? <;> cases l₁.getLast? <;> rfl

theorem IsList.link_none {x : α} (hl : IsList links h l) (hx : x ∉ l) :
    h.first ≠ some x ∧ h.last ≠ some x := by
  rw [hl.first, hl.last]
  exact ⟨fun e => hx (List.mem_of_mem_head? e),
    fun e => hx (List.mem_of_mem_getLast? e)⟩

theorem insertFront_links {x : α} (hx : x ≠ e) (hf : h.first ≠ some x) :
    (DList.insertFront links h e).1 x = links x := by
  show Function.update _ e _ x = _
  rw [Function.update_of_ne hx]
  exact setPrev_of_ne hf

theorem insertTail_links {x : α} (hx : x ≠ e) (hf : h.last ≠ some x) :
    (DList.insertTail links h e).1 x = links x := by
  show Function.update _ e _ x = _
  rw [Function.update_of_ne hx]
  exact setNext_of_ne hf

theorem IsList.insertFront (hl : IsList links h l) (he : e ∉ l) :
    IsList (DList.insertFront links h e).1 (DList.insertFront links h e).2 (e :: l) where
  seg := by
    refine ⟨?_, (hl.seg.setPrev hl.nodup (some e)).congr fun x hx => ?_⟩
    · show Function.update _ e _ e = _
      rw [Function.update_self, hl.first, Option.or_none]
    · have hne : x ≠ e := fun h' => he (h' ▸ hx)
      show Function.update _ e _ x = _
      rw [Function.update_of_ne hne, hl.first]
  first := rfl
  last := by
    show (if h.last = none then some e else h.last) = _
    rw [hl.last, List.getLast?_cons]
    cases hc : l.getLast? with
    | none => rfl
    | some x => rfl
  nodup := List.nodup_cons.mpr ⟨he, hl.nodup⟩

theorem IsList.insertTail (hl : IsList links h l) (he : e ∉ l) :
    IsList (DList.insertTail links h e).1 (DList.insertTail links h e).2 (l ++ [e]) where
  seg := by
    refine seg_append.mpr ⟨(hl.seg.setNext hl.nodup (some e)).congr fun x hx => ?_, ?_, trivial⟩
    · have hne : x ≠ e := fun h' => he (h' ▸ hx)
      show Function.update _ e _ x = _
      rw [Function.update_of_ne hne, hl.last]
    · show Function.update _ e _ e = _
      rw [Function.update_self, hl.last]
      cases l.getLast? <;> rfl
  first := by
    show (if h.first = none then some e else h.first) = _
    rw [hl.first]
    cases l <;> rfl
  last := by
    rw [List.getLast?_concat]
    rfl
  nodup := by
    refine List.nodup_append.mpr ⟨hl.nodup, List.nodup_singleton e, fun x hx y hy => ?_⟩
    rw [List.mem_singleton.mp hy]
    exact fun h' => he (h' ▸ hx)

/-- the links after a removal, where the element is none of its neighbours -/
theorem remove_links_of_ne {x : α} (hx : x ≠ e) (hp : (links e).prev ≠ some x)
    (hn : (links e).next ≠ some x) (hself : (links e).prev ≠ some e) :
    (DList.remove links h e).1 x = links x := by
  show Function.update _ e _ x = _
  rw [Function.update_of_ne hx, setNext_of_ne hself, setPrev_of_ne hn, setNext_of_ne hp]

theorem IsList.remove_self (e : α) : (DList.remove links h e).1 e = .null := Function.update_self ..

section
variable (hl : IsList links h (l₁ ++ e :: l₂))
include hl

theorem IsList.split_nodup : (l₁ ++ l₂).Nodup ∧ e ∉ l₁ ∧ e ∉ l₂ := by
  have hd := List.nodup_append.mp hl.nodup
  have hd2 := List.nodup_cons.mp hd.2.1
  refine ⟨List.nodup_append.mpr ⟨hd.1, hd2.2, fun x hx y hy => ?_⟩, fun h1 => ?_, hd2.1⟩
  · exact hd.2.2 x hx y (List.mem_cons_of_mem _ hy)
  · exact hd.2.2 e h1 e (List.mem_cons_self ..) rfl

theorem IsList.remove_links {x : α} (hx : x ∉ l₁ ++ e :: l₂) :
    (DList.remove links h e).1 x = links x := by
  have hlink := hl.link
  obtain ⟨-, h1, h2⟩ := hl.split_nodup
  refine remove_links_of_ne (fun he => hx (by simp [he])) ?_ ?_ ?_
  · rw [hlink]
    exact fun he => hx (List.mem_append_left _ (List.mem_of_mem_getLast? he))
  · rw [hlink]
    exact fun he => hx (List.mem_append_right _
      (List.mem_cons_of_mem _ (List.mem_of_mem_head? he)))
  · rw [hlink]
    exact fun he => h1 (List.mem_of_mem_getLast? he)

/-- **an element taken out of the middle** -/
theorem IsList.remove :
    IsList (DList.remove links h e).1 (DList.remove links h e).2 (l₁ ++ l₂) := by
  have hlink := hl.link
  obtain ⟨hd, h1, h2⟩ := hl.split_nodup
  have hd1 := List.nodup_append.mp hd
  obtain ⟨s1, -, s2⟩ := seg_append.mp hl.seg
  have hself : l₁.getLast? ≠ some e := fun he => h1 (List.mem_of_mem_getLast? he)
  have hlast : ∀ x ∈ l₂, l₁.getLast? ≠ some x := fun x hx he =>
    hd1.2.2 x (List.mem_of_mem_getLast? he) x hx rfl
  have hhead : ∀ x ∈ l₁, l₂.head? ≠ some x := fun x hx he =>
    hd1.2.2 x hx x (List.mem_of_mem_head? he) rfl
  have hlinks : ∀ x, x ≠ e → (DList.remove links h e).1 x
      = DList.setPrev (DList.setNext links l₁.getLast? l₂.head?) l₂.head? l₁.getLast? x := by
    intro x hx
    show Function.update _ e _ x = _
    rw [Function.update_of_ne hx, hlink, setNext_of_ne hself, hlink]
  refine ⟨seg_append.mpr ⟨?_, ?_⟩, ?_, ?_, hd⟩
  · have h3 := s1.setNext hd1.1 (l₂.head?.or none)
    refine h3.congr fun x hx => ?_
    rw [hlinks x (fun he => h1 (he ▸ hx)), setPrev_of_ne (hhead x hx), Option.or_none]
  · have h3 : Seg (DList.setNext links l₁.getLast? l₂.head?) (some e) l₂ none :=
      s2.congr fun x hx => setNext_of_ne (hlast x hx)
    refine (h3.setPrev hd1.2.1 (l₁.getLast?.or none)).congr fun x hx => ?_
    rw [hlinks x (fun he => h2 (he ▸ hx)), Option.or_none]
  · show (if h.first = some e then (links e).next else h.first) = _
    rw [hl.first, hlink]
    cases l₁ with
    | nil => simp
    | cons b l₁ =>
      have hne : b ≠ e := fun he => h1 (by simp [he])
      simp [hne]
  · show (if h.last = some e then (links e).prev else h.last) = _
    rw [hl.last, hlink]
    cases l₂ using List.reverseRecOn with
    | nil => simp
    | append_singleton l₂ b =>
      have hne : b ≠ e := fun he => h2 (by simp [he])
      have e1 : (l₁ ++ e :: (l₂ ++ [b])).getLast? = some b := by
        rw [← List.cons_append, ← List.append_assoc, List.getLast?_concat]
      have e2 : (l₁ ++ (l₂ ++ [b])).getLast? = some b := by
        rw [← List.append_assoc, List.getLast?_concat]
      rw [e1, e2, if_neg (fun he => hne (Option.some.inj he))]

end

/-- an element that is not on the list, and whose links are null, is removed without effect -/
theorem IsList.remove_of_not_mem (hl : IsList links h l) (he : e ∉ l) (h0 : links e = .null) :
    DList.remove links h e = (links, h) := by
  obtain ⟨h1, h2⟩ := hl.link_none he
  have hlinks : (DList.remove links h e).1 = links := by
    funext x
    by_cases hx : x = e
    · rw [hx, IsList.remove_self, h0]
    · refine remove_links_of_ne hx ?_ ?_ ?_ <;> rw [h0] <;> exact fun he => nomatch he
  have hhead : (DList.remove links h e).2 = h := by
    show Head.mk (if _ then _ else _) (if _ then _ else _) = h
    rw [if_neg h1, if_neg h2]
  exact Prod.ext hlinks hhead

/-- an element is removed, on the list or not -/
theorem IsList.remove_erase (hl : IsList links h l) (h0 : e ∉ l → links e = .null) :
    IsList (DList.remove links h e).1 (DList.remove links h e).2 (l.erase e) ∧
      (∀ x, x ∉ l → (DList.remove links h e).1 x = links x) ∧
      (DList.remove links h e).1 e = .null := by
  by_cases he : e ∈ l
  · obtain ⟨l₁, l₂, rfl⟩ := List.append_of_mem he
    have h1 := hl.split_nodup.2.1
    rw [List.erase_append_right _ h1, List.erase_cons_head]
    exact ⟨hl.remove, fun x hx => hl.remove_links hx, IsList.remove_self e⟩
  · rw [hl.remove_of_not_mem he (h0 he), List.erase_of_not_mem he]
    exact ⟨hl, fun x _ => rfl, h0 he⟩

/-! ## a list read from its end -/

def Link.flip (k : Link α) : Link α := ⟨k.prev, k.next⟩
def Head.flip (h : Head α) : Head α := ⟨h.last, h.first⟩

/-- the links of all elements, exchanged -/
def flipLinks (links : α → Link α) (x : α) : Link α := (links x).flip

theorem flipLinks_update (links : α → Link α) (e : α) (k : Link α) :
    flipLinks (Function.update links e k) = Function.update (flipLinks links) e k.flip := by
  funext x
  show (Function.update links e k x).flip = _
  by_cases hx : x = e
  · rw [hx, Function.update_self, Function.update_self]
  · rw [Function.update_of_ne hx, Function.update_of_ne hx]
    rfl

theorem flipLinks_setNext (links : α → Link α) (p n : Option α) :
    flipLinks (setNext links p n) = setPrev (flipLinks links) p n := by
  cases p with
  | none => rfl
  | some e => exact flipLinks_update links e _

theorem flipLinks_setPrev (links : α → Link α) (n p : Option α) :
    flipLinks (setPrev links n p) = setNext (flipLinks links) n p := by
  cases n with
  | none => rfl
  | some e => exact flipLinks_update links e _

theorem Seg.reverse (hs : Seg links p l n) : Seg (flipLinks links) n l.reverse p := by
  induction l generalizing p with
  | nil => trivial
  | cons a l ih =>
    rw [List.reverse_cons]
    refine seg_append.mpr ⟨ih hs.2, ?_, trivial⟩
    show (links a).flip = _
    rw [hs.1, List.getLast?_reverse]
    rfl

theorem IsList.reverse (hl : IsList links h l) : IsList (flipLinks links) h.flip l.reverse where
  seg := hl.seg.reverse
  first := by
    rw [List.head?_reverse]
    exact hl.last
  last := by
    rw [List.getLast?_reverse]
    exact hl.first
  nodup := List.nodup_reverse.mpr hl.nodup

/-- a walk along `f` from `o` meets `l`, and ends -/
inductive Follows (f : α → Option α) : Option α → List α → Prop
  | nil : Follows f none []
  | cons {a : α} {l : List α} (h : Follows f (f a) l) : Follows f (some a) (a :: l)

theorem Seg.follows (hs : Seg links p l none) : Follows (fun x => (links x).next) l.head? l := by
  induction l generalizing p with
  | nil => exact .nil
  | cons a l ih =>
    refine .cons ?_
    show Follows _ (links a).next l
    rw [hs.1]
    show Follows _ (l.head?.or none) l
    rw [Option.or_none]
    exact ih hs.2

theorem IsList.follows_next (hl : IsList links h l) :
    Follows (fun x => (links x).next) h.first l := by
  rw [hl.first]
  exact hl.seg.follows

theorem IsList.follows_prev (hl : IsList links h l) :
    Follows (fun x => (links x).prev) h.last l.reverse := hl.reverse.follows_next

/-! ## insertion next to an element -/

/-- after `insertAfter`, where `a` is not the last -/
theorem insertAfter_links {x : α} (hx : x ≠ e) (ha : x ≠ a) (hn : (links a).next ≠ some x)
    (hlast : h.last ≠ some a) : (DList.insertAfter links h a e).1 x = links x := by
  unfold DList.insertAfter
  rw [if_neg hlast]
  show setNext _ (some a) _ x = _
  rw [setNext_of_ne fun he => ha (Option.some.inj he).symm, setPrev_of_ne hn,
    Function.update_of_ne hx]

theorem IsList.insertAfter (hl : IsList links h (l₁ ++ a :: l₂)) (he : e ∉ l₁ ++ a :: l₂) :
    IsList (DList.insertAfter links h a e).1 (DList.insertAfter links h a e).2
      (l₁ ++ a :: e :: l₂) := by
  obtain ⟨hd, h1, h2⟩ := hl.split_nodup
  cases l₂ with
  | nil =>
    have hlast : h.last = some a := hl.last.trans List.getLast?_concat
    unfold DList.insertAfter
    rw [if_pos hlast]
    have h3 := hl.insertTail he
    rwa [List.append_assoc] at h3
  | cons b l₂ =>
    have hnd := List.nodup_cons.mp (List.nodup_append.mp hd).2.1
    have hbl : b ∉ l₁ := fun hb => (List.nodup_append.mp hd).2.2 b hb b List.mem_cons_self rfl
    have hab : a ≠ b := fun h => h2 (h ▸ List.mem_cons_self)
    have hea : e ≠ a := fun h => he (by simp [h])
    have heb : e ≠ b := fun h => he (by simp [h])
    have hlast : h.last ≠ some a := by
      rw [hl.last, List.getLast?_append_of_ne_nil _ (List.cons_ne_nil _ _), List.getLast?_cons_cons]
      exact fun hc => h2 (List.mem_of_mem_getLast? hc)
    obtain ⟨s1, s2, s3⟩ := seg_append.mp hl.seg
    have hlink : links a = ⟨some b, l₁.getLast?⟩ := hl.link
    unfold DList.insertAfter
    rw [if_neg hlast, hlink]
    show IsList (DList.setNext (DList.setPrev _ (some b) (some e)) (some a) (some e)) h _
    -- the three elements whose links are written
    have hout : ∀ x, x ≠ a → x ≠ b → x ≠ e → DList.setNext (DList.setPrev
        (Function.update links e ⟨some b, some a⟩) (some b) (some e)) (some a) (some e) x
        = links x := by
      intro x h1 h2 h3
      rw [setNext_of_ne fun hc => h1 (Option.some.inj hc).symm,
        setPrev_of_ne fun hc => h2 (Option.some.inj hc).symm, Function.update_of_ne h3]
    refine ⟨seg_append.mpr ⟨s1.congr fun x hx => ?_, ?_, ?_, ?_, ?_⟩, ?_, ?_, ?_⟩
    · exact hout x (fun h => h1 (h ▸ hx)) (fun h => hbl (h ▸ hx)) fun h => he (by simp [← h, hx])
    · show Function.update _ a _ a = _
      rw [Function.update_self, setPrev_of_ne fun hc => hab (Option.some.inj hc).symm,
        Function.update_of_ne hea.symm, hlink]
      cases l₁.getLast? <;> rfl
    · rw [setNext_of_ne fun hc => hea (Option.some.inj hc).symm,
        setPrev_of_ne fun hc => heb (Option.some.inj hc).symm, Function.update_self]
      rfl
    · rw [setNext_of_ne fun hc => hab (Option.some.inj hc)]
      show Function.update _ b _ b = _
      rw [Function.update_self, Function.update_of_ne heb.symm, s3.1]
    · refine s3.2.congr fun x hx => hout x (fun h => h2 ?_) (fun h => hnd.1 (h ▸ hx)) fun h => he ?_
      · exact List.mem_cons_of_mem _ (h ▸ hx)
      · simp [← h, hx]
    · rw [hl.first]
      cases l₁ <;> rfl
    · rw [hl.last, List.getLast?_append_of_ne_nil _ (List.cons_ne_nil _ _),
        List.getLast?_append_of_ne_nil _ (List.cons_ne_nil _ _), List.getLast?_cons_cons,
        List.getLast?_cons_cons, List.getLast?_cons_cons]
    · have hperm : (l₁ ++ a :: e :: b :: l₂).Perm (e :: (l₁ ++ a :: b :: l₂)) :=
        (List.perm_middle.trans (List.perm_middle.cons a)).trans
          ((List.Perm.swap e a _).trans (List.perm_middle.symm.cons e))
      exact hperm.nodup_iff.mpr (List.nodup_cons.mpr ⟨he, hl.nodup⟩)

theorem IsList.insertAfter_links {x : α} (hl : IsList links h (l₁ ++ a :: l₂))
    (hx : x ∉ l₁ ++ a :: l₂) (hxe : x ≠ e) : (DList.insertAfter links h a e).1 x = links x := by
  by_cases hlast : h.last = some a
  · unfold DList.insertAfter
    rw [if_pos hlast]
    exact insertTail_links hxe (hl.link_none hx).2
  · refine DList.insertAfter_links hxe (fun hc => hx (by simp [hc])) ?_ hlast
    rw [hl.link]
    exact fun hc => hx (List.mem_append_right _
      (List.mem_cons_of_mem _ (List.mem_of_mem_head? hc)))

/-- insertion before an element is insertion behind it, in the list read from its end -/
theorem insertBefore_eq (links : α → Link α) (h : Head α) (a e : α) :
    DList.insertBefore links h a e =
      (flipLinks (DList.insertAfter (flipLinks links) h.flip a e).1,
        (DList.insertAfter (flipLinks links) h.flip a e).2.flip) := by
  unfold DList.insertBefore DList.insertAfter
  have hflip : h.flip.last = h.first := rfl
  rw [hflip]
  by_cases hf : h.first = some a
  · rw [if_pos hf, if_pos hf]
    unfold DList.insertFront DList.insertTail
    dsimp only
    rw [flipLinks_update, flipLinks_setNext]
    rfl
  · rw [if_neg hf, if_neg hf]
    dsimp only
    rw [flipLinks_setNext, flipLinks_setPrev, flipLinks_update]
    rfl

theorem IsList.insertBefore (hl : IsList links h (l₁ ++ a :: l₂)) (he : e ∉ l₁ ++ a :: l₂) :
    IsList (DList.insertBefore links h a e).1 (DList.insertBefore links h a e).2
      (l₁ ++ e :: a :: l₂) := by
  have e1 : (l₁ ++ a :: l₂).reverse = l₂.reverse ++ a :: l₁.reverse := by
    rw [List.reverse_append, List.reverse_cons, List.append_assoc, List.singleton_append]
  have e2 : (l₂.reverse ++ a :: e :: l₁.reverse).reverse = l₁ ++ e :: a :: l₂ := by
    simp
  have hr := hl.reverse
  rw [e1] at hr
  have h1 := (hr.insertAfter (e := e) fun hm => he (List.mem_reverse.mp (e1 ▸ hm))).reverse
  rw [e2] at h1
  rw [insertBefore_eq]
  exact h1

theorem IsList.insertBefore_links {x : α} (hl : IsList links h (l₁ ++ a :: l₂))
    (hx : x ∉ l₁ ++ a :: l₂) (hxe : x ≠ e) : (DList.insertBefore links h a e).1 x = links x := by
  have e1 : (l₁ ++ a :: l₂).reverse = l₂.reverse ++ a :: l₁.reverse := by
    rw [List.reverse_append, List.reverse_cons, List.append_assoc, List.singleton_append]
  have hr := hl.reverse
  rw [e1] at hr
  have h1 := hr.insertAfter_links (x := x) (e := e)
    (fun hm => hx (List.mem_reverse.mp (e1 ▸ hm))) hxe
  rw [insertBefore_eq]
  show (_ : Link α).flip = _
  rw [h1]
  rfl

/-- an element that is not the last has one behind it -/
theorem IsList.next_ne_none (hl : IsList links h (l₁ ++ a :: l₂)) (hn : h.last ≠ some a) :
    (links a).next ≠ none := by
  rw [hl.link]
  intro hc
  obtain rfl : l₂ = [] := List.head?_eq_none_iff.mp hc
  exact hn (hl.last.trans List.getLast?_concat)

theorem IsList.prev_ne_none (hl : IsList links h (l₁ ++ a :: l₂)) (hn : h.first ≠ some a) :
    (links a).prev ≠ none := by
  rw [hl.link]
  intro hc
  obtain rfl : l₁ = [] := List.getLast?_eq_none_iff.mp hc
  exact hn hl.first

/-! ## two lists that share their links -/

section
variable {h' : Head α} {l' : List α} (hl : IsList links h l) (hl' : IsList links h' l')
  (hdis : ∀ x ∈ l, x ∉ l')
include hl hl' hdis

theorem IsList.insertFront_both (he : e ∉ l) (he' : e ∉ l') :
    IsList (DList.insertFront links h e).1 (DList.insertFront links h e).2 (e :: l) ∧
      IsList (DList.insertFront links h e).1 h' l' := by
  refine ⟨hl.insertFront he, hl'.congr fun x hx => insertFront_links (fun h => he' (h ▸ hx)) ?_⟩
  exact (hl.link_none fun hxl => hdis x hxl hx).1

theorem IsList.insertTail_both (he : e ∉ l) (he' : e ∉ l') :
    IsList (DList.insertTail links h e).1 (DList.insertTail links h e).2 (l ++ [e]) ∧
      IsList (DList.insertTail links h e).1 h' l' := by
  refine ⟨hl.insertTail he, hl'.congr fun x hx => insertTail_links (fun h => he' (h ▸ hx)) ?_⟩
  exact (hl.link_none fun hxl => hdis x hxl hx).2

end

end DList

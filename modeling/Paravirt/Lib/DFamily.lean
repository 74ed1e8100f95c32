import Paravirt.Lib.DList

/-!
# Lists that share one link field

* `Family links heads f`   the list with the head `heads i` spells `f i`, no element is on two lists;
* `Family.insertTail`, `Family.insertFront`, `Family.remove`   one list changes, the others stay;
* `Family.add`             an element that is on no list, and whose lists are empty.
-/

namespace DList

variable {α ι : Type*} [DecidableEq α] [DecidableEq ι]

structure Family (links : α → Link α) (heads : ι → Head α) (f : ι → List α) : Prop where
  list : ∀ i, IsList links (heads i) (f i)
  one : ∀ i j x, i ≠ j → x ∈ f i → x ∉ f j

namespace Family
variable {links : α → Link α} {heads : ι → Head α} {f : ι → List α} {e : α}

/-- one list is replaced: the links of the elements of the others stay -/
theorem change (h : Family links heads f) (i : ι) {r : (α → Link α) × Head α} {l : List α}
    (hl : IsList r.1 r.2 l) (hx : ∀ x, x ∉ f i → x ∉ l → r.1 x = links x)
    (hone : ∀ x ∈ l, ∀ j, j ≠ i → x ∉ f j) :
    Family r.1 (Function.update heads i r.2) (Function.update f i l) where
  list j := by
    by_cases hj : j = i
    · subst hj
      rw [Function.update_self, Function.update_self]
      exact hl
    · rw [Function.update_of_ne hj, Function.update_of_ne hj]
      apply (h.list j).congr
      intro x hxj
      exact hx x (h.one j i x hj hxj) fun hxl => hone x hxl j hj hxj
  one a b x hab ha hb := by
    by_cases h1 : a = i
    · subst h1
      rw [Function.update_self] at ha
      rw [Function.update_of_ne (Ne.symm hab)] at hb
      exact hone x ha b (Ne.symm hab) hb
    · rw [Function.update_of_ne h1] at ha
      by_cases h2 : b = i
      · subst h2
        rw [Function.update_self] at hb
        exact hone x hb a h1 ha
      · rw [Function.update_of_ne h2] at hb
        exact h.one a b x hab ha hb

theorem insertTail (h : Family links heads f) (i : ι) (he : ∀ j, e ∉ f j) :
    Family (DList.insertTail links (heads i) e).1
      (Function.update heads i (DList.insertTail links (heads i) e).2)
      (Function.update f i (f i ++ [e])) := by
  apply h.change i ((h.list i).insertTail (he i))
  · intro x hx hxe
    have hne : x ≠ e := fun hc => hxe (List.mem_append_right _ (hc ▸ List.mem_singleton_self e))
    exact insertTail_links hne ((h.list i).link_none hx).2
  · intro x hx j hj hxj
    rcases List.mem_append.mp hx with hx | hx
    · exact h.one i j x (Ne.symm hj) hx hxj
    · exact he j (List.mem_singleton.mp hx ▸ hxj)

theorem insertFront (h : Family links heads f) (i : ι) (he : ∀ j, e ∉ f j) :
    Family (DList.insertFront links (heads i) e).1
      (Function.update heads i (DList.insertFront links (heads i) e).2)
      (Function.update f i (e :: f i)) := by
  apply h.change i ((h.list i).insertFront (he i))
  · intro x hx hxe
    have hne : x ≠ e := fun hc => hxe (hc ▸ List.mem_cons_self ..)
    exact insertFront_links hne ((h.list i).link_none hx).1
  · intro x hx j hj hxj
    rcases List.mem_cons.mp hx with hx | hx
    · exact he j (hx ▸ hxj)
    · exact h.one i j x (Ne.symm hj) hx hxj

theorem remove (h : Family links heads f) (i : ι) (he : e ∈ f i) :
    Family (DList.remove links (heads i) e).1
      (Function.update heads i (DList.remove links (heads i) e).2)
      (Function.update f i ((f i).erase e)) := by
  obtain ⟨h1, h2, -⟩ := (h.list i).remove_erase fun hn => absurd he hn
  apply h.change i h1
  · exact fun x hx _ => h2 x hx
  · exact fun x hx j hj => h.one i j x (Ne.symm hj) (List.mem_of_mem_erase hx)

omit [DecidableEq ι] in
/-- the links of an element that is on no list do not matter -/
theorem relink (h : Family links heads f) (he : ∀ j, e ∉ f j) (k : Link α) :
    Family (Function.update links e k) heads f where
  list j := by
    apply (h.list j).congr
    intro x hx
    have hne : x ≠ e := fun hc => he j (hc ▸ hx)
    exact Function.update_of_ne hne _ _
  one := h.one

/-- a list that is empty is set up once more -/
theorem clear (h : Family links heads f) (i : ι) (hi : f i = []) :
    Family links (Function.update heads i .empty) f where
  list j := by
    by_cases hj : j = i
    · subst hj
      rw [Function.update_self, hi]
      exact IsList.nil
    · rw [Function.update_of_ne hj]
      exact h.list j
  one := h.one

omit [DecidableEq ι] in
/-- empty lists only -/
theorem none (links : α → Link α) (heads : ι → Head α) (h : ∀ i, heads i = .empty) :
    Family links heads fun _ => [] where
  list i := by
    rw [h i]
    exact IsList.nil
  one _ _ _ _ hx := absurd hx List.not_mem_nil

end Family

end DList

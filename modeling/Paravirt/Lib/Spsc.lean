import Mathlib.Logic.Function.Basic
import Mathlib.Data.List.Infix
import Paravirt.Lib.Steps

/-!
# A ring with one producer and one consumer

The ring has `N` cells; the two indices run freely and are words modulo `M`.  The producer takes
both indices, fills cells while there is room by what it took, and then publishes its index; the
consumer takes both, empties cells up to what it took, and then publishes its own.  Every access is
a step, and the steps of the two interleave.

* `act`          the next access of either side;
* `Inv`          the words are counts, and the cells between the two counts hold what was sent;
* `fifo`         what was taken is at all times a prefix of what was put in, at most `N` behind;
* `sub_le`       neither side ever finds more in the ring than it has cells.
-/

namespace Spsc

/-- the difference of two words -/
def sub (M a b : Nat) : Nat := (a + (M - b % M)) % M

/-- in a send: the indices that were taken, the second one moved, and what is still to be sent -/
structure Producer (α : Type*) where
  cons : Nat
  prod : Nat
  rest : List α

/-- in a receive: the indices that were taken, the first one moved -/
structure Consumer where
  cons : Nat
  prod : Nat

structure State (α : Type*) where
  cells : Nat → α
  prod : Nat
  cons : Nat
  producer : Option (Producer α)
  consumer : Option Consumer
  /-- all that was put in a cell, and taken out of one -/
  sent : List α
  taken : List α
  /-- how much of it the shared indices show -/
  published : Nat
  released : Nat

inductive Act (α : Type*) where
  | send (data : List α)
  | produce
  | receive
  | consume

variable {α : Type*}

/-- the next access of the producer -/
def State.produce (N M : Nat) (s : State α) : State α :=
  match s.producer with
  | none => s
  | some ⟨cons, prod, b :: rest⟩ =>
    if sub M prod cons < N then
      { s with
        cells := Function.update s.cells (prod % N) b
        producer := some ⟨cons, (prod + 1) % M, rest⟩
        sent := s.sent ++ [b] }
    else { s with producer := none, prod := prod, published := s.sent.length }
  | some ⟨_, prod, []⟩ => { s with producer := none, prod := prod, published := s.sent.length }

/-- the byte that the next access of the consumer takes -/
def State.fetched (N : Nat) (s : State α) : Option α :=
  match s.consumer with
  | none => none
  | some ⟨cons, prod⟩ => if cons = prod then none else some (s.cells (cons % N))

/-- the next access of the consumer -/
def State.consume (N M : Nat) (s : State α) : State α :=
  match s.consumer with
  | none => s
  | some ⟨cons, prod⟩ =>
    if cons = prod then { s with consumer := none, cons := cons, released := s.taken.length }
    else
      { s with
        consumer := some ⟨(cons + 1) % M, prod⟩
        taken := s.taken ++ [s.cells (cons % N)] }

/-- a send begins where none is under way -/
def State.send (s : State α) (data : List α) : State α :=
  match s.producer with
  | none => { s with producer := some ⟨s.cons, s.prod, data⟩ }
  | some _ => s

/-- a receive begins where none is under way -/
def State.receive (s : State α) : State α :=
  match s.consumer with
  | none => { s with consumer := some ⟨s.cons, s.prod⟩ }
  | some _ => s

def State.act (N M : Nat) (s : State α) : Act α → State α
  | .send data => s.send data
  | .produce => s.produce N M
  | .receive => s.receive
  | .consume => s.consume N M

def State.run (N M : Nat) (s : State α) (acts : List (Act α)) : State α := acts.foldl (State.act N M) s

variable {N M : Nat} {s : State α}

structure Inv (N M : Nat) (s : State α) : Prop where
  cons : s.cons = s.released % M
  prod : s.prod = s.published % M
  released_le : s.released ≤ s.taken.length
  taken_le : s.taken.length ≤ s.published
  published_le : s.published ≤ s.sent.length
  room : s.sent.length ≤ s.released + N
  slot : ∀ i, s.taken.length ≤ i → ∀ b, s.sent[i]? = some b → s.cells (i % N) = b
  fifo : s.taken <+: s.sent
  /-- a send knows a count that the consumer has reached -/
  producer : ∀ p, s.producer = some p → p.prod = s.sent.length % M ∧
    ∃ r, r ≤ s.released ∧ p.cons = r % M ∧ s.sent.length ≤ r + N
  idle : s.producer = none → s.published = s.sent.length
  /-- a receive knows a count that the producer has published -/
  consumer : ∀ c, s.consumer = some c → c.cons = s.taken.length % M ∧
    ∃ q, s.taken.length ≤ q ∧ q ≤ s.published ∧ c.prod = q % M
  waiting : s.consumer = none → s.released = s.taken.length

/-- the words of two counts that are close -/
theorem sub_mod {a b : Nat} (hM : 0 < M) (h : b ≤ a) (hlt : a - b < M) :
    sub M (a % M) (b % M) = a - b := by
  obtain ⟨d, rfl⟩ := Nat.exists_eq_add_of_le h
  rw [Nat.add_sub_cancel_left] at hlt ⊢
  unfold sub
  have hb : b % M < M := Nat.mod_lt _ hM
  rw [Nat.mod_mod, Nat.add_mod, Nat.mod_mod, ← Nat.add_mod]
  have hsplit : b + d + (M - b % M) = d + M * (b / M + 1) := by
    have hdiv := Nat.mod_add_div b M
    rw [Nat.mul_add, Nat.mul_one]
    omega
  rw [hsplit, Nat.add_mul_mod_self_left, Nat.mod_eq_of_lt hlt]

namespace Inv

theorem send (h : Inv N M s) (data : List α) : Inv N M (s.send data) := by
  unfold State.send
  split
  case h_2 => exact h
  rename_i hp
  refine ⟨h.cons, h.prod, h.released_le, h.taken_le, h.published_le, h.room, h.slot, h.fifo, ?_, ?_,
    h.consumer, h.waiting⟩
  · intro p hp'
    injection hp' with hp'
    subst hp'
    refine ⟨?_, s.released, Nat.le_refl _, h.cons, h.room⟩
    show s.prod = s.sent.length % M
    rw [h.prod, h.idle hp]
  · intro hc
    cases hc

theorem publish (h : Inv N M s) {p : Producer α} (hp : s.producer = some p) :
    Inv N M { s with producer := none, prod := p.prod, published := s.sent.length } := by
  refine ⟨h.cons, (h.producer p hp).1, h.released_le, Nat.le_trans h.taken_le h.published_le,
    Nat.le_refl _, h.room, h.slot, h.fifo, ?_, fun _ => rfl, ?_, h.waiting⟩
  · intro p hp
    cases hp
  · intro c hc
    obtain ⟨h1, q, h2, h3, h4⟩ := h.consumer c hc
    exact ⟨h1, q, h2, Nat.le_trans h3 h.published_le, h4⟩

theorem produce (h : Inv N M s) (hN : N < M) (hdvd : N ∣ M) : Inv N M (s.produce N M) := by
  unfold State.produce
  split
  · exact h
  · rename_i cons prod b rest hp
    split
    · rename_i hroom
      obtain ⟨hprod, r, hr, hcons, hle⟩ := h.producer _ hp
      dsimp only at hprod hcons
      have hrs : r ≤ s.sent.length :=
        Nat.le_trans hr (Nat.le_trans h.released_le (Nat.le_trans h.taken_le h.published_le))
      rw [hprod, hcons, sub_mod (Nat.lt_of_le_of_lt (Nat.zero_le _) hN) hrs (by omega)] at hroom
      have hlen : (s.sent ++ [b]).length = s.sent.length + 1 := List.length_append
      have hcell : prod % N = s.sent.length % N := by
        rw [hprod]
        exact Nat.mod_mod_of_dvd _ hdvd
      refine ⟨h.cons, h.prod, h.released_le, h.taken_le, ?_, ?_, ?_, ?_, ?_, ?_, h.consumer,
        h.waiting⟩
      · show s.published ≤ (s.sent ++ [b]).length
        rw [hlen]
        exact Nat.le_succ_of_le h.published_le
      · show (s.sent ++ [b]).length ≤ s.released + N
        rw [hlen]
        omega
      · intro i hi c hc
        show Function.update s.cells (prod % N) b (i % N) = c
        change (s.sent ++ [b])[i]? = some c at hc
        change s.taken.length ≤ i at hi
        rw [hcell]
        rcases Nat.lt_or_ge i s.sent.length with hlt | hge
        · rw [List.getElem?_append_left hlt] at hc
          -- the two counts are less than `N` apart
          have hne : i % N ≠ s.sent.length % N := by
            intro heq
            have hsub : (s.sent.length - i) % N = 0 := Nat.sub_mod_eq_zero_of_mod_eq heq.symm
            have hrel := h.released_le
            rw [Nat.mod_eq_of_lt (by omega)] at hsub
            omega
          rw [Function.update_of_ne hne]
          exact h.slot i hi c hc
        · have hi' := (List.getElem?_eq_some_iff.mp hc).1
          obtain rfl : i = s.sent.length := by omega
          rw [List.getElem?_concat_length] at hc
          rw [Function.update_self]
          exact Option.some.inj hc
      · exact h.fifo.trans (List.prefix_append _ _)
      · intro p hp'
        injection hp' with hp'
        subst hp'
        refine ⟨?_, r, hr, hcons, ?_⟩
        · show (prod + 1) % M = (s.sent ++ [b]).length % M
          rw [hlen, hprod, Nat.mod_add_mod]
        · show (s.sent ++ [b]).length ≤ r + N
          rw [hlen]
          omega
      · intro hc
        cases hc
    · exact h.publish hp
  · rename_i hp
    exact h.publish hp

theorem receive (h : Inv N M s) : Inv N M s.receive := by
  unfold State.receive
  split
  case h_2 => exact h
  rename_i hc
  refine ⟨h.cons, h.prod, h.released_le, h.taken_le, h.published_le, h.room, h.slot, h.fifo,
    h.producer, h.idle, ?_, ?_⟩
  · intro c hc'
    injection hc' with hc'
    subst hc'
    refine ⟨?_, s.published, h.taken_le, Nat.le_refl _, h.prod⟩
    show s.cons = s.taken.length % M
    rw [h.cons, h.waiting hc]
  · intro hc
    cases hc

/-- the byte that is taken is the next one that was sent -/
theorem fetched (h : Inv N M s) (hdvd : N ∣ M) {b : α} (hb : s.fetched N = some b) :
    s.sent[s.taken.length]? = some b ∧ ∃ c, s.consumer = some c ∧ c.cons ≠ c.prod := by
  unfold State.fetched at hb
  split at hb
  · cases hb
  · rename_i cons prod hc
    split at hb
    · cases hb
    · rename_i hne
      obtain ⟨h1, q, h2, h3, h4⟩ := h.consumer _ hc
      dsimp only at h1 h4
      have hlt : s.taken.length < s.sent.length := by
        by_contra hge
        have hq : q = s.taken.length := by
          have := h.published_le
          omega
        apply hne
        rw [h1, h4, hq]
      refine ⟨?_, _, hc, hne⟩
      have hget : s.sent[s.taken.length]? = some s.sent[s.taken.length] :=
        List.getElem?_eq_getElem hlt
      have hslot := h.slot s.taken.length (Nat.le_refl _) _ hget
      have hcell : cons % N = s.taken.length % N := by
        rw [h1]
        exact Nat.mod_mod_of_dvd _ hdvd
      rw [hget, ← hslot, ← hcell]
      exact hb

theorem consume (h : Inv N M s) (hdvd : N ∣ M) : Inv N M (s.consume N M) := by
  unfold State.consume
  split
  · exact h
  · rename_i cons prod hc
    obtain ⟨h1, q, h2, h3, h4⟩ := h.consumer _ hc
    dsimp only at h1 h4
    split
    · refine ⟨h1, h.prod, Nat.le_refl _, h.taken_le, h.published_le, ?_, h.slot, h.fifo, ?_, h.idle,
        ?_, fun _ => rfl⟩
      · show s.sent.length ≤ s.taken.length + N
        have := h.room
        have := h.released_le
        omega
      · intro p hp
        obtain ⟨h5, r, h6, h7, h8⟩ := h.producer p hp
        exact ⟨h5, r, Nat.le_trans h6 h.released_le, h7, h8⟩
      · intro c hc
        cases hc
    · rename_i hne
      have hfetch : s.fetched N = some (s.cells (cons % N)) := by
        unfold State.fetched
        rw [hc]
        dsimp only
        rw [if_neg hne]
      obtain ⟨hnext, -⟩ := h.fetched hdvd hfetch
      have hlen : (s.taken ++ [s.cells (cons % N)]).length = s.taken.length + 1 := List.length_append
      have hlt : s.taken.length < q := by
        by_contra hge
        have hq : q = s.taken.length := by omega
        apply hne
        rw [h1, h4, hq]
      refine ⟨h.cons, h.prod, ?_, ?_, h.published_le, h.room, ?_, ?_, h.producer, h.idle, ?_, ?_⟩
      · show s.released ≤ (s.taken ++ _).length
        rw [hlen]
        exact Nat.le_succ_of_le h.released_le
      · show (s.taken ++ _).length ≤ s.published
        rw [hlen]
        omega
      · intro i hi b hb
        change (s.taken ++ _).length ≤ i at hi
        rw [hlen] at hi
        exact h.slot i (by omega) b hb
      · obtain ⟨rest, hrest⟩ := h.fifo
        rw [← hrest] at hnext
        rw [List.getElem?_append_right (Nat.le_refl _), Nat.sub_self] at hnext
        cases rest with
        | nil => cases hnext
        | cons x rest =>
          obtain rfl : x = s.cells (cons % N) := Option.some.inj hnext
          refine ⟨rest, ?_⟩
          show (s.taken ++ [s.cells (cons % N)]) ++ rest = s.sent
          rw [List.append_assoc]
          exact hrest
      · intro c hc'
        injection hc' with hc'
        subst hc'
        refine ⟨?_, q, ?_, h3, h4⟩
        · show (cons + 1) % M = (s.taken ++ _).length % M
          rw [hlen, h1, Nat.mod_add_mod]
        · show (s.taken ++ _).length ≤ q
          rw [hlen]
          exact hlt
      · intro hc
        cases hc

theorem act (h : Inv N M s) (hN : N < M) (hdvd : N ∣ M) (a : Act α) : Inv N M (s.act N M a) := by
  cases a with
  | send data => exact h.send data
  | produce => exact h.produce hN hdvd
  | receive => exact h.receive
  | consume => exact h.consume hdvd

theorem run (h : Inv N M s) (hN : N < M) (hdvd : N ∣ M) (acts : List (Act α)) :
    Inv N M (s.run N M acts) := by
  induction acts generalizing s with
  | nil => exact h
  | cons a acts ih => exact ih (h.act hN hdvd a)

/-- neither side finds more in the ring than it has cells -/
theorem sub_le (h : Inv N M s) (hN : N < M) : sub M s.prod s.cons ≤ N := by
  have h1 := h.room
  have h2 := h.published_le
  have h3 := Nat.le_trans h.released_le h.taken_le
  rw [h.prod, h.cons, sub_mod (Nat.lt_of_le_of_lt (Nat.zero_le _) hN) h3 (by omega)]
  omega

end Inv

/-- an empty ring -/
def empty (cells : Nat → α) : State α := ⟨cells, 0, 0, none, none, [], [], 0, 0⟩

theorem Inv.empty (N M : Nat) (cells : Nat → α) : Inv N M (Spsc.empty cells) where
  cons := (Nat.zero_mod M).symm
  prod := (Nat.zero_mod M).symm
  released_le := Nat.le_refl _
  taken_le := Nat.le_refl _
  published_le := Nat.le_refl _
  room := Nat.zero_le _
  slot _ _ _ h := nomatch h
  fifo := List.prefix_rfl
  producer _ h := nomatch h
  idle _ := rfl
  consumer _ h := nomatch h
  waiting _ := rfl

/-- What was taken is a prefix of what was put in, whatever the interleaving, and never more than
`N` behind. -/
theorem fifo (hN : N < M) (hdvd : N ∣ M) (cells : Nat → α) (acts : List (Act α)) :
    ((empty cells).run N M acts).taken <+: ((empty cells).run N M acts).sent ∧
      ((empty cells).run N M acts).sent.length ≤
        ((empty cells).run N M acts).taken.length + N := by
  have h := (Inv.empty N M cells).run hN hdvd acts
  have h1 := h.room
  have h2 := h.released_le
  exact ⟨h.fifo, by omega⟩

end Spsc

import Mathlib.Logic.Function.Basic
import Mathlib.Algebra.Group.Nat.Defs
import Mathlib.Algebra.Group.Int.Defs
import Mathlib.Data.List.Basic

/-!
# The key ring (kern/keyboard.c, kern/inc/keyboard.h)

`keyb_add_scancode` runs in the interrupt handler, in one go as seen from the kernel.
`keyb_remove_scancode` is a sequence of memory accesses, and the handler may run between any two of
them.  The operands of `begin == end` may be read in either order.

* `KeyRing`        the buffer and its two indices;
* `RemovePc`       where `keyb_remove_scancode` is, with what it has read so far;
* `RingEvent`      one run of the handler, or one memory access of the reader;
* `RingInv`        code number `n` lies in slot `n` modulo the size, from when it is accepted until
  `begin` moves past it;
* `key_ring_fifo`  what holds after any sequence of events.
-/

namespace Paravirt

def scancodeBufferSizeBits : Nat := 10
def scancodeBufferSize : Nat := 1 <<< scancodeBufferSizeBits
def scancodeBufferSizeMask : Nat := scancodeBufferSize - 1

/-- `SCANCODE_BUFFER_NEXTLOC` -/
def scancodeBufferNextloc (x : Nat) : Nat := (x + 1) % 2^32 &&& scancodeBufferSizeMask

theorem scancodeBufferNextloc_eq (x : Nat) : scancodeBufferNextloc x = (x + 1) % 1024 := by
  have e : scancodeBufferSizeMask = 2^10 - 1 := rfl
  unfold scancodeBufferNextloc
  rw [e, Nat.and_two_pow_sub_one_eq_mod]
  exact Nat.mod_mod_of_dvd (x + 1) (Nat.pow_dvd_pow 2 (by omega))

structure KeyRing where
  scancodeBuffer : Nat → Nat
  scancodeBufferBegin : Nat
  scancodeBufferEnd : Nat

/-- a `char` as it is stored in an `unsigned char` -/
def charCode (sc : Int) : Nat := (sc % 256).toNat

theorem charCode_lt (sc : Int) : charCode sc < 256 := by
  unfold charCode
  omega

/-- `SCANCODE_BUFFER_ISFULL` -/
def KeyRing.isFull (r : KeyRing) : Prop :=
  scancodeBufferNextloc r.scancodeBufferEnd = r.scancodeBufferBegin

instance (r : KeyRing) : Decidable r.isFull := inferInstanceAs (Decidable (_ = _))

def keybAddScancode (r : KeyRing) (sc : Int) : KeyRing :=
  if r.isFull then r
  else { r with
    scancodeBuffer := Function.update r.scancodeBuffer r.scancodeBufferEnd (charCode sc)
    scancodeBufferEnd := scancodeBufferNextloc r.scancodeBufferEnd }

/-- the program points of `keyb_remove_scancode`, between memory accesses -/
inductive RemovePc where
  /-- not in the function -/
  | idle
  /-- one operand of `SCANCODE_BUFFER_ISEMPTY` is read -/
  | cmpBegin (b : Nat)
  | cmpEnd (e : Nat)
  /-- the buffer was not empty -/
  | index
  | fetch (i : Nat)
  | next (sc : Nat)
  | store (sc b : Nat)
  /-- `begin` is written, and `sc` will be returned -/
  | done (sc : Nat)
  deriving DecidableEq, Repr

/-- `accepted` are the codes that `keyb_add_scancode` stored, `returned` those that
`keyb_remove_scancode` returned, and `taken` counts the writes to `begin` -/
structure RingState where
  ring : KeyRing
  pc : RemovePc
  accepted : List Nat
  returned : List Nat
  taken : Nat

inductive RingEvent where
  /-- the interrupt handler calls `keyb_add_scancode` -/
  | add (sc : Int)
  /-- the next memory access of `keyb_remove_scancode`; `endFirst` is which operand of the
  comparison is read first -/
  | access (endFirst : Bool)
  deriving DecidableEq, Repr

def RingState.add (s : RingState) (sc : Int) : RingState :=
  { s with
    ring := keybAddScancode s.ring sc
    accepted := if s.ring.isFull then s.accepted else s.accepted ++ [charCode sc] }

/-- the reader after one comparison, and what `keyb_remove_scancode` does next -/
def removeCmp (b e : Nat) : RemovePc := if b = e then .idle else .index

def RingState.access (s : RingState) (endFirst : Bool) : RingState :=
  match s.pc with
  | .idle =>
    if endFirst then { s with pc := .cmpEnd s.ring.scancodeBufferEnd }
    else { s with pc := .cmpBegin s.ring.scancodeBufferBegin }
  | .cmpBegin b => { s with pc := removeCmp b s.ring.scancodeBufferEnd }
  | .cmpEnd e => { s with pc := removeCmp s.ring.scancodeBufferBegin e }
  | .index => { s with pc := .fetch s.ring.scancodeBufferBegin }
  | .fetch i => { s with pc := .next (s.ring.scancodeBuffer i) }
  | .next sc => { s with pc := .store sc s.ring.scancodeBufferBegin }
  | .store sc b =>
    { s with
      ring := { s.ring with scancodeBufferBegin := scancodeBufferNextloc b }
      pc := .done sc
      taken := s.taken + 1 }
  | .done sc => { s with pc := .idle, returned := s.returned ++ [sc] }

def RingState.step (s : RingState) : RingEvent → RingState
  | .add sc => s.add sc
  | .access endFirst => s.access endFirst

def RingState.run (s : RingState) (evs : List RingEvent) : RingState := evs.foldl RingState.step s

/-- after boot; the buffer holds anything -/
def RingState.boot (buffer : Nat → Nat) : RingState :=
  ⟨⟨buffer, 0, 0⟩, .idle, [], [], 0⟩

/-! ## the invariant -/

/-- what the reader knows at each program point -/
def RemovePc.Knows (s : RingState) : RemovePc → Prop
  | .idle => s.returned.length = s.taken
  | .cmpBegin b => s.returned.length = s.taken ∧ b = s.taken % 1024
  | .cmpEnd e => s.returned.length = s.taken ∧
      ∃ n, s.taken ≤ n ∧ n ≤ s.accepted.length ∧ e = n % 1024
  | .index => s.returned.length = s.taken ∧ s.taken < s.accepted.length
  | .fetch i => s.returned.length = s.taken ∧ s.taken < s.accepted.length ∧ i = s.taken % 1024
  | .next sc => s.returned.length = s.taken ∧ s.accepted[s.taken]? = some sc
  | .store sc b => s.returned.length = s.taken ∧ s.accepted[s.taken]? = some sc ∧
      b = s.taken % 1024
  | .done sc => s.returned.length + 1 = s.taken ∧ s.accepted[s.returned.length]? = some sc

structure RingInv (s : RingState) : Prop where
  begin_eq : s.ring.scancodeBufferBegin = s.taken % 1024
  end_eq : s.ring.scancodeBufferEnd = s.accepted.length % 1024
  taken_le : s.taken ≤ s.accepted.length
  unread_le : s.accepted.length - s.taken ≤ 1023
  slot : ∀ n, s.taken ≤ n → ∀ c, s.accepted[n]? = some c → s.ring.scancodeBuffer (n % 1024) = c
  code : ∀ c ∈ s.accepted, c < 256
  returned : s.returned <+: s.accepted
  pc : s.pc.Knows s

namespace RingInv
variable {s : RingState}

theorem boot (buffer : Nat → Nat) : RingInv (.boot buffer) where
  begin_eq := rfl
  end_eq := rfl
  taken_le := Nat.le_refl 0
  unread_le := Nat.zero_le 1023
  slot _ _ _ h := nomatch h
  code _ h := nomatch h
  returned := List.prefix_rfl
  pc := rfl

/-- the buffer is full when all but one of its slots hold an unread code -/
theorem isFull_iff (h : RingInv s) : s.ring.isFull ↔ s.accepted.length - s.taken = 1023 := by
  have h1 := h.taken_le
  have h2 := h.unread_le
  unfold KeyRing.isFull
  rw [scancodeBufferNextloc_eq, h.begin_eq, h.end_eq]
  omega

/-- an accepted code changes nothing that the reader knows -/
theorem knows_append (h : RingInv s) (c : Nat) (r : KeyRing) :
    s.pc.Knows { s with ring := r, accepted := s.accepted ++ [c] } := by
  have hpc := h.pc
  have hget : ∀ (n x : Nat), s.accepted[n]? = some x → (s.accepted ++ [c])[n]? = some x := by
    intro n x hx
    rw [List.getElem?_append_left (List.getElem?_eq_some_iff.mp hx).1]
    exact hx
  have hlen : (s.accepted ++ [c]).length = s.accepted.length + 1 := List.length_append
  cases hp : s.pc with
  | idle | cmpBegin b =>
    rw [hp] at hpc
    exact hpc
  | cmpEnd e =>
    rw [hp] at hpc
    obtain ⟨h1, n, h2, h3, h4⟩ := hpc
    exact ⟨h1, n, h2, by show n ≤ (s.accepted ++ [c]).length; omega, h4⟩
  | index =>
    rw [hp] at hpc
    exact ⟨hpc.1, by show s.taken < (s.accepted ++ [c]).length; have := hpc.2; omega⟩
  | fetch i =>
    rw [hp] at hpc
    exact ⟨hpc.1, by show s.taken < (s.accepted ++ [c]).length; have := hpc.2.1; omega, hpc.2.2⟩
  | next sc =>
    rw [hp] at hpc
    exact ⟨hpc.1, hget _ _ hpc.2⟩
  | store sc b =>
    rw [hp] at hpc
    exact ⟨hpc.1, hget _ _ hpc.2.1, hpc.2.2⟩
  | done sc =>
    rw [hp] at hpc
    exact ⟨hpc.1, hget _ _ hpc.2⟩

theorem add (h : RingInv s) (sc : Int) : RingInv (s.add sc) := by
  unfold RingState.add keybAddScancode
  by_cases hf : s.ring.isFull
  · rw [if_pos hf, if_pos hf]
    exact h
  · have hlt : s.accepted.length - s.taken < 1023 :=
      Nat.lt_of_le_of_ne h.unread_le fun hc => hf (h.isFull_iff.mpr hc)
    have hle := h.taken_le
    have hlen : (s.accepted ++ [charCode sc]).length = s.accepted.length + 1 := List.length_append
    rw [if_neg hf, if_neg hf]
    refine ⟨h.begin_eq, ?_, ?_, ?_, ?_, ?_, ?_, h.knows_append _ _⟩
    · show scancodeBufferNextloc _ = _
      rw [scancodeBufferNextloc_eq, h.end_eq, hlen]
      omega
    · show s.taken ≤ (s.accepted ++ [charCode sc]).length
      omega
    · show (s.accepted ++ [charCode sc]).length - s.taken ≤ 1023
      omega
    · intro n hn c hc
      show Function.update _ _ _ _ = _
      rw [h.end_eq]
      rcases Nat.lt_or_ge n s.accepted.length with hlt' | hge
      · -- the slot that is written is none of the unread ones
        have hne : n % 1024 ≠ s.accepted.length % 1024 := by
          have : s.taken ≤ n := hn
          omega
        rw [Function.update_of_ne hne]
        rw [List.getElem?_append_left hlt'] at hc
        exact h.slot n hn c hc
      · have hlt' : n < (s.accepted ++ [charCode sc]).length :=
          (List.getElem?_eq_some_iff.mp hc).1
        obtain rfl : n = s.accepted.length := by omega
        rw [List.getElem?_concat_length] at hc
        rw [Function.update_self]
        exact Option.some.inj hc
    · intro c hc
      rcases List.mem_append.mp hc with hc | hc
      · exact h.code c hc
      · rw [List.mem_singleton.mp hc]
        exact charCode_lt sc
    · exact h.returned.trans (List.prefix_append _ _)

/-- a step that moves the program point only -/
theorem goto (h : RingInv s) {pc : RemovePc} (hp : pc.Knows s) : RingInv { s with pc := pc } :=
  ⟨h.begin_eq, h.end_eq, h.taken_le, h.unread_le, h.slot, h.code, h.returned, by
    cases pc <;> exact hp⟩

theorem access (h : RingInv s) (endFirst : Bool) : RingInv (s.access endFirst) := by
  have hpc := h.pc
  have hle := h.taken_le
  unfold RingState.access
  cases hp : s.pc with
  | idle =>
    rw [hp] at hpc
    dsimp only
    cases endFirst with
    | true => exact h.goto ⟨hpc, _, hle, Nat.le_refl _, h.end_eq⟩
    | false => exact h.goto ⟨hpc, h.begin_eq⟩
  | cmpBegin b =>
    rw [hp] at hpc
    obtain ⟨h1, h2⟩ := hpc
    show RingInv { s with pc := if b = s.ring.scancodeBufferEnd then .idle else .index }
    by_cases hc : b = s.ring.scancodeBufferEnd
    · rw [if_pos hc]
      exact h.goto h1
    · rw [if_neg hc]
      rw [h2, h.end_eq] at hc
      exact h.goto ⟨h1, by omega⟩
  | cmpEnd e =>
    rw [hp] at hpc
    obtain ⟨h1, n, h2, h3, h4⟩ := hpc
    show RingInv { s with pc := if s.ring.scancodeBufferBegin = e then .idle else .index }
    by_cases hc : s.ring.scancodeBufferBegin = e
    · rw [if_pos hc]
      exact h.goto h1
    · rw [if_neg hc]
      rw [h.begin_eq, h4] at hc
      -- an older `end` is no further than the newest one
      exact h.goto ⟨h1, by omega⟩
  | index =>
    rw [hp] at hpc
    exact h.goto ⟨hpc.1, hpc.2, h.begin_eq⟩
  | fetch i =>
    rw [hp] at hpc
    obtain ⟨h1, h2, rfl⟩ := hpc
    have hget := List.getElem?_eq_getElem h2
    refine h.goto ⟨h1, ?_⟩
    rw [h.slot s.taken (Nat.le_refl _) _ hget]
    exact hget
  | next sc =>
    rw [hp] at hpc
    exact h.goto ⟨hpc.1, hpc.2, h.begin_eq⟩
  | store sc b =>
    rw [hp] at hpc
    obtain ⟨h1, h2, rfl⟩ := hpc
    have hlt := (List.getElem?_eq_some_iff.mp h2).1
    have hun := h.unread_le
    refine ⟨?_, h.end_eq, hlt, ?_, fun n hn => h.slot n (Nat.le_of_succ_le hn), h.code, h.returned,
      ?_, ?_⟩
    · show scancodeBufferNextloc _ = (s.taken + 1) % 1024
      rw [scancodeBufferNextloc_eq]
      omega
    · show s.accepted.length - (s.taken + 1) ≤ 1023
      omega
    · show s.returned.length + 1 = s.taken + 1
      rw [h1]
    · show s.accepted[s.returned.length]? = some sc
      rw [h1]
      exact h2
  | done sc =>
    rw [hp] at hpc
    obtain ⟨h1, h2⟩ := hpc
    refine ⟨h.begin_eq, h.end_eq, hle, h.unread_le, h.slot, h.code, ?_, ?_⟩
    · show s.returned ++ [sc] <+: s.accepted
      obtain ⟨l, hl⟩ := h.returned
      rw [← hl, List.getElem?_append_right (Nat.le_refl _), Nat.sub_self] at h2
      cases l with
      | nil => exact nomatch h2
      | cons c l =>
        obtain rfl : c = sc := Option.some.inj h2
        exact ⟨l, by rw [List.append_assoc]; exact hl⟩
    · show (s.returned ++ [sc]).length = s.taken
      rw [List.length_append]
      exact h1

theorem run (h : RingInv s) (evs : List RingEvent) : RingInv (s.run evs) := by
  induction evs generalizing s with
  | nil => exact h
  | cons e evs ih =>
    cases e with
    | add sc => exact ih (h.add sc)
    | access b => exact ih (h.access b)

end RingInv

/-- **the key ring is a bounded FIFO**, whatever the interleaving: what was returned is a prefix of
what was accepted; a code is dropped only when 1023 accepted codes are unread; and an accepted code
stays in its slot until `begin` moves past it -/
theorem key_ring_fifo (buffer : Nat → Nat) (evs : List RingEvent) :
    let s := (RingState.boot buffer).run evs
    s.returned <+: s.accepted ∧ (∀ c ∈ s.returned, c < 256) ∧
      (∀ n c, s.taken ≤ n → s.accepted[n]? = some c → s.ring.scancodeBuffer (n % 1024) = c) ∧
      (s.returned.length ≤ s.taken ∧ s.taken ≤ s.returned.length + 1) ∧
      ∀ sc, (s.add sc).accepted = s.accepted ++ [charCode sc] ∨
        ((s.add sc).accepted = s.accepted ∧ s.accepted.length - s.taken = 1023) := by
  intro s
  have h : RingInv s := (RingInv.boot buffer).run evs
  refine ⟨h.returned, fun c hc => h.code c (h.returned.subset hc), fun n c hn hc => h.slot n hn c hc,
    ?_, fun sc => ?_⟩
  · have hpc := h.pc
    cases hp : s.pc <;> rw [hp] at hpc <;> simp only [RemovePc.Knows] at hpc <;> omega
  · unfold RingState.add
    dsimp only
    by_cases hf : s.ring.isFull
    · rw [if_pos hf]
      exact .inr ⟨rfl, h.isFull_iff.mp hf⟩
    · rw [if_neg hf]
      exact .inl rfl

end Paravirt

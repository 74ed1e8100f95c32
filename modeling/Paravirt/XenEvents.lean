import Paravirt.Zone
import Paravirt.Lib.Steps
import Mathlib.Logic.Function.Basic
import Mathlib.Data.List.Basic

/-!
# Event channels (kern/xen_events.c)

The hypervisor and the guest share, for each port, a pending and a mask bit, for each word of 32
ports a bit of the selector, and the flag that asks for an upcall.  Every access is a step; the
steps of the hypervisor, and of any number of guest contexts (an upcall may be taken inside a
handler that has enabled events again), interleave.

* `EvState.hypStep`     the delivery of an event, as the interface defines it;
* `EvState.guestStep`   `unmask_evtchn`, `do_hypervisor_callback` and `do_event`, access by access;
* `EvInv`               a pending port that is not masked is in somebody's hands;
* `evInv_run`           every step keeps it;
* `no_stranded_event`   when nobody is at work and no upcall is asked for, no such port is pending.
-/

namespace Paravirt

/-! ## the source -/

/-- `NR_EVS` -/
def nrEvs : Nat := 1024

/-- `__ffs` of a word, `none` for 0 -/
def firstBit (word : Nat → Bool) : Option Nat := (List.range 32).find? word

/-- the delivery of an event to a port -/
inductive HypPc where
  | idle
  /-- the pending bit was clear and is set; the mask bit is to be looked at -/
  | marked
  /-- not masked; the bit of the selector is to be set -/
  | select
  /-- that bit was clear; the upcall is to be asked for -/
  | notify
deriving DecidableEq

/-- where a guest context stands -/
inductive CtxPc where
  | idle
  /-- `unmask_evtchn`: the mask bit is cleared; the pending bit is to be tested -/
  | unmasked (port : Nat)
  /-- the bit of the selector is to be set -/
  | selecting (port : Nat)
  | raising
  /-- `do_hypervisor_callback`: the flag is to be cleared -/
  | entered
  /-- the selector is to be exchanged for 0 -/
  | taking
  /-- the outer loop, with the words left in `l1` -/
  | scan (l1 : Nat → Bool)
  /-- the inner loop over a word -/
  | word (l1 : Nat → Bool) (l1i : Nat)
  /-- one of the two words of `active_evtchns` is read; the other is to be read -/
  | half (maskRead : Bool) (l1 : Nat → Bool) (l1i : Nat) (bits : Nat → Bool)
  /-- `do_event`: the handler is to be called -/
  | handle (l1 : Nat → Bool) (l1i port : Nat)
  /-- the pending bit is to be cleared -/
  | clear (l1 : Nat → Bool) (l1i port : Nat)

structure EvState where
  pending : Nat → Bool
  mask : Nat → Bool
  /-- `evtchn_pending_sel` -/
  sel : Nat → Bool
  /-- `evtchn_upcall_pending` -/
  upcall : Bool
  hyp : Nat → HypPc
  ctx : Nat → CtxPc

namespace EvState

def setCtx (s : EvState) (k : Nat) (c : CtxPc) : EvState := { s with ctx := Function.update s.ctx k c }

def setHyp (s : EvState) (p : Nat) (c : HypPc) : EvState := { s with hyp := Function.update s.hyp p c }

/-- an event for a port: only a 0->1 transition of the pending bit is delivered -/
def raise (s : EvState) (p : Nat) : EvState :=
  if s.pending p then s
  else { s with pending := Function.update s.pending p true }.setHyp p .marked

/-- the next access of a delivery -/
def hypStep (s : EvState) (p : Nat) : EvState :=
  match s.hyp p with
  | .idle => s
  | .marked => s.setHyp p (if s.mask p then .idle else .select)
  | .select =>
    if s.sel (p / 32) then s.setHyp p .idle
    else { s with sel := Function.update s.sel (p / 32) true }.setHyp p .notify
  | .notify => { s with upcall := true }.setHyp p .idle

/-- one of the two words of `active_evtchns` -/
def activeHalf (s : EvState) (ofMask : Bool) (idx i : Nat) : Bool :=
  if ofMask then !s.mask (idx * 32 + i) else s.pending (idx * 32 + i)

/-- the next access of a guest context.  The order of the two reads of `active_evtchns` is up to
the compiler -/
def guestStep (maskFirst : Bool) (s : EvState) (k : Nat) : EvState :=
  match s.ctx k with
  | .idle => s
  | .unmasked p => s.setCtx k (if s.pending p then .selecting p else .idle)
  | .selecting p =>
    if s.sel (p / 32) then s.setCtx k .idle
    else { s with sel := Function.update s.sel (p / 32) true }.setCtx k .raising
  | .raising => { s with upcall := true }.setCtx k .idle
  | .entered => { s with upcall := false }.setCtx k .taking
  | .taking => { s with sel := fun _ => false }.setCtx k (.scan s.sel)
  | .scan l1 =>
    match firstBit l1 with
    | none => s.setCtx k .idle
    | some l1i => s.setCtx k (.word (Function.update l1 l1i false) l1i)
  | .word l1 l1i => s.setCtx k (.half maskFirst l1 l1i (s.activeHalf maskFirst l1i))
  | .half maskRead l1 l1i bits =>
    match firstBit (fun i => bits i && s.activeHalf (!maskRead) l1i i) with
    | none => s.setCtx k (.scan l1)
    | some l2i => s.setCtx k (.handle l1 l1i (l1i * 32 + l2i))
  | .handle l1 l1i p => s.setCtx k (.clear l1 l1i p)
  | .clear l1 l1i p =>
    { s with pending := Function.update s.pending p false }.setCtx k (.word l1 l1i)

end EvState

/-- what a guest context may begin -/
inductive EvCall where
  | mask (port : Nat)
  | unmask (port : Nat)
  | clear (port : Nat)
  | callback

/-- the first access of a call -/
def EvState.begin (s : EvState) (k : Nat) : EvCall → EvState
  | .mask p => { s with mask := Function.update s.mask p true }
  | .unmask p => { s with mask := Function.update s.mask p false }.setCtx k (.unmasked p)
  | .clear p => { s with pending := Function.update s.pending p false }
  | .callback => s.setCtx k .entered

inductive EvAct where
  | raise (p : Nat)
  | hyp (p : Nat)
  | begin (k : Nat) (call : EvCall)
  | guest (k : Nat)

/-- a port is one of the `NR_EVS`; the delivery to a port is one at a time -/
inductive EvStep : EvState → EvAct → EvState → Prop where
  | raise (s : EvState) (p : Nat) (hp : p < nrEvs) (hidle : s.hyp p = .idle) :
      EvStep s (.raise p) (s.raise p)
  | hyp (s : EvState) (p : Nat) : EvStep s (.hyp p) (s.hypStep p)
  | begin (s : EvState) (k : Nat) (call : EvCall) (hidle : s.ctx k = .idle) :
      EvStep s (.begin k call) (s.begin k call)
  | guest (s : EvState) (k : Nat) (maskFirst : Bool) :
      EvStep s (.guest k) (s.guestStep maskFirst k)

/-! ## the invariant -/

/-- the context is going to look at the port -/
def CtxPc.Covers (p : Nat) : CtxPc → Prop
  | .unmasked q => q = p
  | .selecting q => q = p
  | .scan l1 => l1 (p / 32) = true
  | .word l1 l1i => l1 (p / 32) = true ∨ l1i = p / 32
  | .half _ l1 l1i bits => l1 (p / 32) = true ∨ l1i = p / 32 ∧ bits (p % 32) = true
  | .handle l1 l1i _ => l1 (p / 32) = true ∨ l1i = p / 32
  | .clear l1 l1i _ => l1 (p / 32) = true ∨ l1i = p / 32
  | _ => False

/-- the context is going to ask for an upcall, or to take the selector -/
def CtxPc.Announces : CtxPc → Prop
  | .raising => True
  | .taking => True
  | _ => False

/-- the delivery is going to look at the mask, or to set the selector -/
def HypPc.Covers : HypPc → Prop
  | .marked => True
  | .select => True
  | _ => False

/-- the port is in somebody's hands -/
def EvState.Held (s : EvState) (p : Nat) : Prop :=
  s.sel (p / 32) = true ∨ (s.hyp p).Covers ∨ ∃ k, (s.ctx k).Covers p

/-- the selector will be looked at -/
def EvState.Announced (s : EvState) : Prop :=
  s.upcall = true ∨ (∃ p, s.hyp p = .notify) ∨ ∃ k, (s.ctx k).Announces

structure EvInv (s : EvState) : Prop where
  held : ∀ p < nrEvs, s.pending p = true → s.mask p = false → s.Held p
  announced : ∀ w, s.sel w = true → s.Announced

variable {s s' : EvState} {k p : Nat} {c : CtxPc}

theorem firstBit_some {word : Nat → Bool} {i : Nat} (h : firstBit word = some i) :
    i < 32 ∧ word i = true := by
  unfold firstBit at h
  exact ⟨List.mem_range.mp (List.mem_of_find?_eq_some h), List.find?_some h⟩

theorem firstBit_none {word : Nat → Bool} (h : firstBit word = none) {i : Nat} (hi : i < 32) :
    word i = false := by
  unfold firstBit at h
  have := List.find?_eq_none.mp h i (List.mem_range.mpr hi)
  simpa using this

/-- a context moves on; what it had in hand it keeps, or something else holds -/
theorem exists_update {P : CtxPc → Prop} {X : Prop} (ctx : Nat → CtxPc)
    (hX : P (ctx k) → P c ∨ X) (h : ∃ j, P (ctx j)) : (∃ j, P (Function.update ctx k c j)) ∨ X := by
  obtain ⟨j, hj⟩ := h
  by_cases hjk : j = k
  · rw [hjk] at hj
    rcases hX hj with h | h
    · left
      refine ⟨k, ?_⟩
      rw [Function.update_self]
      exact h
    · exact .inr h
  · left
    refine ⟨j, ?_⟩
    rw [Function.update_of_ne hjk]
    exact hj

namespace EvInv

/-- a context moves on without a store -/
theorem setCtx (h : EvInv s)
    (hcov : ∀ p < nrEvs, s.pending p = true → s.mask p = false → (s.ctx k).Covers p →
      c.Covers p ∨ s.sel (p / 32) = true)
    (hann : (s.ctx k).Announces → c.Announces ∨ s.upcall = true) : EvInv (s.setCtx k c) where
  held := by
    intro p hp hpend hmask
    rcases h.held p hp hpend hmask with h1 | h1 | h1
    · exact .inl h1
    · exact .inr (.inl h1)
    · rcases exists_update s.ctx (hcov p hp hpend hmask) h1 with h2 | h2
      · exact .inr (.inr h2)
      · exact .inl h2
  announced := by
    intro w hw
    rcases h.announced w hw with h1 | h1 | h1
    · exact .inl h1
    · exact .inr (.inl h1)
    · rcases exists_update s.ctx hann h1 with h2 | h2
      · exact .inr (.inr h2)
      · exact .inl h2

theorem setPending (h : EvInv s) (p : Nat) :
    EvInv { s with pending := Function.update s.pending p false } where
  held := by
    intro q hq hpend hmask
    by_cases hqp : q = p
    · rw [hqp] at hpend
      change Function.update s.pending p false p = true at hpend
      rw [Function.update_self] at hpend
      cases hpend
    · change Function.update s.pending p false q = true at hpend
      rw [Function.update_of_ne hqp] at hpend
      exact h.held q hq hpend hmask
  announced := h.announced

theorem setMask (h : EvInv s) (p : Nat) : EvInv { s with mask := Function.update s.mask p true } where
  held := by
    intro q hq hpend hmask
    change Function.update s.mask p true q = false at hmask
    by_cases hqp : q = p
    · rw [hqp, Function.update_self] at hmask
      cases hmask
    · rw [Function.update_of_ne hqp] at hmask
      exact h.held q hq hpend hmask
  announced := h.announced

theorem raise (h : EvInv s) (p : Nat) (hidle : s.hyp p = .idle) : EvInv (s.raise p) := by
  unfold EvState.raise
  split
  · exact h
  constructor
  · intro q hq hpend hmask
    by_cases hqp : q = p
    · right
      left
      show (Function.update s.hyp p .marked q).Covers
      rw [hqp, Function.update_self]
      trivial
    · change Function.update s.pending p true q = true at hpend
      rw [Function.update_of_ne hqp] at hpend
      rcases h.held q hq hpend hmask with h1 | h1 | h1
      · exact .inl h1
      · right
        left
        show (Function.update s.hyp p .marked q).Covers
        rw [Function.update_of_ne hqp]
        exact h1
      · exact .inr (.inr h1)
  · intro w hw
    rcases h.announced w hw with h1 | ⟨q, h1⟩ | h1
    · exact .inl h1
    · refine .inr (.inl ⟨q, ?_⟩)
      have hqp : q ≠ p := by
        intro heq
        rw [heq, hidle] at h1
        cases h1
      show Function.update s.hyp p .marked q = .notify
      rw [Function.update_of_ne hqp]
      exact h1
    · exact .inr (.inr h1)

/-- the delivery to `p` moves on -/
theorem setHyp (h : EvInv s) {c : HypPc}
    (hcov : p < nrEvs → s.pending p = true → s.mask p = false → (s.hyp p).Covers →
      c.Covers ∨ s.sel (p / 32) = true)
    (hann : s.hyp p = .notify → c = .notify ∨ s.upcall = true) : EvInv (s.setHyp p c) where
  held := by
    intro q hq hpend hmask
    rcases h.held q hq hpend hmask with h1 | h1 | h1
    · exact .inl h1
    · by_cases hqp : q = p
      · subst hqp
        rcases hcov hq hpend hmask h1 with h2 | h2
        · right
          left
          show (Function.update s.hyp q c q).Covers
          rw [Function.update_self]
          exact h2
        · exact .inl h2
      · right
        left
        show (Function.update s.hyp p c q).Covers
        rw [Function.update_of_ne hqp]
        exact h1
    · exact .inr (.inr h1)
  announced := by
    intro w hw
    rcases h.announced w hw with h1 | ⟨q, h1⟩ | h1
    · exact .inl h1
    · by_cases hqp : q = p
      · subst hqp
        rcases hann h1 with h2 | h2
        · refine .inr (.inl ⟨q, ?_⟩)
          show Function.update s.hyp q c q = .notify
          rw [Function.update_self]
          exact h2
        · exact .inl h2
      · refine .inr (.inl ⟨q, ?_⟩)
        show Function.update s.hyp p c q = .notify
        rw [Function.update_of_ne hqp]
        exact h1
    · exact .inr (.inr h1)

theorem setUpcall (h : EvInv s) : EvInv { s with upcall := true } where
  held := h.held
  announced := fun _ _ => .inl rfl

/-- a bit of the selector is set by somebody who will ask for the upcall; a port may leave the
hands of those who cover it if its word is the one -/
theorem setSel (h : EvInv s) (w : Nat) (hyp' : Nat → HypPc) (ctx' : Nat → CtxPc)
    (hh : ∀ q, (s.hyp q).Covers → (hyp' q).Covers ∨ q / 32 = w)
    (hc : ∀ q, (∃ k, (s.ctx k).Covers q) → (∃ k, (ctx' k).Covers q) ∨ q / 32 = w)
    (ha : (∃ p, hyp' p = .notify) ∨ ∃ k, (ctx' k).Announces) :
    EvInv { s with sel := Function.update s.sel w true, hyp := hyp', ctx := ctx' } where
  held := by
    intro p hp hpend hmask
    by_cases hw : p / 32 = w
    · left
      show Function.update s.sel w true (p / 32) = true
      rw [hw, Function.update_self]
    · rcases h.held p hp hpend hmask with h1 | h1 | h1
      · left
        show Function.update s.sel w true (p / 32) = true
        rw [Function.update_of_ne hw]
        exact h1
      · exact .inr (.inl ((hh p h1).resolve_right hw))
      · exact .inr (.inr ((hc p h1).resolve_right hw))
  announced := fun _ _ => .inr ha

theorem hypStep (h : EvInv s) (p : Nat) : EvInv (s.hypStep p) := by
  unfold EvState.hypStep
  split
  · exact h
  · rename_i hpc
    apply h.setHyp
    · intro _ _ hmask _
      rw [hmask]
      exact .inl trivial
    · intro hn
      rw [hpc] at hn
      cases hn
  · rename_i hpc
    split
    · rename_i hsel
      apply h.setHyp
      · intro _ _ _ _
        exact .inr hsel
      · intro hn
        rw [hpc] at hn
        cases hn
    · apply h.setSel (p / 32) (Function.update s.hyp p .notify) s.ctx
      · intro q hq
        by_cases hqp : q = p
        · right
          rw [hqp]
        · rw [Function.update_of_ne hqp]
          exact .inl hq
      · intro q hq
        exact .inl hq
      · exact .inl ⟨p, Function.update_self ..⟩
  · rename_i hpc
    apply h.setUpcall.setHyp
    · intro _ _ _ hcov
      change (s.hyp p).Covers at hcov
      rw [hpc] at hcov
      exact hcov.elim
    · exact fun _ => .inr rfl

theorem begin (h : EvInv s) (k : Nat) (call : EvCall) (hidle : s.ctx k = .idle) :
    EvInv (s.begin k call) := by
  cases call with
  | mask p => exact h.setMask p
  | clear p => exact h.setPending p
  | callback =>
    apply h.setCtx
    · intro p _ _ _ hcov
      rw [hidle] at hcov
      exact hcov.elim
    · intro hann
      rw [hidle] at hann
      exact hann.elim
  | unmask p =>
    constructor
    · intro q hq hpend hmask
      by_cases hqp : q = p
      · -- the context itself is going to look at the port
        refine .inr (.inr ⟨k, ?_⟩)
        show (Function.update s.ctx k (.unmasked p) k).Covers q
        rw [Function.update_self]
        exact hqp.symm
      · change Function.update s.mask p false q = false at hmask
        rw [Function.update_of_ne hqp] at hmask
        rcases h.held q hq hpend hmask with h1 | h1 | h1
        · exact .inl h1
        · exact .inr (.inl h1)
        · right
          right
          rcases @exists_update k (.unmasked p) (CtxPc.Covers q) False s.ctx (fun hcov => by
            rw [hidle] at hcov
            exact hcov.elim) h1 with h2 | h2
          · exact h2
          · exact h2.elim
    · intro w hw
      rcases h.announced w hw with h1 | h1 | h1
      · exact .inl h1
      · exact .inr (.inl h1)
      · right
        right
        rcases @exists_update k (.unmasked p) CtxPc.Announces False s.ctx (fun hann => by
          rw [hidle] at hann
          exact hann.elim) h1 with h2 | h2
        · exact h2
        · exact h2.elim

/-- the selector is exchanged: what it held, the context holds -/
theorem take (h : EvInv s) (hpc : s.ctx k = .taking) :
    EvInv ({ s with sel := fun _ => false }.setCtx k (.scan s.sel)) where
  held := by
    intro p hp hpend hmask
    rcases h.held p hp hpend hmask with h1 | h1 | h1
    · refine .inr (.inr ⟨k, ?_⟩)
      show (Function.update s.ctx k (.scan s.sel) k).Covers p
      rw [Function.update_self]
      exact h1
    · exact .inr (.inl h1)
    · right
      right
      rcases @exists_update k (.scan s.sel) (CtxPc.Covers p) False s.ctx (fun hcov => by
        rw [hpc] at hcov
        exact hcov.elim) h1 with h2 | h2
      · exact h2
      · exact h2.elim
  announced := fun _ hw => by cases hw

/-- the flag is cleared by a context that goes on to take the selector -/
theorem enter (h : EvInv s) (hpc : s.ctx k = .entered) :
    EvInv ({ s with upcall := false }.setCtx k .taking) where
  held := by
    intro p hp hpend hmask
    rcases h.held p hp hpend hmask with h1 | h1 | h1
    · exact .inl h1
    · exact .inr (.inl h1)
    · right
      right
      rcases @exists_update k .taking (CtxPc.Covers p) False s.ctx (fun hcov => by
        rw [hpc] at hcov
        exact hcov.elim) h1 with h2 | h2
      · exact h2
      · exact h2.elim
  announced := fun _ _ => by
    refine .inr (.inr ⟨k, ?_⟩)
    show (Function.update s.ctx k .taking k).Announces
    rw [Function.update_self]
    trivial

/-- a context that announces nothing moves on -/
theorem moveOn (h : EvInv s) {d : CtxPc} (hpc : s.ctx k = d) (hann : ¬ d.Announces)
    (hcov : ∀ p < nrEvs, s.pending p = true → s.mask p = false → d.Covers p →
      c.Covers p ∨ s.sel (p / 32) = true) : EvInv (s.setCtx k c) := by
  apply h.setCtx
  · rw [hpc]
    exact hcov
  · rw [hpc]
    intro h1
    exact absurd h1 hann

/-- `unmask_evtchn` tests the pending bit -/
theorem testPending (h : EvInv s) {q : Nat} (hpc : s.ctx k = .unmasked q) :
    EvInv (s.setCtx k (if s.pending q then .selecting q else .idle)) := by
  apply h.moveOn hpc id
  intro p _ hpend _ hcov
  change q = p at hcov
  rw [hcov, hpend]
  exact .inl rfl

/-- `unmask_evtchn` finds the bit of the selector set -/
theorem selected (h : EvInv s) {q : Nat} (hpc : s.ctx k = .selecting q)
    (hsel : s.sel (q / 32) = true) : EvInv (s.setCtx k .idle) := by
  apply h.moveOn hpc id
  intro p _ _ _ hcov
  change q = p at hcov
  rw [← hcov]
  exact .inr hsel

/-- `unmask_evtchn` sets it -/
theorem select (h : EvInv s) {q : Nat} (hpc : s.ctx k = .selecting q) :
    EvInv ({ s with sel := Function.update s.sel (q / 32) true }.setCtx k .raising) := by
  apply h.setSel (q / 32) s.hyp (Function.update s.ctx k .raising)
  · exact fun _ hq => .inl hq
  · intro p hp
    apply exists_update s.ctx _ hp
    intro hcov
    rw [hpc] at hcov
    change q = p at hcov
    rw [hcov]
    exact .inr rfl
  · refine .inr ⟨k, ?_⟩
    rw [Function.update_self]
    trivial

theorem ask (h : EvInv s) (hpc : s.ctx k = .raising) :
    EvInv ({ s with upcall := true }.setCtx k .idle) := by
  apply h.setUpcall.setCtx
  · intro p _ _ _ hcov
    change (s.ctx k).Covers p at hcov
    rw [hpc] at hcov
    exact hcov.elim
  · exact fun _ => .inr rfl

/-- no word is left -/
theorem scanned (h : EvInv s) {l1 : Nat → Bool} (hpc : s.ctx k = .scan l1)
    (hnone : firstBit l1 = none) : EvInv (s.setCtx k .idle) := by
  apply h.moveOn hpc id
  intro p hp _ _ hcov
  change l1 (p / 32) = true at hcov
  have hlt : p / 32 < 32 := by
    unfold nrEvs at hp
    omega
  rw [firstBit_none hnone hlt] at hcov
  cases hcov

/-- the outer loop takes a word -/
theorem nextWord (h : EvInv s) {l1 : Nat → Bool} {i : Nat} (hpc : s.ctx k = .scan l1) :
    EvInv (s.setCtx k (.word (Function.update l1 i false) i)) := by
  apply h.moveOn hpc id
  intro p _ _ _ hcov
  change l1 (p / 32) = true at hcov
  left
  by_cases hi : p / 32 = i
  · exact .inr hi.symm
  · left
    rw [Function.update_of_ne hi]
    exact hcov

/-- the bit of a port in one of the two words -/
theorem activeHalf_of (hpend : s.pending p = true) (hmask : s.mask p = false) (ofMask : Bool) :
    s.activeHalf ofMask (p / 32) (p % 32) = true := by
  have hport : p / 32 * 32 + p % 32 = p := by omega
  unfold EvState.activeHalf
  rw [hport, hpend, hmask]
  cases ofMask <;> rfl

/-- the first of the two words is read -/
theorem readHalf (h : EvInv s) {l1 : Nat → Bool} {i : Nat} (hpc : s.ctx k = .word l1 i)
    (m : Bool) : EvInv (s.setCtx k (.half m l1 i (s.activeHalf m i))) := by
  apply h.moveOn hpc id
  intro p _ hpend hmask hcov
  left
  rcases hcov with hcov | hcov
  · exact .inl hcov
  · refine .inr ⟨hcov, ?_⟩
    rw [hcov]
    exact activeHalf_of hpend hmask m

/-- the second is read, and no port of the word was active.  A port that is active now was so at
the first read too, or somebody else holds it -/
theorem wordDone (h : EvInv s) {l1 bits : Nat → Bool} {i : Nat} {m : Bool}
    (hpc : s.ctx k = .half m l1 i bits)
    (hnone : firstBit (fun j => bits j && s.activeHalf (!m) i j) = none) :
    EvInv (s.setCtx k (.scan l1)) := by
  apply h.moveOn hpc id
  intro p _ hpend hmask hcov
  left
  rcases hcov with hcov | ⟨hi, hbits⟩
  · exact hcov
  · have hact := firstBit_none hnone (Nat.mod_lt p (by omega : 0 < 32))
    rw [hbits, hi, activeHalf_of hpend hmask] at hact
    cases hact

theorem handle (h : EvInv s) {l1 bits : Nat → Bool} {i q : Nat} {m : Bool}
    (hpc : s.ctx k = .half m l1 i bits) : EvInv (s.setCtx k (.handle l1 i q)) := by
  apply h.moveOn hpc id
  intro p _ _ _ hcov
  exact .inl (hcov.imp_right And.left)

theorem handled (h : EvInv s) {l1 : Nat → Bool} {i q : Nat} (hpc : s.ctx k = .clear l1 i q) :
    EvInv ({ s with pending := Function.update s.pending q false }.setCtx k (.word l1 i)) := by
  apply (h.setPending q).moveOn (d := .clear l1 i q) hpc id
  intro p _ _ _ hcov
  exact .inl hcov

theorem guestStep (h : EvInv s) (maskFirst : Bool) (k : Nat) : EvInv (s.guestStep maskFirst k) := by
  unfold EvState.guestStep
  split
  · exact h
  · rename_i hpc
    exact h.testPending hpc
  · rename_i hpc
    split
    · rename_i hsel
      exact h.selected hpc hsel
    · exact h.select hpc
  · rename_i hpc
    exact h.ask hpc
  · rename_i hpc
    exact h.enter hpc
  · rename_i hpc
    exact h.take hpc
  · rename_i hpc
    split
    · rename_i hnone
      exact h.scanned hpc hnone
    · exact h.nextWord hpc
  · rename_i hpc
    exact h.readHalf hpc maskFirst
  · rename_i hpc
    split
    · rename_i hnone
      exact h.wordDone hpc hnone
    · exact h.handle hpc
  · rename_i hpc
    apply h.moveOn hpc id
    intro p _ _ _ hcov
    exact .inl hcov
  · rename_i hpc
    exact h.handled hpc

end EvInv

/-- every access of either side keeps the invariant -/
theorem evInv_step {act : EvAct} (h : EvInv s) (hs : EvStep s act s') : EvInv s' := by
  cases hs with
  | raise p hp hidle => exact h.raise p hidle
  | hyp p => exact h.hypStep p
  | begin k call hidle => exact h.begin k call hidle
  | guest k maskFirst => exact h.guestStep maskFirst k

/-- `xen_init_events` has masked all ports, and nobody is at work -/
structure EvBoot (s : EvState) : Prop where
  mask : ∀ p < nrEvs, s.mask p = true
  sel : ∀ w, s.sel w = true → s.upcall = true
  hyp : ∀ p, s.hyp p = .idle
  ctx : ∀ k, s.ctx k = .idle

theorem evInv_run {acts : List EvAct} (hboot : EvBoot s) (hrun : Steps EvStep s acts s') : EvInv s' := by
  refine hrun.invariant (fun _ _ _ h hs => evInv_step h hs) ⟨fun p hp _ hmask => ?_, fun w hw => ?_⟩
  · rw [hboot.mask p hp] at hmask
    cases hmask
  · exact .inl (hboot.sel w hw)

/-- In every state that any interleaving of deliveries, masking, unmasking, clearing and upcalls
reaches: where no delivery and no guest context is at work, an unmasked port that is pending has an
upcall asked for it. -/
theorem no_stranded_event {acts : List EvAct} (hboot : EvBoot s) (hrun : Steps EvStep s acts s')
    (hhyp : ∀ p, s'.hyp p = .idle) (hctx : ∀ k, s'.ctx k = .idle) (hp : p < nrEvs)
    (hpend : s'.pending p = true) (hmask : s'.mask p = false) :
    s'.sel (p / 32) = true ∧ s'.upcall = true := by
  have h := evInv_run hboot hrun
  have hsel : s'.sel (p / 32) = true := by
    rcases h.held p hp hpend hmask with h1 | h1 | ⟨k, h1⟩
    · exact h1
    · rw [hhyp p] at h1
      exact h1.elim
    · rw [hctx k] at h1
      exact h1.elim
  refine ⟨hsel, ?_⟩
  rcases h.announced _ hsel with h1 | ⟨q, h1⟩ | ⟨k, h1⟩
  · exact h1
  · rw [hhyp q] at h1
    cases h1
  · rw [hctx k] at h1
    exact h1.elim

/-- a domain that has just started -/
def evBoot : EvState where
  pending := fun _ => false
  mask := fun _ => true
  sel := fun _ => false
  upcall := false
  hyp := fun _ => .idle
  ctx := fun _ => .idle

/-- an event arrives while its port is being unmasked: both sides see it -/
def evRaceActs : List EvAct :=
  [.raise 3, .begin 0 (.unmask 3), .hyp 3, .guest 0, .hyp 3, .guest 0, .hyp 3]

def evRace : EvState :=
  (((((((evBoot.raise 3).begin 0 (.unmask 3)).hypStep 3).guestStep true 0).hypStep 3).guestStep
    true 0).hypStep 3)

theorem evRace_steps : Steps EvStep evBoot evRaceActs evRace := by
  have h1 := Steps.single (EvStep.raise evBoot 3 (by decide) rfl)
  have h2 := Steps.snoc h1 (.begin _ 0 (.unmask 3) rfl)
  exact .snoc (.snoc (.snoc (.snoc (.snoc h2 (.hyp _ 3)) (.guest _ 0 true)) (.hyp _ 3))
    (.guest _ 0 true)) (.hyp _ 3)

theorem evRace_idle : (∀ p, evRace.hyp p = .idle) ∧ ∀ k, evRace.ctx k = .idle := by
  constructor
  · intro p
    by_cases hp : p = 3
    · rw [hp]
      rfl
    · simp [evRace, evBoot, EvState.raise, EvState.begin, EvState.hypStep, EvState.guestStep,
        EvState.setCtx, EvState.setHyp]
  · intro k
    by_cases hk : k = 0
    · rw [hk]
      rfl
    · simp [evRace, evBoot, EvState.raise, EvState.begin, EvState.hypStep, EvState.guestStep,
        EvState.setCtx, EvState.setHyp]

theorem no_stranded_event_race : evRace.sel (3 / 32) = true ∧ evRace.upcall = true :=
  no_stranded_event
    ⟨fun _ _ => rfl, (fun _ hw => by cases hw), fun _ => rfl, fun _ => rfl⟩ evRace_steps
    evRace_idle.1 evRace_idle.2 (by decide) rfl rfl

/-! ## a callback that nothing interrupts -/

/-- the word of `active_evtchns`, where nothing comes between its two reads -/
def EvState.active (s : EvState) (idx : Nat) : Nat → Bool :=
  fun i => s.pending (idx * 32 + i) && !s.mask (idx * 32 + i)

/-- the port whose handler the next access calls -/
def EvState.called (s : EvState) (k : Nat) : List Nat :=
  match s.ctx k with
  | .handle _ _ p => [p]
  | _ => []

/-- `n` accesses of a context, with the ports whose handlers are called -/
def EvState.runCtx (maskFirst : Bool) (k : Nat) : Nat → EvState → EvState × List Nat
  | 0, s => (s, [])
  | n + 1, s =>
    ((runCtx maskFirst k n (s.guestStep maskFirst k)).1,
      s.called k ++ (runCtx maskFirst k n (s.guestStep maskFirst k)).2)

/-- the set bits of a word, lowest first -/
def setBits (word : Nat → Bool) : List Nat := (List.range 32).filter word

variable {maskFirst : Bool}

theorem runCtx_add (k : Nat) (m n : Nat) (s : EvState) :
    s.runCtx maskFirst k (m + n) =
      (((s.runCtx maskFirst k m).1.runCtx maskFirst k n).1,
        (s.runCtx maskFirst k m).2 ++ ((s.runCtx maskFirst k m).1.runCtx maskFirst k n).2) := by
  induction m generalizing s with
  | zero => simp [EvState.runCtx]
  | succ m ih =>
    rw [Nat.succ_add]
    simp only [EvState.runCtx, ih, List.append_assoc]

/-- one access more -/
theorem runCtx_step {t : EvState} {l : List Nat} (n : Nat) (hstep : s.guestStep maskFirst k = t)
    (hcall : s.called k = l) :
    s.runCtx maskFirst k (n + 1) =
      ((t.runCtx maskFirst k n).1, l ++ (t.runCtx maskFirst k n).2) := by
  rw [EvState.runCtx, hstep, hcall]

/-- one access more, that calls no handler -/
theorem runCtx_quiet {t : EvState} (n : Nat) (hstep : s.guestStep maskFirst k = t)
    (hcall : s.called k = []) : s.runCtx maskFirst k (n + 1) = t.runCtx maskFirst k n := by
  rw [runCtx_step n hstep hcall]
  rfl

theorem setCtx_setCtx (s : EvState) (k : Nat) (c d : CtxPc) :
    (s.setCtx k c).setCtx k d = s.setCtx k d := by
  unfold EvState.setCtx
  rw [Function.update_idem]

theorem setCtx_self (s : EvState) (k : Nat) (c : CtxPc) : (s.setCtx k c).ctx k = c :=
  Function.update_self ..

theorem firstBit_eq_head (word : Nat → Bool) : firstBit word = (setBits word).head? :=
  (List.head?_filter ..).symm

/-- the lowest bit is cleared -/
theorem setBits_update {word : Nat → Bool} {i : Nat} {rest : List Nat}
    (h : setBits word = i :: rest) : setBits (Function.update word i false) = rest := by
  have hnodup : (setBits word).Nodup := List.nodup_range.filter _
  rw [h] at hnodup
  have hi : i ∉ rest := (List.nodup_cons.mp hnodup).1
  have hsplit : setBits (Function.update word i false) =
      (setBits word).filter (fun j => decide (j ≠ i)) := by
    unfold setBits
    rw [List.filter_filter]
    apply List.filter_congr
    intro j _
    by_cases hj : j = i
    · simp [hj]
    · simp [hj]
  rw [hsplit, h, List.filter_cons]
  simp only [ne_eq, not_true_eq_false, decide_false, Bool.false_eq_true, if_false]
  apply List.filter_eq_self.mpr
  intro j hj
  simp only [decide_eq_true_eq]
  intro heq
  exact hi (heq ▸ hj)

/-- the flags of the callback stay as they are in its loops -/
def EvState.Flags (s t : EvState) : Prop := t.mask = s.mask ∧ t.sel = s.sel ∧ t.upcall = s.upcall

theorem EvState.Flags.trans {s t u : EvState} (h : s.Flags t) (h' : t.Flags u) : s.Flags u :=
  ⟨h'.1.trans h.1, h'.2.1.trans h.2.1, h'.2.2.trans h.2.2⟩

/-- the two reads of `active_evtchns` -/
theorem runCtx_active {l1 : Nat → Bool} {i : Nat} (n : Nat) (hpc : s.ctx k = .word l1 i) :
    s.runCtx maskFirst k (n + 2) =
      EvState.runCtx maskFirst k n (match firstBit (s.active i) with
        | none => s.setCtx k (.scan l1)
        | some j => s.setCtx k (.handle l1 i (i * 32 + j))) := by
  let s1 := s.setCtx k (.half maskFirst l1 i (s.activeHalf maskFirst i))
  have hpc1 : s1.ctx k = .half maskFirst l1 i (s.activeHalf maskFirst i) := setCtx_self ..
  have hstep : s.guestStep maskFirst k = s1 := by
    unfold EvState.guestStep
    rw [hpc]
  have hcall : s.called k = [] := by
    unfold EvState.called
    rw [hpc]
  have hcall1 : s1.called k = [] := by
    unfold EvState.called
    rw [hpc1]
  have hactive : (fun j => s.activeHalf maskFirst i j && s1.activeHalf (!maskFirst) i j) =
      s.active i := by
    funext j
    unfold EvState.active EvState.activeHalf
    cases maskFirst
    · rfl
    · exact Bool.and_comm _ _
  have hstep1 : s1.guestStep maskFirst k = (match firstBit (s.active i) with
      | none => s.setCtx k (.scan l1)
      | some j => s.setCtx k (.handle l1 i (i * 32 + j))) := by
    unfold EvState.guestStep
    rw [hpc1]
    dsimp only
    rw [hactive]
    cases firstBit (s.active i) <;> exact setCtx_setCtx ..
  rw [runCtx_quiet _ hstep hcall, runCtx_quiet _ hstep1 hcall1]

/-- `do_event` -/
theorem runCtx_event {l1 : Nat → Bool} {i q : Nat} (n : Nat) (hpc : s.ctx k = .handle l1 i q) :
    s.runCtx maskFirst k (n + 2) =
      let t := { s with pending := Function.update s.pending q false }.setCtx k (.word l1 i)
      ((t.runCtx maskFirst k n).1, q :: (t.runCtx maskFirst k n).2) := by
  let s1 := s.setCtx k (.clear l1 i q)
  have hpc1 : s1.ctx k = .clear l1 i q := setCtx_self ..
  have hstep : s.guestStep maskFirst k = s1 := by
    unfold EvState.guestStep
    rw [hpc]
  have hstep1 : s1.guestStep maskFirst k =
      { s with pending := Function.update s.pending q false }.setCtx k (.word l1 i) := by
    unfold EvState.guestStep
    rw [hpc1]
    simp [s1, EvState.setCtx]
  have hcall : s.called k = [q] := by
    unfold EvState.called
    rw [hpc]
  have hcall1 : s1.called k = [] := by
    unfold EvState.called
    rw [hpc1]
  rw [runCtx_step _ hstep hcall, runCtx_quiet _ hstep1 hcall1]
  rfl

/-- the handler of the lowest active port is called, and the port is active no more -/
theorem active_clear (i j : Nat) (c : CtxPc) :
    ({ s with pending := Function.update s.pending (i * 32 + j) false }.setCtx k c).active i =
      Function.update (s.active i) j false := by
  funext x
  unfold EvState.active EvState.setCtx
  by_cases hx : x = j
  · simp [hx]
  · have hne : i * 32 + x ≠ i * 32 + j := by omega
    simp [hx]

/-- a port of a word none of whose ports is active -/
theorem pending_of_none {i : Nat} (hnone : firstBit (s.active i) = none) (p : Nat) :
    s.pending p = (s.pending p && !(p / 32 == i && !s.mask p)) := by
  by_cases hp : p / 32 = i
  · have hact := firstBit_none hnone (Nat.mod_lt p (by omega : 0 < 32))
    have hport : i * 32 + p % 32 = p := by omega
    unfold EvState.active at hact
    rw [hport] at hact
    cases hpend : s.pending p
    · rfl
    · rw [hpend, Bool.true_and] at hact
      rw [hact]
      simp
  · have hp' : (p / 32 == i) = false := by simpa using hp
    simp [hp']

/-- the inner loop calls the handler of each active port of the word, lowest first -/
theorem runCtx_word {l1 : Nat → Bool} {i : Nat} (bits : List Nat) (hpc : s.ctx k = .word l1 i)
    (hbits : setBits (s.active i) = bits) :
    ∃ n, ((s.runCtx maskFirst k n).1.ctx k = .scan l1) ∧ s.Flags (s.runCtx maskFirst k n).1 ∧
      (s.runCtx maskFirst k n).2 = bits.map (i * 32 + ·) ∧
      ∀ p, (s.runCtx maskFirst k n).1.pending p =
        (s.pending p && !(p / 32 == i && !s.mask p)) := by
  induction bits generalizing s with
  | nil =>
    have hnone : firstBit (s.active i) = none := by rw [firstBit_eq_head, hbits]; rfl
    refine ⟨2, ?_⟩
    rw [runCtx_active 0 hpc, hnone]
    exact ⟨setCtx_self .., ⟨rfl, rfl, rfl⟩, rfl, pending_of_none hnone⟩
  | cons j rest ih =>
    have hsome : firstBit (s.active i) = some j := by rw [firstBit_eq_head, hbits]; rfl
    obtain ⟨hj, hactive⟩ := firstBit_some hsome
    let t := { s with pending := Function.update s.pending (i * 32 + j) false }.setCtx k (.word l1 i)
    have hturn (n : Nat) : s.runCtx maskFirst k (n + 2 + 2) =
        ((t.runCtx maskFirst k n).1, (i * 32 + j) :: (t.runCtx maskFirst k n).2) := by
      rw [runCtx_active _ hpc, hsome]
      dsimp only
      rw [runCtx_event n (setCtx_self ..)]
      simp only [t, EvState.setCtx, Function.update_idem]
    have hact : t.active i = Function.update (s.active i) j false := active_clear i j _
    obtain ⟨n, h1, h3, h2, h4⟩ := @ih t (setCtx_self ..) (by rw [hact]; exact setBits_update hbits)
    refine ⟨n + 2 + 2, ?_⟩
    rw [hturn]
    have hst : s.Flags t := ⟨rfl, rfl, rfl⟩
    refine ⟨h1, hst.trans h3, ?_, fun p => ?_⟩
    · dsimp only
      rw [h2]
      rfl
    · dsimp only
      rw [h4]
      show (Function.update s.pending (i * 32 + j) false p && !(p / 32 == i && !s.mask p)) = _
      by_cases hp : p = i * 32 + j
      · -- the port itself was active
        have hdiv : p / 32 = i := by omega
        unfold EvState.active at hactive
        rw [← hp] at hactive
        simp only [Bool.and_eq_true, Bool.not_eq_true'] at hactive
        rw [← hp]
        simp [hdiv, hactive.2]
      · rw [Function.update_of_ne hp]

/-- the outer loop takes the words lowest first -/
theorem runCtx_scan {l1 : Nat → Bool} (words : List Nat) (hpc : s.ctx k = .scan l1)
    (hwords : setBits l1 = words) :
    ∃ n, (s.runCtx maskFirst k n).1.ctx k = .idle ∧ s.Flags (s.runCtx maskFirst k n).1 ∧
      (s.runCtx maskFirst k n).2 = words.flatMap (fun i => (setBits (s.active i)).map (i * 32 + ·)) ∧
      ∀ p, (s.runCtx maskFirst k n).1.pending p =
        (s.pending p && !(decide (p / 32 ∈ words) && !s.mask p)) := by
  induction words generalizing s l1 with
  | nil =>
    have hnone : firstBit l1 = none := by rw [firstBit_eq_head, hwords]; rfl
    have hstep : s.guestStep maskFirst k = s.setCtx k .idle := by
      unfold EvState.guestStep
      rw [hpc]
      dsimp only
      rw [hnone]
    have hcall : s.called k = [] := by
      unfold EvState.called
      rw [hpc]
    refine ⟨1, ?_⟩
    rw [runCtx_step 0 hstep hcall]
    refine ⟨Function.update_self .., ⟨rfl, rfl, rfl⟩, rfl, fun p => ?_⟩
    show s.pending p = _
    simp
  | cons i rest ih =>
    have hsome : firstBit l1 = some i := by rw [firstBit_eq_head, hwords]; rfl
    let s1 := s.setCtx k (.word (Function.update l1 i false) i)
    have hpc1 : s1.ctx k = .word (Function.update l1 i false) i := Function.update_self ..
    have hstep : s.guestStep maskFirst k = s1 := by
      unfold EvState.guestStep
      rw [hpc]
      dsimp only
      rw [hsome]
    have hcall : s.called k = [] := by
      unfold EvState.called
      rw [hpc]
    obtain ⟨m, hw1, hwf, hw2, hw4⟩ := runCtx_word (setBits (s1.active i)) hpc1 rfl
    generalize ht : (s1.runCtx maskFirst k m).1 = t at hw1 hwf hw4
    obtain ⟨n, h1, h2, h3, h4⟩ := ih hw1 (setBits_update hwords)
    have hnodup : (i :: rest).Nodup := by
      rw [← hwords]
      exact List.nodup_range.filter _
    have hi : i ∉ rest := (List.nodup_cons.mp hnodup).1
    -- the ports of the other words are as they were
    have hother : ∀ j ∈ rest, setBits (t.active j) = setBits (s.active j) := by
      intro j hj
      have hji : j ≠ i := fun heq => hi (heq ▸ hj)
      apply List.filter_congr
      intro x hx
      have hx32 := List.mem_range.mp hx
      have hdiv : (j * 32 + x) / 32 = j := by omega
      unfold EvState.active
      rw [hw4, hdiv, hwf.1]
      have hne : (j == i) = false := by simpa using hji
      simp [hne, s1, EvState.setCtx]
    refine ⟨m + n + 1, ?_⟩
    rw [runCtx_step _ hstep hcall, runCtx_add, ht]
    refine ⟨h1, ?_, ?_, fun p => ?_⟩
    · have hs1 : s.Flags s1 := ⟨rfl, rfl, rfl⟩
      exact (hs1.trans hwf).trans h2
    · dsimp only
      rw [hw2, h3, List.flatMap_cons]
      have htail : rest.flatMap (fun j => (setBits (t.active j)).map (j * 32 + ·)) =
          rest.flatMap (fun j => (setBits (s.active j)).map (j * 32 + ·)) := by
        unfold List.flatMap
        congr 1
        apply List.map_congr_left
        intro j hj
        rw [hother j hj]
      rw [htail]
      rfl
    · dsimp only
      rw [h4, hw4, hwf.1]
      show (s.pending p && !(p / 32 == i && !s.mask p) && !(decide (p / 32 ∈ rest) && !s.mask p)) = _
      by_cases hp : p / 32 = i
      · simp [hp, hi]
      · have hp' : (p / 32 == i) = false := by simpa using hp
        simp [hp', hp]

theorem flatMap_filter_eq {α : Type} (q : Nat → Bool) (f : Nat → List α) (l : List Nat) :
    (l.filter q).flatMap f = l.flatMap fun i => if q i then f i else [] := by
  induction l with
  | nil => rfl
  | cons i l ih =>
    rw [List.filter_cons, List.flatMap_cons]
    split
    · rw [List.flatMap_cons, ih]
    · rw [List.nil_append, ih]

/-- the ports, word by word -/
theorem range_nrEvs : List.range nrEvs =
    (List.range 32).flatMap fun i => (List.range 32).map (i * 32 + ·) := by
  decide +kernel

/-- A callback that nothing interrupts calls the handler of each port that is selected, pending and
not masked, once and in the order of the ports, and leaves none of them pending. -/
theorem callback_dispatches (maskFirst : Bool) (hpc : s.ctx k = .entered) :
    ∃ n, (s.runCtx maskFirst k n).1.ctx k = .idle ∧ (s.runCtx maskFirst k n).1.upcall = false ∧
      (∀ w, (s.runCtx maskFirst k n).1.sel w = false) ∧
      (s.runCtx maskFirst k n).2 = (List.range nrEvs).filter
        (fun p => s.sel (p / 32) && (s.pending p && !s.mask p)) ∧
      ∀ p < nrEvs, (s.runCtx maskFirst k n).1.pending p =
        (s.pending p && !(s.sel (p / 32) && !s.mask p)) := by
  let s1 : EvState := { s with upcall := false, ctx := Function.update s.ctx k .taking }
  let s2 : EvState := { s with upcall := false, sel := fun _ => false,
                               ctx := Function.update s.ctx k (.scan s.sel) }
  have hpc1 : s1.ctx k = .taking := Function.update_self ..
  have hpc2 : s2.ctx k = .scan s.sel := Function.update_self ..
  have hstep : s.guestStep maskFirst k = s1 := by
    unfold EvState.guestStep
    rw [hpc]
    rfl
  have hstep1 : s1.guestStep maskFirst k = s2 := by
    unfold EvState.guestStep
    rw [hpc1]
    simp [s1, s2, EvState.setCtx]
  have hcall : s.called k = [] := by
    unfold EvState.called
    rw [hpc]
  have hcall1 : s1.called k = [] := by
    unfold EvState.called
    rw [hpc1]
  obtain ⟨n, h1, h2, h3, h4⟩ := runCtx_scan (setBits s.sel) hpc2 rfl
  refine ⟨n + 1 + 1, ?_⟩
  rw [runCtx_step _ hstep hcall, runCtx_step _ hstep1 hcall1]
  refine ⟨h1, h2.2.2, fun w => ?_, ?_, fun p hp => ?_⟩
  · dsimp only
    rw [h2.2.1]
  · dsimp only
    rw [h3, List.nil_append, List.nil_append, range_nrEvs, List.filter_flatMap]
    unfold setBits
    rw [flatMap_filter_eq]
    unfold List.flatMap
    congr 1
    apply List.map_congr_left
    intro i _
    rw [List.filter_map]
    have hport : ∀ x ∈ List.range 32, (i * 32 + x) / 32 = i := by
      intro x hx
      have := List.mem_range.mp hx
      omega
    split
    · rename_i hsel
      congr 1
      apply List.filter_congr
      intro x hx
      show s2.active i x = (s.sel ((i * 32 + x) / 32) && _)
      rw [hport x hx, hsel]
      rfl
    · rename_i hsel
      symm
      rw [List.map_eq_nil_iff, List.filter_eq_nil_iff]
      intro x hx
      show ¬ (s.sel ((i * 32 + x) / 32) && _) = true
      rw [hport x hx]
      simp [hsel]
  · dsimp only
    rw [h4]
    show (s.pending p && !(decide (p / 32 ∈ setBits s.sel) && !s.mask p)) = _
    have hlt : p / 32 < 32 := by
      unfold nrEvs at hp
      omega
    have hmem : decide (p / 32 ∈ setBits s.sel) = s.sel (p / 32) := by
      unfold setBits
      simp [hlt]
    rw [hmem]

/-- an upcall: of the ports 3, 5, 40 and 70 that are pending 5 is masked, and the word of 70 is not
selected -/
def evUpcall : EvState where
  pending := fun p => p = 3 ∨ p = 5 ∨ p = 40 ∨ p = 70
  mask := fun p => p = 5
  sel := fun w => w = 0 ∨ w = 1
  upcall := true
  hyp := fun _ => .idle
  ctx := fun k => if k = 0 then .entered else .idle

theorem callback_dispatches_upcall : ∃ n, (evUpcall.runCtx true 0 n).1.ctx 0 = .idle ∧
    (evUpcall.runCtx true 0 n).1.upcall = false ∧
    (∀ w, (evUpcall.runCtx true 0 n).1.sel w = false) ∧
    (evUpcall.runCtx true 0 n).2 = [3, 40] ∧
    ∀ p < nrEvs, (evUpcall.runCtx true 0 n).1.pending p = decide (p = 5 ∨ p = 70) := by
  obtain ⟨n, h1, h2, h3, h4, h5⟩ := callback_dispatches (s := evUpcall) (k := 0) true rfl
  refine ⟨n, h1, h2, h3, h4.trans (by decide +kernel), fun p hp => ?_⟩
  rw [h5 p hp, Bool.eq_iff_iff]
  simp only [evUpcall, Bool.and_eq_true, Bool.not_eq_true', Bool.and_eq_false_iff,
    decide_eq_true_eq, decide_eq_false_iff_not]
  simp only [Bool.not_eq_false', decide_eq_true_eq]
  omega

end Paravirt

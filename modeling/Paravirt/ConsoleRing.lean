import Paravirt.Console
import Paravirt.Keyring
import Paravirt.Lib.Spsc

/-!
# The rings of the console (kern/xencons_ring.c)

The guest and the console daemon share two rings.  `xencons_ring_send_no_notify` is the producer of
the output ring, `handle_input` the consumer of the input ring; the daemon is the other side of
each.  The accesses of the two sides interleave.

* `outRing_run`, `inRing_run`   the rings as instances of the general ring;
* `ringSend_run`          a send of the guest is a run of the producer, access by access;
* `InputState`            the input ring with the key ring, into which `xencons_rx` puts what comes;
* `console_rings_fifo`    the assertions of both functions hold, and no byte is lost or doubled;
* `console_input_path`    what a reader of the keyboard gets is what was typed, in order.
-/

namespace Paravirt

/-- `sizeof(intf->in)` -/
def sizeofIn : Nat := 1024

/-- the input ring, and the output ring -/
def inRing (s : Spsc.State Int) (acts : List (Spsc.Act Int)) : Spsc.State Int := s.run sizeofIn (2^32) acts

def outRing (s : Spsc.State Nat) (acts : List (Spsc.Act Nat)) : Spsc.State Nat :=
  s.run sizeofOut (2^32) acts

theorem sizeofIn_dvd : sizeofIn < 2^32 ∧ sizeofIn ∣ 2^32 := by decide

theorem sizeofOut_dvd : sizeofOut < 2^32 ∧ sizeofOut ∣ 2^32 := by decide

/-- Whatever the interleaving of the guest and the daemon: neither `BUG_ON` stops the guest, and what
either side has taken is what the other has put in, in order, without loss or repetition. -/
theorem console_rings_fifo (input : Nat → Int) (output : Nat → Nat) (acts : List (Spsc.Act Int))
    (acts' : List (Spsc.Act Nat)) :
    (u32sub (inRing (Spsc.empty input) acts).prod (inRing (Spsc.empty input) acts).cons ≤ sizeofIn ∧
      (inRing (Spsc.empty input) acts).taken <+: (inRing (Spsc.empty input) acts).sent) ∧
    u32sub (outRing (Spsc.empty output) acts').prod (outRing (Spsc.empty output) acts').cons ≤
        sizeofOut ∧
      (outRing (Spsc.empty output) acts').taken <+: (outRing (Spsc.empty output) acts').sent := by
  have hin := (Spsc.Inv.empty sizeofIn (2^32) input).run sizeofIn_dvd.1 sizeofIn_dvd.2 acts
  have hout := (Spsc.Inv.empty sizeofOut (2^32) output).run sizeofOut_dvd.1 sizeofOut_dvd.2 acts'
  exact ⟨⟨hin.sub_le sizeofIn_dvd.1, hin.fifo⟩, hout.sub_le sizeofOut_dvd.1, hout.fifo⟩

/-! ## a send of the guest -/

/-- the two models of the output ring agree -/
structure SameRing (ring : XenconsOut) (s : Spsc.State Nat) : Prop where
  out : ring.out = s.cells
  cons : ring.outCons = s.cons
  prod : ring.outProd = s.prod

theorem sendLoop_run {bytes rest : List Nat} {fuel sent : Nat} {ring ring' : XenconsOut}
    {s : Spsc.State Nat} (hrest : bytes.drop sent = rest) (hout : ring.out = s.cells)
    (hcons : ring.outCons = s.cons)
    (hp : s.producer = some ⟨ring.outCons, ring.outProd, rest⟩)
    (h : sendLoop (fun i => bytes[i]?) bytes.length fuel ring sent = some ring') :
    ∃ n, SameRing ring' (outRing s (List.replicate n .produce)) ∧
      (outRing s (List.replicate n .produce)).producer = none := by
  induction fuel generalizing ring s sent rest with
  | zero => exact absurd h.symm (Option.some_ne_none _)
  | succ fuel ih =>
    unfold sendLoop at h
    by_cases hc : sent < bytes.length ∧ ring.used < sizeofOut
    · -- a byte is put in the ring
      rw [if_pos hc, List.getElem?_eq_getElem hc.1, Option.bind_some] at h
      rw [List.drop_eq_getElem_cons hc.1] at hrest
      have hstep : s.produce sizeofOut (2^32) =
          { s with
            cells := Function.update s.cells (ring.outProd % sizeofOut) bytes[sent]
            producer := some ⟨ring.outCons, (ring.outProd + 1) % 2^32, bytes.drop (sent + 1)⟩
            sent := s.sent ++ [bytes[sent]] } := by
        unfold Spsc.State.produce
        rw [hp, ← hrest]
        dsimp only
        have hused : Spsc.sub (2^32) ring.outProd ring.outCons < sizeofOut := hc.2
        rw [if_pos hused]
      have hout' : (ring.put bytes[sent]).out =
          Function.update s.cells (ring.outProd % sizeofOut) bytes[sent] := by
        rw [← hout]
        rfl
      obtain ⟨n, hsame, hdone⟩ := @ih _ _ _ { s with
          cells := Function.update s.cells (ring.outProd % sizeofOut) bytes[sent]
          producer := some ⟨ring.outCons, (ring.outProd + 1) % 2^32, bytes.drop (sent + 1)⟩
          sent := s.sent ++ [bytes[sent]] } rfl hout' hcons rfl h
      refine ⟨n + 1, ?_⟩
      rw [List.replicate_succ]
      unfold outRing Spsc.State.run at hsame hdone ⊢
      rw [List.foldl_cons]
      show SameRing ring' (List.foldl _ (s.produce sizeofOut (2^32)) _) ∧
        (List.foldl _ (s.produce sizeofOut (2^32)) _).producer = none
      rw [hstep]
      exact ⟨hsame, hdone⟩
    · rw [if_neg hc] at h
      injection h with h
      subst h
      refine ⟨1, ?_⟩
      show SameRing ring (s.produce sizeofOut (2^32)) ∧ (s.produce sizeofOut (2^32)).producer = none
      have hstep : s.produce sizeofOut (2^32) =
          { s with producer := none, prod := ring.outProd, published := s.sent.length } := by
        unfold Spsc.State.produce
        rw [hp]
        cases rest with
        | nil => rfl
        | cons b rest =>
          have hlt : sent < bytes.length := by
            by_contra hge
            rw [List.drop_eq_nil_of_le (by omega)] at hrest
            cases hrest
          have hfull : ¬ Spsc.sub (2^32) ring.outProd ring.outCons < sizeofOut := by
            intro hused
            exact hc ⟨hlt, hused⟩
          dsimp only
          rw [if_neg hfull]
      rw [hstep]
      exact ⟨⟨hout, hcons, rfl⟩, rfl⟩

/-- a send that nothing interrupts is a run of the producer -/
theorem ringSend_run {bytes : List Nat} {ring ring' : XenconsOut} {s : Spsc.State Nat}
    (hs : SameRing ring s) (hidle : s.producer = none)
    (h : ringSend ring (fun i => bytes[i]?) bytes.length = some ring') :
    ∃ n, SameRing ring' (outRing s (.send bytes :: List.replicate n .produce)) ∧
      (outRing s (.send bytes :: List.replicate n .produce)).producer = none := by
  unfold ringSend at h
  split at h
  · cases h
  have hsend : s.send bytes = { s with producer := some ⟨s.cons, s.prod, bytes⟩ } := by
    unfold Spsc.State.send
    rw [hidle]
  obtain ⟨n, hrun⟩ := @sendLoop_run bytes bytes _ 0 ring ring' (s.send bytes) rfl
    (by rw [hsend]; exact hs.out) (by rw [hsend]; exact hs.cons)
    (by rw [hsend, hs.cons, hs.prod]) h
  exact ⟨n, hrun⟩

/-! ## the input path -/

/-- `xencons_rx` -/
def xenconsRx (c : Int) : Int := if c = 13 then 10 else c

/-- the code that is stored for a character that comes in -/
def typedCode (c : Int) : Nat := charCode (xenconsRx c)

/-- the input ring, and the key ring with its reader -/
structure InputState where
  ring : Spsc.State Int
  key : RingState

inductive InputAct where
  /-- the daemon -/
  | type (chars : List Int)
  | daemon
  /-- `handle_input` -/
  | interrupt
  | handler
  /-- `keyb_remove_scancode` -/
  | reader (endFirst : Bool)

def InputState.step (s : InputState) : InputAct → InputState
  | .type chars => { s with ring := s.ring.act sizeofIn (2^32) (.send chars) }
  | .daemon => { s with ring := s.ring.act sizeofIn (2^32) .produce }
  | .interrupt => { s with ring := s.ring.act sizeofIn (2^32) .receive }
  | .handler =>
    { s with
      ring := s.ring.act sizeofIn (2^32) .consume
      key := (s.ring.fetched sizeofIn).elim s.key fun c => s.key.add (xenconsRx c) }
  | .reader endFirst => { s with key := s.key.access endFirst }

def InputState.run (s : InputState) (acts : List InputAct) : InputState := acts.foldl InputState.step s

def InputState.boot (input : Nat → Int) (buffer : Nat → Nat) : InputState :=
  ⟨Spsc.empty input, RingState.boot buffer⟩

structure InputInv (s : InputState) : Prop where
  ring : Spsc.Inv sizeofIn (2^32) s.ring
  key : RingInv s.key
  /-- the key ring drops, and does nothing else -/
  sublist : s.key.accepted.Sublist (s.ring.taken.map typedCode)
  /-- it drops nothing before it was full once -/
  exact : s.ring.taken.length ≤ 1023 → s.key.accepted = s.ring.taken.map typedCode

variable {s : InputState}

theorem accepted_access (k : RingState) (b : Bool) : (k.access b).accepted = k.accepted := by
  unfold RingState.access
  split <;> (try split) <;> rfl

/-- what the consumer has taken after its next access -/
theorem consume_taken (r : Spsc.State Int) :
    (r.act sizeofIn (2^32) .consume).taken =
      r.taken ++ (r.fetched sizeofIn).elim [] fun c => [c] := by
  show (r.consume sizeofIn (2^32)).taken = _
  unfold Spsc.State.consume Spsc.State.fetched
  cases hc : r.consumer with
  | none => exact (List.append_nil _).symm
  | some c =>
    dsimp only
    split
    · exact (List.append_nil _).symm
    · rfl

/-- one character goes from the input ring to the key ring -/
theorem InputInv.add (hkey : RingInv s.key) {taken : List Int}
    (hsub : s.key.accepted.Sublist (taken.map typedCode))
    (hex : taken.length ≤ 1023 → s.key.accepted = taken.map typedCode) (c : Int) :
    (s.key.add (xenconsRx c)).accepted.Sublist ((taken ++ [c]).map typedCode) ∧
      ((taken ++ [c]).length ≤ 1023 →
        (s.key.add (xenconsRx c)).accepted = (taken ++ [c]).map typedCode) := by
  have hlen : (taken ++ [c]).length = taken.length + 1 := List.length_append
  rw [List.map_append]
  unfold RingState.add
  dsimp only
  by_cases hf : s.key.ring.isFull
  · rw [if_pos hf]
    refine ⟨hsub.trans (List.sublist_append_left _ _), fun hle => ?_⟩
    -- a full ring holds 1023 codes
    have hfull := hkey.isFull_iff.mp hf
    have hacc := hsub.length_le
    rw [List.length_map] at hacc
    omega
  · rw [if_neg hf]
    refine ⟨hsub.append (List.Sublist.refl _), fun hle => ?_⟩
    rw [hex (by omega)]
    rfl

theorem inputInv_step (h : InputInv s) (act : InputAct) : InputInv (s.step act) := by
  have hring (a : Spsc.Act Int) := h.ring.act sizeofIn_dvd.1 sizeofIn_dvd.2 a
  cases act with
  | type chars =>
    refine ⟨hring (.send chars), h.key, ?_, ?_⟩
    · show s.key.accepted.Sublist ((s.ring.send chars).taken.map typedCode)
      unfold Spsc.State.send
      split <;> exact h.sublist
    · show (s.ring.send chars).taken.length ≤ 1023 → _ = (s.ring.send chars).taken.map typedCode
      unfold Spsc.State.send
      split <;> exact h.exact
  | daemon =>
    have htaken : (s.ring.produce sizeofIn (2^32)).taken = s.ring.taken := by
      unfold Spsc.State.produce
      split <;> (try split) <;> rfl
    refine ⟨hring .produce, h.key, ?_, ?_⟩
    · show s.key.accepted.Sublist ((s.ring.produce sizeofIn (2^32)).taken.map typedCode)
      rw [htaken]
      exact h.sublist
    · show (s.ring.produce sizeofIn (2^32)).taken.length ≤ 1023 →
        _ = (s.ring.produce sizeofIn (2^32)).taken.map typedCode
      rw [htaken]
      exact h.exact
  | interrupt =>
    refine ⟨hring .receive, h.key, ?_, ?_⟩
    · show s.key.accepted.Sublist (s.ring.receive.taken.map typedCode)
      unfold Spsc.State.receive
      split <;> exact h.sublist
    · show s.ring.receive.taken.length ≤ 1023 → _ = s.ring.receive.taken.map typedCode
      unfold Spsc.State.receive
      split <;> exact h.exact
  | handler =>
    have htaken := consume_taken s.ring
    refine ⟨hring .consume, ?_, ?_, ?_⟩
    · show RingInv ((s.ring.fetched sizeofIn).elim s.key fun c => s.key.add (xenconsRx c))
      cases s.ring.fetched sizeofIn with
      | none => exact h.key
      | some c => exact h.key.add _
    · show ((s.ring.fetched sizeofIn).elim s.key fun c => s.key.add (xenconsRx c)).accepted.Sublist
        ((s.ring.act sizeofIn (2^32) .consume).taken.map typedCode)
      rw [htaken]
      cases s.ring.fetched sizeofIn with
      | none =>
        simp only [Option.elim_none, List.append_nil]
        exact h.sublist
      | some c => exact (InputInv.add h.key h.sublist h.exact c).1
    · show (s.ring.act sizeofIn (2^32) .consume).taken.length ≤ 1023 →
        ((s.ring.fetched sizeofIn).elim s.key fun c => s.key.add (xenconsRx c)).accepted =
          (s.ring.act sizeofIn (2^32) .consume).taken.map typedCode
      rw [htaken]
      cases s.ring.fetched sizeofIn with
      | none =>
        simp only [Option.elim_none, List.append_nil]
        exact h.exact
      | some c => exact (InputInv.add h.key h.sublist h.exact c).2
  | reader b =>
    have hacc := accepted_access s.key b
    refine ⟨h.ring, h.key.access b, ?_, ?_⟩
    · show (s.key.access b).accepted.Sublist _
      rw [hacc]
      exact h.sublist
    · show _ → (s.key.access b).accepted = _
      rw [hacc]
      exact h.exact

theorem inputInv_run (h : InputInv s) (acts : List InputAct) : InputInv (s.run acts) := by
  induction acts generalizing s with
  | nil => exact h
  | cons a acts ih => exact ih (inputInv_step h a)

/-- However the daemon, the interrupt handler and the reader of the keyboard interleave: the codes
that the reader has got are a prefix of those in the key ring, these a part, in order, of what came
out of the input ring, with newlines for carriage returns, and that a prefix of what was typed.
Until 1023 characters have come out none is dropped. -/
theorem console_input_path (input : Nat → Int) (buffer : Nat → Nat) (acts : List InputAct) :
    let s := (InputState.boot input buffer).run acts
    s.key.returned <+: s.key.accepted ∧ s.key.accepted.Sublist (s.ring.taken.map typedCode) ∧
      s.ring.taken <+: s.ring.sent ∧
      (s.ring.taken.length ≤ 1023 → s.key.accepted = s.ring.taken.map typedCode) := by
  intro s
  have h : InputInv s := inputInv_run
    ⟨Spsc.Inv.empty sizeofIn (2^32) input, RingInv.boot buffer, List.Sublist.refl _, fun _ => rfl⟩ acts
  exact ⟨h.key.returned, h.sublist, h.ring.fifo, h.exact⟩

end Paravirt

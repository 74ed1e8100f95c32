import Paravirt.Usercopy

/-!
# print (kern/consoleio.c: `sys_print`, kern/xen_console.c, kern/xencons_ring.c)

The kernel reads the caller's buffer, and stores into it, by address; a page fault of the kernel is
`none`.  The ring of the console is memory of its own, and nothing is taken out of it during a call.

* `ringSend`            `xencons_ring_send`, with or without its notification;
* `printLoop`           the loop of `xen_console_print`, which ends a line by writing `'\r'` over
                        the first character of the next one;
* `sysPrint`            the system call;
* `RingAdds`            what a `ringSend` does to the ring;
* `printLoop_plain`, `printLoop_stores`   the loop without a newline and with one;
* `print_exact_iff`     when a `print` emits the bytes of the buffer, and does nothing else.
-/

namespace Paravirt

/-! ## the ring -/

/-- the output half of `struct xencons_interface` -/
structure XenconsOut where
  out : Nat → Nat
  outCons : Nat
  outProd : Nat

/-- `sizeof(intf->out)` -/
def sizeofOut : Nat := 2048

def XenconsOut.used (ring : XenconsOut) : Nat := u32sub ring.outProd ring.outCons

def XenconsOut.put (ring : XenconsOut) (byte : Nat) : XenconsOut :=
  { ring with
    out := Function.update ring.out (ring.outProd % sizeofOut) byte
    outProd := u32 (ring.outProd + 1) }

/-- the loop of `xencons_ring_send_no_notify`; `data i` is the read of `data[i]` -/
def sendLoop (data : Nat → Option Nat) (len : Nat) : Nat → XenconsOut → Nat → Option XenconsOut
  | 0, _, _ => none
  | fuel + 1, ring, sent =>
    if sent < len ∧ ring.used < sizeofOut then
      (data sent).bind fun byte => sendLoop data len fuel (ring.put byte) (sent + 1)
    else some ring

/-- `xencons_ring_send`; the `BUG_ON` spins for ever.  There is room for at most
`sizeofOut` bytes -/
def ringSend (ring : XenconsOut) (data : Nat → Option Nat) (len : Nat) : Option XenconsOut :=
  if ring.used > sizeofOut then none else sendLoop data len (sizeofOut + 1) ring 0

/-! ## the console -/

/-- the loop of `xen_console_print`; `data` and `length` are what is left to send.  Pointers are
compared unsigned -/
def printLoop : Nat → ProtMem → XenconsOut → Nat → Nat → Nat →
    Option (ProtMem × XenconsOut × Nat × Nat)
  | 0, _, _, _, _, _ => none
  | fuel + 1, m, ring, curr, data, length =>
    if curr < u32sub (data + length) 1 then
      (m.get curr).bind fun c =>
        if c = 10 then
          (m.get (curr + 1)).bind fun saved => (m.set (curr + 1) 13).bind fun m =>
            let partLen := u32 (u32sub curr data + 2)
            (ringSend ring (fun i => m.get (data + i)) partLen).bind fun ring =>
              (m.set (curr + 1) saved).bind fun m =>
                printLoop fuel m ring (u32 (curr + 1)) (u32 (curr + 1))
                  (u32sub length (u32sub partLen 1))
        else printLoop fuel m ring (u32 (curr + 1)) data length
    else some (m, ring, data, length)

/-- `xen_console_print`.  The loop makes less than `2^32` turns -/
def xenConsolePrint (m : ProtMem) (ring : XenconsOut) (rodata length : Nat) :
    Option (ProtMem × XenconsOut) :=
  (printLoop (2^32) m ring rodata rodata length).bind fun r =>
    let (m, ring, data, length) := r
    (ringSend ring (fun i => m.get (data + i)) length).bind fun ring =>
      (m.get (u32sub (data + length) 1)).bind fun c =>
        if c = 10 then (ringSend ring (fun _ => some 13) 1).map fun ring => (m, ring)
        else some (m, ring)

/-- `sys_print`, with `putbytes` -/
def sysPrint (m : ProtMem) (ring : XenconsOut) (sysarg : Nat) :
    Option (ProtMem × XenconsOut × Int) :=
  (m.getWord sysarg).bind fun size =>
    if toInt size ≥ pageSize then some (m, ring, -1)
    else (m.getWord (sysarg + 4)).bind fun buf =>
      (xenConsolePrint m ring buf size).map fun r => (r.1, r.2, 0)

/-! ## what is appended -/

/-- the bytes put in the ring between two states of it -/
def XenconsOut.appended (ring ring' : XenconsOut) : List Nat :=
  (List.range (u32sub ring'.outProd ring.outProd)).map fun i =>
    ring'.out ((ring.outProd + i) % sizeofOut)

def XenconsOut.free (ring : XenconsOut) : Nat := sizeofOut - ring.used

/-- a carriage return after each newline -/
def addCr (bytes : List Nat) : List Nat := bytes.flatMap fun c => if c = 10 then [10, 13] else [c]

/-- the bytes of a buffer -/
def ProtMem.bytes (m : ProtMem) (buf n : Nat) : List Nat :=
  (List.range n).map fun i => m.val (u32 (buf + i))

/-- what a `print` of `size` bytes is to emit -/
def printed (m : ProtMem) (buf size : Nat) : List Nat :=
  if 0 < toInt size then addCr (m.bytes buf size) else []

/-- these bytes, and no store to memory -/
structure PrintExact (m m' : ProtMem) (ring ring' : XenconsOut) (buf size : Nat) : Prop where
  appended : ring.appended ring' = printed m buf size
  stores : m'.stores = m.stores

section
variable {ring ring' ring'' : XenconsOut} {bytes bytes' : List Nat} {data : Nat → Option Nat}
  {len sent fuel : Nat}

/-- the ring after some bytes more -/
structure RingAdds (ring ring' : XenconsOut) (bytes : List Nat) : Prop where
  cons : ring'.outCons = ring.outCons
  prod : u32 ring'.outProd = u32 (ring.outProd + bytes.length)
  room : ring'.used = ring.used + bytes.length ∧ ring'.used ≤ sizeofOut
  cells : ∀ i c, bytes[i]? = some c → ring'.out ((ring.outProd + i) % sizeofOut) = c
  frame : ∀ j, (∀ i, i < bytes.length → (ring.outProd + i) % sizeofOut ≠ j) →
    ring'.out j = ring.out j

theorem RingAdds.refl (h : ring.used ≤ sizeofOut) : RingAdds ring ring [] where
  cons := rfl
  prod := rfl
  room := ⟨rfl, h⟩
  cells _ c hc := absurd hc.symm (Option.some_ne_none c)
  frame _ _ := rfl

theorem used_put (byte : Nat) (h : ring.used < sizeofOut) :
    (ring.put byte).used = ring.used + 1 := by
  unfold XenconsOut.used XenconsOut.put u32sub u32 sizeofOut at *
  dsimp only at *
  omega

theorem RingAdds.put (h : RingAdds ring ring' bytes) (byte : Nat) (hroom : ring'.used < sizeofOut) :
    RingAdds ring (ring'.put byte) (bytes ++ [byte]) := by
  have hused := used_put byte hroom
  have hlen : (bytes ++ [byte]).length = bytes.length + 1 := List.length_append
  have hr := h.room
  -- the cell that is written
  have hcell : ring'.outProd % sizeofOut = (ring.outProd + bytes.length) % sizeofOut := by
    have hp := h.prod
    unfold u32 at hp
    unfold sizeofOut
    omega
  refine ⟨h.cons, ?_, ⟨?_, by omega⟩, fun i c hi => ?_, fun j hj => ?_⟩
  · rw [hlen]
    show u32 (u32 (ring'.outProd + 1)) = _
    have hp := h.prod
    unfold u32 at hp ⊢
    omega
  · rw [hused, hr.1, hlen, Nat.add_assoc]
  · show Function.update ring'.out (ring'.outProd % sizeofOut) byte _ = c
    rw [hcell]
    rcases Nat.lt_or_ge i bytes.length with hlt | hge
    · rw [List.getElem?_append_left hlt] at hi
      rw [Function.update_of_ne, h.cells i c hi]
      unfold sizeofOut at *
      omega
    · have hlt := (List.getElem?_eq_some_iff.mp hi).1
      obtain rfl : i = bytes.length := by omega
      rw [List.getElem?_concat_length] at hi
      rw [Function.update_self]
      exact Option.some.inj hi
  · show Function.update ring'.out (ring'.outProd % sizeofOut) byte j = ring.out j
    rw [hcell, Function.update_of_ne fun hc => hj bytes.length (by omega) hc.symm]
    exact h.frame j fun i hi => hj i (by omega)

/-- **what is appended** are these bytes -/
theorem RingAdds.appended (h : RingAdds ring ring' bytes) : ring.appended ring' = bytes := by
  have hlen : u32sub ring'.outProd ring.outProd = bytes.length := by
    have hp := h.prod
    have hr := h.room
    unfold sizeofOut at hr
    unfold u32sub u32 at *
    omega
  unfold XenconsOut.appended
  rw [hlen]
  refine List.ext_getElem? fun i => ?_
  rw [List.getElem?_map]
  by_cases hi : i < bytes.length
  · rw [List.getElem?_range hi, Option.map_some, h.cells i bytes[i] (List.getElem?_eq_getElem hi),
      List.getElem?_eq_getElem hi]
  · rw [List.getElem?_eq_none (by rw [List.length_range]; omega), List.getElem?_eq_none (by omega)]
    rfl

/-- the loop sends what there is room for -/
theorem sendLoop_adds (h : RingAdds ring ring' bytes)
    (hs : sendLoop data len fuel ring' sent = some ring'') :
    ∃ new, RingAdds ring ring'' (bytes ++ new) ∧
      new.length = min (len - sent) (sizeofOut - ring'.used) ∧
      ∀ i, i < new.length → data (sent + i) = new[i]? := by
  induction fuel generalizing ring' bytes sent with
  | zero => exact absurd hs.symm (Option.some_ne_none _)
  | succ fuel ih =>
    unfold sendLoop at hs
    by_cases hc : sent < len ∧ ring'.used < sizeofOut
    · rw [if_pos hc] at hs
      obtain ⟨byte, hbyte, hs⟩ := Option.bind_eq_some_iff.mp hs
      obtain ⟨new, h1, h2, h3⟩ := ih (h.put byte hc.2) hs
      rw [used_put byte hc.2] at h2
      refine ⟨byte :: new, ?_, ?_, fun i hi => ?_⟩
      · rw [List.append_assoc] at h1
        exact h1
      · rw [List.length_cons]
        omega
      · cases i with
        | zero => exact hbyte
        | succ i =>
          rw [List.getElem?_cons_succ, ← h3 i (Nat.lt_of_succ_lt_succ hi)]
          congr 1
          omega
    · rw [if_neg hc] at hs
      cases hs
      refine ⟨[], ?_, ?_, fun i hi => absurd hi (Nat.not_lt_zero i)⟩
      · rw [List.append_nil]
        exact h
      · rw [List.length_nil]
        omega

theorem ringSend_room (h : ringSend ring data len = some ring') :
    ring.used ≤ sizeofOut := by
  unfold ringSend at h
  split at h
  · exact absurd h.symm (Option.some_ne_none _)
  · exact Nat.le_of_not_lt ‹_›

theorem ringSend_adds (h : RingAdds ring ring' bytes) (hs : ringSend ring' data len = some ring'') :
    ∃ new, RingAdds ring ring'' (bytes ++ new) ∧ new.length = min len (sizeofOut - ring'.used) ∧
      ∀ i, i < new.length → data i = new[i]? := by
  unfold ringSend at hs
  split at hs
  · exact absurd hs.symm (Option.some_ne_none _)
  obtain ⟨new, h1, h2, h3⟩ := sendLoop_adds h hs
  refine ⟨new, h1, h2, fun i hi => ?_⟩
  rw [← h3 i hi, Nat.zero_add]

end

/-! ## the loop -/

section
variable {m m' : ProtMem} {ring ring' : XenconsOut} {a c byte curr data length fuel : Nat}
  {bytes : List Nat} {r : ProtMem × XenconsOut × Nat × Nat}

/-- a character that is no newline is passed over -/
theorem printLoop_next {s : ProtMem × XenconsOut × Nat × Nat} (hcurr : curr < 2^32)
    (hlt : curr < u32sub (data + length) 1) (hc : m.val curr ≠ 10)
    (h : printLoop (fuel + 1) m ring curr data length = some s) :
    printLoop fuel m ring (u32 (curr + 1)) data length = some s := by
  unfold printLoop at h
  rw [if_pos hlt] at h
  obtain ⟨c, hget, h⟩ := Option.bind_eq_some_iff.mp h
  have hval := ProtMem.get_some hget
  rw [u32_of_lt hcurr] at hval
  rw [if_neg (hval ▸ hc)] at h
  exact h

/-- **no newline**: nothing is sent or stored -/
theorem printLoop_plain
    (hnl : ∀ a, curr ≤ a → a < u32sub (data + length) 1 → m.val a ≠ 10)
    (h : printLoop fuel m ring curr data length = some r) : r = (m, ring, data, length) := by
  induction fuel generalizing curr with
  | zero => exact absurd h.symm (Option.some_ne_none _)
  | succ fuel ih =>
    have hend : u32sub (data + length) 1 < 2^32 := u32_lt _
    by_cases hc : curr < u32sub (data + length) 1
    · have hrest := printLoop_next (by omega) hc (hnl curr (Nat.le_refl curr) hc) h
      rw [u32_of_lt (by omega)] at hrest
      exact ih (fun a ha => hnl a (by omega)) hrest
    · unfold printLoop at h
      rw [if_neg hc] at h
      exact (Option.some.inj h).symm

/-- one line: its newline is sent from the caller's memory, with a `'\r'` stored behind it -/
theorem printLoop_line {s : ProtMem × XenconsOut × Nat × Nat} (hcurr : curr < 2^32)
    (hlt : curr < u32sub (data + length) 1) (hc : m.val curr = 10)
    (h : printLoop (fuel + 1) m ring curr data length = some s) :
    ∃ m₁ m₂ ring₁, m.set (curr + 1) 13 = some m₁ ∧
      ringSend ring (fun i => m₁.get (data + i)) (u32 (u32sub curr data + 2)) = some ring₁ ∧
      m₁.set (curr + 1) (m.val (u32 (curr + 1))) = some m₂ ∧
      printLoop fuel m₂ ring₁ (u32 (curr + 1)) (u32 (curr + 1))
        (u32sub length (u32sub (u32 (u32sub curr data + 2)) 1)) = some s := by
  unfold printLoop at h
  rw [if_pos hlt] at h
  obtain ⟨c, hget, h⟩ := Option.bind_eq_some_iff.mp h
  have hval := ProtMem.get_some hget
  rw [u32_of_lt hcurr, hc] at hval
  rw [if_pos hval] at h
  obtain ⟨saved, hget, h⟩ := Option.bind_eq_some_iff.mp h
  obtain ⟨m₁, hset, h⟩ := Option.bind_eq_some_iff.mp h
  obtain ⟨ring₁, hsend, h⟩ := Option.bind_eq_some_iff.mp h
  obtain ⟨m₂, hset', h⟩ := Option.bind_eq_some_iff.mp h
  rw [ProtMem.get_some hget] at hset'
  exact ⟨m₁, m₂, ring₁, hset, hsend, hset', h⟩

/-- stores are not taken back -/
theorem printLoop_stores_le (h : printLoop fuel m ring curr data length = some r) :
    m.stores.length ≤ r.1.stores.length := by
  induction fuel generalizing m ring curr data length with
  | zero => exact absurd h.symm (Option.some_ne_none _)
  | succ fuel ih =>
    by_cases hlt : curr < u32sub (data + length) 1
    · have hcurr : curr < 2^32 := Nat.lt_trans hlt (u32_lt _)
      by_cases hc : m.val curr = 10
      · obtain ⟨m₁, m₂, ring₁, hset, -, hset', hrest⟩ := printLoop_line hcurr hlt hc h
        have h1 := ih hrest
        rw [(ProtMem.set_some hset').2, (ProtMem.set_some hset).2, List.length_cons,
          List.length_cons] at h1
        omega
      · exact ih (printLoop_next hcurr hlt hc h)
    · unfold printLoop at h
      rw [if_neg hlt] at h
      cases h
      exact Nat.le_refl _

/-- **a newline** before the last byte: the loop stores into the buffer -/
theorem printLoop_stores (hnl : ∃ a, curr ≤ a ∧ a < u32sub (data + length) 1 ∧ m.val a = 10)
    (h : printLoop fuel m ring curr data length = some r) :
    m.stores.length < r.1.stores.length := by
  induction fuel generalizing curr with
  | zero => exact absurd h.symm (Option.some_ne_none _)
  | succ fuel ih =>
    obtain ⟨a, ha, hlt, hval⟩ := hnl
    have hend : u32sub (data + length) 1 < 2^32 := u32_lt _
    have hcurr : curr < u32sub (data + length) 1 := by omega
    by_cases hc : m.val curr = 10
    · obtain ⟨m₁, m₂, ring₁, hset, -, hset', hrest⟩ := printLoop_line (by omega) hcurr hc h
      have h1 := printLoop_stores_le hrest
      rw [(ProtMem.set_some hset').2, (ProtMem.set_some hset).2, List.length_cons,
        List.length_cons] at h1
      omega
    · have hrest := printLoop_next (by omega) hcurr hc h
      rw [u32_of_lt (by omega)] at hrest
      have hne : a ≠ curr := fun he => hc (he ▸ hval)
      exact ih ⟨a, by omega, hlt, hval⟩ hrest

end

/-! ## the bytes -/

section
variable {m m' : ProtMem} {ring ring' : XenconsOut} {bytes : List Nat} {buf size : Nat}

theorem addCr_append (l l' : List Nat) : addCr (l ++ l') = addCr l ++ addCr l' :=
  List.flatMap_append

theorem length_le_addCr (l : List Nat) : l.length ≤ (addCr l).length := by
  induction l with
  | nil => exact Nat.le_refl 0
  | cons c l ih =>
    show l.length + 1 ≤ (addCr ([c] ++ l)).length
    rw [addCr_append, List.length_append]
    have h1 : 1 ≤ (addCr [c]).length := by
      unfold addCr
      rw [List.flatMap_cons, List.flatMap_nil, List.append_nil]
      split
      · exact Nat.le_succ 1
      · exact Nat.le_refl 1
    omega

theorem addCr_eq_self (l : List Nat) : addCr l = l ↔ ∀ c ∈ l, c ≠ 10 := by
  induction l with
  | nil => exact ⟨fun _ c hc => absurd hc List.not_mem_nil, fun _ => rfl⟩
  | cons c l ih =>
    have hcons : addCr (c :: l) = (if c = 10 then [10, 13] else [c]) ++ addCr l := List.flatMap_cons
    rw [hcons, List.forall_mem_cons, ← ih]
    by_cases hc : c = 10
    · rw [if_pos hc]
      refine ⟨fun h => ?_, fun h => absurd hc h.1⟩
      have hlen := congrArg List.length h
      have hle := length_le_addCr l
      simp only [List.length_append, List.length_cons, List.length_nil] at hlen
      omega
    · rw [if_neg hc]
      exact ⟨fun h => ⟨hc, (List.cons.inj h).2⟩, fun h => congrArg (c :: ·) h.2⟩

/-- a carriage return at the end is all there is to add, where only the last byte is a newline -/
theorem addCr_concat (l : List Nat) (c : Nat) :
    addCr (l ++ [c]) = l ++ [c] ++ (if c = 10 then [13] else []) ↔ ∀ d ∈ l, d ≠ 10 := by
  have hlast : addCr [c] = [c] ++ (if c = 10 then [13] else []) := by
    unfold addCr
    rw [List.flatMap_cons, List.flatMap_nil, List.append_nil]
    by_cases hc : c = 10
    · rw [if_pos hc, if_pos hc, hc]
      rfl
    · rw [if_neg hc, if_neg hc]
      rfl
  rw [addCr_append, hlast, List.append_assoc, List.append_left_inj, addCr_eq_self]

theorem ProtMem.bytes_succ (m : ProtMem) (buf n : Nat) :
    m.bytes buf (n + 1) = m.bytes buf n ++ [m.val (u32 (buf + n))] := by
  unfold ProtMem.bytes
  rw [List.range_succ, List.map_append]
  rfl

theorem ProtMem.length_bytes (m : ProtMem) (buf n : Nat) : (m.bytes buf n).length = n := by
  unfold ProtMem.bytes
  rw [List.length_map, List.length_range]

/-- what a send takes from memory -/
theorem sent_eq {new : List Nat} (h : ∀ i, i < new.length → m.get (buf + i) = new[i]?) :
    new = m.bytes buf new.length := by
  refine List.ext_getElem? fun i => ?_
  unfold ProtMem.bytes
  rw [List.getElem?_map]
  by_cases hi : i < new.length
  · rw [List.getElem?_range hi, Option.map_some, ← h i hi]
    have hget : m.get (buf + i) = some new[i] := by rw [h i hi, List.getElem?_eq_getElem hi]
    rw [hget, ProtMem.get_some hget]
  · rw [List.getElem?_eq_none (by omega), List.getElem?_eq_none (by rw [List.length_range]; omega)]
    rfl

/-- the last send: what is left of the buffer, and a carriage return behind a newline -/
theorem xenConsolePrint_plain
    (hnl : ∀ a, buf ≤ a → a < u32sub (buf + size) 1 → m.val a ≠ 10)
    (h : xenConsolePrint m ring buf size = some (m', ring')) :
    m' = m ∧ ring.appended ring' = m.bytes buf (min size ring.free) ++
      (if m.val (u32sub (buf + size) 1) = 10 ∧ size < ring.free then [13] else []) := by
  unfold xenConsolePrint at h
  obtain ⟨r, hloop, h⟩ := Option.bind_eq_some_iff.mp h
  have hr := printLoop_plain hnl hloop
  rw [hr] at h
  dsimp only at h
  obtain ⟨ring₁, hsend, h⟩ := Option.bind_eq_some_iff.mp h
  obtain ⟨c, hget, h⟩ := Option.bind_eq_some_iff.mp h
  obtain ⟨new, hadds, hlen, hdata⟩ := ringSend_adds (RingAdds.refl (ringSend_room hsend)) hsend
  rw [List.nil_append] at hadds
  have hnew := sent_eq hdata
  have hval := ProtMem.get_some hget
  have hlt : u32sub (buf + size) 1 < 2^32 := u32_lt _
  rw [u32_of_lt hlt] at hval
  have hused := hadds.room.1
  unfold XenconsOut.free
  rw [← hlen, ← hnew, ← hval]
  by_cases hc : c = 10
  · rw [if_pos hc] at h
    obtain ⟨ring₂, hsend', h⟩ := Option.map_eq_some_iff.mp h
    cases h
    obtain ⟨cr, hadds', hlen', hcr⟩ := ringSend_adds hadds hsend'
    refine ⟨rfl, hadds'.appended.trans (congrArg (new ++ ·) ?_)⟩
    by_cases hfit : size < sizeofOut - ring.used
    · rw [if_pos ⟨hc, hfit⟩]
      have h1 : cr.length = 1 := by omega
      obtain ⟨b, rfl⟩ := List.length_eq_one_iff.mp h1
      exact congrArg (fun b => [b]) (Option.some.inj (hcr 0 Nat.one_pos)).symm
    · rw [if_neg fun hf => hfit hf.2]
      exact List.eq_nil_of_length_eq_zero (by omega)
  · rw [if_neg hc] at h
    cases h
    refine ⟨rfl, ?_⟩
    rw [if_neg fun hf => hc hf.1, List.append_nil]
    exact hadds.appended

end

/-! ## print -/

/-- no newline before the last byte of the buffer; where the size is not positive, nothing the
writer of the ring would take for a byte to send -/
def PrintsAsIs (m : ProtMem) (ring : XenconsOut) (buf size : Nat) : Prop :=
  if 0 < toInt size then ∀ i, i + 1 < size → m.val (u32 (buf + i)) ≠ 10
  else (∀ a, buf ≤ a → a < u32sub (buf + size) 1 → m.val a ≠ 10) ∧
    (ring.free = 0 ∨ size = 0 ∧ m.val (u32sub buf 1) ≠ 10)

section
variable {m m' : ProtMem} {ring ring' : XenconsOut} {sysarg buf size : Nat}

theorem sysPrint_zero (hsize : m.getWord sysarg = some size)
    (hbuf : m.getWord (sysarg + 4) = some buf)
    (h : sysPrint m ring sysarg = some (m', ring', 0)) :
    toInt size < pageSize ∧ xenConsolePrint m ring buf size = some (m', ring') := by
  unfold sysPrint at h
  rw [hsize, hbuf, Option.bind_some] at h
  split at h
  · cases h
  · refine ⟨Int.not_le.mp ‹_›, ?_⟩
    rw [Option.bind_some] at h
    obtain ⟨r, hr, he⟩ := Option.map_eq_some_iff.mp h
    cases he
    exact hr

theorem xenConsolePrint_stores (hnl : ∃ a, buf ≤ a ∧ a < u32sub (buf + size) 1 ∧ m.val a = 10)
    (h : xenConsolePrint m ring buf size = some (m', ring')) :
    m.stores.length < m'.stores.length := by
  unfold xenConsolePrint at h
  obtain ⟨r, hloop, h⟩ := Option.bind_eq_some_iff.mp h
  have hlt := printLoop_stores hnl hloop
  obtain ⟨m₁, ring₁, data, length⟩ := r
  dsimp only at h
  obtain ⟨ring₂, -, h⟩ := Option.bind_eq_some_iff.mp h
  obtain ⟨c, -, h⟩ := Option.bind_eq_some_iff.mp h
  split at h
  · obtain ⟨ring₃, -, he⟩ := Option.map_eq_some_iff.mp h
    cases he
    exact hlt
  · cases h
    exact hlt

/-- a newline the loop meets is one before the last byte -/
theorem not_printsAsIs_of_newline {a : Nat} (hs : size < 2^32) (hlt : toInt size < pageSize)
    (ha : buf ≤ a) (hae : a < u32sub (buf + size) 1) (hval : m.val a = 10) :
    ¬ PrintsAsIs m ring buf size := by
  intro has
  unfold PrintsAsIs at has
  split at has
  · rename_i hpos
    have hi : a - buf + 1 < size := by
      unfold toInt at hpos hlt
      unfold pageSize at hlt
      unfold u32sub u32 at hae
      split at hlt <;> omega
    refine absurd ?_ (has (a - buf) hi)
    rw [Nat.add_sub_cancel' ha, u32_of_lt (Nat.lt_trans hae (u32_lt _))]
    exact hval
  · exact absurd hval (has.1 a ha hae)

/-- what is sent at once is what is to be printed, where there is room for that -/
theorem sent_printed_iff {n free : Nat} (hfit : (addCr (m.bytes buf (n + 1))).length ≤ free) :
    m.bytes buf (min (n + 1) free) ++
        (if m.val (u32sub (buf + (n + 1)) 1) = 10 ∧ n + 1 < free then [13] else []) =
      addCr (m.bytes buf (n + 1)) ↔ ∀ i, i + 1 < n + 1 → m.val (u32 (buf + i)) ≠ 10 := by
  have hlast : u32sub (buf + (n + 1)) 1 = u32 (buf + n) := by
    unfold u32sub u32
    omega
  have hall : (∀ d ∈ m.bytes buf n, d ≠ 10) ↔
      ∀ i, i + 1 < n + 1 → m.val (u32 (buf + i)) ≠ 10 := by
    unfold ProtMem.bytes
    rw [List.forall_mem_map]
    simp only [List.mem_range, Nat.add_lt_add_iff_right]
  have hle := length_le_addCr (m.bytes buf (n + 1))
  rw [m.length_bytes] at hle
  rw [Nat.min_eq_left (by omega), hlast, ← hall, ← addCr_concat, eq_comm, ← m.bytes_succ]
  by_cases hc : m.val (u32 (buf + n)) = 10
  · -- there is room for the carriage return
    have hroom : n + 1 < free := by
      have hcr : (addCr [m.val (u32 (buf + n))]).length = 2 := by
        rw [hc]
        rfl
      have hle := length_le_addCr (m.bytes buf n)
      rw [m.length_bytes] at hle
      rw [m.bytes_succ, addCr_append, List.length_append] at hfit
      omega
    rw [if_pos ⟨hc, hroom⟩, if_pos hc]
  · rw [if_neg fun hf => hc hf.1, if_neg hc]

/-- nothing is sent -/
theorem sent_nil_iff {free : Nat} :
    m.bytes buf (min size free) ++
        (if m.val (u32sub (buf + size) 1) = 10 ∧ size < free then [13] else []) = [] ↔
      free = 0 ∨ size = 0 ∧ m.val (u32sub buf 1) ≠ 10 := by
  have hnil : m.bytes buf (min size free) = [] ↔ size = 0 ∨ free = 0 := by
    rw [← List.length_eq_zero_iff, m.length_bytes]
    omega
  rw [List.append_eq_nil_iff, hnil]
  constructor
  · rintro ⟨hz, hcr⟩
    by_cases hfree : free = 0
    · exact .inl hfree
    obtain rfl := hz.resolve_right hfree
    refine .inr ⟨rfl, fun hval => ?_⟩
    rw [Nat.add_zero, if_pos ⟨hval, Nat.pos_of_ne_zero hfree⟩] at hcr
    exact absurd hcr (List.cons_ne_nil _ _)
  · rintro (rfl | ⟨rfl, hval⟩)
    · exact ⟨.inr rfl, if_neg fun hf => Nat.not_lt_zero size hf.2⟩
    · exact ⟨.inl rfl, if_neg fun hf => hval hf.1⟩

/-- **print emits the bytes of its buffer**, and stores nothing, exactly where no newline comes
before the last of them; a size that is not positive makes the writer of the ring send what it can,
or a carriage return for the byte before the buffer -/
theorem print_exact_iff (hsize : m.getWord sysarg = some size)
    (hbuf : m.getWord (sysarg + 4) = some buf) (h : sysPrint m ring sysarg = some (m', ring', 0))
    (hfit : (printed m buf size).length ≤ ring.free) :
    PrintExact m m' ring ring' buf size ↔ PrintsAsIs m ring buf size := by
  obtain ⟨hlt, hrun⟩ := sysPrint_zero hsize hbuf h
  have hs := ProtMem.getWord_lt hsize
  by_cases hnl : ∃ a, buf ≤ a ∧ a < u32sub (buf + size) 1 ∧ m.val a = 10
  · -- a store, which nothing takes back
    have hstore := xenConsolePrint_stores hnl hrun
    obtain ⟨a, ha, hae, hval⟩ := hnl
    refine ⟨fun hex => ?_, fun has => absurd has (not_printsAsIs_of_newline hs hlt ha hae hval)⟩
    rw [hex.stores] at hstore
    exact absurd hstore (Nat.lt_irrefl _)
  have hnl' : ∀ a, buf ≤ a → a < u32sub (buf + size) 1 → m.val a ≠ 10 :=
    fun a ha hae hval => hnl ⟨a, ha, hae, hval⟩
  obtain ⟨rfl, happ⟩ := xenConsolePrint_plain hnl' hrun
  have hiff : PrintExact m' m' ring ring' buf size ↔ ring.appended ring' = printed m' buf size :=
    ⟨fun hex => hex.appended, fun he => ⟨he, rfl⟩⟩
  rw [hiff, happ]
  unfold PrintsAsIs printed at *
  by_cases hpos : 0 < toInt size
  · rw [if_pos hpos] at hfit ⊢
    rw [if_pos hpos]
    obtain ⟨n, rfl⟩ : ∃ n, size = n + 1 := by
      refine ⟨size - 1, ?_⟩
      unfold toInt at hpos
      split at hpos <;> omega
    exact sent_printed_iff hfit
  · rw [if_neg hpos, if_neg hpos, and_iff_right hnl']
    exact sent_nil_iff

end

/-- a packet at 0x1000 for the two bytes at 0x2000; the second one is a newline -/
def twoChars (first : Nat) : ProtMem where
  val a := if a = 0x1000 then 2 else if a = 0x1005 then 0x20 else if a = 0x2000 then first
    else if a = 0x2001 then 10 else 0
  readable _ := true
  writable _ := true
  stores := []

def emptyRing : XenconsOut := ⟨fun _ => 0, 0, 0⟩

theorem twoChars_run {first : Nat}
    (h : ((sysPrint (twoChars first) emptyRing 0x1000).map fun r => r.2.2) = some 0) :
    ∃ m' ring', sysPrint (twoChars first) emptyRing 0x1000 = some (m', ring', 0) := by
  obtain ⟨⟨m', ring', rc⟩, hr, rfl⟩ := Option.map_eq_some_iff.mp h
  exact ⟨m', ring', hr⟩

/-- `a` and a newline -/
theorem print_exact_iff_two : ∃ m' ring',
    sysPrint (twoChars 97) emptyRing 0x1000 = some (m', ring', 0) ∧
      PrintExact (twoChars 97) m' emptyRing ring' 0x2000 2 := by
  obtain ⟨m', ring', h⟩ := @twoChars_run 97 (by decide)
  refine ⟨m', ring', h, (print_exact_iff (by decide) (by decide) h
    (by decide)).mpr ?_⟩
  show ∀ i, i + 1 < 2 → _
  intro i hi
  obtain rfl : i = 0 := by omega
  decide

/-- two newlines: the second one is stored over, and put back -/
theorem print_stores_into_buffer : ∃ m' ring',
    sysPrint (twoChars 10) emptyRing 0x1000 = some (m', ring', 0) ∧
      (printed (twoChars 10) 0x2000 2).length ≤ emptyRing.free ∧
      ¬ PrintExact (twoChars 10) m' emptyRing ring' 0x2000 2 := by
  obtain ⟨m', ring', h⟩ := @twoChars_run 10 (by decide)
  refine ⟨m', ring', h, by decide, fun hex => ?_⟩
  have hbuf : (twoChars 10).getWord (0x1000 + 4) = some 0x2000 := by decide
  have hsize : (twoChars 10).getWord 0x1000 = some 2 := by decide
  have hrun := (sysPrint_zero hsize hbuf h).2
  have hstore := xenConsolePrint_stores ⟨0x2000, by decide, by decide, by decide⟩ hrun
  rw [hex.stores] at hstore
  exact absurd hstore (Nat.lt_irrefl _)

end Paravirt

import Paravirt.Usercopy

/-!
# readline (kern/consoleio.c: `sys_readline`)

The results of `readchar` to come are a list; while it is empty the call is still waiting.

* `readlineLoop`              the loop of `sys_readline`;
* `editLine`                  what a line editor makes of a list of keys;
* `ReadlineEdits`             what a readline does for its caller;
* `readline_edits_line`       a readline into a buffer beside its packet edits the line.
-/

namespace Paravirt

/-- an `int` in a `char` -/
def toChar (r : Int) : Int := r.bmod 256

/-- the loop of `sys_readline` from the position `i`, for the results of `readchar` to come; `none`
while the call has not returned -/
def readlineLoop (size : Int) (argpkt : Nat) :
    List Int → Nat → ProtMem → Except ProtMem (ProtMem × Option Nat)
  | [], i, m => .ok (m, if (i : Int) < size - 1 then none else some i)
  | r :: rs, i, m =>
    if (i : Int) < size - 1 then
      let ch := toChar r
      if ch = -1 then readlineLoop size argpkt rs i m
      else if ch = 8 then readlineLoop size argpkt rs (if i > 0 then i - 1 else i) m
      else (copyCharToUserArgpktBuf ch i size argpkt 1 m).bind fun m =>
        if ch = 10 ∨ ch = 13 then
          (copyCharToUserArgpktBuf 0 (i + 1) size argpkt 1 m).map fun m => (m, some (i + 1))
        else readlineLoop size argpkt rs (i + 1) m
    else .ok (m, some i)

def sysReadline (m : ProtMem) (sysarg : Nat) (rs : List Int) :
    Except ProtMem (ProtMem × Option Nat) :=
  match copyUserInt m sysarg 0 with
  | none => .error m
  | some size => readlineLoop size sysarg rs 0 m

/-! ## the line -/

/-- the line of the keys, given what is kept so far; `n` is the most it may keep.  The flag is set
when a newline or a carriage return has ended it -/
def editLine (n : Nat) : List Nat → List Nat → Option (List Nat × Bool)
  | [], kept => if kept.length < n then none else some (kept, false)
  | key :: keys, kept =>
    if kept.length < n then
      if key = 8 then editLine n keys kept.dropLast
      else if key = 10 ∨ key = 13 then some (kept ++ [key], true)
      else editLine n keys (kept ++ [key])
    else some (kept, false)

/-- the keys among the results of `readchar` -/
def readKeys (rs : List Int) : List Nat := (rs.filter (· ≠ -1)).map Int.toNat

/-- a key other than 0xFF, or none -/
def KeyOrNone (r : Int) : Prop := r = -1 ∨ 0 ≤ r ∧ r < 255

/-- the packet `sysarg` has the size and the address of the buffer -/
structure ReadlineArgs (m : ProtMem) (sysarg buf size : Nat) : Prop where
  start : m.stores = []
  pos : 1 ≤ size
  size_arg : copyUserInt m sysarg 0 = some (size : Int)
  buf_arg : m.getWord (sysarg + 4 * 1) = some buf

/-- what a readline does for its caller, where it goes on from the text `kept`: it stores in the
buffer only, it returns when the line is complete, and leaves the line in the buffer.  It panics only
on a buffer that may not be stored into -/
structure ReadlineEdits (m₀ : ProtMem) (buf size : Nat) (rs : List Int) (kept : List Nat)
    (res : Except ProtMem (ProtMem × Option Nat)) : Prop where
  inside : ∀ w ∈ (finalMem res).stores, ∃ o, o < size ∧ w.1 = u32 (buf + o)
  waits : ∀ m, res = .ok (m, none) → editLine (size - 1) (readKeys rs) kept = none
  returns : ∀ m r, res = .ok (m, some r) → ∃ text nl,
    editLine (size - 1) (readKeys rs) kept = some (text, nl) ∧ r = text.length ∧
      (∀ j c, text[j]? = some c → m.val (u32 (buf + j)) = c) ∧
      (nl = true → m.val (u32 (buf + r)) = 0)
  panics : ∀ m, res = .error m → ¬ BufWritable m₀ buf size

section
variable {m₀ m m' : ProtMem} {size argpkt buf o : Nat} {rs rs' : List Int} {kept kept' : List Nat}
  {res : Except ProtMem (ProtMem × Option Nat)}

theorem readKeys_cons (r : Int) (rs : List Int) :
    readKeys (r :: rs) = if r = -1 then readKeys rs else r.toNat :: readKeys rs := by
  unfold readKeys
  by_cases h : r = -1
  · rw [if_pos h, List.filter_cons_of_neg (by simp [h])]
  · rw [if_neg h, List.filter_cons_of_pos (by simp [h]), List.map_cons]

/-- a key code, as a `char` and as a byte -/
theorem key_char {r : Int} (h0 : 0 ≤ r) (h1 : r < 255) :
    toChar r ≠ -1 ∧ (toChar r = 8 ↔ r.toNat = 8) ∧
      ((toChar r = 10 ∨ toChar r = 13) ↔ (r.toNat = 10 ∨ r.toNat = 13)) ∧
      charCode (toChar r) = r.toNat := by
  have h : toChar r = if r < 128 then r else r - 256 := by
    unfold toChar Int.bmod
    have e : r % ((256 : Nat) : Int) = r := Int.emod_eq_of_lt h0 (by omega)
    rw [e]
    rfl
  rw [h]
  unfold charCode
  split <;> omega

namespace ReadlineEdits

/-- the keys that were read leave the same line to be edited -/
theorem of_editLine (h : ReadlineEdits m₀ buf size rs' kept' res)
    (he : editLine (size - 1) (readKeys rs) kept = editLine (size - 1) (readKeys rs') kept') :
    ReadlineEdits m₀ buf size rs kept res where
  inside := h.inside
  waits m hm := he.trans (h.waits m hm)
  returns m r hm := by
    rw [he]
    exact h.returns m r hm
  panics := h.panics

/-- the buffer has room, and no key is left -/
theorem waiting (h : Typed m₀ size argpkt buf kept m)
    (he : editLine (size - 1) (readKeys rs) kept = none) :
    ReadlineEdits m₀ buf size rs kept (.ok (m, none)) where
  inside := h.inside
  waits _ _ := he
  returns _ _ hr := nomatch hr
  panics _ hr := nomatch hr

/-- the loop ends, and the text is the line -/
theorem full (h : Typed m₀ size argpkt buf kept m)
    (he : editLine (size - 1) (readKeys rs) kept = some (kept, false)) :
    ReadlineEdits m₀ buf size rs kept (.ok (m, some kept.length)) where
  inside := h.inside
  waits _ hr := nomatch hr
  returns _ _ hr := by
    cases hr
    exact ⟨kept, false, he, rfl, h.text, nofun⟩
  panics _ hr := nomatch hr

/-- a store to a page that does not allow it -/
theorem fault (h : Typed m₀ size argpkt buf kept' m) (ho : o < size)
    (hw : m₀.writable (u32 (buf + o) / pageSize) = false) :
    ReadlineEdits m₀ buf size rs kept (.error m) where
  inside := h.inside
  waits _ hr := nomatch hr
  returns _ _ hr := nomatch hr
  panics _ _ hb := by
    rw [hb o ho] at hw
    exact Bool.noConfusion hw

/-- the end of the line is in the buffer, and its terminator is stored behind it -/
theorem newline (h : Typed m₀ size argpkt buf kept' m) (hsep : PointerApart argpkt buf size)
    (hlen : kept'.length < size) (hsize : size < 2^31)
    (he : editLine (size - 1) (readKeys rs) kept = some (kept', true)) :
    ReadlineEdits m₀ buf size rs kept ((copyCharToUserArgpktBuf 0 kept'.length size argpkt 1 m).map
      fun m => (m, some kept'.length)) := by
  rcases h.copyChar (Int.ofNat_lt.mpr hlen) 0 with ⟨hcopy, hw⟩ | ⟨m', hcopy, hset⟩
  · rw [hcopy]
    exact fault h hlen hw
  · rw [hcopy]
    obtain ⟨h1, h2⟩ := h.write hsep hlen hsize (Nat.le_refl _) hset
    exact
      { inside := h1.inside
        waits := fun _ hr => nomatch hr
        returns := fun _ _ hr => by
          cases hr
          exact ⟨kept', true, he, rfl, h1.text, fun _ => h2⟩
        panics := fun _ hr => nomatch hr }

end ReadlineEdits

/-! ## the loop -/

/-- a backspace takes back the last character -/
theorem backspace_length (kept : List Nat) :
    (if kept.length > 0 then kept.length - 1 else kept.length) = kept.dropLast.length := by
  rw [List.length_dropLast]
  split <;> omega

theorem editLine_full {keys : List Nat} (h : ¬ kept.length < size - 1) :
    editLine (size - 1) keys kept = some (kept, false) := by
  unfold editLine
  split <;> exact if_neg h

theorem editLine_key {key : Nat} {keys : List Nat} (h : kept.length < size - 1) :
    editLine (size - 1) (key :: keys) kept =
      if key = 8 then editLine (size - 1) keys kept.dropLast
      else if key = 10 ∨ key = 13 then some (kept ++ [key], true)
      else editLine (size - 1) keys (kept ++ [key]) :=
  if_pos h

/-- **the loop of readline**, one result of `readchar` after the other -/
theorem readlineLoop_edits (hsep : PointerApart argpkt buf size) (hpos : 1 ≤ size)
    (hsize : size < 2^31) : ∀ (rs : List Int) (kept : List Nat) (m : ProtMem),
      (∀ r ∈ rs, KeyOrNone r) → kept.length ≤ size - 1 → Typed m₀ size argpkt buf kept m →
        ReadlineEdits m₀ buf size rs kept (readlineLoop size argpkt rs kept.length m) := by
  intro rs
  induction rs with
  | nil =>
    intro kept m _ hk h
    unfold readlineLoop
    by_cases hlt : kept.length < size - 1
    · rw [if_pos (by omega)]
      exact ReadlineEdits.waiting h (if_pos hlt)
    · rw [if_neg (by omega)]
      exact ReadlineEdits.full h (if_neg hlt)
  | cons r rs ih =>
    intro kept m hr hk h
    have ih := fun kept m => ih kept m fun x hx => hr x (List.mem_cons_of_mem _ hx)
    unfold readlineLoop
    by_cases hlt : kept.length < size - 1
    · rw [if_pos (by omega)]
      dsimp only
      rcases hr r List.mem_cons_self with rfl | ⟨h0, h1⟩
      · -- an empty read
        rw [if_pos (by decide)]
        have hkeys : readKeys (-1 :: rs) = readKeys rs := by
          rw [readKeys_cons, if_pos rfl]
        exact (ih kept m hk h).of_editLine (by rw [hkeys])
      · obtain ⟨c1, c2, c3, c4⟩ := key_char h0 h1
        have hkeys : readKeys (r :: rs) = r.toNat :: readKeys rs := by
          rw [readKeys_cons, if_neg (by omega)]
        have hedit := @editLine_key size kept r.toNat (readKeys rs) hlt
        rw [← hkeys] at hedit
        rw [if_neg c1]
        by_cases hb : toChar r = 8
        · -- backspace
          rw [if_pos hb, backspace_length]
          rw [if_pos (c2.mp hb)] at hedit
          have hdrop : kept.dropLast.length ≤ size - 1 := by
            rw [List.length_dropLast]
            omega
          exact (ih kept.dropLast m hdrop h.dropLast).of_editLine hedit
        · rw [if_neg hb]
          rw [if_neg fun hc => hb (c2.mpr hc)] at hedit
          have hlen : (kept ++ [r.toNat]).length = kept.length + 1 := List.length_append
          have ho : (kept.length : Int) < size := by omega
          rcases h.copyChar ho (toChar r) with ⟨hcopy, hw⟩ | ⟨m', hcopy, hset⟩
          · rw [hcopy]
            exact ReadlineEdits.fault h (by omega) hw
          · rw [hcopy]
            rw [c4] at hset
            have hpush := h.push hsep (by omega) hsize hset
            show ReadlineEdits m₀ buf size (r :: rs) kept (if _ then _ else _)
            by_cases hn : toChar r = 10 ∨ toChar r = 13
            · -- the end of the line
              rw [if_pos hn, ← hlen]
              rw [if_pos (c3.mp hn)] at hedit
              exact ReadlineEdits.newline hpush hsep (by omega) hsize hedit
            · rw [if_neg hn, ← hlen]
              rw [if_neg fun hc => hn (c3.mpr hc)] at hedit
              exact (ih (kept ++ [r.toNat]) m' (by omega) hpush).of_editLine hedit
    · rw [if_neg (by omega)]
      exact ReadlineEdits.full h (editLine_full hlt)

end

/-- **readline edits the line** and stays in its buffer, when the pointer to the buffer does not lie
in the buffer -/
theorem readline_edits_line {m : ProtMem} {sysarg buf size : Nat} {rs : List Int}
    (h : ReadlineArgs m sysarg buf size) (hsep : PointerApart sysarg buf size)
    (hkeys : ∀ r ∈ rs, KeyOrNone r) :
    ReadlineEdits m buf size rs [] (sysReadline m sysarg rs) := by
  have hsize : (size : Int) < 2^31 := copyUserInt_lt h.size_arg
  have h0 : Typed m size sysarg buf [] m :=
    ⟨h.buf_arg, rfl, fun w hw => absurd hw (h.start ▸ List.not_mem_nil), nofun⟩
  unfold sysReadline
  rw [h.size_arg]
  exact readlineLoop_edits hsep h.pos (by omega) rs [] m hkeys (Nat.zero_le _) h0

/-- a packet at 0x1000 for a buffer of eight bytes at `buf`; the page from 0x3000 on is read-only -/
def packetMem (buf : Nat) : ProtMem where
  val a :=
    if a = 0x1000 then 8
    else if a = 0x1004 then buf % 256
    else if a = 0x1005 then buf / 256 % 256
    else 0
  readable _ := true
  writable page := page ≠ 3
  stores := []

theorem packetMem_args {buf : Nat} (h : buf < 2^16) : ReadlineArgs (packetMem buf) 0x1000 buf 8 where
  start := rfl
  pos := by decide
  size_arg := rfl
  buf_arg := by
    show some (u32 (buf % 256 + 2^8 * (buf / 256 % 256) + 2^16 * 0 + 2^24 * 0)) = some buf
    unfold u32
    congr 1
    omega

/-- `a`, backspace, nothing, `b`, newline -/
theorem readline_edits_line_small :
    ReadlineEdits (packetMem 0x2000) 0x2000 8 [97, 8, -1, 98, 10] []
      (sysReadline (packetMem 0x2000) 0x1000 [97, 8, -1, 98, 10]) := by
  refine readline_edits_line (packetMem_args (by decide)) ?_ ?_
  · unfold PointerApart
    decide
  · unfold KeyOrNone
    decide

/-- a buffer that starts at its own pointer: the first key moves the buffer -/
theorem readline_leaves_buffer :
    ReadlineArgs (packetMem 0x1004) 0x1000 0x1004 8 ∧
      ¬ ReadlineEdits (packetMem 0x1004) 0x1004 8 [97, 98] []
        (sysReadline (packetMem 0x1004) 0x1000 [97, 98]) := by
  refine ⟨packetMem_args (by decide), fun h => ?_⟩
  have hw : (0x1062, 98) ∈ (finalMem (sysReadline (packetMem 0x1004) 0x1000 [97, 98])).stores := by
    decide
  obtain ⟨o, ho, he⟩ := h.inside _ hw
  unfold u32 at he
  omega

end Paravirt

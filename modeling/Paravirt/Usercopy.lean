import Paravirt.VmArea
import Paravirt.Keyring

/-!
# The memory of a caller (kern/usercopy.c)

A system call reads and writes the memory of its caller by address.  A page may be absent or
read-only; an access it does not allow is a page fault of the kernel, a panic.

* `ProtMem`                   bytes, the accesses that pages allow, and the stores that were made;
* `copyCharToUserArgpktBuf`, `copyBufToUserArgpktBuf`   the pointer to the buffer is read from the
                              argument packet each time;
* `Typed`                     a text at the front of a buffer, with no store anywhere else.
-/

namespace Paravirt

/-! ## memory -/

/-- bytes, the pages that may be read and written, and the stores, last one first -/
structure ProtMem where
  val : Nat → Nat
  readable : Nat → Bool
  writable : Nat → Bool
  stores : List (Nat × Nat)

namespace ProtMem

variable (m : ProtMem)

def get (a : Nat) : Option Nat :=
  if m.readable (u32 a / pageSize) then some (m.val (u32 a)) else none

def set (a byte : Nat) : Option ProtMem :=
  if m.writable (u32 a / pageSize) then
    some { m with val := Function.update m.val (u32 a) byte, stores := (u32 a, byte) :: m.stores }
  else none

/-- a word; `copy_user_dword` reads it byte by byte -/
def getWord (a : Nat) : Option Nat :=
  (m.get a).bind fun b₀ => (m.get (a + 1)).bind fun b₁ => (m.get (a + 2)).bind fun b₂ =>
    (m.get (a + 3)).bind fun b₃ => some (u32 (b₀ + 2^8 * b₁ + 2^16 * b₂ + 2^24 * b₃))

end ProtMem

/-! ## the copies

A panic leaves the memory as the stores before it made it. -/

def copyUserInt (m : ProtMem) (userarg argNum : Nat) : Option Int :=
  (m.getWord (userarg + 4 * argNum)).map toInt

def copyToUserByte (byte addr : Nat) (m : ProtMem) : Except ProtMem ProtMem :=
  match m.set addr byte with
  | none => .error m
  | some m => .ok m

def copyToUserBuf : List Nat → Nat → ProtMem → Except ProtMem ProtMem
  | [], _, m => .ok m
  | c :: kernBuf, usrBuf, m =>
    (copyToUserByte c usrBuf m).bind fun m => copyToUserBuf kernBuf (usrBuf + 1) m

/-- `offset` is not negative where this is called -/
def copyCharToUserArgpktBuf (ch : Int) (offset : Nat) (size : Int) (argpkt argNum : Nat)
    (m : ProtMem) : Except ProtMem ProtMem :=
  if (offset : Int) ≥ size then .ok m
  else match m.getWord (argpkt + 4 * argNum) with
    | none => .error m
    | some usrBuf => copyToUserByte (charCode ch) (usrBuf + offset) m

def copyBufToUserArgpktBuf (kernBuf : List Nat) (offset argpkt argNum : Nat) (m : ProtMem) :
    Except ProtMem ProtMem :=
  match m.getWord (argpkt + 4 * argNum) with
  | none => .error m
  | some usrBuf => copyToUserBuf kernBuf (usrBuf + offset) m

/-- the memory at the end of a call, or where it panicked -/
def finalMem {α : Type} : Except ProtMem (ProtMem × α) → ProtMem
  | .error m => m
  | .ok r => r.1

/-! ## reads and stores -/

section
variable {m m' : ProtMem} {a p c byte : Nat}

theorem u32_lt (n : Nat) : u32 n < 2^32 := Nat.mod_lt n (Nat.two_pow_pos 32)

theorem toInt_lt_half {n : Nat} (h : n < 2^32) : toInt n < 2^31 := by
  unfold toInt
  split <;> omega

theorem ProtMem.get_some (h : m.get a = some c) : c = m.val (u32 a) := by
  unfold ProtMem.get at h
  split at h
  · exact (Option.some.inj h).symm
  · exact absurd h.symm (Option.some_ne_none _)

theorem ProtMem.set_some (h : m.set a byte = some m') :
    m'.val = Function.update m.val (u32 a) byte ∧ m'.stores = (u32 a, byte) :: m.stores := by
  unfold ProtMem.set at h
  split at h
  · cases h
    exact ⟨rfl, rfl⟩
  · exact absurd h.symm (Option.some_ne_none _)

theorem ProtMem.set_pages (h : m.set a byte = some m') :
    m'.readable = m.readable ∧ m'.writable = m.writable := by
  unfold ProtMem.set at h
  split at h
  · cases h
    exact ⟨rfl, rfl⟩
  · exact absurd h.symm (Option.some_ne_none _)

theorem ProtMem.set_none (h : m.set a byte = none) : m.writable (u32 a / pageSize) = false := by
  unfold ProtMem.set at h
  split at h
  · exact absurd h (Option.some_ne_none _)
  · rename_i hw
    exact eq_false_of_ne_true hw

theorem ProtMem.getWord_lt {w : Nat} (h : m.getWord a = some w) : w < 2^32 := by
  unfold ProtMem.getWord at h
  obtain ⟨b₀, -, h⟩ := Option.bind_eq_some_iff.mp h
  obtain ⟨b₁, -, h⟩ := Option.bind_eq_some_iff.mp h
  obtain ⟨b₂, -, h⟩ := Option.bind_eq_some_iff.mp h
  obtain ⟨b₃, -, h⟩ := Option.bind_eq_some_iff.mp h
  cases h
  exact u32_lt _

theorem ProtMem.get_set (h : m.set a byte = some m') (hne : u32 p ≠ u32 a) :
    m'.get p = m.get p := by
  unfold ProtMem.get
  rw [(ProtMem.set_pages h).1, (ProtMem.set_some h).1, Function.update_of_ne hne]

/-- a word that a store does not touch -/
theorem ProtMem.getWord_set (h : m.set a byte = some m') (hne : ∀ j < 4, u32 (p + j) ≠ u32 a) :
    m'.getWord p = m.getWord p := by
  have h0 : m'.get p = m.get p := ProtMem.get_set h (hne 0 (by decide))
  have h1 := ProtMem.get_set h (hne 1 (by decide))
  have h2 := ProtMem.get_set h (hne 2 (by decide))
  have h3 := ProtMem.get_set h (hne 3 (by decide))
  unfold ProtMem.getWord
  rw [h0, h1, h2, h3]

theorem copyUserInt_lt {userarg argNum : Nat} {v : Int} (h : copyUserInt m userarg argNum = some v) :
    v < 2^31 := by
  obtain ⟨w, hw, rfl⟩ := Option.map_eq_some_iff.mp h
  exact toInt_lt_half (ProtMem.getWord_lt hw)

/-! ## a buffer beside its packet -/

/-- the packet's pointer to the buffer does not lie in the buffer -/
def PointerApart (argpkt buf size : Nat) : Prop :=
  ∀ j < 4, ∀ o < size, u32 (argpkt + 4 * 1 + j) ≠ u32 (buf + o)

/-- each byte of the buffer may be stored into -/
def BufWritable (m : ProtMem) (buf size : Nat) : Prop :=
  ∀ o < size, m.writable (u32 (buf + o) / pageSize) = true

/-- offsets in a buffer smaller than the address space are told apart by their addresses -/
theorem u32_add_inj {b i j : Nat} (hi : i < 2^31) (hj : j < 2^31) (h : u32 (b + i) = u32 (b + j)) :
    i = j := by
  unfold u32 at h
  omega

end

section
variable {m₀ m m' : ProtMem} {size argpkt buf o byte : Nat} {kept : List Nat}

/-- in a loop of copies that began in `m₀`: the pointer is as it was, what is kept lies at the front
of the buffer, and nothing else was stored -/
structure Typed (m₀ : ProtMem) (size argpkt buf : Nat) (kept : List Nat) (m : ProtMem) : Prop where
  pointer : m.getWord (argpkt + 4 * 1) = some buf
  pages : m.writable = m₀.writable
  inside : ∀ w ∈ m.stores, ∃ o, o < size ∧ w.1 = u32 (buf + o)
  text : ∀ j c, kept[j]? = some c → m.val (u32 (buf + j)) = c

theorem Typed.write (h : Typed m₀ size argpkt buf kept m) (hsep : PointerApart argpkt buf size)
    (ho : o < size) (hsize : size < 2^31) (hk : kept.length ≤ o)
    (hset : m.set (buf + o) byte = some m') :
    Typed m₀ size argpkt buf kept m' ∧ m'.val (u32 (buf + o)) = byte := by
  obtain ⟨hval, hst⟩ := ProtMem.set_some hset
  refine ⟨⟨?_, ?_, fun w hw => ?_, fun j c hj => ?_⟩, ?_⟩
  · rw [ProtMem.getWord_set hset fun j hj => hsep j hj o ho]
    exact h.pointer
  · rw [(ProtMem.set_pages hset).2]
    exact h.pages
  · rw [hst] at hw
    rcases List.mem_cons.mp hw with rfl | hw
    · exact ⟨o, ho, rfl⟩
    · exact h.inside w hw
  · have hlt := (List.getElem?_eq_some_iff.mp hj).1
    have hne : u32 (buf + j) ≠ u32 (buf + o) := fun hc => by
      have := u32_add_inj (by omega) (by omega) hc
      omega
    rw [hval, Function.update_of_ne hne]
    exact h.text j c hj
  · rw [hval]
    exact Function.update_self ..

/-- the text grows by a byte -/
theorem Typed.push (h : Typed m₀ size argpkt buf kept m) (hsep : PointerApart argpkt buf size)
    (ho : kept.length < size) (hsize : size < 2^31)
    (hset : m.set (buf + kept.length) byte = some m') :
    Typed m₀ size argpkt buf (kept ++ [byte]) m' := by
  obtain ⟨h1, h2⟩ := h.write hsep ho hsize (Nat.le_refl _) hset
  refine ⟨h1.pointer, h1.pages, h1.inside, fun j c hj => ?_⟩
  rcases Nat.lt_or_ge j kept.length with hlt | hge
  · rw [List.getElem?_append_left hlt] at hj
    exact h1.text j c hj
  · have hlt := (List.getElem?_eq_some_iff.mp hj).1
    rw [List.length_append, List.length_singleton] at hlt
    obtain rfl : j = kept.length := by omega
    rw [List.getElem?_concat_length] at hj
    exact h2.trans (Option.some.inj hj)

/-- its last byte is taken back, and stays behind the cursor -/
theorem Typed.dropLast (h : Typed m₀ size argpkt buf kept m) :
    Typed m₀ size argpkt buf kept.dropLast m := by
  refine ⟨h.pointer, h.pages, h.inside, fun j c hj => h.text j c ?_⟩
  rw [List.getElem?_dropLast] at hj
  split at hj
  · exact hj
  · exact nomatch hj

/-- a character of the copy, or the fault of its page -/
theorem Typed.copyChar (h : Typed m₀ size argpkt buf kept m) {limit : Int} (ho : (o : Int) < limit)
    (ch : Int) :
    (copyCharToUserArgpktBuf ch o limit argpkt 1 m = .error m ∧
      m₀.writable (u32 (buf + o) / pageSize) = false) ∨
    ∃ m', copyCharToUserArgpktBuf ch o limit argpkt 1 m = .ok m' ∧
      m.set (buf + o) (charCode ch) = some m' := by
  have hcopy : copyCharToUserArgpktBuf ch o limit argpkt 1 m =
      copyToUserByte (charCode ch) (buf + o) m := by
    unfold copyCharToUserArgpktBuf
    rw [if_neg (by omega), h.pointer]
  rw [hcopy]
  unfold copyToUserByte
  cases hset : m.set (buf + o) (charCode ch) with
  | none =>
    left
    refine ⟨rfl, ?_⟩
    rw [← h.pages]
    exact ProtMem.set_none hset
  | some m' => exact .inr ⟨m', rfl, rfl⟩

end

end Paravirt

import Paravirt.Elf

/-!
# Reading files (kern/loader.c: `getbytes`)

The files are the entries of `exec2obj_userapp_TOC`.  `offset` and `size` are the words a caller
passes; `getbytes` takes them for `int`s.

* `Copied`                 the `memcpy` of one call: its length, and where it reads;
* `getbytes`               the call; `none` where its `memcpy` does not come to an end;
* `readBytes_eq`, `mm_getbytes_eq`   the calls of the loader and of `vm_area_load` are such calls;
* `getbytes_inside_iff`    a call stays inside the file exactly where the size is not negative, the
                           offset is not, and their sum does not wrap.
-/

namespace Paravirt

/-! ## the table -/

/-- an entry of `exec2obj_userapp_TOC`: `execname` is a `char[256]`, and `execlen` the length of a
file -/
structure TocEntry where
  execname : List Nat
  file : ExecFile
  name_lt : execname.length < 256
  name_chars : ∀ c ∈ execname, c ≠ 0
  execlen_nonneg : 0 ≤ file.execlen
  execlen_lt : file.execlen < 2^31

/-- the loop over the table, with its `strcmp` -/
def tocFind (toc : List TocEntry) (filename : List Nat) : Option TocEntry :=
  toc.find? fun e => e.execname = filename

/-! ## the function -/

/-- the `int` that is returned, the places in the file `memcpy` reads, and the bytes -/
structure Copied where
  ret : Int
  places : List Int
  bytes : List Nat

/-- `memcpy` of `n` bytes from a place in the file.  Its length is a `size_t`: a negative `int` is
more than half of all memory, the kernel and what is not mapped included -/
def ExecFile.memcpy (f : ExecFile) (start n : Int) : Option Copied :=
  if n < 0 then none
  else
    let places := (List.range n.toNat).map fun i => start + (i : Nat)
    some ⟨n, places, places.map f.execbytes⟩

def getbytes (toc : List TocEntry) (filename : List Nat) (offset size : Nat) : Option Copied :=
  match tocFind toc filename with
  | none => some ⟨-1, [], []⟩
  | some e => e.file.memcpy (toInt offset) (getbytesCount (some e.file) offset size)

/-! ## the callers -/

section
variable {f : ExecFile} {offset size : Nat}

theorem toInt_lt (hs : size < 2^32) : -2^31 ≤ toInt size ∧ toInt size < 2^31 := by
  unfold toInt
  split <;> omega

theorem toInt_sum (ho : offset < 2^32) (hs : size < 2^32) (h₁ : -2^31 ≤ toInt size + toInt offset)
    (h₂ : toInt size + toInt offset < 2^31) :
    toInt (u32 (size + offset)) = toInt size + toInt offset := by
  unfold toInt u32 at *
  split <;> split <;> split <;> omega

theorem toInt_toNat {x : Int} (h₀ : 0 ≤ x) (h₁ : x < 2^31) : toInt x.toNat = x := by
  unfold toInt
  rw [if_pos (by omega)]
  exact Int.toNat_of_nonneg h₀

/-- a sum past the largest `int` is negative -/
theorem toInt_sum_wrap (ho : offset < 2^32) (hs : size < 2^32)
    (h : 2^31 ≤ toInt size + toInt offset) :
    toInt (u32 (size + offset)) = toInt size + toInt offset - 2^32 := by
  unfold toInt u32 at *
  split <;> split <;> split <;> omega

/-- the loader reads by such calls -/
theorem readBytes_eq (f : ExecFile) (offset size : Nat) :
    f.readBytes offset size =
      (f.memcpy (toInt offset) (getbytesCount (some f) offset size)).map fun c =>
        if c.ret = (size : Int) then some c.bytes else none := by
  unfold ExecFile.readBytes ExecFile.memcpy
  obtain ⟨n, hn⟩ : ∃ n, getbytesCount (some f) offset size = n := ⟨_, rfl⟩
  simp only [hn]
  by_cases h0 : n < 0
  · rw [if_pos h0, if_pos h0]
    rfl
  · rw [if_neg h0, if_neg h0]
    by_cases hs : n = size
    · rw [if_neg (not_not.mpr hs), Option.map_some, if_pos hs, hs, Int.toNat_natCast,
        List.map_map]
      rfl
    · rw [if_pos hs, Option.map_some, if_neg hs]

/-- and so does `vm_area_load` -/
theorem mm_getbytes_eq (mm : Mm) {c : Copied} {buf : Nat}
    (h : f.memcpy (toInt offset) (getbytesCount (some f) offset size) = some c) :
    (mm.getbytes (some f) offset size buf).2 = c.ret ∧
      ∀ i, i < c.bytes.length →
        some ((mm.getbytes (some f) offset size buf).1.mem (buf + i)) = c.bytes[i]? := by
  unfold ExecFile.memcpy at h
  unfold Mm.getbytes
  obtain ⟨n, hn⟩ : ∃ n, getbytesCount (some f) offset size = n := ⟨_, rfl⟩
  simp only [hn] at h ⊢
  split at h
  · exact absurd h.symm (Option.some_ne_none _)
  cases h
  refine ⟨rfl, fun i hi => ?_⟩
  rw [List.length_map, List.length_map, List.length_range] at hi
  rw [if_pos ⟨Nat.le_add_right buf i, Nat.add_lt_add_left hi buf⟩, List.getElem?_map,
    List.getElem?_map, List.getElem?_range hi, Nat.add_sub_cancel_left]
  rfl

/-! ## what a call reads -/

/-- the call comes back; it fails, or copies as many bytes as it says, none from outside of the
file; and it copies all there are where it is asked for bytes of the file -/
def ReadsInside (f : ExecFile) (offset size : Int) (call : Option Copied) : Prop :=
  ∃ c, call = some c ∧
    (c.ret < 0 ∨ 0 ≤ c.ret ∧ c.ret ≤ size ∧
      c.places = (List.range c.ret.toNat).map (fun i => offset + (i : Nat)) ∧
      c.bytes = c.places.map f.execbytes ∧ ∀ p ∈ c.places, 0 ≤ p ∧ p < f.execlen) ∧
    (0 ≤ offset → offset < f.execlen → 0 ≤ size → c.ret = min size (f.execlen - offset))

theorem memcpy_inside_iff {start size n : Int} :
    ReadsInside f start size (f.memcpy start n) ↔
      0 ≤ n ∧ n ≤ size ∧ (n = 0 ∨ 0 ≤ start ∧ start + n ≤ f.execlen) ∧
        (0 ≤ start → start < f.execlen → 0 ≤ size → n = min size (f.execlen - start)) := by
  unfold ReadsInside ExecFile.memcpy
  by_cases h0 : n < 0
  · rw [if_pos h0]
    constructor
    · rintro ⟨c, hc, -⟩
      exact absurd hc.symm (Option.some_ne_none c)
    · rintro ⟨h, -⟩
      exact absurd h0 (Int.not_lt.mpr h)
  rw [if_neg h0]
  have hn : 0 ≤ n := Int.not_lt.mp h0
  constructor
  · rintro ⟨c, hc, hcase, hmin⟩
    cases hc
    rcases hcase with hneg | ⟨-, hle, -, -, hin⟩
    · exact absurd hneg h0
    refine ⟨hn, hle, ?_, hmin⟩
    by_cases hz : n = 0
    · exact .inl hz
    -- the first and the last place
    have hmem : ∀ i : Nat, (i : Int) < n → 0 ≤ start + i ∧ start + i < f.execlen := fun i hi =>
      hin _ (List.mem_map.mpr ⟨i, List.mem_range.mpr (by omega), rfl⟩)
    have hfirst := hmem 0 (by omega)
    have hlast := hmem (n.toNat - 1) (by omega)
    exact .inr ⟨by omega, by omega⟩
  · rintro ⟨-, hle, hin, hmin⟩
    refine ⟨_, rfl, .inr ⟨hn, hle, rfl, rfl, fun p hp => ?_⟩, hmin⟩
    obtain ⟨i, hi, rfl⟩ := List.mem_map.mp hp
    rw [List.mem_range] at hi
    rcases hin with hz | hin
    · rw [hz] at hi
      exact absurd hi (Nat.not_lt_zero i)
    · omega

end

/-- **a read stays inside its file** exactly where neither the size nor the offset is negative and
their sum is an `int`; nothing is read for no bytes, or from the end on -/
theorem getbytes_inside_iff {toc : List TocEntry} {filename : List Nat} {e : TocEntry}
    (hfile : tocFind toc filename = some e) {offset size : Nat} (ho : offset < 2^32)
    (hs : size < 2^32) :
    ReadsInside e.file (toInt offset) (toInt size) (getbytes toc filename offset size) ↔
      0 ≤ toInt size ∧ (toInt size = 0 ∨ 0 ≤ toInt offset ∧
        (e.file.execlen ≤ toInt offset ∨ toInt offset + toInt size < 2^31)) := by
  have hcall : getbytes toc filename offset size =
      e.file.memcpy (toInt offset) (getbytesCount (some e.file) offset size) := by
    unfold getbytes
    rw [hfile]
  rw [hcall, memcpy_inside_iff]
  have hlen := e.execlen_nonneg
  have hlen' := e.execlen_lt
  obtain ⟨ho₁, ho₂⟩ := toInt_lt ho
  obtain ⟨hs₁, hs₂⟩ := toInt_lt hs
  unfold getbytesCount
  dsimp only
  by_cases hneg : toInt size < 0
  · -- no length is at most a negative size
    omega
  by_cases hend : toInt offset ≥ e.file.execlen
  · -- nothing is left to read
    rw [if_pos hend]
    omega
  rw [if_neg hend]
  by_cases hwrap : 2^31 ≤ toInt size + toInt offset
  · -- the sum is negative, and nothing is cut off
    rw [toInt_sum_wrap ho hs hwrap, if_neg (by omega)]
    omega
  rw [toInt_sum ho hs (by omega) (by omega)]
  by_cases hcut : toInt size + toInt offset > e.file.execlen
  · have hrest : toInt (u32 (e.file.execlen - toInt offset).toNat) =
        e.file.execlen - toInt offset := by
      rw [u32_of_lt (by omega)]
      exact toInt_toNat (by omega) (by omega)
    rw [if_pos hcut, hrest]
    omega
  · rw [if_neg hcut]
    omega

/-- a file of eight bytes -/
def eightBytes : TocEntry where
  execname := [97]
  file := ⟨8, fun i => i.toNat⟩
  name_lt := by decide
  name_chars := by decide
  execlen_nonneg := by decide
  execlen_lt := by decide

/-- from the fourth byte on there are four -/
theorem getbytes_inside_iff_eight :
    ReadsInside eightBytes.file (toInt 4) (toInt 100) (getbytes [eightBytes] [97] 4 100) :=
  (getbytes_inside_iff (e := eightBytes) rfl (by decide) (by decide)).mpr (by decide)

/-- a section header gives the string table four bytes at `0xfffffffc`: these lie before the file -/
theorem getbytes_before_file :
    ¬ ReadsInside eightBytes.file (toInt 0xfffffffc) (toInt 4)
      (getbytes [eightBytes] [97] 0xfffffffc 4) := by
  have hcount : getbytesCount (some eightBytes.file) 0xfffffffc 4 = 4 := by decide
  have hcall : getbytes [eightBytes] [97] 0xfffffffc 4 =
      eightBytes.file.memcpy (toInt 0xfffffffc) 4 := by
    rw [← hcount]
    rfl
  rw [hcall, memcpy_inside_iff]
  decide

end Paravirt

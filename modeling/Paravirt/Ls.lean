import Paravirt.Readline
import Paravirt.Loader

/-!
# ls (kern/sysmisc.c: `sys_ls`, 410user/progs/shell.c: `print_ls`)

The writer is the kernel's loop over the table of contents, the reader the loop of the shell over
the strings in its buffer.  A table has at most 128 entries of less than 256 characters, so that no
`int` of the loop wraps.  `ProtMem.val` is what the program reads at an address, also in a page that
is absent, and loaded when the program reads it.

* `lsLoop`         the loop of `sys_ls`;
* `printLsScan`    the loop of `print_ls`: the strings, and how many bytes it has looked at;
* `lsEncode`       the list of names as `sys_ls` writes it;
* `lsFitting`      the entries it writes;
* `lsLoop_spec`    what the writer leaves;
* `scan_encode`    the reader on such a list: it goes on behind it;
* `ls_decodes_iff` the reader never gets along with what `sys_ls` wrote.
-/

namespace Paravirt

/-! ## the writer -/

/-- one turn: the name, then its terminator -/
def lsEntry (size : Int) (sysarg offset : Nat) (execname : List Nat) (m : ProtMem) :
    Except ProtMem ProtMem :=
  (copyBufToUserArgpktBuf execname offset sysarg 1 m).bind
    (copyCharToUserArgpktBuf 0 (offset + execname.length) size sysarg 1)

def lsLoop (size : Int) (sysarg : Nat) :
    List TocEntry → Nat → Nat → ProtMem → Except ProtMem (ProtMem × Int)
  | [], _, numEntries, m => .ok (m, numEntries)
  | e :: toc, offset, numEntries, m =>
    let length := e.execname.length
    if ((offset + length + 1 : Nat) : Int) > size then .ok (m, -1)
    else (lsEntry size sysarg offset e.execname m).bind
      (lsLoop size sysarg toc (offset + length + 1) (numEntries + 1))

def sysLs (toc : List TocEntry) (m : ProtMem) (sysarg : Nat) : Except ProtMem (ProtMem × Int) :=
  match copyUserInt m sysarg 0 with
  | none => .error m
  | some size => lsLoop size sysarg toc 0 0 m

/-! ## the reader -/

def userStrlen : Nat → (Nat → Nat) → Nat → Option Nat
  | 0, _, _ => none
  | fuel + 1, mem, s =>
    if mem (u32 s) = 0 then some 0 else (userStrlen fuel mem (s + 1)).map (· + 1)

/-- the strings from `bufptr` on, up to the first empty one, and the bytes looked at.  A string that
does not end in all of memory never does -/
def printLsScan : Nat → (Nat → Nat) → Nat → Option (List (List Nat) × Nat)
  | 0, _, _ => none
  | fuel + 1, mem, bufptr =>
    match userStrlen (2^32) mem bufptr with
    | none => none
    | some 0 => some ([], 1)
    | some (len + 1) => (printLsScan fuel mem (bufptr + (len + 1) + 1)).map fun r =>
        ((List.range (len + 1)).map (fun i => mem (u32 (bufptr + i))) :: r.1, len + 1 + 1 + r.2)

/-! ## the list -/

def lsEncode (names : List (List Nat)) : List Nat := names.flatMap fun name => name ++ [0]

def tocNames (toc : List TocEntry) : List (List Nat) := toc.map (·.execname)

theorem lsEncode_cons (name : List Nat) (l : List (List Nat)) :
    lsEncode (name :: l) = name ++ [0] ++ lsEncode l := List.flatMap_cons

theorem tocEncode_cons (e : TocEntry) (toc : List TocEntry) :
    lsEncode (tocNames (e :: toc)) = e.execname ++ [0] ++ lsEncode (tocNames toc) :=
  lsEncode_cons ..

/-- the entries that fit one after the other from `offset` on: those `sys_ls` writes -/
def lsFitting (size : Int) : Nat → List TocEntry → List TocEntry
  | _, [] => []
  | offset, e :: toc =>
    if ((offset + e.execname.length + 1 : Nat) : Int) > size then []
    else e :: lsFitting size (offset + e.execname.length + 1) toc

/-- all of them fit -/
def LsFits (size : Int) (offset : Nat) (toc : List TocEntry) : Prop :=
  toc = [] ∨ ((offset + (lsEncode (tocNames toc)).length : Nat) : Int) ≤ size

instance (size : Int) (offset : Nat) (toc : List TocEntry) : Decidable (LsFits size offset toc) :=
  inferInstanceAs (Decidable (_ ∨ _))

/-- the bytes `sys_ls` writes, where it may write them -/
def lsWritten (size : Int) (toc : List TocEntry) : List Nat :=
  lsEncode (tocNames (lsFitting size 0 toc))

/-- the packet `sysarg` has the size and the address of the buffer -/
structure LsArgs (m : ProtMem) (sysarg buf : Nat) (size : Int) : Prop where
  start : m.stores = []
  size_arg : copyUserInt m sysarg 0 = some size
  buf_arg : m.getWord (sysarg + 4 * 1) = some buf

/-- the reader finds the names, in bytes that were written -/
def Decodes (toc : List TocEntry) (buf : Nat) (m : ProtMem) : Prop :=
  ∃ looked, printLsScan (2^32) m.val buf = some (tocNames toc, looked) ∧
    ∀ i, i < looked → ∃ w ∈ m.stores, w.1 = u32 (buf + i)

/-- `ls` for its caller -/
structure LsOk (toc : List TocEntry) (buf : Nat) (size : Int)
    (res : Except ProtMem (ProtMem × Int)) : Prop where
  inside : ∀ w ∈ (finalMem res).stores, ∃ o : Nat, (o : Int) < size ∧ w.1 = u32 (buf + o)
  negative : size < (lsEncode (tocNames toc)).length → ∃ m n, res = .ok (m, n) ∧ n < 0
  decodes : ∀ m n, res = .ok (m, n) → 0 ≤ n → n = toc.length ∧ Decodes toc buf m

/-! ## the entries that fit -/

section
variable {size : Int}

theorem lsFitting_le (toc : List TocEntry) (offset : Nat) :
    lsFitting size offset toc = [] ∨
      ((offset + (lsEncode (tocNames (lsFitting size offset toc))).length : Nat) : Int) ≤ size := by
  induction toc generalizing offset with
  | nil => exact .inl rfl
  | cons e toc ih =>
    unfold lsFitting
    split
    · exact .inl rfl
    · rename_i hfit
      right
      rw [tocEncode_cons, List.length_append, List.length_append, List.length_singleton]
      rcases ih (offset + e.execname.length + 1) with h | h
      · rw [h]
        show ((offset + (e.execname.length + 1 + 0) : Nat) : Int) ≤ size
        omega
      · omega

theorem tocEncode_length (e : TocEntry) (toc : List TocEntry) :
    (lsEncode (tocNames (e :: toc))).length =
      e.execname.length + 1 + (lsEncode (tocNames toc)).length := by
  rw [tocEncode_cons, List.length_append, List.length_append, List.length_singleton]

theorem lsFits_cons (e : TocEntry) (toc : List TocEntry) (offset : Nat) :
    LsFits size offset (e :: toc) ↔
      ((offset + e.execname.length + 1 : Nat) : Int) ≤ size ∧
        LsFits size (offset + e.execname.length + 1) toc := by
  unfold LsFits
  rw [tocEncode_length]
  constructor
  · rintro (hc | hle)
    · exact nomatch hc
    · exact ⟨by omega, .inr (by omega)⟩
  · rintro ⟨hle, rfl | hrest⟩
    · right
      show ((offset + (e.execname.length + 1 + 0) : Nat) : Int) ≤ size
      omega
    · right
      omega

/-- all of them are written -/
theorem lsFitting_of_fits (toc : List TocEntry) (offset : Nat) (h : LsFits size offset toc) :
    lsFitting size offset toc = toc := by
  induction toc generalizing offset with
  | nil => rfl
  | cons e toc ih =>
    obtain ⟨hle, hrest⟩ := (lsFits_cons e toc offset).mp h
    unfold lsFitting
    rw [if_neg (Int.not_lt.mpr hle), ih _ hrest]

theorem lsWritten_le (toc : List TocEntry) :
    lsWritten size toc = [] ∨ ((lsWritten size toc).length : Int) ≤ size := by
  unfold lsWritten
  rcases @lsFitting_le size toc 0 with h | h
  · rw [h]
    exact .inl rfl
  · rw [Nat.zero_add] at h
    exact .inr h

end

/-! ## what the writer leaves -/

section
variable {m₀ m m' : ProtMem} {size : Int} {bound argpkt buf byte : Nat} {kept name : List Nat}

/-- in the loop: what is kept lies at the front of the buffer, in pages that may be written, nothing
was stored behind it, and what was not stored is as it was -/
structure Listed (m₀ : ProtMem) (bound argpkt buf : Nat) (kept : List Nat) (m : ProtMem) :
    Prop extends Typed m₀ bound argpkt buf kept m where
  written : ∀ w ∈ m.stores, ∃ o, o < kept.length ∧ w.1 = u32 (buf + o)
  frame : ∀ a, (∀ w ∈ m.stores, w.1 ≠ a) → m.val a = m₀.val a
  writable : BufWritable m₀ buf kept.length

/-- a store of the loop faulted -/
structure Faulted (m₀ : ProtMem) (bound buf : Nat) (m : ProtMem) : Prop where
  inside : ∀ w ∈ m.stores, ∃ o, o < bound ∧ w.1 = u32 (buf + o)
  page : ¬ BufWritable m₀ buf bound

/-- the bytes `kept` are copied, or a store faulted -/
def BytesCopied (m₀ : ProtMem) (bound argpkt buf : Nat) (kept : List Nat) :
    Except ProtMem ProtMem → Prop
  | .error m => Faulted m₀ bound buf m
  | .ok m => Listed m₀ bound argpkt buf kept m

theorem Listed.faulted (h : Listed m₀ bound argpkt buf kept m) (ho : kept.length < bound)
    (hw : m₀.writable (u32 (buf + kept.length) / pageSize) = false) : Faulted m₀ bound buf m where
  inside := h.inside
  page hb := by
    rw [hb _ ho] at hw
    exact Bool.noConfusion hw

theorem Listed.push (h : Listed m₀ bound argpkt buf kept m) (hsep : PointerApart argpkt buf bound)
    (ho : kept.length < bound) (hsize : bound < 2^31)
    (hset : m.set (buf + kept.length) byte = some m') :
    Listed m₀ bound argpkt buf (kept ++ [byte]) m' := by
  obtain ⟨hval, hst⟩ := ProtMem.set_some hset
  have hlen : (kept ++ [byte]).length = kept.length + 1 := List.length_append
  refine ⟨h.toTyped.push hsep ho hsize hset, fun w hw => ?_, fun a ha => ?_, fun o hlt => ?_⟩
  · rw [hlen]
    rw [hst] at hw
    rcases List.mem_cons.mp hw with rfl | hw
    · exact ⟨kept.length, Nat.lt_succ_self _, rfl⟩
    · obtain ⟨o, ho, he⟩ := h.written w hw
      exact ⟨o, Nat.lt_succ_of_lt ho, he⟩
  · rw [hst] at ha
    have hne : a ≠ u32 (buf + kept.length) := fun hc => ha _ List.mem_cons_self hc.symm
    rw [hval, Function.update_of_ne hne]
    exact h.frame a fun w hw => ha w (List.mem_cons_of_mem _ hw)
  · rw [hlen] at hlt
    rcases Nat.lt_succ_iff_lt_or_eq.mp hlt with hlt | rfl
    · exact h.writable o hlt
    · rw [← h.pages]
      by_contra hw
      have hnone : m.set (buf + kept.length) byte = none := if_neg hw
      rw [hnone] at hset
      exact nomatch hset

theorem Listed.copyByte (h : Listed m₀ bound argpkt buf kept m)
    (hsep : PointerApart argpkt buf bound) (ho : kept.length < bound) (hsize : bound < 2^31)
    (byte : Nat) : BytesCopied m₀ bound argpkt buf (kept ++ [byte])
      (copyToUserByte byte (buf + kept.length) m) := by
  unfold copyToUserByte
  cases hset : m.set (buf + kept.length) byte with
  | none =>
    refine h.faulted ho ?_
    rw [← h.pages]
    exact ProtMem.set_none hset
  | some m' => exact h.push hsep ho hsize hset

theorem Listed.copyBuf (hsep : PointerApart argpkt buf bound) (hsize : bound < 2^31)
    (name : List Nat) (h : Listed m₀ bound argpkt buf kept m)
    (ho : kept.length + name.length ≤ bound) : BytesCopied m₀ bound argpkt buf (kept ++ name)
      (copyToUserBuf name (buf + kept.length) m) := by
  induction name generalizing kept m with
  | nil =>
    rw [List.append_nil]
    exact h
  | cons c name ih =>
    rw [List.length_cons] at ho
    have h1 := h.copyByte hsep (by omega) hsize c
    unfold copyToUserBuf
    generalize copyToUserByte c (buf + kept.length) m = r at h1
    cases r with
    | error m' => exact h1
    | ok m' =>
      have hlen : (kept ++ [c]).length = kept.length + 1 := List.length_append
      have h1 : Listed m₀ bound argpkt buf (kept ++ [c]) m' := h1
      have h2 := ih h1 (by omega)
      rw [List.append_assoc, hlen] at h2
      exact h2

/-- one entry -/
theorem Listed.entry (hsep : PointerApart argpkt buf bound) (hsize : bound < 2^31)
    (name : List Nat) (h : Listed m₀ bound argpkt buf kept m)
    (ho : kept.length + name.length + 1 ≤ bound)
    (hfit : ((kept.length + name.length + 1 : Nat) : Int) ≤ size) :
    BytesCopied m₀ bound argpkt buf (kept ++ (name ++ [0]))
      (lsEntry size argpkt kept.length name m) := by
  have h1 := h.copyBuf hsep hsize name (by omega)
  have hlen : (kept ++ name).length = kept.length + name.length := List.length_append
  unfold lsEntry copyBufToUserArgpktBuf
  rw [h.pointer]
  dsimp only
  generalize copyToUserBuf name (buf + kept.length) m = r at h1
  cases r with
  | error m' => exact h1
  | ok m₁ =>
    have h1 : Listed m₀ bound argpkt buf (kept ++ name) m₁ := h1
    have hlt : (((kept ++ name).length : Nat) : Int) < size := by omega
    show BytesCopied _ _ _ _ _ (copyCharToUserArgpktBuf 0 (kept.length + name.length) size argpkt 1 m₁)
    rw [← hlen, ← List.append_assoc]
    rcases h1.copyChar hlt 0 with ⟨hcopy, hw⟩ | ⟨m₂, hcopy, hset⟩
    · rw [hcopy]
      exact h1.faulted (by omega) hw
    · rw [hcopy]
      exact h1.push hsep (by omega) hsize hset

/-- the entries that fit are written, or a store faulted -/
def LsWrote (m₀ : ProtMem) (bound argpkt buf : Nat) (kept : List Nat) (rc : Int) :
    Except ProtMem (ProtMem × Int) → Prop
  | .error m => Faulted m₀ bound buf m
  | .ok r => Listed m₀ bound argpkt buf kept r.1 ∧ r.2 = rc

/-- **the loop of ls** writes the entries that fit, and counts them if all of them do -/
theorem lsLoop_spec (hsep : PointerApart argpkt buf bound) (hsize : bound < 2^31)
    (toc : List TocEntry) (n : Nat) (h : Listed m₀ bound argpkt buf kept m)
    (ho : kept.length + (lsEncode (tocNames (lsFitting size kept.length toc))).length ≤ bound) :
    LsWrote m₀ bound argpkt buf (kept ++ lsEncode (tocNames (lsFitting size kept.length toc)))
      (if LsFits size kept.length toc then ((n + toc.length : Nat) : Int) else -1)
      (lsLoop size argpkt toc kept.length n m) := by
  induction toc generalizing kept m n with
  | nil =>
    show Listed m₀ bound argpkt buf (kept ++ []) m ∧ _
    rw [List.append_nil]
    exact ⟨h, (if_pos (.inl rfl)).symm⟩
  | cons e toc ih =>
    have hcons := @lsFits_cons size e toc kept.length
    unfold lsLoop lsFitting
    unfold lsFitting at ho
    dsimp only
    by_cases hover : ((kept.length + e.execname.length + 1 : Nat) : Int) > size
    · have hno : ¬ LsFits size kept.length (e :: toc) := fun hc =>
        absurd (hcons.mp hc).1 (Int.not_le.mpr hover)
      rw [if_pos hover, if_pos hover, if_neg hno]
      show Listed m₀ bound argpkt buf (kept ++ []) m ∧ _
      rw [List.append_nil]
      exact ⟨h, rfl⟩
    · have hle : ((kept.length + e.execname.length + 1 : Nat) : Int) ≤ size := Int.not_lt.mp hover
      rw [if_neg hover, tocEncode_length] at ho
      rw [if_neg hover, if_neg hover, tocEncode_cons]
      have h1 := h.entry hsep hsize e.execname (by omega) hle
      generalize lsEntry size argpkt kept.length e.execname m = r at h1
      cases r with
      | error m' => exact h1
      | ok m' =>
        have hlen : (kept ++ (e.execname ++ [0])).length = kept.length + e.execname.length + 1 := by
          rw [List.length_append, List.length_append, List.length_singleton, Nat.add_assoc]
        have hfits := hcons.trans (and_iff_right hle)
        have hcount : n + 1 + toc.length = n + (e :: toc).length := by
          rw [List.length_cons]
          omega
        rw [← hlen] at ho hfits ⊢
        have h2 := ih (n + 1) h1 (by omega)
        rw [List.append_assoc, hcount] at h2
        rw [if_congr hfits rfl rfl]
        exact h2

end

/-! ## what the reader finds -/

section
variable {mem : Nat → Nat} {a fuel : Nat}

/-- the bytes from `a` on -/
def TextAt (mem : Nat → Nat) (a : Nat) (l : List Nat) : Prop :=
  ∀ j c, l[j]? = some c → mem (u32 (a + j)) = c

theorem TextAt.left {l l' : List Nat} (h : TextAt mem a (l ++ l')) : TextAt mem a l := by
  intro j c hj
  exact h j c (by rw [List.getElem?_append_left (List.getElem?_eq_some_iff.mp hj).1, hj])

theorem TextAt.right {l l' : List Nat} (h : TextAt mem a (l ++ l')) :
    TextAt mem (a + l.length) l' := by
  intro j c hj
  rw [Nat.add_assoc]
  exact h (l.length + j) c (by
    rw [List.getElem?_append_right (Nat.le_add_right _ _), Nat.add_sub_cancel_left, hj])

theorem userStrlen_name (name : List Nat) (hnz : ∀ c ∈ name, c ≠ 0) (h : TextAt mem a (name ++ [0]))
    (hfuel : name.length < fuel) : userStrlen fuel mem a = some name.length := by
  induction name generalizing a fuel with
  | nil =>
    obtain ⟨fuel, rfl⟩ : ∃ n, fuel = n + 1 := ⟨fuel - 1, by omega⟩
    have h0 : mem (u32 a) = 0 := h 0 0 rfl
    unfold userStrlen
    rw [if_pos h0]
    rfl
  | cons c name ih =>
    obtain ⟨fuel, rfl⟩ : ∃ n, fuel = n + 1 := ⟨fuel - 1, by omega⟩
    have h0 : mem (u32 a) = c := h 0 c rfl
    have hc : c ≠ 0 := hnz c List.mem_cons_self
    have hrest : TextAt mem (a + 1) (name ++ [0]) := TextAt.right (l := [c]) h
    rw [List.length_cons] at hfuel
    have h1 : userStrlen fuel mem (a + 1) = some name.length :=
      ih (fun d hd => hnz d (List.mem_cons_of_mem c hd)) hrest (by omega)
    unfold userStrlen
    rw [if_neg (h0 ▸ hc), h1]
    rfl

theorem range_text {l : List Nat} (h : TextAt mem a l) :
    ((List.range l.length).map fun i => mem (u32 (a + i))) = l := by
  refine List.ext_getElem? fun i => ?_
  rw [List.getElem?_map]
  by_cases hi : i < l.length
  · rw [List.getElem?_range hi, Option.map_some, h i l[i] (List.getElem?_eq_getElem hi),
      List.getElem?_eq_getElem hi]
  · rw [List.getElem?_eq_none (by rw [List.length_range]; omega), List.getElem?_eq_none (by omega)]
    rfl

theorem printLsScan_name {k : Nat} (h : userStrlen (2^32) mem a = some (k + 1)) :
    printLsScan (fuel + 1) mem a = (printLsScan fuel mem (a + (k + 1 + 1))).map fun r =>
      ((List.range (k + 1)).map (fun i => mem (u32 (a + i))) :: r.1, k + 1 + 1 + r.2) := by
  rw [printLsScan, h]
  rfl

/-- **the reader over a list** finds its names, and goes on behind it -/
theorem scan_encode (l : List (List Nat)) (hl : ∀ name ∈ l, name ≠ [] ∧ name.length < 256 ∧
    ∀ c ∈ name, c ≠ 0) (h : TextAt mem a (lsEncode l)) :
    printLsScan (fuel + l.length) mem a =
      (printLsScan fuel mem (a + (lsEncode l).length)).map fun r =>
        (l ++ r.1, (lsEncode l).length + r.2) := by
  induction l generalizing a with
  | nil =>
    show printLsScan fuel mem a = (printLsScan fuel mem a).map fun r => ([] ++ r.1, 0 + r.2)
    simp only [List.nil_append, Nat.zero_add]
    rw [Option.map_id']
  | cons name l ih =>
    obtain ⟨hne, hlen, hnz⟩ := hl name List.mem_cons_self
    rw [lsEncode_cons] at h
    have h1 := h.left
    have h2 := h.right
    have hname : (name ++ [0]).length = name.length + 1 := List.length_append
    rw [hname] at h2
    obtain ⟨k, hk⟩ : ∃ k, name.length = k + 1 :=
      ⟨name.length - 1, by have := List.length_pos_of_ne_nil hne; omega⟩
    have hstr : userStrlen (2^32) mem a = some (k + 1) := by
      rw [← hk]
      exact userStrlen_name name hnz h1 (by omega)
    have htext : ((List.range (k + 1)).map fun i => mem (u32 (a + i))) = name := by
      rw [← hk]
      exact range_text h1.left
    have hrest := ih (fun n hn => hl n (List.mem_cons_of_mem name hn)) h2
    rw [lsEncode_cons, List.length_cons, ← Nat.add_assoc, printLsScan_name hstr, htext, ← hk, hrest,
      Option.map_map, List.length_append, hname, Nat.add_assoc a]
    congr 1
    funext r
    show (name :: (l ++ r.1), name.length + 1 + ((lsEncode l).length + r.2)) = _
    rw [Nat.add_assoc (name.length + 1)]
    rfl

/-- the byte that ends the scan is looked at -/
theorem scan_looked {l : List (List Nat)} {k : Nat} (h : printLsScan fuel mem a = some (l, k)) :
    0 < k := by
  cases fuel with
  | zero => exact absurd h.symm (Option.some_ne_none _)
  | succ fuel =>
    unfold printLsScan at h
    split at h
    · exact absurd h.symm (Option.some_ne_none _)
    · cases h
      exact Nat.one_pos
    · obtain ⟨r, -, hr⟩ := Option.map_eq_some_iff.mp h
      cases hr
      omega

/-- the reader stops at once on an empty string, and only there -/
theorem scan_nil : (∃ k, printLsScan (fuel + 1) mem a = some ([], k)) ↔ mem (u32 a) = 0 := by
  unfold printLsScan
  constructor
  · rintro ⟨k, h⟩
    split at h
    · exact absurd h.symm (Option.some_ne_none _)
    · rename_i hlen
      obtain ⟨n, hn⟩ : ∃ n, 2^32 = n + 1 := ⟨2^32 - 1, by decide⟩
      rw [hn] at hlen
      unfold userStrlen at hlen
      split at hlen
      · assumption
      · obtain ⟨n, -, hn⟩ := Option.map_eq_some_iff.mp hlen
        exact absurd hn (Nat.succ_ne_zero n)
    · obtain ⟨r, -, hr⟩ := Option.map_eq_some_iff.mp h
      exact absurd (congrArg Prod.fst hr) (List.cons_ne_nil _ _)
  · intro h
    have hlen : userStrlen (2^32) mem a = some 0 :=
      userStrlen_name [] (fun c hc => absurd hc List.not_mem_nil) (fun j c hj => by
        obtain ⟨hlt, rfl⟩ := List.getElem?_eq_some_iff.mp hj
        obtain rfl : j = 0 := Nat.lt_one_iff.mp hlt
        exact h) (by decide)
    rw [hlen]
    exact ⟨1, rfl⟩

end

/-! ## ls and its reader -/

section
variable {toc : List TocEntry} {m m' : ProtMem} {sysarg buf : Nat} {size n : Int}

theorem tocNames_ok (hne : ∀ e ∈ toc, e.execname ≠ []) :
    ∀ name ∈ tocNames toc, name ≠ [] ∧ name.length < 256 ∧ ∀ c ∈ name, c ≠ 0 := by
  intro name hn
  obtain ⟨e, he, rfl⟩ := List.mem_map.mp hn
  exact ⟨hne e he, e.name_lt, e.name_chars⟩

theorem length_le_encode (l : List (List Nat)) : l.length ≤ (lsEncode l).length := by
  induction l with
  | nil => exact Nat.le_refl 0
  | cons name l ih =>
    rw [lsEncode_cons, List.length_cons, List.length_append, List.length_append,
      List.length_singleton]
    omega

theorem LsArgs.written_lt (h : LsArgs m sysarg buf size) (toc : List TocEntry) :
    (lsWritten size toc).length < 2^31 := by
  have hlt : size < 2^31 := copyUserInt_lt h.size_arg
  rcases @lsWritten_le size toc with hw | hw
  · rw [hw]
    decide
  · omega

/-- **the call** writes the entries that fit, or faults -/
theorem sysLs_spec (h : LsArgs m sysarg buf size)
    (hsep : PointerApart sysarg buf (lsWritten size toc).length) :
    LsWrote m (lsWritten size toc).length sysarg buf (lsWritten size toc)
      (if LsFits size 0 toc then (toc.length : Int) else -1) (sysLs toc m sysarg) := by
  have h0 : Listed m (lsWritten size toc).length sysarg buf [] m :=
    { pointer := h.buf_arg
      pages := rfl
      inside := fun w hw => absurd hw (h.start ▸ List.not_mem_nil)
      text := nofun
      written := fun w hw => absurd hw (h.start ▸ List.not_mem_nil)
      frame := fun _ _ => rfl
      writable := nofun }
  have hloop := lsLoop_spec hsep (h.written_lt toc) toc 0 h0 (Nat.le_of_eq (Nat.zero_add _))
  rw [Nat.zero_add] at hloop
  unfold sysLs
  rw [h.size_arg]
  exact hloop

theorem lsWritten_of_fits (hfit : LsFits size 0 toc) :
    lsWritten size toc = lsEncode (tocNames toc) := by
  unfold lsWritten
  rw [lsFitting_of_fits toc 0 hfit]

/-- behind a list that was written the reader looks at a byte that was not, and finds the names if
it is zero -/
theorem scan_listed (hne : ∀ e ∈ toc, e.execname ≠ [])
    (hlt : (lsEncode (tocNames toc)).length < 2^31)
    (h : Listed m (lsEncode (tocNames toc)).length sysarg buf (lsEncode (tocNames toc)) m') :
    ¬ Decodes toc buf m' ∧
      ((∃ looked, printLsScan (2^32) m'.val buf = some (tocNames toc, looked)) ↔
        m.val (u32 (buf + (lsEncode (tocNames toc)).length)) = 0) := by
  have hnames := tocNames_ok hne
  have hle := length_le_encode (tocNames toc)
  obtain ⟨l, hl⟩ : ∃ l, l = tocNames toc := ⟨_, rfl⟩
  obtain ⟨fuel, hfuel⟩ : ∃ fuel, 2^32 = fuel + 1 + l.length :=
    ⟨2^32 - 1 - l.length, by rw [hl]; omega⟩
  -- the byte behind the list
  have hout : ∀ w ∈ m'.stores, w.1 ≠ u32 (buf + (lsEncode (tocNames toc)).length) := by
    intro w hw hc
    obtain ⟨o, ho, he⟩ := h.written w hw
    have := u32_add_inj (by omega) hlt (he.symm.trans hc)
    omega
  unfold Decodes
  rw [← hl] at hnames hout h ⊢
  have hscan : printLsScan (fuel + 1 + l.length) m'.val buf = _ := scan_encode l hnames h.text
  rw [hfuel]
  constructor
  · rintro ⟨looked, hr, hw⟩
    rw [hscan] at hr
    obtain ⟨r, hr, he⟩ := Option.map_eq_some_iff.mp hr
    have hpos := scan_looked hr
    have hlooked : (lsEncode l).length + r.2 = looked := congrArg Prod.snd he
    obtain ⟨w, hw, hwa⟩ := hw (lsEncode l).length (by omega)
    exact hout w hw hwa
  · rw [hscan, ← h.frame _ hout, ← @scan_nil m'.val (buf + (lsEncode l).length) fuel]
    constructor
    · rintro ⟨looked, hr⟩
      obtain ⟨r, hr, he⟩ := Option.map_eq_some_iff.mp hr
      have hnil : r.1 = [] := List.append_right_eq_self.mp (congrArg Prod.fst he)
      exact ⟨r.2, by rw [hr, ← hnil]⟩
    · rintro ⟨k, hk⟩
      refine ⟨(lsEncode l).length + k, ?_⟩
      rw [hk, Option.map_some, List.append_nil]

theorem stores_inside (h : ∀ w ∈ m.stores, ∃ o, o < (lsWritten size toc).length ∧ w.1 = u32 (buf + o)) :
    ∀ w ∈ m.stores, ∃ o : Nat, (o : Int) < size ∧ w.1 = u32 (buf + o) := by
  intro w hw
  obtain ⟨o, ho, he⟩ := h w hw
  refine ⟨o, ?_, he⟩
  rcases @lsWritten_le size toc with hnil | hle
  · rw [hnil] at ho
    exact absurd ho (Nat.not_lt_zero o)
  · omega

/-- **ls and its reader** get along only where the names do not fit, or nothing is returned: `sys_ls`
writes no empty string at the end, and the reader looks for one behind the list.  What it reads are
the names if the byte there happens to be zero -/
theorem ls_decodes_iff (hne : ∀ e ∈ toc, e.execname ≠ []) (h : LsArgs m sysarg buf size)
    (hsep : PointerApart sysarg buf (lsWritten size toc).length) :
    (LsOk toc buf size (sysLs toc m sysarg) ↔
      (¬ LsFits size 0 toc ∧ BufWritable m buf (lsWritten size toc).length) ∨
        (LsFits size 0 toc ∧ ¬ BufWritable m buf (lsEncode (tocNames toc)).length)) ∧
    ∀ m' n, sysLs toc m sysarg = .ok (m', n) → 0 ≤ n →
      ((∃ looked, printLsScan (2^32) m'.val buf = some (tocNames toc, looked)) ↔
        m.val (u32 (buf + (lsEncode (tocNames toc)).length)) = 0) := by
  have hspec := sysLs_spec h hsep
  have hlt := h.written_lt toc
  generalize sysLs toc m sysarg = res at hspec
  by_cases hfit : LsFits size 0 toc
  · -- the list is written, or a store faulted
    rw [if_pos hfit, lsWritten_of_fits hfit] at hspec
    rw [lsWritten_of_fits hfit] at hlt
    cases res with
    | error m' =>
      have hf : Faulted m (lsEncode (tocNames toc)).length buf m' := hspec
      refine ⟨⟨fun _ => .inr ⟨hfit, hf.page⟩, fun _ => ?_⟩, nofun⟩
      rw [← lsWritten_of_fits hfit] at hf
      refine ⟨stores_inside hf.inside, fun hneg => ?_, nofun⟩
      rcases hfit with rfl | hle
      · exact absurd (fun o ho => absurd ho (Nat.not_lt_zero o)) hf.page
      · rw [Nat.zero_add] at hle
        exact absurd hneg (Int.not_lt.mpr hle)
    | ok r =>
      obtain ⟨m', n⟩ := r
      obtain ⟨hlist, hn⟩ : Listed m _ sysarg buf (lsEncode (tocNames toc)) m' ∧ n = _ := hspec
      have hpos : 0 ≤ n := hn ▸ Int.natCast_nonneg _
      obtain ⟨hnot, hscan⟩ := scan_listed hne hlt hlist
      refine ⟨⟨fun hok => absurd (hok.decodes m' n rfl hpos).2 hnot, ?_⟩, ?_⟩
      · rintro (⟨hno, -⟩ | ⟨-, hw⟩)
        · exact absurd hfit hno
        · exact absurd hlist.writable hw
      · intro _ _ he _
        cases he
        exact hscan
  · -- the call fails, or a store faulted before
    rw [if_neg hfit] at hspec
    obtain ⟨-, hover⟩ := not_or.mp hfit
    rw [Nat.zero_add] at hover
    cases res with
    | error m' =>
      have hf : Faulted m (lsWritten size toc).length buf m' := hspec
      refine ⟨⟨fun hok => ?_, ?_⟩, nofun⟩
      · obtain ⟨_, _, hret, -⟩ := hok.negative (Int.not_le.mp hover)
        exact nomatch hret
      · rintro (⟨-, hw⟩ | ⟨hyes, -⟩)
        · exact absurd hw hf.page
        · exact absurd hyes hfit
    | ok r =>
      obtain ⟨m', n⟩ := r
      obtain ⟨hlist, hn⟩ : Listed m _ sysarg buf (lsWritten size toc) m' ∧ n = -1 := hspec
      have hneg : n < 0 := by omega
      refine ⟨⟨fun _ => .inl ⟨hfit, hlist.writable⟩, fun _ => ?_⟩, ?_⟩
      · refine ⟨stores_inside hlist.inside, fun _ => ⟨m', n, rfl, hneg⟩, fun _ _ he hpos => ?_⟩
        cases he
        exact absurd hneg (Int.not_lt.mpr hpos)
      · intro _ _ he hpos
        cases he
        exact absurd hneg (Int.not_lt.mpr hpos)

end

/-- eight characters and a terminator for a buffer of eight bytes -/
def eightChars : TocEntry := { eightBytes with
  execname := [97, 98, 99, 100, 101, 102, 103, 104]
  name_lt := by decide
  name_chars := by decide }

/-- the first name is written, the second one does not fit -/
theorem ls_decodes_iff_eight :
    LsOk [eightBytes, eightChars] 0x2000 8
      (sysLs [eightBytes, eightChars] (packetMem 0x2000) 0x1000) := by
  have h : ReadlineArgs (packetMem 0x2000) 0x1000 0x2000 8 := packetMem_args (by decide)
  refine (ls_decodes_iff (by decide) ⟨h.start, h.size_arg, h.buf_arg⟩ ?_).1.mpr
    (.inl ⟨by decide, ?_⟩)
  · unfold PointerApart
    decide
  · unfold BufWritable
    decide

/-- a buffer with something in it -/
def staleMem : ProtMem :=
  { packetMem 0x2000 with val := Function.update (packetMem 0x2000).val 0x2002 120 }

/-- `a` is written, and the reader goes on into what was there -/
theorem ls_reads_stale_name :
    LsArgs staleMem 0x1000 0x2000 8 ∧
      ¬ LsOk [eightBytes] 0x2000 8 (sysLs [eightBytes] staleMem 0x1000) := by
  have hargs : LsArgs staleMem 0x1000 0x2000 8 := ⟨rfl, by decide, by decide⟩
  have hsep : PointerApart 0x1000 0x2000 (lsWritten 8 [eightBytes]).length := by
    unfold PointerApart
    decide
  refine ⟨hargs, fun hok => ?_⟩
  have hspec := sysLs_spec hargs hsep
  generalize sysLs [eightBytes] staleMem 0x1000 = res at hspec hok
  cases res with
  | error m' =>
    have hf : Faulted staleMem _ 0x2000 m' := hspec
    exact hf.page (by unfold BufWritable; decide)
  | ok r =>
    obtain ⟨hlist, hn⟩ : Listed staleMem _ 0x1000 0x2000 (lsWritten 8 [eightBytes]) r.1 ∧ r.2 = _ :=
      hspec
    rw [if_pos (.inr (by decide))] at hn
    rw [lsWritten_of_fits (.inr (by decide))] at hlist
    exact (scan_listed (by decide) (by decide) hlist).1
      (hok.decodes r.1 r.2 rfl (hn ▸ Int.natCast_nonneg _)).2

end Paravirt

import Paravirt.VmArea
import Paravirt.VmAlloc

/-!
# The section table of an executable (410kern/elf/load_helper.c)

The headers are read from the bytes of the file, at the offsets of `Elf32_Ehdr` and `Elf32_Shdr`;
the fields no function here reads are left out.

* `ExecFile.readBytes`     one call of `getbytes`: `none` when its `memcpy` would be given a
                           negative length, `some none` when fewer bytes come than were asked for;
* `strcmpEq`               `strcmp(name, &tab[i]) == 0`; `none` when it runs past the table;
* `sectionKind`            the chain of `strcmp`s of the loop, for one header;
* `scanSections`           the loop;
* `elfLoadHelper`          the function; the outer `none` is a read outside a buffer, the inner one
                           `ELF_NOTELF`.
-/

set_option linter.unusedVariables false

namespace Paravirt

/-! ## headers -/

def ExecFile.half (f : ExecFile) (off : Int) : Nat := f.execbytes off + 256 * f.execbytes (off + 1)

def ExecFile.word (f : ExecFile) (off : Int) : Nat := f.half off + 65536 * f.half (off + 2)

structure Elf32Ehdr where
  eEntry : Nat
  eShoff : Nat
  eShnum : Nat
  eShstrndx : Nat

structure Elf32Shdr where
  shName : Nat
  shAddr : Nat
  shOffset : Nat
  shSize : Nat
  deriving DecidableEq, Repr

def sizeofEhdr : Nat := 52
def sizeofShdr : Nat := 40

def ExecFile.ehdr (f : ExecFile) : Elf32Ehdr :=
  ⟨f.word 24, f.word 32, f.half 48, f.half 50⟩

def ExecFile.shdr (f : ExecFile) (off : Int) : Elf32Shdr :=
  ⟨f.word off, f.word (off + 12), f.word (off + 16), f.word (off + 20)⟩

/-- `elf_sec_hdrs` -/
def ExecFile.shdrs (f : ExecFile) : List Elf32Shdr :=
  (List.range f.ehdr.eShnum).map fun i => f.shdr (toInt f.ehdr.eShoff + (i * sizeofShdr : Nat))

def ExecFile.readBytes (f : ExecFile) (offset size : Nat) : Option (Option (List Nat)) :=
  let ret := getbytesCount (some f) offset size
  if ret < 0 then none
  else if ret ≠ size then some none
  else some (some ((List.range size).map fun i => f.execbytes (toInt offset + (i : Nat))))

/-! ## names -/

inductive SectionKind where
  | text | rodata | data | bss
  deriving DecidableEq, Repr

instance {p : SectionKind → Prop} [DecidablePred p] : Decidable (∀ k, p k) :=
  decidable_of_iff (p .text ∧ p .rodata ∧ p .data ∧ p .bss)
    ⟨fun h k => by cases k <;> simp [h], fun h => ⟨h _, h _, h _, h _⟩⟩

/-- `".text"`, `".rodata"`, `".data"`, `".bss"` -/
def SectionKind.name : SectionKind → List Nat
  | .text => [46, 116, 101, 120, 116]
  | .rodata => [46, 114, 111, 100, 97, 116, 97]
  | .data => [46, 100, 97, 116, 97]
  | .bss => [46, 98, 115, 115]

def strcmpEq : List Nat → List Nat → Option Bool
  | _, [] => none
  | [], b :: _ => some (b == 0)
  | c :: name, b :: tab => if b = c then strcmpEq name tab else some false

/-- the first of the kinds whose name is the string at `sh_name`; what else is compared only
decides whether a message is printed -/
def firstKind (tab : List Nat) : List SectionKind → Option (Option SectionKind)
  | [] => some none
  | k :: ks =>
    match strcmpEq k.name tab with
    | none => none
    | some true => some (some k)
    | some false => firstKind tab ks

def sectionKind (shstrtab : List Nat) (sh : Elf32Shdr) : Option (Option SectionKind) :=
  if sh.shName = 0 then some none
  else firstKind (shstrtab.drop sh.shName) [.text, .rodata, .data, .bss]

/-! ## the simplified header -/

structure SimpleElf where
  eEntry : Nat
  eTxtoff : Nat
  eTxtlen : Nat
  eTxtstart : Nat
  eDatoff : Nat
  eDatlen : Nat
  eDatstart : Nat
  eRodatoff : Nat
  eRodatlen : Nat
  eRodatstart : Nat
  eBsslen : Nat

/-- after `memset`, with the entry point filled in -/
def SimpleElf.init (eEntry : Nat) : SimpleElf := ⟨eEntry, 0, 0, 0, 0, 0, 0, 0, 0, 0, 0⟩

/-- the assignments of one branch of the loop; a `.bss` header gives its size only -/
def SimpleElf.record (se : SimpleElf) (sh : Elf32Shdr) : SectionKind → SimpleElf
  | .text => { se with eTxtoff := sh.shOffset, eTxtlen := sh.shSize, eTxtstart := sh.shAddr }
  | .rodata =>
    { se with eRodatoff := sh.shOffset, eRodatlen := sh.shSize, eRodatstart := sh.shAddr }
  | .data => { se with eDatoff := sh.shOffset, eDatlen := sh.shSize, eDatstart := sh.shAddr }
  | .bss => { se with eBsslen := sh.shSize }

def scanSections (shstrtab : List Nat) : List Elf32Shdr → SimpleElf → Option SimpleElf
  | [], se => some se
  | sh :: shs, se =>
    match sectionKind shstrtab sh with
    | none => none
    | some none => scanSections shstrtab shs se
    | some (some k) => scanSections shstrtab shs (se.record sh k)

/-- `elf_load_helper` -/
def elfLoadHelper (heap : List Nat) (f : Option ExecFile) : Option (List Nat × Option SimpleElf) :=
  match f with
  | none => some (heap, none)
  | some f =>
    match f.readBytes 0 sizeofEhdr with
    | none => none
    | some none => some (heap, none)
    | some (some _) =>
      let (secHdrs, heap) := malloc heap
      if secHdrs = 0 then some (heap, none)
      else
        match f.readBytes f.ehdr.eShoff (f.ehdr.eShnum * sizeofShdr) with
        | none => none
        | some none => some (heap, none)
        | some (some _) =>
          match f.shdrs[f.ehdr.eShstrndx]? with
          | none => none
          | some str =>
            let (strtab, heap) := malloc heap
            if strtab = 0 then some (heap, none)
            else
              match f.readBytes str.shOffset str.shSize with
              | none => none
              | some none => some (heap, none)
              | some (some tab) =>
                match scanSections tab f.shdrs (SimpleElf.init f.ehdr.eEntry) with
                | none => none
                | some se => some (heap, some se)

/-! ## sections of an executable -/

/-- the section header string table of the file -/
def ExecFile.shstrtab (f : ExecFile) : List Nat :=
  match f.shdrs[f.ehdr.eShstrndx]? with
  | none => []
  | some str => (List.range str.shSize).map fun i => f.execbytes (toInt str.shOffset + (i : Nat))

/-- `sh` is a header of the file whose name is that of `k` -/
def ExecFile.IsSection (f : ExecFile) (k : SectionKind) (sh : Elf32Shdr) : Prop :=
  sh ∈ f.shdrs ∧ sh.shName ≠ 0 ∧ k.name ++ [0] <+: f.shstrtab.drop sh.shName

instance (f : ExecFile) (k : SectionKind) (sh : Elf32Shdr) : Decidable (f.IsSection k sh) :=
  inferInstanceAs (Decidable (_ ∧ _ ∧ _))

theorem strcmpEq_true {name tab : List Nat} :
    strcmpEq name tab = some true ↔ name ++ [0] <+: tab := by
  induction name generalizing tab with
  | nil => cases tab with
    | nil => simp [strcmpEq]
    | cons b tab =>
      simp only [strcmpEq, List.nil_append, List.cons_prefix_cons, List.nil_prefix, and_true,
        Option.some.injEq, beq_iff_eq]
      exact eq_comm
  | cons c name ih => cases tab with
    | nil => simp [strcmpEq]
    | cons b tab =>
      simp only [strcmpEq, List.cons_append, List.cons_prefix_cons]
      split
      · rename_i hb
        rw [ih]
        exact ⟨fun h => ⟨hb.symm, h⟩, fun h => h.2⟩
      · rename_i hb
        exact ⟨fun h => by simp at h, fun h => absurd h.1.symm hb⟩

/-- two strings that end at their first 0 and start at one place are equal -/
theorem cstring_unique {a b tab : List Nat} (ha : 0 ∉ a) (hb : 0 ∉ b) (h : a ++ [0] <+: tab)
    (h' : b ++ [0] <+: tab) : a = b := by
  induction a generalizing b tab with
  | nil => cases b with
    | nil => rfl
    | cons c b =>
      cases tab with
      | nil => simp at h
      | cons x tab =>
        have hx : 0 = x := (List.cons_prefix_cons.mp h).1
        have hc : c = x := (List.cons_prefix_cons.mp h').1
        exact absurd (hc.trans hx.symm ▸ List.mem_cons_self ..) hb
  | cons c a ih => cases b with
    | nil =>
      cases tab with
      | nil => simp at h
      | cons x tab =>
        have hx : 0 = x := (List.cons_prefix_cons.mp h').1
        have hc : c = x := (List.cons_prefix_cons.mp h).1
        exact absurd (hc.trans hx.symm ▸ List.mem_cons_self ..) ha
    | cons c' b =>
      cases tab with
      | nil => simp at h
      | cons x tab =>
        simp only [List.cons_append, List.cons_prefix_cons] at h h'
        obtain ⟨rfl, h⟩ := h
        obtain ⟨rfl, h'⟩ := h'
        simp only [List.mem_cons, not_or] at ha hb
        rw [ih ha.2 hb.2 h h']

theorem SectionKind.name_nonzero (k : SectionKind) : 0 ∉ k.name := by
  cases k <;> simp [SectionKind.name]

theorem SectionKind.name_injective {k k' : SectionKind} (h : k.name = k'.name) : k = k' := by
  cases k <;> cases k' <;> simp_all [SectionKind.name]

/-- a header whose name is that of `k` is taken for one of kind `k`, and no other is -/
theorem firstKind_some {tab : List Nat} {ks : List SectionKind} {r : Option SectionKind}
    (h : firstKind tab ks = some r) (k : SectionKind) (hk : k ∈ ks) :
    r = some k ↔ k.name ++ [0] <+: tab := by
  induction ks with
  | nil => simp at hk
  | cons k' ks ih =>
    simp only [firstKind] at h
    cases hc : strcmpEq k'.name tab with
    | none => simp [hc] at h
    | some b =>
      cases b with
      | true =>
        simp only [hc, Option.some.injEq] at h
        subst h
        have hp := strcmpEq_true.mp hc
        constructor
        · intro h
          injection h with h
          subst h
          exact hp
        · intro h
          rw [SectionKind.name_injective
            (cstring_unique k'.name_nonzero k.name_nonzero hp h)]
      | false =>
        simp only [hc] at h
        rcases List.mem_cons.mp hk with rfl | hk
        · have hn : ¬ k.name ++ [0] <+: tab := by
            intro hp
            rw [strcmpEq_true.mpr hp] at hc
            simp at hc
          refine ⟨fun hr => ?_, fun hp => absurd hp hn⟩
          exact absurd (firstKind_name h hr) hn
        · exact ih h hk
where
  firstKind_name {tab : List Nat} {ks : List SectionKind} {r : Option SectionKind}
      {k : SectionKind} (h : firstKind tab ks = some r) (hr : r = some k) :
      k.name ++ [0] <+: tab := by
    induction ks with
    | nil => simp [firstKind, hr] at h
    | cons k' ks ih =>
      simp only [firstKind] at h
      split at h
      · simp at h
      · rename_i hc
        simp only [hr, Option.some.injEq] at h
        subst h
        exact strcmpEq_true.mp hc
      · exact ih h

theorem sectionKind_some {f : ExecFile} {sh : Elf32Shdr} {r : Option SectionKind}
    (hm : sh ∈ f.shdrs) (h : sectionKind f.shstrtab sh = some r) (k : SectionKind) :
    r = some k ↔ f.IsSection k sh := by
  unfold sectionKind at h
  split at h
  · rename_i h0
    injection h with h
    subst h
    simp [ExecFile.IsSection, h0]
  · rename_i h0
    rw [firstKind_some h k (by cases k <;> simp)]
    simp [ExecFile.IsSection, hm, h0]

/-! ## what the scan finds -/

/-- the offset, length and address recorded for a kind -/
def SimpleElf.seg (se : SimpleElf) : SectionKind → Nat × Nat × Nat
  | .text => (se.eTxtoff, se.eTxtlen, se.eTxtstart)
  | .rodata => (se.eRodatoff, se.eRodatlen, se.eRodatstart)
  | .data => (se.eDatoff, se.eDatlen, se.eDatstart)
  | .bss => (0, se.eBsslen, 0)

/-- what a header of the kind gives -/
def Elf32Shdr.seg (sh : Elf32Shdr) : SectionKind → Nat × Nat × Nat
  | .bss => (0, sh.shSize, 0)
  | _ => (sh.shOffset, sh.shSize, sh.shAddr)

theorem SimpleElf.seg_record (se : SimpleElf) (sh : Elf32Shdr) (k k' : SectionKind) :
    (se.record sh k).seg k' = if k = k' then sh.seg k' else se.seg k' := by
  cases k <;> cases k' <;> rfl

/-- one of the headers scanned, where the kind was found, and the old value, where it was not -/
theorem scanSections_seg {tab : List Nat} {shs : List Elf32Shdr} {se se' : SimpleElf}
    (h : scanSections tab shs se = some se') (k : SectionKind) :
    (∃ sh ∈ shs, sectionKind tab sh = some (some k) ∧ se'.seg k = sh.seg k) ∨
    ((∀ sh ∈ shs, sectionKind tab sh ≠ some (some k)) ∧ se'.seg k = se.seg k) := by
  induction shs generalizing se with
  | nil =>
    simp only [scanSections, Option.some.injEq] at h
    subst h
    exact .inr ⟨by simp, rfl⟩
  | cons sh shs ih =>
    simp only [scanSections] at h
    split at h
    · simp at h
    · rename_i hk
      rcases ih h with ⟨s, hs, h1, h2⟩ | ⟨h1, h2⟩
      · exact .inl ⟨s, List.mem_cons_of_mem _ hs, h1, h2⟩
      · refine .inr ⟨fun s hs => ?_, h2⟩
        rcases List.mem_cons.mp hs with rfl | hs
        · simp [hk]
        · exact h1 s hs
    · rename_i k' hk
      rcases ih h with ⟨s, hs, h1, h2⟩ | ⟨h1, h2⟩
      · exact .inl ⟨s, List.mem_cons_of_mem _ hs, h1, h2⟩
      · rw [SimpleElf.seg_record] at h2
        by_cases e : k' = k
        · subst e
          rw [if_pos rfl] at h2
          exact .inl ⟨sh, List.mem_cons_self .., hk, h2⟩
        · rw [if_neg e] at h2
          refine .inr ⟨fun s hs => ?_, h2⟩
          rcases List.mem_cons.mp hs with rfl | hs
          · simp [hk, e]
          · exact h1 s hs

/-- every header is classified in a scan that ends well -/
theorem scanSections_kind {tab : List Nat} {shs : List Elf32Shdr} {se se' : SimpleElf}
    (h : scanSections tab shs se = some se') :
    ∀ sh ∈ shs, ∃ r, sectionKind tab sh = some r := by
  induction shs generalizing se with
  | nil => simp
  | cons sh shs ih =>
    simp only [scanSections] at h
    intro s hs
    split at h
    · simp at h
    · rename_i hk
      rcases List.mem_cons.mp hs with rfl | hs
      · exact ⟨_, hk⟩
      · exact ih h s hs
    · rename_i hk
      rcases List.mem_cons.mp hs with rfl | hs
      · exact ⟨_, hk⟩
      · exact ih h s hs

theorem readBytes_some {f : ExecFile} {off size : Nat} {l : List Nat}
    (h : f.readBytes off size = some (some l)) :
    l = (List.range size).map fun i => f.execbytes (toInt off + (i : Nat)) := by
  unfold ExecFile.readBytes at h
  simp only at h
  split at h
  · simp at h
  split at h
  · simp at h
  simp only [Option.some.injEq] at h
  exact h.symm

theorem elfLoadHelper_some {heap heap' : List Nat} {f : ExecFile} {se : SimpleElf}
    (h : elfLoadHelper heap (some f) = some (heap', some se)) :
    scanSections f.shstrtab f.shdrs (SimpleElf.init f.ehdr.eEntry) = some se := by
  unfold elfLoadHelper at h
  simp only at h
  split at h
  · simp at h
  · simp at h
  split at h
  · simp at h
  split at h
  · simp at h
  · simp at h
  split at h
  · simp at h
  rename_i str hstr
  split at h
  · simp at h
  split at h
  · simp at h
  · simp at h
  rename_i tab htab
  split at h
  · simp at h
  rename_i se' hscan
  simp only [Option.some.injEq, Prod.mk.injEq] at h
  obtain ⟨-, rfl⟩ := h
  have ht : f.shstrtab = tab := by
    rw [readBytes_some htab]
    unfold ExecFile.shstrtab
    rw [hstr]
  rw [ht]
  exact hscan

/-- the header a successful `elf_load_helper` fills in, kind by kind -/
theorem elfLoadHelper_seg {heap heap' : List Nat} {f : ExecFile} {se : SimpleElf}
    (h : elfLoadHelper heap (some f) = some (heap', some se)) (k : SectionKind) :
    (∃ sh, f.IsSection k sh ∧ se.seg k = sh.seg k) ∨
    ((∀ sh, ¬ f.IsSection k sh) ∧ se.seg k = (0, 0, 0)) := by
  have hs := elfLoadHelper_some h
  have hkind := scanSections_kind hs
  rcases scanSections_seg hs k with ⟨sh, hm, h1, h2⟩ | ⟨h1, h2⟩
  · exact .inl ⟨sh, (sectionKind_some hm h1 k).mp rfl, h2⟩
  · refine .inr ⟨fun sh hsh => ?_, by rw [h2]; cases k <;> rfl⟩
    obtain ⟨r, hr⟩ := hkind sh hsh.1
    have hrk : r = some k := (sectionKind_some hsh.1 hr k).mpr hsh
    rw [hrk] at hr
    exact h1 sh hsh.1 hr

end Paravirt

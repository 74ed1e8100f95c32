import Paravirt.Elf

/-!
# Loading an executable (kern/task.c: `task_load`, kern/vmm.c: `vmm_load_*`)

`taskLoad` runs the loaders of the four segments over the simplified header.  The area for `.bss`
starts where `.data` ends: the header has no field for the address of `.bss`.

`taskLoad_exact_iff` says when the areas created cover the sections of the executable, each byte at
the address its header gives, and stay in the user's part of the address space: if and only if a
non-empty `.bss` starts at the end of `.data`.
-/

set_option linter.unusedVariables false

namespace Paravirt

/-! ## the loaders -/

def vmmLoadText (task pd : Nat) (se : SimpleElf) (file : Nat) (s : VmaState) :
    Option (VmaState × Bool) :=
  if se.eTxtlen = 0 then some (s, false)
  else
    vmAreaAlloc s task pd se.eTxtstart se.eTxtlen pgtabAttribUsrRo .file 0 (.file file se.eTxtoff)

/-- `vmm_load_rodata` and `vmm_load_data` -/
def loadFileSegment (task pd off len start flags file : Nat) (s : VmaState) :
    Option (VmaState × Bool) :=
  if len = 0 then some (s, true)
  else vmAreaAlloc s task pd start len flags .file 0 (.file file off)

def vmmLoadRodata (task pd : Nat) (se : SimpleElf) (file : Nat) : VmaState →
    Option (VmaState × Bool) :=
  loadFileSegment task pd se.eRodatoff se.eRodatlen se.eRodatstart pgtabAttribUsrRo file

def vmmLoadData (task pd : Nat) (se : SimpleElf) (file : Nat) : VmaState →
    Option (VmaState × Bool) :=
  loadFileSegment task pd se.eDatoff se.eDatlen se.eDatstart pgtabAttribUsrRw file

def vmmLoadBss (task pd : Nat) (se : SimpleElf) (file : Nat) (s : VmaState) :
    Option (VmaState × Bool) :=
  if se.eBsslen = 0 then some (s, true)
  else
    vmAreaAlloc s task pd (u32 (se.eDatstart + se.eDatlen)) se.eBsslen pgtabAttribUsrRw .zeropage 0
      .none

/-- one loader after the other, up to the first that fails -/
def loadSegments : List (VmaState → Option (VmaState × Bool)) → VmaState → Option (VmaState × Bool)
  | [], s => some (s, true)
  | load :: loads, s =>
    match load s with
    | some (s, true) => loadSegments loads s
    | r => r

/-- the fields of `task_t` that `task_load` sets, with the state of its areas -/
structure TaskVm where
  vm : VmaState
  file : Nat
  entryPoint : Nat

/-- `task_load`; `none` is an access outside a buffer or through `NULL` (`file_alloc` does not check
`malloc`) -/
def taskLoad (task pd : Nat) (f : Option ExecFile) (t : TaskVm) : Option (TaskVm × Bool) :=
  let (seHdr, heap) := malloc t.vm.heap
  if seHdr = 0 then some ({ t with vm := { t.vm with heap := heap } }, false)
  else
    match elfLoadHelper heap f with
    | none => none
    | some (heap, none) => some ({ t with vm := { t.vm with heap := heap } }, false)
    | some (heap, some se) =>
      let (file, heap) := malloc heap
      if file = 0 then none
      else
        match loadSegments [vmmLoadText task pd se file, vmmLoadRodata task pd se file,
            vmmLoadData task pd se file, vmmLoadBss task pd se file]
            { t.vm with heap := heap } with
        | none => none
        | some (vm, false) => some ({ t with vm := vm, file := file }, false)
        | some (vm, true) => some (⟨vm, file, se.eEntry⟩, true)

/-! ## the areas a successful load creates -/

/-- the area made for a segment of the header -/
def segArea (task file : Nat) (se : SimpleElf) : SectionKind → VmArea
  | .text => fileArea task se.eTxtstart se.eTxtlen pgtabAttribUsrRo 0 file se.eTxtoff
  | .rodata => fileArea task se.eRodatstart se.eRodatlen pgtabAttribUsrRo 0 file se.eRodatoff
  | .data => fileArea task se.eDatstart se.eDatlen pgtabAttribUsrRw 0 file se.eDatoff
  | .bss => zeroArea task (u32 (se.eDatstart + se.eDatlen)) se.eBsslen pgtabAttribUsrRw 0

def segAreas (task file : Nat) (se : SimpleElf) (k : SectionKind) : List VmArea :=
  if (se.seg k).2.1 = 0 then [] else [segArea task file se k]

/-- all of them, the last one made first -/
def loadedAreas (task file : Nat) (se : SimpleElf) : List VmArea :=
  [SectionKind.bss, .data, .rodata, .text].flatMap (segAreas task file se)

theorem mem_loadedAreas {task file : Nat} {se : SimpleElf} {vma : VmArea} :
    vma ∈ loadedAreas task file se ↔ ∃ k, (se.seg k).2.1 ≠ 0 ∧ vma = segArea task file se k := by
  unfold loadedAreas segAreas
  simp only [List.mem_flatMap]
  constructor
  · rintro ⟨k, -, hk⟩
    split at hk
    · simp at hk
    · rename_i h0
      exact ⟨k, h0, List.mem_singleton.mp hk⟩
  · rintro ⟨k, h0, rfl⟩
    refine ⟨k, by cases k <;> simp, ?_⟩
    rw [if_neg h0]
    exact List.mem_singleton_self _

/-- what one loader adds -/
def Adds (load : VmaState → Option (VmaState × Bool)) (l : List VmArea) : Prop :=
  ∀ s s', load s = some (s', true) → s'.vmas.Perm (l ++ s.vmas)

theorem vmmLoadText_adds (task pd file : Nat) (se : SimpleElf) :
    Adds (vmmLoadText task pd se file) (segAreas task file se .text) := by
  intro s s' h
  unfold vmmLoadText at h
  by_cases h0 : se.eTxtlen = 0
  · rw [if_pos h0, Option.some.injEq, Prod.mk.injEq] at h
    exact absurd h.2 (by simp)
  · rw [if_neg h0] at h
    have hs : segAreas task file se .text = [segArea task file se .text] := if_neg h0
    rw [hs]
    exact vmAreaAlloc_file h

theorem loadFileSegment_adds (task pd off len start flags file : Nat) :
    Adds (loadFileSegment task pd off len start flags file)
      (if len = 0 then [] else [fileArea task start len flags 0 file off]) := by
  intro s s' h
  unfold loadFileSegment at h
  by_cases h0 : len = 0
  · rw [if_pos h0, Option.some.injEq, Prod.mk.injEq] at h
    rw [if_pos h0, h.1]
    exact List.Perm.refl _
  · rw [if_neg h0] at h ⊢
    exact vmAreaAlloc_file h

theorem vmmLoadBss_adds (task pd file : Nat) (se : SimpleElf) :
    Adds (vmmLoadBss task pd se file) (segAreas task file se .bss) := by
  intro s s' h
  unfold vmmLoadBss at h
  by_cases h0 : se.eBsslen = 0
  · rw [if_pos h0, Option.some.injEq, Prod.mk.injEq] at h
    have hs : segAreas task file se .bss = [] := if_pos h0
    rw [hs, h.1]
    exact List.Perm.refl _
  · rw [if_neg h0] at h
    have hs : segAreas task file se .bss = [segArea task file se .bss] := if_neg h0
    rw [hs]
    exact vmAreaAlloc_zeropage h

theorem loadSegments_cons_true {load : VmaState → Option (VmaState × Bool)}
    {loads : List (VmaState → Option (VmaState × Bool))} {s s' : VmaState}
    (h : loadSegments (load :: loads) s = some (s', true)) :
    ∃ s1, load s = some (s1, true) ∧ loadSegments loads s1 = some (s', true) := by
  unfold loadSegments at h
  generalize load s = r at h
  match r with
  | none => simp at h
  | some (s1, false) => simp at h
  | some (s1, true) => exact ⟨s1, rfl, h⟩

theorem loadSegments_adds {task pd file : Nat} {se : SimpleElf} {s s' : VmaState}
    (h : loadSegments [vmmLoadText task pd se file, vmmLoadRodata task pd se file,
      vmmLoadData task pd se file, vmmLoadBss task pd se file] s = some (s', true)) :
    s'.vmas.Perm (loadedAreas task file se ++ s.vmas) := by
  obtain ⟨s1, h1, h⟩ := loadSegments_cons_true h
  obtain ⟨s2, h2, h⟩ := loadSegments_cons_true h
  obtain ⟨s3, h3, h⟩ := loadSegments_cons_true h
  obtain ⟨s4, h4, h⟩ := loadSegments_cons_true h
  simp only [loadSegments, Option.some.injEq, Prod.mk.injEq, and_true] at h
  subst h
  have p1 := vmmLoadText_adds task pd file se s s1 h1
  have p2 : s2.vmas.Perm (segAreas task file se .rodata ++ s1.vmas) :=
    loadFileSegment_adds task pd _ _ _ _ file s1 s2 h2
  have p3 : s3.vmas.Perm (segAreas task file se .data ++ s2.vmas) :=
    loadFileSegment_adds task pd _ _ _ _ file s2 s3 h3
  have p4 := vmmLoadBss_adds task pd file se s3 s4 h4
  have q3 := p4.trans (p3.append_left _)
  have q2 := q3.trans ((p2.append_left _).append_left _)
  have q1 := q2.trans (((p1.append_left _).append_left _).append_left _)
  simpa only [loadedAreas, List.flatMap_cons, List.flatMap_nil, List.append_assoc,
    List.nil_append] using q1

theorem taskLoad_true {task pd : Nat} {f : ExecFile} {t t' : TaskVm}
    (h : taskLoad task pd (some f) t = some (t', true)) :
    ∃ heap heap' se, elfLoadHelper heap (some f) = some (heap', some se) ∧
      t'.entryPoint = se.eEntry ∧
      t'.vm.vmas.Perm (loadedAreas task t'.file se ++ t.vm.vmas) := by
  unfold taskLoad at h
  simp only at h
  split at h
  · simp at h
  generalize hr : elfLoadHelper _ (some f) = r at h
  match r with
  | none => simp at h
  | some (heap, none) => simp at h
  | some (heap, some se) =>
    simp only at h
    split at h
    · simp at h
    generalize hl : loadSegments _ _ = l at h
    match l with
    | none => simp at h
    | some (vm, false) => simp at h
    | some (vm, true) =>
      simp only [Option.some.injEq, Prod.mk.injEq, and_true] at h
      subst h
      have hp := loadSegments_adds hl
      exact ⟨_, heap, se, hr, rfl, hp⟩

/-! ## sections and areas -/

/-- the executables meant: one section of each name at most, and those that are not empty lie in the
user's part of the address space and are disjoint -/
structure SectionsOk (f : ExecFile) : Prop where
  one : ∀ k, ∀ sh ∈ f.shdrs, ∀ sh' ∈ f.shdrs, f.IsSection k sh → f.IsSection k sh' → sh = sh'
  range : ∀ k, ∀ sh ∈ f.shdrs, f.IsSection k sh → sh.shSize ≠ 0 →
    userMemStart ≤ sh.shAddr ∧ sh.shAddr + sh.shSize ≤ vmmKernelBase
  disjoint : ∀ k k', ∀ sh ∈ f.shdrs, ∀ sh' ∈ f.shdrs, f.IsSection k sh → f.IsSection k' sh' →
    k ≠ k' → sh.shSize ≠ 0 → sh'.shSize ≠ 0 →
    sh.shAddr + sh.shSize ≤ sh'.shAddr ∨ sh'.shAddr + sh'.shSize ≤ sh.shAddr

/-- `a` is an address of the area, which may wrap around -/
def VmArea.Has (vma : VmArea) (a : Nat) : Prop := ∃ i < vma.size, a = u32 (vma.startAddress + i)

/-- the kind of area a section needs: pages of the file from the section's offset on, read-only or
writable, or writable zeroes -/
def VmArea.Serves (vma : VmArea) (file : Nat) (sh : Elf32Shdr) (k : SectionKind) : Prop :=
  if k = .bss then
    vma.type = .zeropage ∧ vma.nopage = .zeropage ∧ vma.flags = pgtabAttribUsrRw
  else
    vma.type = .file ∧ vma.nopage = .file ∧ vma.startAddress = sh.shAddr ∧
      vma.src = ⟨file, sh.shOffset⟩ ∧
      vma.flags = if k = .data then pgtabAttribUsrRw else pgtabAttribUsrRo

/-- the areas cover the sections and nothing outside the user's part of the address space -/
structure LoadedExactly (f : ExecFile) (file : Nat) (created : List VmArea) : Prop where
  covered : ∀ k sh, f.IsSection k sh → ∀ i < sh.shSize,
    ∃ vma ∈ created, vma.Has (sh.shAddr + i) ∧ vma.Serves file sh k
  inside : ∀ vma ∈ created, ∀ a, vma.Has a → userMemStart ≤ a ∧ a < vmmKernelBase

/-- a `.bss` that is not empty starts where `.data` ends -/
def BssFollowsData (f : ExecFile) : Prop :=
  ∀ sh, f.IsSection .bss sh → sh.shSize ≠ 0 →
    ∃ d, f.IsSection .data d ∧ sh.shAddr = u32 (d.shAddr + d.shSize)

section
variable {f : ExecFile} {heap heap' : List Nat} {se : SimpleElf} {task file : Nat}

/-- the header holds the fields of the section of each name -/
theorem seg_of_isSection (hok : SectionsOk f)
    (he : elfLoadHelper heap (some f) = some (heap', some se)) {k : SectionKind} {sh : Elf32Shdr}
    (hsh : f.IsSection k sh) : se.seg k = sh.seg k := by
  rcases elfLoadHelper_seg he k with ⟨sh', hs, h⟩ | ⟨hn, -⟩
  · rw [hok.one k sh hsh.1 sh' hs.1 hsh hs]
    exact h
  · exact absurd hsh (hn sh)

/-- a segment that is not empty comes from a section -/
theorem isSection_of_seg (he : elfLoadHelper heap (some f) = some (heap', some se))
    {k : SectionKind}
    (h0 : se.seg k ≠ (0, 0, 0)) : ∃ sh, f.IsSection k sh ∧ se.seg k = sh.seg k := by
  rcases elfLoadHelper_seg he k with h | ⟨-, h⟩
  · exact h
  · exact absurd h h0

theorem seg_len (sh : Elf32Shdr) (k : SectionKind) : (sh.seg k).2.1 = sh.shSize := by
  cases k <;> rfl

/-- the area of a file segment is where its section is, and has its bytes -/
theorem segArea_file {k : SectionKind} {sh : Elf32Shdr} (hk : k ≠ .bss) (h : se.seg k = sh.seg k) :
    (segArea task file se k).startAddress = sh.shAddr ∧
      (segArea task file se k).size = sh.shSize ∧
      (segArea task file se k).Serves file sh k := by
  cases k with
  | bss => exact absurd rfl hk
  | text =>
    simp only [SimpleElf.seg, Elf32Shdr.seg, Prod.mk.injEq] at h
    simp [segArea, fileArea, vmAreaInit, VmArea.Serves, h]
  | rodata =>
    simp only [SimpleElf.seg, Elf32Shdr.seg, Prod.mk.injEq] at h
    simp [segArea, fileArea, vmAreaInit, VmArea.Serves, h]
  | data =>
    simp only [SimpleElf.seg, Elf32Shdr.seg, Prod.mk.injEq] at h
    simp [segArea, fileArea, vmAreaInit, VmArea.Serves, h]

theorem segArea_bss_serves {sh : Elf32Shdr} : (segArea task file se .bss).Serves file sh .bss := by
  simp [segArea, zeroArea, vmAreaInit, VmArea.Serves]

theorem segArea_type {k : SectionKind} (h : (segArea task file se k).type = .zeropage) :
    k = .bss := by
  cases k with
  | bss => rfl
  | text => exact nomatch h
  | rodata => exact nomatch h
  | data => exact nomatch h

/-- an area that starts where its section does covers it, and no more -/
theorem has_iff_of_range {vma : VmArea} {addr size a : Nat} (hs : vma.startAddress = addr)
    (hz : vma.size = size) (hr : addr + size ≤ vmmKernelBase) :
    vma.Has a ↔ addr ≤ a ∧ a < addr + size := by
  have hb : vmmKernelBase < 2^32 := by decide
  subst hs hz
  constructor
  · rintro ⟨i, hi, rfl⟩
    rw [u32_of_lt (by omega)]
    omega
  · rintro ⟨h1, h2⟩
    refine ⟨a - vma.startAddress, by omega, ?_⟩
    rw [u32_of_lt (by omega)]
    omega

/-- where `vmm_load_bss` puts the area, when there is a `.data` -/
theorem segArea_bss_start (task file : Nat) {d : Elf32Shdr} (h : se.seg .data = d.seg .data) :
    (segArea task file se .bss).startAddress = u32 (d.shAddr + d.shSize) := by
  simp only [SimpleElf.seg, Elf32Shdr.seg, Prod.mk.injEq] at h
  simp only [segArea, zeroArea, vmAreaInit, h]

/-- ranges of one length on the circle of addresses: one that contains another starts with it -/
theorem start_eq_of_covers {b d : Nat} (len : Nat) (hd : d < 2^32) (hb : b + len ≤ 2^32 - 1)
    (h0 : 0 < len)
    (h : ∀ i < len, ∃ j < len, b + i = u32 (d + j)) : b = d := by
  unfold u32 at h
  obtain ⟨j, hj, hj'⟩ := h 0 h0
  by_cases hz : j = 0
  · subst hz
    omega
  · -- the byte `len - j` further on would be the one just after the other range
    obtain ⟨j1, hj1, hj1'⟩ := h (len - j) (by omega)
    omega

/-- the area of each segment lies where its section does, if that of `.bss` follows `.data` -/
theorem segArea_at (task file : Nat) (hok : SectionsOk f)
    (he : elfLoadHelper heap (some f) = some (heap', some se))
    (hb : BssFollowsData f) {k : SectionKind} {sh : Elf32Shdr} (hsh : f.IsSection k sh)
    (h0 : sh.shSize ≠ 0) :
    (segArea task file se k).startAddress = sh.shAddr ∧ (segArea task file se k).size = sh.shSize ∧
      (segArea task file se k).Serves file sh k := by
  have hseg := seg_of_isSection hok he hsh
  by_cases hk : k = .bss
  · subst hk
    obtain ⟨d, hd, hda⟩ := hb sh hsh h0
    refine ⟨?_, congrArg (fun s => s.2.1) hseg, segArea_bss_serves⟩
    rw [segArea_bss_start task file (seg_of_isSection hok he hd), hda]
  · exact segArea_file hk hseg

theorem loadedExactly_of_follows (hok : SectionsOk f)
    (he : elfLoadHelper heap (some f) = some (heap', some se)) (hb : BssFollowsData f) :
    LoadedExactly f file (loadedAreas task file se) where
  covered k sh hsh i hi := by
    have h0 : sh.shSize ≠ 0 := by omega
    have hseg := seg_of_isSection hok he hsh
    obtain ⟨hs, hz, hserves⟩ := segArea_at task file hok he hb hsh h0
    refine ⟨_, mem_loadedAreas.mpr ⟨k, by rw [hseg, seg_len]; exact h0, rfl⟩, ?_, hserves⟩
    rw [has_iff_of_range hs hz (hok.range k sh hsh.1 hsh h0).2]
    omega
  inside vma hv a ha := by
    obtain ⟨k, hk0, rfl⟩ := mem_loadedAreas.mp hv
    obtain ⟨sh, hsh, hseg⟩ := isSection_of_seg he (k := k) (fun h => hk0 (by rw [h]))
    rw [hseg, seg_len] at hk0
    obtain ⟨hs, hz, -⟩ := segArea_at task file hok he hb hsh hk0
    have hr := hok.range k sh hsh.1 hsh hk0
    rw [has_iff_of_range hs hz hr.2] at ha
    omega

theorem follows_of_loadedExactly (hok : SectionsOk f)
    (he : elfLoadHelper heap (some f) = some (heap', some se))
    (hl : LoadedExactly f file (loadedAreas task file se)) : BssFollowsData f := by
  intro sh hsh h0
  have hseg := seg_of_isSection hok he hsh
  have hlen : se.eBsslen = sh.shSize := congrArg (fun s => s.2.1) hseg
  have hmem : segArea task file se .bss ∈ loadedAreas task file se :=
    mem_loadedAreas.mpr ⟨.bss, by rw [hseg, seg_len]; exact h0, rfl⟩
  -- the area is in the user's part, so there is a `.data`: without one it would be at 0
  have hstart : (segArea task file se .bss).Has (u32 (se.eDatstart + se.eDatlen)) := by
    refine ⟨0, ?_, ?_⟩
    · show 0 < se.eBsslen
      omega
    · show _ = u32 (u32 (se.eDatstart + se.eDatlen) + 0)
      unfold u32
      omega
  have hin := hl.inside _ hmem _ hstart
  have hdat : se.seg .data ≠ (0, 0, 0) := by
    intro hz
    simp only [SimpleElf.seg, Prod.mk.injEq] at hz
    rw [hz.2.1, hz.2.2] at hin
    exact absurd hin.1 (by decide)
  obtain ⟨d, hd, hdseg⟩ := isSection_of_seg he hdat
  refine ⟨d, hd, ?_⟩
  have hd1 : u32 (se.eDatstart + se.eDatlen) = u32 (d.shAddr + d.shSize) :=
    segArea_bss_start task file hdseg
  have hr := hok.range .bss sh hsh.1 hsh h0
  have hkb : vmmKernelBase ≤ 2^32 - 1 := by decide
  refine start_eq_of_covers sh.shSize (Nat.mod_lt _ (by decide)) (by omega) (by omega) ?_
  intro i hi
  obtain ⟨vma, hv, ⟨j, hj, hja⟩, hserves⟩ := hl.covered .bss sh hsh i hi
  obtain ⟨k, -, rfl⟩ := mem_loadedAreas.mp hv
  have hk : k = .bss := segArea_type hserves.1
  subst hk
  refine ⟨j, ?_, ?_⟩
  · rw [← hlen]
    exact hj
  · rw [← hd1]
    exact hja

end

theorem LoadedExactly.perm {f : ExecFile} {file : Nat} {l l' : List VmArea} (hp : l.Perm l')
    (h : LoadedExactly f file l) : LoadedExactly f file l' where
  covered k sh hsh i hi := by
    obtain ⟨vma, hv, h⟩ := h.covered k sh hsh i hi
    exact ⟨vma, hp.mem_iff.mp hv, h⟩
  inside vma hv := h.inside vma (hp.mem_iff.mpr hv)

/-- the areas a successful `task_load` creates cover the executable exactly, if and only if its
`.bss`, if any, starts at the end of its `.data` -/
theorem taskLoad_exact_iff (f : ExecFile) (hok : SectionsOk f) (task pd : Nat) (t t' : TaskVm)
    (h : taskLoad task pd (some f) t = some (t', true)) :
    ∃ created, t'.vm.vmas.Perm (created ++ t.vm.vmas) ∧
      (LoadedExactly f t'.file created ↔ BssFollowsData f) := by
  obtain ⟨heap, heap', se, he, -, hp⟩ := taskLoad_true h
  exact ⟨_, hp, follows_of_loadedExactly hok he, loadedExactly_of_follows hok he⟩

/-! ## two executables -/

def leBytes : Nat → Nat → List Nat
  | 0, _ => []
  | n + 1, v => v % 256 :: leBytes n (v / 256)

def shdrBytes (sh : Elf32Shdr) : List Nat :=
  leBytes 4 sh.shName ++ List.replicate 8 0 ++ leBytes 4 sh.shAddr ++ leBytes 4 sh.shOffset ++
    leBytes 4 sh.shSize ++ List.replicate 16 0

/-- an executable with the given sections and, as its last one, the string table
`"\0.text\0.data\0.bss\0.shstrtab\0"` -/
def elfImage (secs : List Elf32Shdr) : ExecFile :=
  let strtab := [0] ++ SectionKind.text.name ++ [0] ++ SectionKind.data.name ++ [0] ++
    SectionKind.bss.name ++ [0, 46, 115, 104, 115, 116, 114, 116, 97, 98, 0]
  let n := secs.length + 1
  let bytes := List.replicate 24 0 ++ leBytes 4 userMemStart ++ leBytes 4 0 ++ leBytes 4 sizeofEhdr ++
    List.replicate 12 0 ++ leBytes 2 n ++ leBytes 2 secs.length ++ secs.flatMap shdrBytes ++
    shdrBytes ⟨18, 0, sizeofEhdr + sizeofShdr * n, strtab.length⟩ ++ strtab
  ⟨bytes.length, fun i => bytes.getD i.toNat 0⟩

/-- a program with a `.bss` right after its `.data` -/
def dataExec : ExecFile :=
  elfImage [⟨1, 0x01000000, 52, 16⟩, ⟨7, 0x01001000, 68, 16⟩, ⟨13, 0x01001010, 84, 32⟩]

/-- a program with no `.data`, and a `.bss` on a page of its own -/
def bssExec : ExecFile := elfImage [⟨1, 0x01000000, 52, 16⟩, ⟨13, 0x01001000, 68, 32⟩]

/-- a task with no areas yet, whose page directory has a table for every address -/
def freshTask : TaskVm where
  vm := { heap := [1, 2, 3, 4, 5, 6, 7, 8]
          mm := { lomem := ⟨fun _ => ⟨0, []⟩, fun _ => 0, 0, 0, 0⟩
                  himem := ⟨fun _ => ⟨0, []⟩, fun _ => 0, 0, 0, 0⟩
                  kernelPageDir := 0xc0000000
                  word := fun _ _ => 7
                  queue := []
                  mem := fun _ => 0 }
          vmas := [] }
  file := 0
  entryPoint := 0

def taskLoadOk (f : ExecFile) : Bool :=
  match taskLoad 1 0xc0001000 (some f) freshTask with
  | some (_, ok) => ok
  | none => false

theorem taskLoad_of_ok {f : ExecFile} (h : taskLoadOk f = true) :
    ∃ t, taskLoad 1 0xc0001000 (some f) freshTask = some (t, true) := by
  unfold taskLoadOk at h
  generalize taskLoad 1 0xc0001000 (some f) freshTask = r at h
  match r with
  | none => simp at h
  | some (t, false) => simp at h
  | some (t, true) => exact ⟨t, rfl⟩

theorem dataExec_sectionsOk : SectionsOk dataExec where
  one := by decide
  range := by decide
  disjoint := by decide

theorem bssExec_sectionsOk : SectionsOk bssExec where
  one := by decide
  range := by decide
  disjoint := by decide

theorem taskLoad_exact_iff_dataExec :
    ∃ t', taskLoad 1 0xc0001000 (some dataExec) freshTask = some (t', true) ∧
      ∃ created, t'.vm.vmas.Perm (created ++ freshTask.vm.vmas) ∧
        (LoadedExactly dataExec t'.file created ↔ BssFollowsData dataExec) := by
  obtain ⟨t', h⟩ := taskLoad_of_ok (f := dataExec) (by decide +kernel)
  exact ⟨t', h, taskLoad_exact_iff dataExec dataExec_sectionsOk 1 0xc0001000 freshTask t' h⟩

/-- the `.bss` of `bssExec` is loaded at address 0 -/
theorem taskLoad_bss_at_zero :
    SectionsOk bssExec ∧ ∃ t', taskLoad 1 0xc0001000 (some bssExec) freshTask = some (t', true) ∧
      ∀ created, t'.vm.vmas.Perm (created ++ freshTask.vm.vmas) →
        ¬ LoadedExactly bssExec t'.file created := by
  refine ⟨bssExec_sectionsOk, ?_⟩
  obtain ⟨t', h⟩ := taskLoad_of_ok (f := bssExec) (by decide +kernel)
  refine ⟨t', h, fun created hc hl => ?_⟩
  obtain ⟨heap, heap', se, he, -, hp⟩ := taskLoad_true h
  have hperm := (List.perm_append_right_iff _).mp (hc.symm.trans hp)
  -- it would have to follow a `.data`, and there is none
  have hb := follows_of_loadedExactly bssExec_sectionsOk he (hl.perm hperm)
  obtain ⟨d, hd, -⟩ := hb ⟨13, 0x01001000, 68, 32⟩ (by decide) (by decide)
  have hno : ∀ d ∈ bssExec.shdrs, ¬ bssExec.IsSection .data d := by decide
  exact hno d hd.1 hd

end Paravirt

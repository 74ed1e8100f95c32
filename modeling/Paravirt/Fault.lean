import Paravirt.DemandLoad

/-!
# The page fault handler over a sorted list of areas

* `filter_covers`       in a sorted disjoint list the areas of one page are consecutive, so the loop of
                        `pgf_exception_handler`, which starts at the first of them and stops at the
                        first area that is not one, meets them all;
* `PageLoaded`          the page after some of its areas have been served;
* `pgfLoop_loads`       the loop: each call of `nopage` adds its area's part;
* `pgf_loads_page`      every byte of the page that an area covers is what the area says;
* `handedOut`           the node that the allocator leaves at the front of a frame it returns;
* `pgf_page_stale_iff`  the rest of the page keeps what was in the frame.
-/

set_option linter.unusedSectionVars false
set_option linter.unusedVariables false

namespace Paravirt
open Tiling

/-! ## the areas of a page -/

/-- sorted and byte-disjoint: each area ends before the next one starts -/
def VmaSorted (vmas : List VmArea) : Prop :=
  vmas.Pairwise fun v w => v.startAddress + v.size ≤ w.startAddress

theorem pageAddr_mono {x y : Nat} (hy : y < 2^32) (h : x ≤ y) : pageAddr x ≤ pageAddr y := by
  rw [pageAddr_of_lt (by omega), pageAddr_of_lt hy]
  omega

/-- an area behind the page, seen from one that covers it -/
theorem start_page_ge {v w : VmArea} (hv : v.Ok) (hw : w.Ok) {a : Nat} (hc : v.covers a = true)
    (h : v.startAddress + v.size ≤ w.startAddress) :
    pageAddr a ≤ pageAddr w.startAddress := by
  have h1 := hw.noWrap
  have h2 := hw.pos
  have h3 := ((hv.covers_iff a).mp hc).2
  exact h3.trans (pageAddr_mono (by omega) (by omega))

theorem covers_iff_of_ge {w : VmArea} (hw : w.Ok) {a : Nat}
    (h : pageAddr a ≤ pageAddr w.startAddress) :
    w.covers a = true ↔ pageAddr w.startAddress = pageAddr a := by
  have h1 := hw.noWrap
  have h2 := hw.pos
  have h3 : pageAddr w.startAddress ≤ pageAddr (w.startAddress + w.size - 1) :=
    pageAddr_mono (by omega) (by omega)
  rw [hw.covers_iff]
  exact ⟨fun hc => Nat.le_antisymm hc.1 h, fun e => ⟨Nat.le_of_eq e, h.trans h3⟩⟩

theorem takeWhile_covers {vmas : List VmArea} {a : Nat} (hok : ∀ v ∈ vmas, v.Ok)
    (hs : VmaSorted vmas) (hge : ∀ v ∈ vmas, pageAddr a ≤ pageAddr v.startAddress) :
    vmas.takeWhile (·.covers a) = vmas.filter (·.covers a) := by
  induction vmas with
  | nil => rfl
  | cons v vmas ih =>
    obtain ⟨hv, hs⟩ := List.pairwise_cons.mp hs
    have hok' : ∀ w ∈ vmas, w.Ok := fun w hw => hok w (List.mem_cons_of_mem _ hw)
    have hge' : ∀ w ∈ vmas, pageAddr a ≤ pageAddr w.startAddress := fun w hw =>
      hge w (List.mem_cons_of_mem _ hw)
    cases hc : v.covers a with
    | true =>
      rw [List.takeWhile_cons_of_pos (p := fun w : VmArea => w.covers a) hc,
        List.filter_cons_of_pos (p := fun w : VmArea => w.covers a) hc, ih hok' hs hge']
    | false =>
      rw [List.takeWhile_cons_of_neg (by simp [hc]), List.filter_cons_of_neg (by simp [hc])]
      refine (List.filter_eq_nil_iff.mpr fun w hw hcw => ?_).symm
      -- `v` starts behind the page, and `w` behind `v`
      have hvm := hok v (List.mem_cons_self ..)
      have h1 := (covers_iff_of_ge (hok' w hw) (hge' w hw)).mp hcw
      have h2 : pageAddr v.startAddress ≤ pageAddr w.startAddress := by
        refine pageAddr_mono ?_ ?_
        · have := (hok' w hw).noWrap
          have := (hok' w hw).pos
          omega
        · have := hv w hw
          omega
      have h3 := hge v (List.mem_cons_self ..)
      have h4 : v.covers a = true :=
        (covers_iff_of_ge hvm h3).mpr (Nat.le_antisymm (h2.trans (Nat.le_of_eq h1)) h3)
      rw [hc] at h4
      cases h4

theorem filter_covers {vmas : List VmArea} {a : Nat} (hok : ∀ v ∈ vmas, v.Ok)
    (hs : VmaSorted vmas) :
    (findVmAreaFrom vmas a).takeWhile (·.covers a) = vmas.filter (·.covers a) := by
  induction vmas with
  | nil => rfl
  | cons v vmas ih =>
    obtain ⟨hv, hs'⟩ := List.pairwise_cons.mp hs
    have hok' : ∀ w ∈ vmas, w.Ok := fun w hw => hok w (List.mem_cons_of_mem _ hw)
    unfold findVmAreaFrom
    cases hc : v.covers a with
    | false =>
      rw [List.dropWhile_cons_of_pos (by simp [hc]), List.filter_cons_of_neg (by simp [hc])]
      exact ih hok' hs'
    | true =>
      rw [List.dropWhile_cons_of_neg (by simp [hc]),
        List.takeWhile_cons_of_pos (p := fun w : VmArea => w.covers a) hc,
        List.filter_cons_of_pos (p := fun w : VmArea => w.covers a) hc]
      congr 1
      exact takeWhile_covers hok' hs' fun w hw =>
        start_page_ge (hok v (List.mem_cons_self ..)) (hok' w hw) hc (hv w hw)

/-! ## serving the areas one by one -/

section
variable {fs : Nat → Option ExecFile} {base live : List Block} {dirs : List Nat} {mm0 mm : Mm}
  {pd a : Nat}

/-- the bytes of one page -/
def InPage (a b : Nat) : Prop := b < 2^32 ∧ pageAddr b = pageAddr a

/-- the page of `a`, not mapped in `mm0`, after `nopage` of the areas `done` -/
structure PageLoaded (fs : Nat → Option ExecFile) (base : List Block) (dirs : List Nat) (pd a : Nat)
    (mm0 : Mm) (done : List VmArea) (mm : Mm) : Prop where
  ready : ∃ live, Ready base live dirs mm
  start : done = [] → mm = mm0
  frame : done ≠ [] → ∃ f, mm0.vmmPpfAlloc.2 = some f ∧ frameAt mm pd a = some f ∧
    (∀ vma ∈ done, ∀ b, InPage a b → vma.Contains b → ∀ v, vma.initial fs a b = some v →
      mm.mem (f + pageDiv b) = v) ∧
    (∀ b, InPage a b → (∀ vma ∈ done, ¬ vma.Contains b) →
      mm.mem (f + pageDiv b) = mm0.mem (f + pageDiv b))

theorem PageLoaded.nil (h : Ready base live dirs mm) : PageLoaded fs base dirs pd a mm [] mm :=
  ⟨⟨live, h⟩, fun _ => rfl, fun h => absurd rfl h⟩

/-- **one area more** -/
theorem PageLoaded.step {done : List VmArea} (h : PageLoaded fs base dirs pd a mm0 done mm)
    (h0 : frameAt mm0 pd a = none) {live live' : List Block} {vma : VmArea} {f : Nat} {mm' : Mm}
    (hd : NopageDone fs base live live' dirs pd a vma f mm mm')
    (hdis : ∀ w ∈ done, ∀ b, w.Contains b → ¬ vma.Contains b) :
    PageLoaded fs base dirs pd a mm0 (done ++ [vma]) mm' where
  ready := ⟨live', hd.ready⟩
  start h := absurd h (by simp)
  frame _ := by
    by_cases hn : done = []
    · have hm := h.start hn
      subst hn hm
      refine ⟨f, hd.fresh h0, hd.frame, fun w hw b hb hc v hv => ?_, fun b hb hno => ?_⟩
      · rw [List.nil_append, List.mem_singleton] at hw
        subst hw
        exact hd.filled.inside b hb.1 hb.2 hc v hv
      · exact hd.filled.outside b hb.1 hb.2 (hno vma (by simp))
    · obtain ⟨g, hg, hfr, hin, hout⟩ := h.frame hn
      have hgf := hd.same g hfr
      subst hgf
      refine ⟨g, hg, hd.frame, fun w hw b hb hc v hv => ?_, fun b hb hno => ?_⟩
      · rcases List.mem_append.mp hw with hw | hw
        · rw [hd.filled.outside b hb.1 hb.2 (hdis w hw b hc)]
          exact hin w hw b hb hc v hv
        · rw [List.mem_singleton] at hw
          subst hw
          exact hd.filled.inside b hb.1 hb.2 hc v hv
      · rw [hd.filled.outside b hb.1 hb.2 (hno vma (by simp))]
        exact hout b hb fun w hw => hno w (by simp [hw])

/-- areas of which none is ever asked to panic, and which do not overlap those served -/
structure ToServe (a : Nat) (done l : List VmArea) : Prop where
  ok : ∀ v ∈ l, v.Ok
  nopage : ∀ v ∈ l, v.covers a = true → v.nopage ≠ .default
  disjoint : (done ++ l).Pairwise fun v w => ∀ b, v.Contains b → ¬ w.Contains b

theorem ToServe.tail {done l : List VmArea} {v : VmArea} (h : ToServe a done (v :: l)) :
    ToServe a (done ++ [v]) l :=
  ⟨fun w hw => h.ok w (List.mem_cons_of_mem _ hw),
    fun w hw => h.nopage w (List.mem_cons_of_mem _ hw), by
      rw [List.append_assoc]
      exact h.disjoint⟩

theorem ToServe.head_disjoint {done l : List VmArea} {v : VmArea} (h : ToServe a done (v :: l)) :
    ∀ w ∈ done, ∀ b, w.Contains b → ¬ v.Contains b := fun w hw =>
  (List.pairwise_append.mp h.disjoint).2.2 w hw v (List.mem_cons_self ..)

theorem VmArea.Ok.type_ne_cow {v : VmArea} (h : v.Ok) (hn : v.nopage ≠ .default) :
    v.type ≠ .cow := by
  intro ht
  have hp := h.nopage
  rw [ht] at hp
  exact hn hp

/-- one turn of the loop for a page that is not present, where `nopage` succeeds -/
theorem pgfLoop_cons {errflag cr2 : Nat} {vma : VmArea} {vmas : List VmArea} {s : PgfState}
    (hc : vma.covers cr2 = true) (hnp : errflag &&& pgfErrAccess = 0) (ht : vma.type ≠ .cow)
    {mm' : Mm} {rc : Int} (hr : vma.callNopage fs s.mm pd cr2 = some (mm', rc)) (h0 : 0 ≤ rc) :
    pgfLoop fs pd errflag cr2 (vma :: vmas) s
      = pgfLoop fs pd errflag cr2 vmas ⟨mm', true, s.calls ++ [vma]⟩ := by
  have hn : ¬ rc < 0 := Int.not_lt.mpr h0
  rw [pgfLoop, if_pos hc]
  simp only [if_pos hnp, hr, if_neg hn, if_pos ht]

theorem pgfLoop_fail {errflag cr2 : Nat} {vma : VmArea} {vmas : List VmArea} {s : PgfState}
    (hc : vma.covers cr2 = true) (hnp : errflag &&& pgfErrAccess = 0)
    {r : Mm × Int} (hr : vma.callNopage fs s.mm pd cr2 = some r) (h0 : r.2 < 0) :
    pgfLoop fs pd errflag cr2 (vma :: vmas) s = some ⟨r.1, false, s.calls ++ [vma]⟩ := by
  obtain ⟨mm', rc⟩ := r
  rw [pgfLoop, if_pos hc]
  simp only [if_pos hnp, hr, if_pos h0]

theorem pgfLoop_stop {errflag cr2 : Nat} {vma : VmArea} {vmas : List VmArea} {s : PgfState}
    (hc : vma.covers cr2 = false) : pgfLoop fs pd errflag cr2 (vma :: vmas) s = some s := by
  rw [pgfLoop, if_neg (by rw [hc]; decide)]

variable (fs) in
/-- **the loop**: it serves the areas of the page one after the other, up to one whose file does not
hold its part -/
theorem pgfLoop_loads (h0 : frameAt mm0 pd a = none) (hcan : FramesFor mm0 pd a) (hd : pd ∈ dirs)
    (ha : a < 2^32) {errflag : Nat} (hnp : errflag &&& pgfErrAccess = 0) :
    ∀ (l done : List VmArea) (s : PgfState), ToServe a done l →
      PageLoaded fs base dirs pd a mm0 done s.mm → s.handled = !done.isEmpty →
      ∃ s', pgfLoop fs pd errflag a l s = some s' ∧
        ((s'.handled = false ∧ ∃ w ∈ l, w.covers a = true ∧ ¬ w.PartBacked fs a) ∨
          (s'.calls = s.calls ++ l.takeWhile (·.covers a) ∧
            s'.handled = !(done ++ l.takeWhile (·.covers a)).isEmpty ∧
            (∀ w ∈ l.takeWhile (·.covers a), w.PartBacked fs a) ∧
            PageLoaded fs base dirs pd a mm0 (done ++ l.takeWhile (·.covers a)) s'.mm)) := by
  intro l
  induction l with
  | nil =>
    intro done s _ hl hh
    refine ⟨s, by rw [pgfLoop], .inr ⟨by simp, ?_, by simp, ?_⟩⟩
    · rw [List.takeWhile_nil, List.append_nil]
      exact hh
    · rw [List.takeWhile_nil, List.append_nil]
      exact hl
  | cons v l ih =>
    intro done s ht hl hh
    cases hc : v.covers a with
    | false =>
      rw [pgfLoop_stop hc, List.takeWhile_cons_of_neg (by simp [hc]), List.append_nil,
        List.append_nil]
      exact ⟨s, rfl, .inr ⟨rfl, hh, by simp, hl⟩⟩
    | true =>
      have hok := ht.ok v (List.mem_cons_self ..)
      have hn := ht.nopage v (List.mem_cons_self ..) hc
      obtain ⟨live, hready⟩ := hl.ready
      have hframes : frameAt s.mm pd a = none → FramesFor s.mm pd a := by
        intro hnone
        by_cases hdone : done = []
        · rw [hl.start hdone]
          exact hcan
        · obtain ⟨f, -, hf, -⟩ := hl.frame hdone
          rw [hf] at hnone
          cases hnone
      rcases callNopage_done fs hready hd hok hn ha hc hframes with
        ⟨r, hr, hneg, hb⟩ | ⟨m2, live2, f, rc, hr, h0', hb, hdone⟩
      · refine ⟨_, pgfLoop_fail hc hnp hr hneg, .inl ⟨rfl, v, List.mem_cons_self .., hc, hb⟩⟩
      · rw [pgfLoop_cons hc hnp (hok.type_ne_cow hn) hr h0',
          List.takeWhile_cons_of_pos (p := fun w : VmArea => w.covers a) hc]
        obtain ⟨s', hs', hcase⟩ := ih (done ++ [v]) ⟨m2, true, s.calls ++ [v]⟩ ht.tail
          (hl.step h0 hdone ht.head_disjoint) (by simp)
        refine ⟨s', hs', ?_⟩
        rcases hcase with ⟨hf, w, hw, hcw, hbw⟩ | ⟨h1, h2, h3, h4⟩
        · exact .inl ⟨hf, w, List.mem_cons_of_mem _ hw, hcw, hbw⟩
        · rw [List.append_assoc] at h1 h2 h4
          refine .inr ⟨h1, h2, fun w hw => ?_, h4⟩
          rcases List.mem_cons.mp hw with rfl | hw
          · exact hb
          · exact h3 w hw

/-! ## the handler -/

/-- a task whose areas are as `vm_area_alloc` and the list functions keep them: sorted, byte-disjoint,
and mapped from the start where they have no `nopage` method -/
structure FaultOk (base live : List Block) (dirs : List Nat) (mm : Mm) (pd : Nat)
    (vmas : List VmArea) : Prop where
  ready : Ready base live dirs mm
  dir : pd ∈ dirs
  ok : ∀ vma ∈ vmas, vma.Ok
  sorted : VmaSorted vmas
  mapped : ∀ vma ∈ vmas, vma.nopage = .default → ∀ a, vma.covers a = true →
    frameAt mm pd a ≠ none

/-- contents do not matter -/
theorem FaultOk.setMem {vmas : List VmArea} (h : FaultOk base live dirs mm pd vmas)
    (mem : Nat → Nat) :
    FaultOk base live dirs { mm with mem := mem } pd vmas where
  ready := h.ready.setMem mem
  dir := h.dir
  ok := h.ok
  sorted := h.sorted
  mapped v hv hd a hc := by
    have e : frameAt { mm with mem := mem } pd a = frameAt mm pd a := by
      unfold frameAt
      rw [Mm.vmmGetMapping_eq, Mm.vmmGetMapping_eq]
    rw [e]
    exact h.mapped v hv hd a hc

theorem FaultOk.toServe {vmas : List VmArea} (h : FaultOk base live dirs mm pd vmas)
    (h0 : frameAt mm pd a = none) : ToServe a [] (findVmAreaFrom vmas a) := by
  have hsub : (findVmAreaFrom vmas a).Sublist vmas := List.dropWhile_sublist _
  refine ⟨fun v hv => h.ok v (hsub.subset hv), fun v hv hc hd =>
    h.mapped v (hsub.subset hv) hd a hc h0, ?_⟩
  rw [List.nil_append]
  refine (h.sorted.sublist hsub).imp fun hvw b hv hw => ?_
  have h1 := hv.2
  have h2 := hw.1
  omega

theorem pgfExceptionHandler_of_loop {errflag : Nat} {vmas : List VmArea} {s : PgfState}
    (hu : errflag &&& pgfErrUsr ≠ 0)
    (hl : pgfLoop fs pd errflag a (findVmAreaFrom vmas a) ⟨mm, false, []⟩ = some s) :
    pgfExceptionHandler fs mm pd vmas errflag a =
      if s.handled then some { s with mm := s.mm.vmmFlushMmuUpdateQueue } else some s := by
  unfold pgfExceptionHandler
  rw [if_neg hu, hl]

variable (fs) in
/-- **the handler on a page that is not present** -/
theorem pgf_result {vmas : List VmArea} (h : FaultOk base live dirs mm pd vmas) {errflag : Nat}
    (ha : a < 2^32) (hu : errflag &&& pgfErrUsr ≠ 0) (hnp : errflag &&& pgfErrAccess = 0)
    (h0 : frameAt mm pd a = none) (hcan : FramesFor mm pd a) :
    ∃ s, pgfExceptionHandler fs mm pd vmas errflag a = some s ∧
      ((s.handled = false ∧ ∃ w ∈ vmas, w.covers a = true ∧ ¬ w.PartBacked fs a) ∨
        (s.calls = vmas.filter (·.covers a) ∧ s.handled = !(vmas.filter (·.covers a)).isEmpty ∧
          (∀ w ∈ vmas.filter (·.covers a), w.PartBacked fs a) ∧
          PageLoaded fs base dirs pd a mm (vmas.filter (·.covers a)) s.mm)) := by
  obtain ⟨s, hs, hcase⟩ := pgfLoop_loads fs h0 hcan h.dir ha hnp (findVmAreaFrom vmas a) []
    ⟨mm, false, []⟩ (h.toServe h0) (.nil h.ready) rfl
  rw [List.nil_append, filter_covers h.ok h.sorted] at hcase
  rw [pgfExceptionHandler_of_loop hu hs]
  rcases hcase with ⟨hf, w, hw, hcw, hb⟩ | ⟨h1, h2, h3, h4⟩
  · refine ⟨s, by rw [if_neg (by rw [hf]; decide)], .inl ⟨hf, w, ?_, hcw, hb⟩⟩
    exact (List.dropWhile_sublist _).subset hw
  · have hmm : s.mm.vmmFlushMmuUpdateQueue = s.mm := by
      obtain ⟨l, hr⟩ := h4.ready
      rw [Mm.flush_eq, hr.eff_eq]
    refine ⟨s, ?_, .inr ⟨h1, h2, h3, h4⟩⟩
    rw [hmm]
    split <;> rfl

theorem covers_of_inPage {vma : VmArea} (hok : vma.Ok) {b : Nat} (hb : InPage a b)
    (hc : vma.Contains b) : vma.covers a = true := by
  have h := hok.covers_of_contains hc
  rw [hok.covers_iff, hb.2, ← hok.covers_iff] at h
  exact h

/-- the byte of a page that was loaded, by frame and offset -/
theorem userByte_inPage {f b : Nat} (ha : a < 2^32) (hb : InPage a b)
    (hf : frameAt mm pd a = some f) :
    userByte mm pd b = some (mm.mem (f + pageDiv b)) := by
  have hsp : SamePage b a := (samePage_iff hb.1 ha).mpr hb.2
  unfold userByte
  rw [hsp.frameAt, hf]
  rfl

/-- the file behind a file area holds all its bytes -/
def VmArea.Backed (fs : Nat → Option ExecFile) (vma : VmArea) : Prop :=
  vma.type = .file → vma.src.ptr ≠ 0 ∧ ∃ f, fs vma.src.ptr = some f ∧
    (vma.src.startOffset + vma.size : Nat) ≤ f.execlen ∧ f.execlen < 2^31

theorem partOffset_eq {vma : VmArea} (hok : vma.Ok) (ha : a < 2^32) (hc : vma.covers a = true)
    {n : Int} (hn : (vma.src.startOffset + vma.size : Nat) ≤ n) (h31 : n < 2^31) :
    vma.partOffset a = vma.src.startOffset + ((vma.clip a).1 - vma.startAddress) ∧
      toInt (vma.partOffset a) = (vma.partOffset a : Int) ∧
      vma.partOffset a + (vma.clip a).2 ≤ vma.src.startOffset + vma.size := by
  have hp := hok.part ha hc
  have h1 := hp.pos
  have h2 := hp.start
  have h3 := hp.stop
  have e : vma.partOffset a = vma.src.startOffset + ((vma.clip a).1 - vma.startAddress) :=
    u32_of_lt (by omega)
  refine ⟨e, ?_, by omega⟩
  unfold toInt
  rw [if_pos (by omega)]

theorem VmArea.Backed.part {vma : VmArea} (h : vma.Backed fs) (hok : vma.Ok) (ha : a < 2^32)
    (hc : vma.covers a = true) : vma.PartBacked fs a := by
  intro ht
  obtain ⟨hptr, f, hf, h1, h2⟩ := h ht
  obtain ⟨e1, e2, e3⟩ := partOffset_eq hok ha hc h1 h2
  have hp := hok.part ha hc
  have e4 : toInt (vma.clip a).2 = ((vma.clip a).2 : Int) := by
    unfold toInt
    rw [if_pos (by omega)]
  have e5 : toInt (u32 ((vma.clip a).2 + vma.partOffset a))
      = ((vma.clip a).2 + vma.partOffset a : Nat) := by
    rw [u32_of_lt (by omega)]
    unfold toInt
    rw [if_pos (by omega)]
  have hpos := hp.pos
  refine ⟨hptr, ?_⟩
  rw [hf]
  unfold getbytesCount
  simp only [e2, e4, e5]
  rw [if_neg (by omega), if_neg (by omega)]

/-- **demand loading**: the areas of the page are the ones served, and every byte of the page that a
file or a zero-filled area covers is the one the area says -/
theorem pgf_loads_page {vmas : List VmArea} (h : FaultOk base live dirs mm pd vmas)
    (hb : ∀ vma ∈ vmas, vma.Backed fs) {errflag : Nat} (ha : a < 2^32)
    (hu : errflag &&& pgfErrUsr ≠ 0) (hnp : errflag &&& pgfErrAccess = 0)
    (h0 : frameAt mm pd a = none) (hcan : FramesFor mm pd a) :
    ∃ s, pgfExceptionHandler fs mm pd vmas errflag a = some s ∧
      s.calls = vmas.filter (·.covers a) ∧
      ∀ vma ∈ vmas, ∀ b, InPage a b → vma.Contains b →
        (vma.type = .file → userByte s.mm pd b =
          some (fileByte fs vma.src.ptr (vma.src.startOffset + (b - vma.startAddress) : Nat))) ∧
        (vma.type = .zeropage → userByte s.mm pd b = some 0) := by
  obtain ⟨s, hs, hcase⟩ := pgf_result fs h ha hu hnp h0 hcan
  rcases hcase with ⟨-, w, hw, hcw, hnb⟩ | ⟨h1, -, -, h4⟩
  · exact absurd ((hb w hw).part (h.ok w hw) ha hcw) hnb
  refine ⟨s, hs, h1, fun vma hv b hbp hc => ?_⟩
  have hok := h.ok vma hv
  have hcov := covers_of_inPage hok hbp hc
  have hmem : vma ∈ vmas.filter (·.covers a) := List.mem_filter.mpr ⟨hv, hcov⟩
  obtain ⟨f, -, hf, hin, -⟩ := h4.frame (List.ne_nil_of_mem hmem)
  rw [userByte_inPage ha hbp hf]
  constructor
  · intro ht
    rw [hin vma hmem b hbp hc _ (VmArea.initial_file fs ht a b)]
    obtain ⟨-, x, hx, h2, h3⟩ := hb vma hv ht
    obtain ⟨e1, e2, -⟩ := partOffset_eq hok ha hcov h2 h3
    have hle : (vma.clip a).1 ≤ b := by
      obtain ⟨c1, -, -⟩ := hok.clip ha hcov
      rw [c1, ← hbp.2]
      exact Nat.max_le.mpr ⟨hc.1, pageAddr_le b⟩
    have hst := (hok.part ha hcov).start
    have e : toInt (vma.partOffset a) + (b - (vma.clip a).1 : Nat)
        = ((vma.src.startOffset + (b - vma.startAddress) : Nat) : Int) := by
      rw [e2, e1]
      omega
    rw [e]
  · intro ht
    rw [hin vma hmem b hbp hc _ (VmArea.initial_zeropage fs ht a b)]

/-! ## the rest of the page -/

theorem vmmPpfAlloc_snd (mm : Mm) : mm.vmmPpfAlloc.2 = (vmmBuddyGetFreePages mm.lomem 1).2 := rfl

/-- a block the allocator returns was free -/
theorem get_mem_freeBlocks {z : VmmZone} {k f : Nat} (h : ZoneInv base live z) (hb : GoodBase base)
    (hf : (vmmBuddyGetFreePages z k).2 = some f) : f ∈ allCells pageSize z.freeBlocks := by
  rcases h.get hb k with ⟨e, -⟩ | ⟨z', g, e, h', -⟩
  · rw [e] at hf
    cases hf
  rw [e] at hf
  injection hf with hf
  subst hf
  have hcell : g ∈ cells pageSize (g, k) := fst_mem_cells pageSize (g, k)
  have hnew := h'.tiles.nodup hb.nodup
  rw [allCells_append, allCells_cons] at hnew
  have hnot : g ∉ allCells pageSize live := fun hl =>
    (List.nodup_append.mp (List.nodup_append.mp hnew).2.1).2.2 g hcell g hl rfl
  have hbase : g ∈ allCells pageSize base := by
    refine (List.Perm.mem_iff h'.tiles).mp ?_
    rw [allCells_append, allCells_cons]
    exact List.mem_append_right _ (List.mem_append_left _ hcell)
  have hold := (List.Perm.mem_iff h.tiles).mpr hbase
  rw [allCells_append] at hold
  rcases List.mem_append.mp hold with h1 | h1
  · exact h1
  · exact absurd h1 hnot

/-- byte `j` of a word -/
def wordByte (w j : Nat) : Nat := w / 256^j % 256

/-- byte `o` of the `vmb_free_node_t` at the front of the frame that `vmm_ppf_alloc` returns next: its
`order` is 1 and `Q_REMOVE` has cleared its `free_link`; a split has set its `buddy`, which keeps what
is there when the frame was on the list of order 1 -/
def nodeByte (z : VmmZone) (node : Nat) (mem : Nat → Nat) (o : Nat) : Nat :=
  if o < 4 then wordByte 1 o
  else if o < 8 then
    if (z.freeAreaList 1).numFree = 0 then wordByte (buddyAddr node 1) (o - 4) else mem (node + o)
  else 0

/-- memory once that frame is taken -/
def handedOut (z : VmmZone) (mem : Nat → Nat) : Nat → Nat :=
  match (vmmBuddyGetFreePages z 1).2 with
  | none => mem
  | some node => fun x => if node ≤ x ∧ x < node + 16 then nodeByte z node mem (x - node) else mem x

/-- `pgf_exception_handler` on memory with the node of the first frame it takes: nothing is read
before that -/
def pgfFault (fs : Nat → Option ExecFile) (mm : Mm) (pd : Nat) (vmas : List VmArea)
    (errflag a : Nat) : Option PgfState :=
  pgfExceptionHandler fs { mm with mem := handedOut mm.lomem mm.mem } pd vmas errflag a

/-- the bytes of a frame that the allocator writes when it returns it -/
def NodeWritten (z : VmmZone) (o : Nat) : Prop :=
  o < 4 ∨ (o < 8 ∧ (z.freeAreaList 1).numFree = 0) ∨ (8 ≤ o ∧ o < 16)

/-- the `order` and the `free_link` of a free block, in its first page -/
def FreeNode (z : VmmZone) (x : Nat) : Prop :=
  ∃ c k, (c, k) ∈ z.freeBlocks ∧ (c ≤ x ∧ x < c + 4 ∨ c + 8 ≤ x ∧ x < c + 16)

/-- two memories that differ in free pages only, and not in the nodes of the free lists -/
def SameButFree (mm : Mm) (mem : Nat → Nat) : Prop :=
  ∀ x, mem x ≠ mm.mem x → ¬ FreeNode mm.lomem x ∧
    ∃ c ∈ allCells pageSize mm.lomem.freeBlocks, c ≤ x ∧ x < c + pageSize

section
variable {z : VmmZone} {f o : Nat} {mem mem' : Nat → Nat}

theorem handedOut_of_written (hf : (vmmBuddyGetFreePages z 1).2 = some f) (h : NodeWritten z o) :
    handedOut z mem (f + o) = handedOut z mem' (f + o) := by
  unfold handedOut
  rw [hf]
  dsimp only
  have hin : f ≤ f + o ∧ f + o < f + 16 := by
    unfold NodeWritten at h
    omega
  rw [if_pos hin, if_pos hin, Nat.add_sub_cancel_left]
  unfold nodeByte
  by_cases h4 : o < 4
  · rw [if_pos h4, if_pos h4]
  · rw [if_neg h4, if_neg h4]
    rcases h with h | ⟨h8, hz⟩ | ⟨h8, -⟩
    · exact absurd h h4
    · rw [if_pos h8, if_pos h8, if_pos hz, if_pos hz]
    · rw [if_neg (Nat.not_lt.mpr h8), if_neg (Nat.not_lt.mpr h8)]

theorem handedOut_of_not_written (hf : (vmmBuddyGetFreePages z 1).2 = some f)
    (h : ¬ NodeWritten z o) : handedOut z mem (f + o) = mem (f + o) := by
  unfold NodeWritten at h
  unfold handedOut
  rw [hf]
  dsimp only
  by_cases hin : f ≤ f + o ∧ f + o < f + 16
  · rw [if_pos hin, Nat.add_sub_cancel_left]
    unfold nodeByte
    rw [if_neg (by omega), if_pos (by omega), if_neg (by omega)]
  · rw [if_neg hin]

end

section
variable {vmas : List VmArea} {errflag : Nat} {s : PgfState}

/-- a fault that was handled, and the same fault with other contents of memory, serve the same areas -/
theorem handled_runs (h : FaultOk base live dirs mm pd vmas) (ha : a < 2^32)
    (hu : errflag &&& pgfErrUsr ≠ 0) (hnp : errflag &&& pgfErrAccess = 0)
    (h0 : frameAt mm pd a = none) (hcan : FramesFor mm pd a)
    (hs : pgfExceptionHandler fs mm pd vmas errflag a = some s) (hh : s.handled = true) :
    vmas.filter (·.covers a) ≠ [] ∧
      PageLoaded fs base dirs pd a mm (vmas.filter (·.covers a)) s.mm ∧
      ∀ mem, ∃ s', pgfExceptionHandler fs { mm with mem := mem } pd vmas errflag a = some s' ∧
        PageLoaded fs base dirs pd a { mm with mem := mem } (vmas.filter (·.covers a)) s'.mm := by
  obtain ⟨t, ht, hcase⟩ := pgf_result fs h ha hu hnp h0 hcan
  rw [hs] at ht
  injection ht with ht
  subst ht
  rcases hcase with ⟨hf, -⟩ | ⟨-, hne, hback, hload⟩
  · rw [hf] at hh
    cases hh
  refine ⟨fun hnil => ?_, hload, fun mem => ?_⟩
  · rw [hh, hnil] at hne
    cases hne
  · have hfr : frameAt { mm with mem := mem } pd a = none := by
      unfold frameAt at h0 ⊢
      rw [Mm.vmmGetMapping_eq] at h0 ⊢
      exact h0
    obtain ⟨s', hs', hcase'⟩ := pgf_result fs (h.setMem mem) ha hu hnp hfr hcan
    rcases hcase' with ⟨-, w, hw, hcw, hb⟩ | ⟨-, -, -, h4⟩
    · exact absurd (hback w (List.mem_filter.mpr ⟨hw, hcw⟩)) hb
    · exact ⟨s', hs', h4⟩

/-- the two runs take the same frame, which has what the areas say, and for the rest what the
allocator left in it -/
theorem fault_runs (h : FaultOk base live dirs mm pd vmas) (ha : a < 2^32)
    (hu : errflag &&& pgfErrUsr ≠ 0) (hnp : errflag &&& pgfErrAccess = 0)
    (h0 : frameAt mm pd a = none) (hcan : FramesFor mm pd a)
    (hs : pgfFault fs mm pd vmas errflag a = some s) (hh : s.handled = true) (mem : Nat → Nat) :
    ∃ f s', mm.vmmPpfAlloc.2 = some f ∧
      pgfFault fs { mm with mem := mem } pd vmas errflag a = some s' ∧
      (∀ b, InPage a b → ∀ vma ∈ vmas, vma.Contains b →
        (vma.type = .file ∨ vma.type = .zeropage) →
        userByte s'.mm pd b = userByte s.mm pd b) ∧
      ∀ b, InPage a b → (∀ vma ∈ vmas, ¬ vma.Contains b) →
        userByte s.mm pd b = some (handedOut mm.lomem mm.mem (f + pageDiv b)) ∧
        userByte s'.mm pd b = some (handedOut mm.lomem mem (f + pageDiv b)) := by
  have h1 := h.setMem (handedOut mm.lomem mm.mem)
  have hfr : frameAt { mm with mem := handedOut mm.lomem mm.mem } pd a = none := by
    unfold frameAt at h0 ⊢
    rw [Mm.vmmGetMapping_eq] at h0 ⊢
    exact h0
  obtain ⟨hdone, hload, hrun⟩ := handled_runs h1 ha hu hnp hfr hcan hs hh
  obtain ⟨s', hs', hl⟩ := hrun (handedOut mm.lomem mem)
  obtain ⟨f, hal, hf, hin, hout⟩ := hload.frame hdone
  obtain ⟨g, hg, hgf, hgin, hgout⟩ := hl.frame hdone
  -- the allocator does not look at contents
  obtain rfl : g = f := by
    rw [vmmPpfAlloc_snd] at hg hal
    exact Option.some.inj (hg.symm.trans hal)
  refine ⟨g, s', hal, hs', fun b hb vma hv hc hty => ?_, fun b hb hno => ?_⟩
  · have hmem : vma ∈ vmas.filter (·.covers a) :=
      List.mem_filter.mpr ⟨hv, covers_of_inPage (h.ok vma hv) hb hc⟩
    obtain ⟨v, hval⟩ : ∃ v, vma.initial fs a b = some v := by
      rcases hty with ht | ht
      · exact ⟨_, VmArea.initial_file fs ht a b⟩
      · exact ⟨_, VmArea.initial_zeropage fs ht a b⟩
    rw [userByte_inPage ha hb hgf, userByte_inPage ha hb hf, hgin vma hmem b hb hc v hval,
      hin vma hmem b hb hc v hval]
  · have hno' : ∀ vma ∈ vmas.filter (·.covers a), ¬ vma.Contains b := fun vma hv =>
      hno vma (List.mem_filter.mp hv).1
    rw [userByte_inPage ha hb hgf, userByte_inPage ha hb hf, hgout b hb hno', hout b hb hno']
    exact ⟨rfl, rfl⟩

/-- a byte of a free frame that the allocator does not write is in no node of the free lists -/
theorem not_freeNode (h : MmInv base live dirs mm) {f o : Nat} (hf : f % 4096 = 0) (ho : o < 4096)
    (hw : ¬ NodeWritten mm.lomem o) : ¬ FreeNode mm.lomem (f + o) := by
  rintro ⟨c, k, hc, hx⟩
  have hcell : c ∈ allCells pageSize base := by
    refine (List.Perm.mem_iff h.zone.tiles).mp ?_
    exact mem_allCells.mpr ⟨_, List.mem_append_left _ hc, fst_mem_cells pageSize (c, k)⟩
  have hd := (h.frame c hcell).dvd
  unfold NodeWritten at hw
  omega

/-- a byte that neither an area nor the allocator writes is what was in the frame -/
theorem page_stale_of_gap (h : FaultOk base live dirs mm pd vmas) (ha : a < 2^32)
    (hu : errflag &&& pgfErrUsr ≠ 0) (hnp : errflag &&& pgfErrAccess = 0)
    (h0 : frameAt mm pd a = none) (hcan : FramesFor mm pd a)
    (hs : pgfFault fs mm pd vmas errflag a = some s) (hh : s.handled = true) {b : Nat}
    (hb : InPage a b) (hno : ∀ vma ∈ vmas, ¬ vma.Contains b)
    (hw : ¬ NodeWritten mm.lomem (pageDiv b)) :
    ∃ mem, SameButFree mm mem ∧ ∃ s',
      pgfFault fs { mm with mem := mem } pd vmas errflag a = some s' ∧
      userByte s'.mm pd b ≠ userByte s.mm pd b := by
  obtain ⟨f, -, hal, -, -⟩ := fault_runs h ha hu hnp h0 hcan hs hh mm.mem
  rw [vmmPpfAlloc_snd] at hal
  obtain ⟨other, hother⟩ : ∃ other, other ≠ mm.mem (f + pageDiv b) := by
    by_cases h1 : mm.mem (f + pageDiv b) = 0
    · exact ⟨1, by rw [h1]; decide⟩
    · exact ⟨0, Ne.symm h1⟩
  let mem := Function.update mm.mem (f + pageDiv b) other
  obtain ⟨g, s', hg, hs', -, hout⟩ := fault_runs h ha hu hnp h0 hcan hs hh mem
  obtain rfl : g = f := by
    rw [vmmPpfAlloc_snd] at hg
    exact Option.some.inj (hg.symm.trans hal)
  have hd := pageDiv_eq b
  have hps : pageSize = 4096 := rfl
  refine ⟨mem, fun x hx => ?_, s', hs', fun heq => ?_⟩
  · obtain rfl : x = g + pageDiv b := by
      by_contra hne
      exact hx (Function.update_of_ne hne _ _)
    have hcell := get_mem_freeBlocks h.ready.inv.zone h.ready.inv.good hal
    have hbase : g ∈ allCells pageSize base := by
      refine (List.Perm.mem_iff h.ready.inv.zone.tiles).mp ?_
      rw [allCells_append]
      exact List.mem_append_left _ hcell
    refine ⟨not_freeNode h.ready.inv (h.ready.inv.frame g hbase).dvd (by omega) hw, g, hcell, ?_, ?_⟩
    · omega
    · omega
  · obtain ⟨e1, e2⟩ := hout b hb hno
    rw [e1, e2, handedOut_of_not_written hal hw, handedOut_of_not_written hal hw] at heq
    have hval : mem (g + pageDiv b) = mm.mem (g + pageDiv b) := Option.some.inj heq
    rw [show mem (g + pageDiv b) = other from Function.update_self ..] at hval
    exact hother hval

/-- **what a user program finds in a page that was just loaded does not depend on the previous
contents of free pages, if and only if the areas cover the page to its last byte**, but for the bytes
of the node that the allocator keeps at its front -/
theorem pgf_page_stale_iff (h : FaultOk base live dirs mm pd vmas) (ha : a < 2^32)
    (hu : errflag &&& pgfErrUsr ≠ 0) (hnp : errflag &&& pgfErrAccess = 0)
    (h0 : frameAt mm pd a = none) (hcan : FramesFor mm pd a)
    (hs : pgfFault fs mm pd vmas errflag a = some s) (hh : s.handled = true)
    (hty : ∀ vma ∈ vmas, vma.covers a = true → vma.type = .file ∨ vma.type = .zeropage) :
    (∀ mem, SameButFree mm mem → ∃ s',
        pgfFault fs { mm with mem := mem } pd vmas errflag a = some s' ∧
        ∀ b, InPage a b → userByte s'.mm pd b = userByte s.mm pd b) ↔
      ∀ b, InPage a b → (∃ vma ∈ vmas, vma.Contains b) ∨ NodeWritten mm.lomem (pageDiv b) := by
  constructor
  · intro hsame b hb
    by_contra hno
    obtain ⟨hno, hw⟩ := not_or.mp hno
    obtain ⟨mem, hfree, s', hs', hne⟩ := page_stale_of_gap h ha hu hnp h0 hcan hs hh hb
      (fun vma hv hc => hno ⟨vma, hv, hc⟩) hw
    obtain ⟨t, ht, heq⟩ := hsame mem hfree
    rw [hs'] at ht
    injection ht with ht
    subst ht
    exact hne (heq b hb)
  · intro hcov mem _
    obtain ⟨f, s', hal, hs', hin, hout⟩ := fault_runs h ha hu hnp h0 hcan hs hh mem
    refine ⟨s', hs', fun b hb => ?_⟩
    by_cases hc : ∃ vma ∈ vmas, vma.Contains b
    · obtain ⟨vma, hv, hc⟩ := hc
      exact hin b hb vma hv hc (hty vma hv (covers_of_inPage (h.ok vma hv) hb hc))
    · obtain ⟨e1, e2⟩ := hout b hb fun vma hv hcb => hc ⟨vma, hv, hcb⟩
      rw [e1, e2, handedOut_of_written hal ((hcov b hb).resolve_left hc)]

end

/-! ## a machine with eight frames -/

/-- two free blocks, of one and of two pairs of pages; the other pair is in use -/
def smallZone : VmmZone where
  freeAreaList i := if i = 1 then ⟨1, [0xc0402000]⟩ else if i = 2 then ⟨1, [0xc0404000]⟩ else ⟨0, []⟩
  order p := if p = 0xc0402000 then 1 else 2
  start := 0xc0400000
  numPages := 8
  maxOrder := 3

/-- no user page is mapped yet -/
def smallMm : Mm where
  lomem := smallZone
  himem := smallZone
  kernelPageDir := 0xc0000000
  word _ i := if UserPde i then 0 else 0x1003
  queue := []
  mem _ := 0

theorem smallMm_user {t i : Nat} (h : UserPde i) : smallMm.word t i = 0 := if_pos h

theorem smallMm_kernel {t i : Nat} (h : ¬ UserPde i) : smallMm.word t i = 0x1003 := if_neg h

theorem smallMm_uses {u : Use} {f : Nat} (h : Uses smallMm.word [0xc0400000] u f) :
    u = .dir 0xc0400000 ∧ f = 0xc0400000 := by
  cases h with
  | dir hd =>
    rw [List.mem_singleton.mp hd]
    exact ⟨rfl, rfl⟩
  | table hd hi h0 => exact absurd (smallMm_user hi) h0
  | page hd hi h0 hj => exact absurd (smallMm_user hi) h0

theorem smallMm_ready :
    Ready [(0xc0400000, 3)] [(0xc0400000, 1)] [0xc0400000] smallMm where
  queue := rfl
  inv :=
    { good := ⟨by decide, by decide, by decide⟩
      frame := by
        have h : ∀ c ∈ allCells pageSize [(0xc0400000, 3)],
            vmmKernelBase < c ∧ c < 2^32 ∧ c % 4096 = 0 := by decide
        exact fun c hc => ⟨(h c hc).1, (h c hc).2.1, (h c hc).2.2⟩
      zone :=
        { tiles := by unfold Tiles; decide
          order := by
            intro i p hp
            unfold VmmZone.freeList smallMm smallZone at *
            dsimp only at *
            split at hp
            · simp_all
            · split at hp <;> simp_all
          numFree := by
            intro i
            unfold VmmZone.freeList smallMm smallZone
            dsimp only
            split
            · rfl
            · split <;> rfl
          bounded := by
            intro i hi
            have h1 : i ≠ 1 := by rintro rfl; exact absurd hi (by decide)
            have h2 : i ≠ 2 := by rintro rfl; exact absurd hi (by decide)
            unfold VmmZone.freeList smallMm smallZone
            dsimp only
            rw [if_neg h1, if_neg h2] }
      live_of_use := fun u f h => by
        rw [(smallMm_uses h).2]
        exact List.mem_singleton_self _
      inj := fun u v f h h' => by rw [(smallMm_uses h).1, (smallMm_uses h').1]
      kdir := fun d _ i hi => (smallMm_kernel hi).trans (smallMm_kernel hi).symm
      kuser := fun i hi => smallMm_user hi
      ktab := fun i hi => by
        unfold tableAt
        rw [smallMm_kernel hi]
        decide
      kpd := by decide
      kmap := by decide }

/-- a file area inside one page, and a zero-filled one right after it -/
def smallVmas : List VmArea :=
  [⟨0x01000010, 0x100, pgtabAttribUsrRo, .file, 0, 1, ⟨1, 0x40⟩, .file, .default⟩,
    ⟨0x01000110, 0x200, pgtabAttribUsrRw, .zeropage, 0, 1, ⟨0, 0⟩, .zeropage, .write⟩]

/-- a file of 0x1000 bytes -/
def smallFs : Nat → Option ExecFile := fun _ => some ⟨0x1000, fun i => i.toNat % 256⟩

theorem smallVmas_forall {p : VmArea → Prop} :
    (∀ vma ∈ smallVmas, p vma) ↔
      p ⟨0x01000010, 0x100, pgtabAttribUsrRo, .file, 0, 1, ⟨1, 0x40⟩, .file, .default⟩ ∧
      p ⟨0x01000110, 0x200, pgtabAttribUsrRw, .zeropage, 0, 1, ⟨0, 0⟩, .zeropage, .write⟩ := by
  unfold smallVmas
  simp only [List.mem_cons, List.not_mem_nil, or_false, forall_eq_or_imp, forall_eq]

theorem smallMm_faultOk :
    FaultOk [(0xc0400000, 3)] [(0xc0400000, 1)] [0xc0400000] smallMm 0xc0400000 smallVmas where
  ready := smallMm_ready
  dir := List.mem_singleton_self _
  ok := smallVmas_forall.mpr
    ⟨⟨by decide, by decide, by decide, rfl, fun _ => by decide⟩,
      ⟨by decide, by decide, by decide, rfl, fun _ => by decide⟩⟩
  sorted := by unfold VmaSorted; decide
  mapped := smallVmas_forall.mpr ⟨fun h => (by cases h), fun h => (by cases h)⟩

theorem smallVmas_backed : ∀ vma ∈ smallVmas, vma.Backed smallFs :=
  smallVmas_forall.mpr
    ⟨fun _ => ⟨by decide, _, rfl, by decide, by decide⟩, fun h => (by cases h)⟩

theorem smallMm_unmapped : frameAt smallMm 0xc0400000 0x01000020 = none := by decide

theorem smallMm_frames : FramesFor smallMm 0xc0400000 0x01000020 := by
  have h : ∃ z p z' p', vmmBuddyGetFreePages smallMm.lomem 1 = (z, some p) ∧
      vmmBuddyGetFreePages z 1 = (z', some p') := ⟨_, _, _, _, rfl, rfl⟩
  obtain ⟨z, p, z', p', h1, h2⟩ := h
  exact ⟨⟨z, p, h1, trivial⟩, fun _ => ⟨z, p, h1, z', p', h2, trivial⟩⟩

theorem pgf_loads_page_small :
    ∃ s, pgfExceptionHandler smallFs smallMm 0xc0400000 smallVmas 6 0x01000020 = some s ∧
      s.calls = smallVmas.filter (·.covers 0x01000020) ∧
      ∀ vma ∈ smallVmas, ∀ b, InPage 0x01000020 b → vma.Contains b →
        (vma.type = .file → userByte s.mm 0xc0400000 b =
          some (fileByte smallFs vma.src.ptr (vma.src.startOffset + (b - vma.startAddress) : Nat))) ∧
        (vma.type = .zeropage → userByte s.mm 0xc0400000 b = some 0) :=
  pgf_loads_page smallMm_faultOk smallVmas_backed (by decide) (by decide) (by decide)
    smallMm_unmapped smallMm_frames

theorem small_handled :
    ∃ s, pgfFault smallFs smallMm 0xc0400000 smallVmas 6 0x01000020 = some s ∧
      s.handled = true := by
  have h := smallMm_faultOk.setMem (handedOut smallMm.lomem smallMm.mem)
  obtain ⟨s, hs, hcase⟩ := pgf_result smallFs h
    (by decide : 0x01000020 < 2^32) (by decide : 6 &&& pgfErrUsr ≠ 0) (by decide) smallMm_unmapped
    smallMm_frames
  refine ⟨s, hs, ?_⟩
  rcases hcase with ⟨-, w, hw, hcw, hb⟩ | ⟨-, hh, -⟩
  · exact absurd ((smallVmas_backed w hw).part (smallMm_faultOk.ok w hw) (by decide) hcw) hb
  · rw [hh]
    decide

theorem smallVmas_types :
    ∀ vma ∈ smallVmas, vma.covers 0x01000020 = true → vma.type = .file ∨ vma.type = .zeropage :=
  smallVmas_forall.mpr ⟨fun _ => .inl rfl, fun _ => .inr rfl⟩

theorem pgf_page_stale_iff_small :
    ∃ s, pgfFault smallFs smallMm 0xc0400000 smallVmas 6 0x01000020 = some s ∧
      ((∀ mem, SameButFree smallMm mem → ∃ s', pgfFault smallFs
          { smallMm with mem := mem } 0xc0400000 smallVmas 6 0x01000020 = some s' ∧
          ∀ b, InPage 0x01000020 b →
            userByte s'.mm 0xc0400000 b = userByte s.mm 0xc0400000 b) ↔
        ∀ b, InPage 0x01000020 b → (∃ vma ∈ smallVmas, vma.Contains b) ∨
          NodeWritten smallMm.lomem (pageDiv b)) := by
  obtain ⟨s, hs, hh⟩ := small_handled
  exact ⟨s, hs, pgf_page_stale_iff smallMm_faultOk (by decide) (by decide) (by decide)
    smallMm_unmapped smallMm_frames hs hh smallVmas_types⟩

/-- a byte in the page's tail, behind both areas, shows what the frame held -/
theorem pgf_page_stale_tail :
    ∃ s mem s', pgfFault smallFs smallMm 0xc0400000 smallVmas 6 0x01000020 = some s ∧
      s.handled = true ∧ SameButFree smallMm mem ∧
      pgfFault smallFs { smallMm with mem := mem } 0xc0400000 smallVmas 6 0x01000020 = some s' ∧
      InPage 0x01000020 0x01000400 ∧
      userByte s'.mm 0xc0400000 0x01000400 ≠ userByte s.mm 0xc0400000 0x01000400 := by
  obtain ⟨s, hs, hh⟩ := small_handled
  have hb : InPage 0x01000020 0x01000400 := by
    unfold InPage
    decide
  have hno : ∀ vma ∈ smallVmas, ¬ vma.Contains 0x01000400 :=
    smallVmas_forall.mpr ⟨fun h => absurd h.2 (by decide), fun h => absurd h.2 (by decide)⟩
  have hw : ¬ NodeWritten smallMm.lomem (pageDiv 0x01000400) := by
    unfold NodeWritten
    decide
  obtain ⟨mem, hfree, s', hs', hne⟩ := page_stale_of_gap smallMm_faultOk (by decide) (by decide)
    (by decide) smallMm_unmapped smallMm_frames hs hh hb hno hw
  exact ⟨s, mem, s', hs, hh, hfree, hs', hb, hne⟩

end

end Paravirt

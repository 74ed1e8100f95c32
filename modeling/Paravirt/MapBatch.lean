import Paravirt.MachMap
import Paravirt.ZoneRun

/-!
# A batch of vmm_map_page calls

* `lastFor`             the last request for a page in a list of requests;
* `Xen.requests`        what a list of calls asks for: the entry of each call that returns 0, and
  the read-only mapping of each frame taken for a table;
* `Xen.NoStale`         no last request for a page is dropped because memory lags behind the queue;
* `map_pages_batched_iff`.
-/

set_option linter.unusedSectionVars false

namespace Paravirt
open Tiling

/-! ## requests -/

def lastFor : List (Nat × Nat) → Nat → Option Nat
  | [], _ => none
  | (a, v) :: l, va =>
    match lastFor l va with
    | some w => some w
    | none => if SamePage va a then some v else none

theorem lastFor_append (l l' : List (Nat × Nat)) (va : Nat) :
    lastFor (l ++ l') va = (lastFor l' va).or (lastFor l va) := by
  induction l with
  | nil => cases h : lastFor l' va <;> simp [lastFor, h]
  | cons u l ih =>
    simp only [List.cons_append, lastFor, ih]
    cases lastFor l' va with
    | none => rfl
    | some w => rfl

theorem lastFor_samePage {a b : Nat} (h : SamePage a b) (l : List (Nat × Nat)) :
    lastFor l a = lastFor l b := by
  induction l with
  | nil => rfl
  | cons u l ih =>
    have e : SamePage a u.1 ↔ SamePage b u.1 :=
      ⟨fun ha => h.symm.trans ha, fun hb => h.trans hb⟩
    simp only [lastFor, ih, e]

structure MapReq where
  vaddr : Nat
  ppf : Nat
  flags : Nat

/-- one call after the other, whatever they return -/
def Xen.mapPages (x : Xen) (d : Nat) : List MapReq → Xen
  | [] => x
  | r :: rs => (x.vmmMapPage d r.vaddr r.ppf r.flags).1.mapPages d rs

/-- what one call asks for -/
def Xen.callRequests (x : Xen) (d : Nat) (r : MapReq) : List (Nat × Nat) :=
  if (x.vmmMapPage d r.vaddr r.ppf r.flags).2 then
    ((x.tableFrame d r.vaddr).toList.map fun f => (f, pgtabAttribSuRo ||| x.machOf f)) ++
      [(r.vaddr, x.mapVal r.ppf r.flags)]
  else []

def Xen.requests (x : Xen) (d : Nat) : List MapReq → List (Nat × Nat)
  | [] => []
  | r :: rs => x.callRequests d r ++ (x.vmmMapPage d r.vaddr r.ppf r.flags).1.requests d rs

/-- a batch, once flushed, is the requests made one by one -/
def Xen.Batched (x : Xen) (d : Nat) (rs : List MapReq) : Prop :=
  ∀ va, OwnPde (pdeIndex va) → (x.mapPages d rs).vmmFlushMmuUpdateQueue.entry d va =
    (lastFor (x.requests d rs) va).getD (x.entry d va)

/-- no call that is the last one for its page asks for the value in memory while another one is
pending for that entry -/
def Xen.NoStale (x : Xen) (d : Nat) : List MapReq → Prop
  | [] => True
  | r :: rs =>
    ((x.vmmMapPage d r.vaddr r.ppf r.flags).2 = true →
      lastFor ((x.vmmMapPage d r.vaddr r.ppf r.flags).1.requests d rs) r.vaddr = none →
      ¬ x.Stale d r.vaddr r.ppf r.flags) ∧
    (x.vmmMapPage d r.vaddr r.ppf r.flags).1.NoStale d rs

/-! ## one call -/

/-- what a run of calls keeps -/
def Xen.Ok (base : List Block) (dom : Nat → Prop) (d : Nat) (x : Xen) : Prop :=
  ∃ live, x.Wf base live dom [d] ∧ x.Pend [d]

namespace Xen.Ok
variable {base : List Block} {dom : Nat → Prop} {d : Nat} {x : Xen}

theorem call (h : x.Ok base dom d) {r : MapReq} (hr : OwnPde (pdeIndex r.vaddr)) :
    x.vmmMapPage d r.vaddr r.ppf r.flags = (x, false) ∨
    ∃ x', x.Mapped base dom [d] d r.vaddr r.ppf r.flags x' := by
  obtain ⟨live, hw, hp⟩ := h
  rcases hw.mapPage hp List.mem_cons_self hr r.ppf r.flags
    (fun _ h0 d' hd' => by rw [List.mem_singleton.mp hd']; exact h0) with ⟨e, -⟩ | h'
  · exact .inl e
  · exact .inr h'

theorem next (h : x.Ok base dom d) {r : MapReq} (hr : OwnPde (pdeIndex r.vaddr)) :
    (x.vmmMapPage d r.vaddr r.ppf r.flags).1.Ok base dom d := by
  rcases h.call hr with e | ⟨x', hx⟩
  · rw [e]
    exact h
  · obtain ⟨live', hw⟩ := hx.wf
    rw [hx.ok]
    exact ⟨live', hw, hx.pend⟩

theorem callRequests_of_mapped {x' : Xen} {r : MapReq}
    (hx : x.Mapped base dom [d] d r.vaddr r.ppf r.flags x') : x.callRequests d r =
      ((x.tableFrame d r.vaddr).toList.map fun f => (f, pgtabAttribSuRo ||| x.machOf f)) ++
        [(r.vaddr, x.mapVal r.ppf r.flags)] := by
  unfold Xen.callRequests
  rw [hx.ok, if_pos rfl]

/-- in the one directory, an entry is shared by the addresses of its page -/
theorem sameEntry_iff (x : Xen) (d va va' : Nat) :
    Wf.SameEntry x d va d va' ↔ SamePage va' va := ⟨fun h => h.1, fun h => ⟨h, .inl rfl⟩⟩

/-- the entry of a page no request is made for -/
theorem call_untouched (h : x.Ok base dom d) {r : MapReq} {va : Nat}
    (hr : OwnPde (pdeIndex r.vaddr)) (ho : OwnPde (pdeIndex va))
    (hn : lastFor (x.callRequests d r) va = none) :
    (x.vmmMapPage d r.vaddr r.ppf r.flags).1.eff.entry d va = x.eff.entry d va := by
  rcases h.call hr with e | ⟨x', hx⟩
  · rw [e]
  · rw [callRequests_of_mapped hx, lastFor_append] at hn
    have hself : ¬ SamePage va r.vaddr := by
      intro hs
      simp [lastFor, hs] at hn
    rw [hx.ok, hx.entry d List.mem_cons_self va ho, if_neg (fun hh => hself hh.1.1)]
    unfold Xen.tableEntry
    cases htf : x.tableFrame d r.vaddr with
    | none => rfl
    | some f =>
      have hf : ¬ SamePage va f := by
        intro hs
        rw [htf] at hn
        simp [lastFor, hs, hself] at hn
      simp only
      rw [if_neg hf]

/-- the entry of the frame taken for a table -/
theorem call_table (h : x.Ok base dom d) {r : MapReq} {va v : Nat}
    (hr : OwnPde (pdeIndex r.vaddr)) (ho : OwnPde (pdeIndex va)) (hself : ¬ SamePage va r.vaddr)
    (hn : lastFor (x.callRequests d r) va = some v) :
    (x.vmmMapPage d r.vaddr r.ppf r.flags).1.eff.entry d va = v := by
  rcases h.call hr with e | ⟨x', hx⟩
  · have : x.callRequests d r = [] := by
      unfold Xen.callRequests
      rw [e]
      rfl
    rw [this] at hn
    cases hn
  · rw [callRequests_of_mapped hx, lastFor_append] at hn
    rw [hx.ok, hx.entry d List.mem_cons_self va ho, if_neg (fun hh => hself hh.1.1)]
    unfold Xen.tableEntry
    cases htf : x.tableFrame d r.vaddr with
    | none =>
      rw [htf] at hn
      simp [lastFor, hself] at hn
    | some f =>
      rw [htf] at hn
      by_cases hs : SamePage va f
      · simp only
        rw [if_pos hs]
        simp only [Option.toList_some, List.map_cons, List.map_nil, lastFor, hself, hs, if_true,
          if_false, Option.none_or, Option.some.injEq] at hn
        exact hn
      · simp [lastFor, hself, hs] at hn

theorem lastFor_self {r : MapReq} {va : Nat}
    (hok : (x.vmmMapPage d r.vaddr r.ppf r.flags).2 = true) (hs : SamePage va r.vaddr) :
    lastFor (x.callRequests d r) va = some (x.mapVal r.ppf r.flags) := by
  unfold Xen.callRequests
  rw [if_pos hok, lastFor_append]
  simp [lastFor, hs]

/-- the entry of the page the call is for -/
theorem call_self (h : x.Ok base dom d) {r : MapReq} {va : Nat}
    (hr : OwnPde (pdeIndex r.vaddr)) (ho : OwnPde (pdeIndex va))
    (hok : (x.vmmMapPage d r.vaddr r.ppf r.flags).2 = true) (hs : SamePage va r.vaddr) :
    (x.vmmMapPage d r.vaddr r.ppf r.flags).1.eff.entry d va = x.mapVal r.ppf r.flags ↔
      ¬ x.Stale d r.vaddr r.ppf r.flags := by
  rcases h.call hr with e | ⟨x', hx⟩
  · rw [e] at hok
    cases hok
  · have hse := (sameEntry_iff x d r.vaddr va).mpr hs
    rw [hx.ok, hx.entry d List.mem_cons_self va ho]
    by_cases hst : x.Stale d r.vaddr r.ppf r.flags
    · obtain ⟨live, hw, hp⟩ := h
      have hpe := hw.eff_pde hp List.mem_cons_self (pdeIndex_lt r.vaddr)
      have htf : x.tableFrame d r.vaddr = none := by
        unfold Xen.tableFrame
        rw [hw.p2v_pde List.mem_cons_self, hw.load_pde List.mem_cons_self, if_neg hst.1]
      rw [if_neg (fun hh => hh.2 hst)]
      unfold Xen.tableEntry
      rw [htf]
      simp only
      rw [(hse.congr hpe hpe).entry]
      exact ⟨fun e => absurd e hst.2.2, fun hn => absurd hst hn⟩
    · rw [if_pos ⟨hse, hst⟩]
      exact ⟨fun _ => hst, fun _ => rfl⟩

/-! ## a run of calls -/

theorem run_untouched (rs : List MapReq) (hrs : ∀ r ∈ rs, OwnPde (pdeIndex r.vaddr)) {x : Xen}
    (h : x.Ok base dom d) {va : Nat} (ho : OwnPde (pdeIndex va))
    (hn : lastFor (x.requests d rs) va = none) :
    (x.mapPages d rs).eff.entry d va = x.eff.entry d va := by
  induction rs generalizing x with
  | nil => rfl
  | cons r rs ih =>
    rw [Xen.requests, lastFor_append] at hn
    obtain ⟨h1, h2⟩ := Option.or_eq_none_iff.mp hn
    have hr := hrs r List.mem_cons_self
    exact (ih (fun r hr => hrs r (List.mem_cons_of_mem _ hr)) (h.next hr) h1).trans
      (h.call_untouched hr ho h2)

theorem batched_iff (rs : List MapReq) (hrs : ∀ r ∈ rs, OwnPde (pdeIndex r.vaddr)) {x : Xen}
    (h : x.Ok base dom d) :
    (∀ va, OwnPde (pdeIndex va) → (x.mapPages d rs).eff.entry d va =
      (lastFor (x.requests d rs) va).getD (x.eff.entry d va)) ↔ x.NoStale d rs := by
  induction rs generalizing x with
  | nil => exact ⟨fun _ => trivial, fun _ _ _ => rfl⟩
  | cons r rs ih =>
    have hr := hrs r List.mem_cons_self
    have hrest : ∀ r ∈ rs, OwnPde (pdeIndex r.vaddr) := fun r hr =>
      hrs r (List.mem_cons_of_mem _ hr)
    have hx := h.next hr
    have ih := ih hrest hx
    have hout : ∀ va, OwnPde (pdeIndex va) →
        lastFor ((x.vmmMapPage d r.vaddr r.ppf r.flags).1.requests d rs) va = none →
        (x.mapPages d (r :: rs)).eff.entry d va =
          (x.vmmMapPage d r.vaddr r.ppf r.flags).1.eff.entry d va :=
      fun va ho hn => run_untouched rs hrest hx ho hn
    constructor
    · intro hb
      refine ⟨fun hok hn => ?_, ih.mp fun va ho => ?_⟩
      · have hv := hb r.vaddr hr
        rw [hout _ hr hn, Xen.requests, lastFor_append, hn, Option.none_or,
          lastFor_self hok ⟨rfl, rfl⟩] at hv
        exact (h.call_self hr hr hok ⟨rfl, rfl⟩).mp hv
      · have hv := hb va ho
        rw [Xen.requests, lastFor_append] at hv
        cases hn : lastFor ((x.vmmMapPage d r.vaddr r.ppf r.flags).1.requests d rs) va with
        | none => exact hout va ho hn
        | some w =>
          rw [hn] at hv
          exact hv
    · rintro ⟨hst, hstale⟩ va ho
      have hv := ih.mpr hstale va ho
      rw [Xen.requests, lastFor_append]
      cases hn : lastFor ((x.vmmMapPage d r.vaddr r.ppf r.flags).1.requests d rs) va with
      | some w =>
        rw [hn] at hv
        exact hv
      | none =>
        rw [hout va ho hn, Option.none_or]
        cases hc : lastFor (x.callRequests d r) va with
        | none => exact h.call_untouched hr ho hc
        | some v =>
          by_cases hs : SamePage va r.vaddr
          · have hok : (x.vmmMapPage d r.vaddr r.ppf r.flags).2 = true := by
              by_contra hne
              unfold Xen.callRequests at hc
              rw [if_neg hne] at hc
              cases hc
            rw [lastFor_self hok hs] at hc
            injection hc with hc
            rw [← hc]
            rw [lastFor_samePage hs] at hn
            exact (h.call_self hr ho hok hs).mpr (hst hok hn)
          · exact h.call_table hr ho hs hc

end Xen.Ok

/-- A batch of calls on one directory, flushed, leaves each entry as the last request for its page
asks, and the others as they were, exactly when no such request was dropped. -/
theorem map_pages_batched_iff {base live : List Block} {dom : Nat → Prop} {d : Nat} {x : Xen}
    (h : x.Wf base live dom [d]) (hq : x.queue = []) (rs : List MapReq)
    (hrs : ∀ r ∈ rs, OwnPde (pdeIndex r.vaddr)) : x.Batched d rs ↔ x.NoStale d rs := by
  have hb := Xen.Ok.batched_iff rs hrs ⟨live, h, Xen.Pend.nil hq⟩
  rw [Xen.eff_of_nil hq] at hb
  exact hb

/-- sixteen pages of lomem from `0xc0008000`; the directories `0xc0001000` and `0xc0003000` share the
kernel table `0xc0002000`, which maps the domain's frames, and have the hypervisor's entries: one of
`machine_to_phys_mapping`, and the directory itself.  No user page has a table -/
def twoDirs : Xen where
  lomem := VmmZone.pushFront
    { freeAreaList := fun _ => ⟨0, []⟩
      order := Function.update (fun _ => 0) 0xc0009000 3
      start := 0xc0008000
      numPages := 16
      maxOrder := 3 } 3 0xc0009000
  mem a :=
    if a = 0x101c00 ∨ a = 0x103c00 then 0x102007
    else if a = 0x101fc0 ∨ a = 0x103fc0 then 0x3fc001e3
    else if a = 0x101fd0 then 0x101063
    else if a = 0x103fd0 then 0x103063
    else if 0x102000 ≤ a ∧ a < 0x102400 ∧ a % 4 = 0 then (a - 0x102000) / 4 * 4096 + 0x100003
    else 0
  xenMfnList pfn := pfn + 0x100
  machineToPhysMapping mfn := mfn - 0x100
  queue := []

def twoDirsDom (f : Nat) : Prop := IsFrame f ∧ f < 0xc0100000

theorem twoDirs_lomem : twoDirs.lomem = vmmZoneInit (fun _ => 0) 0xc0008000 16 := by
  have hb : buddyInitBlock 0xc0008000 16 = (0xc0009000, 3) := by decide
  have hne : ∀ i, ¬ (0xc0009000 = 0xc0008000 ∧ i = 0) := fun i h => absurd h.1 (by decide)
  rw [vmmZoneInit_eq _ hb]
  simp only [hne, if_false]
  rfl

theorem twoDirs_pde {d i : Nat} (hd : d ∈ [0xc0001000, 0xc0003000]) (hi : OwnPde i) :
    twoDirs.pde d i = if i = 768 then 0x102007 else 0 := by
  have hm : twoDirs.machOf d = 0x101000 ∨ twoDirs.machOf d = 0x103000 := by
    rcases List.mem_cons.mp hd with rfl | hd
    · exact .inl (by decide)
    · rw [List.mem_singleton.mp hd]
      exact .inr (by decide)
  unfold OwnPde at hi
  unfold Xen.pde
  show (if _ then _ else if _ then _ else if _ then _ else if _ then _ else if _ then _ else _) = _
  by_cases e : i = 768
  · rw [if_pos e, if_pos (by omega)]
  · rw [if_neg e, if_neg (by omega), if_neg (by omega), if_neg (by omega), if_neg (by omega),
      if_neg (by omega)]

theorem twoDirs_cell {c : Nat} (h : c ∈ allCells pageSize [buddyInitBlock 0xc0008000 16]) :
    IsFrame c ∧ 0xc0009000 ≤ c ∧ c < 0xc0011000 := by
  have hb : buddyInitBlock 0xc0008000 16 = (0xc0009000, 3) := by decide
  obtain ⟨b, hmem, hc⟩ := mem_allCells.mp h
  rw [hb] at hmem
  rw [List.mem_singleton.mp hmem] at hc
  obtain ⟨j, hj, rfl⟩ := List.mem_map.mp hc
  have hlt : j < 8 := List.mem_range.mp hj
  show IsFrame (0xc0009000 + 4096 * j) ∧ _ ≤ 0xc0009000 + 4096 * j ∧ 0xc0009000 + 4096 * j < _
  refine ⟨⟨?_, by omega, by omega⟩, by omega, by omega⟩
  unfold vmmKernelBase
  omega

theorem twoDirs_wf : twoDirs.Wf [buddyInitBlock 0xc0008000 16] [] twoDirsDom
    [0xc0001000, 0xc0003000] where
  maps := by
    refine ⟨fun f hf => hf.1, fun f _ => ?_, fun f _ => ?_, fun f hf => ?_⟩
    · exact Nat.add_sub_cancel _ _
    · exact Nat.succ_ne_zero _
    · have h1 := hf.1.v2p
      have h2 := hf.2
      show v2p f / 4096 + 0x100 < 2^20
      omega
  good := .init (by decide) (by decide)
  cell c hc := by
    obtain ⟨h1, -, h3⟩ := twoDirs_cell hc
    exact ⟨h1, by omega⟩
  low c hc := by
    obtain ⟨-, h2, h3⟩ := twoDirs_cell hc
    rw [pdeIndex_eq]
    unfold OwnPde
    omega
  zone := twoDirs_lomem ▸ .init _ (by decide) (by decide)
  dir d hd := by
    refine ⟨?_, fun hc => ?_⟩
    · rcases List.mem_cons.mp hd with rfl | hd
      · exact ⟨⟨by decide, by decide, by decide⟩, by decide⟩
      · rw [List.mem_singleton.mp hd]
        exact ⟨⟨by decide, by decide, by decide⟩, by decide⟩
    · obtain ⟨-, h2, -⟩ := twoDirs_cell hc
      have hlt : d < 0xc0009000 := by
        rcases List.mem_cons.mp hd with rfl | hd
        · decide
        · rw [List.mem_singleton.mp hd]
          decide
      omega
  table d hd i hi hp := by
    rw [twoDirs_pde hd hi] at hp ⊢
    split at hp
    · rename_i e
      rw [if_pos e]
      refine ⟨0xc0002000, ⟨⟨by decide, by decide, by decide⟩, by decide⟩, by decide, by decide,
        fun hc => ?_⟩
      exact absurd (twoDirs_cell hc).2.1 (by decide)
    · exact absurd rfl hp
  inj d hd d' hd' i hi i' hi' hp hp' _ := by
    rw [twoDirs_pde hd hi] at hp
    rw [twoDirs_pde hd' hi'] at hp'
    split at hp
    · rename_i e
      split at hp'
      · rename_i e'
        exact ⟨e.trans e'.symm, .inr (by rw [e]; decide)⟩
      · exact absurd rfl hp'
    · exact absurd rfl hp
  kmap d hd c hc := by
    obtain ⟨-, h2, h3⟩ := twoDirs_cell hc
    have hi : pdeIndex c = 768 := by
      rw [pdeIndex_eq]
      omega
    rw [hi, twoDirs_pde hd (by decide), if_pos rfl]
    decide
  shared d hd d' hd' i hi hk hp hp' := by rw [twoDirs_pde hd hi, twoDirs_pde hd' hi]

/-- a page mapped, for which a table is set up, then mapped anew with other flags -/
theorem map_pages_batched_iff_remap : twoDirs.Batched 0xc0001000
    [⟨0x1000000, 0xc0004000, 7⟩, ⟨0x1000000, 0xc0004000, 5⟩] :=
  (map_pages_batched_iff (twoDirs_wf.mono (by decide)) rfl _ (by decide)).mpr
    ⟨fun _ _ => by decide, fun _ _ => by decide, trivial⟩

/-- a page mapped and, before the queue is flushed, unmapped: it stays mapped -/
theorem map_pages_unmap_lost : ¬ twoDirs.Batched 0xc0001000
    [⟨0x1000000, 0xc0004000, 7⟩, ⟨0x1000000, 0, 0⟩] := by
  intro h
  have hv := h 0x1000000 (by decide)
  revert hv
  decide

end Paravirt

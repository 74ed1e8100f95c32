import Paravirt.Console

/-!
# What a print puts out (kern/xen_console.c)

`xen_console_print` ends a line by writing `'\r'` over the first character of the next one, sends
the line with it, and puts the character back.  Here is what comes of it, for a text with any
newlines: `print_adds_cr`.

* `RingAdds.sendAll`      a send for which there is room, behind what was sent before;
* `ProtMem.bytes_line`    the memory while a line is sent;
* `printLoop_lines`       the invariant of the loop: the lines before `data` are in the ring.
-/

namespace Paravirt

variable {m m' m₁ : ProtMem} {ring ring' ring'' : XenconsOut} {bytes : List Nat}
  {buf size data curr length fuel n : Nat}

theorem ProtMem.bytes_add (m : ProtMem) (buf k n : Nat) :
    m.bytes buf (k + n) = m.bytes buf k ++ m.bytes (buf + k) n := by
  unfold ProtMem.bytes
  rw [List.range_add, List.map_append, List.map_map]
  congr 1
  apply List.map_congr_left
  intro i _
  show m.val (u32 (buf + (k + i))) = m.val (u32 (buf + k + i))
  rw [Nat.add_assoc]

theorem ProtMem.bytes_congr (h : ∀ i, i < n → m.val (u32 (buf + i)) = m'.val (u32 (buf + i))) :
    m.bytes buf n = m'.bytes buf n := by
  unfold ProtMem.bytes
  apply List.map_congr_left
  intro i hi
  exact h i (List.mem_range.mp hi)

/-- a send for which there is room -/
theorem RingAdds.sendAll (h : RingAdds ring ring' bytes) (hroom : bytes.length + n ≤ ring.free)
    (hs : ringSend ring' (fun i => m.get (data + i)) n = some ring'') :
    RingAdds ring ring'' (bytes ++ m.bytes data n) := by
  obtain ⟨new, hadds, hlen, hdata⟩ := ringSend_adds h hs
  have hused := h.room
  have hn : new.length = n := by
    unfold XenconsOut.free at hroom
    omega
  rw [← hn, ← sent_eq hdata]
  exact hadds

/-- a line of memory that has the carriage return stored behind its newline -/
theorem ProtMem.bytes_line (hval : m₁.val = Function.update m.val (data + n + 1) 13)
    (hplain : ∀ i, i < n → m.val (data + i) ≠ 10) (hnl : m.val (data + n) = 10)
    (hlt : data + n + 1 < 2^32) : m₁.bytes data (n + 2) = addCr (m.bytes data (n + 1)) := by
  have hsame : m₁.bytes data (n + 1) = m.bytes data (n + 1) := by
    apply ProtMem.bytes_congr
    intro i hi
    have hu : u32 (data + i) = data + i := u32_of_lt (by omega)
    rw [hval, hu, Function.update_of_ne (by omega)]
  have hline : addCr (m.bytes data n) = m.bytes data n := by
    rw [addCr_eq_self]
    intro c hc
    obtain ⟨i, hi, rfl⟩ := List.mem_map.mp hc
    have hi := List.mem_range.mp hi
    have hu : u32 (data + i) = data + i := u32_of_lt (by omega)
    rw [hu]
    exact hplain i hi
  have hcr : m₁.val (u32 (data + (n + 1))) = 13 := by
    have hu : u32 (data + (n + 1)) = data + n + 1 := u32_of_lt (by omega)
    rw [hval, hu]
    exact Function.update_self ..
  have hn : u32 (data + n) = data + n := u32_of_lt (by omega)
  rw [m₁.bytes_succ, hsame, hcr, m.bytes_succ, addCr_append, hline, hn, hnl, List.append_assoc]
  rfl

/-- the lines of a text, joined to those before -/
theorem addCr_bytes_add (hd : buf ≤ data) :
    addCr (m.bytes buf (data - buf)) ++ addCr (m.bytes data n) = addCr (m.bytes buf (data + n - buf)) := by
  have hsplit : data + n - buf = data - buf + n := by omega
  have hdata : buf + (data - buf) = data := by omega
  rw [← addCr_append, hsplit, m.bytes_add, hdata]

theorem length_addCr_le (hd : data ≤ n) :
    (addCr (m.bytes buf data)).length ≤ (addCr (m.bytes buf n)).length := by
  obtain ⟨k, rfl⟩ := Nat.exists_eq_add_of_le hd
  rw [m.bytes_add, addCr_append, List.length_append]
  exact Nat.le_add_right _ _

/-- what the loop leaves to be sent starts at `data`, in a memory that is as it was -/
structure PrintInv (m : ProtMem) (ring : XenconsOut) (buf stop : Nat) (m₁ : ProtMem)
    (ring₁ : XenconsOut) (data length : Nat) : Prop where
  val : m₁.val = m.val
  buf_le : buf ≤ data
  stop_eq : data + length = stop
  pos : 0 < length
  adds : RingAdds ring ring₁ (addCr (m.bytes buf (data - buf)))

/-- the numbers of a line of `k` characters and its newline -/
theorem line_offsets {k : Nat} (hdata : data + k + 1 < 2^32) (hk : k + 2 < 2^32)
    (hlen : k + 1 ≤ length) (hl : length < 2^32) :
    u32 (u32sub (data + k) data + 2) = k + 2 ∧ u32sub length (u32sub (k + 2) 1) = length - (k + 1) ∧
      u32 (data + k + 1) = data + k + 1 := by
  have hsub : u32sub (data + k) data = k := by
    rw [Nat.add_comm]
    exact u32sub_add (by omega)
  have hone : u32sub (k + 1 + 1) 1 = k + 1 := u32sub_add (by omega)
  refine ⟨?_, ?_, u32_of_lt (by omega)⟩
  · rw [hsub]
    exact u32_of_lt (by omega)
  · rw [hone]
    unfold u32sub u32
    omega

/-- **a line is sent**, with a carriage return stored behind its newline, and the byte that was there
is put back -/
theorem PrintInv.line {stop k : Nat} {m₂ m₃ : ProtMem}
    (hinv : PrintInv m ring buf stop m₁ ring' data length) (hstop : stop ≤ 2^32)
    (hroom : (addCr (m.bytes buf (stop - buf))).length ≤ ring.free) (hlt : data + k + 1 < stop)
    (hplain : ∀ i, i < k → m.val (data + i) ≠ 10) (hnl : m.val (data + k) = 10)
    (hval₂ : m₂.val = Function.update m.val (data + k + 1) 13)
    (hval₃ : m₃.val = Function.update m₂.val (data + k + 1) (m.val (data + k + 1)))
    (hsend : ringSend ring' (fun i => m₂.get (data + i)) (k + 2) = some ring'') :
    PrintInv m ring buf stop m₃ ring'' (data + k + 1) (length - (k + 1)) := by
  have hbuf := hinv.buf_le
  have hend := hinv.stop_eq
  have hline : m₂.bytes data (k + 2) = addCr (m.bytes data (k + 1)) :=
    ProtMem.bytes_line hval₂ hplain hnl (by omega)
  have hsent := @addCr_bytes_add m buf data (k + 1) hinv.buf_le
  have hfit : (addCr (m.bytes buf (data - buf))).length + (k + 2) ≤ ring.free := by
    have h1 : (m₂.bytes data (k + 2)).length = k + 2 := m₂.length_bytes _ _
    have h2 := @length_addCr_le m buf (data + (k + 1) - buf) (stop - buf) (by omega)
    rw [hline] at h1
    rw [← hsent, List.length_append, h1] at h2
    omega
  have hadds := hinv.adds.sendAll hfit hsend
  rw [hline, hsent] at hadds
  refine ⟨?_, by omega, by omega, by omega, hadds⟩
  rw [hval₃, hval₂, Function.update_idem, Function.update_eq_self]

/-- **the loop**: a line is sent whole, and what is left has no newline but at its end -/
theorem printLoop_lines {stop : Nat} (hstop : stop ≤ 2^32)
    (hroom : (addCr (m.bytes buf (stop - buf))).length ≤ ring.free)
    (hinv : PrintInv m ring buf stop m₁ ring' data length) (hcurr : data ≤ curr) (hlt : curr < stop)
    (hplain : ∀ a, data ≤ a → a < curr → m.val a ≠ 10)
    {r : ProtMem × XenconsOut × Nat × Nat}
    (h : printLoop fuel m₁ ring' curr data length = some r) :
    PrintInv m ring buf stop r.1 r.2.1 r.2.2.1 r.2.2.2 ∧
      ∀ a, r.2.2.1 ≤ a → a + 1 < stop → m.val a ≠ 10 := by
  have hsmall : stop - buf ≤ sizeofOut := by
    have hle := length_le_addCr (m.bytes buf (stop - buf))
    rw [m.length_bytes] at hle
    exact Nat.le_trans (Nat.le_trans hle hroom) (Nat.sub_le _ _)
  unfold sizeofOut at hsmall
  induction fuel generalizing m₁ ring' curr data length with
  | zero => exact absurd h.symm (Option.some_ne_none _)
  | succ fuel ih =>
    have hbuf := hinv.buf_le
    have hlen := hinv.stop_eq
    have hend : u32sub (data + length) 1 = stop - 1 := by
      rw [hlen]
      unfold u32sub u32
      omega
    by_cases hc : curr < stop - 1
    · have hnext : u32 (curr + 1) = curr + 1 := u32_of_lt (by omega)
      by_cases hnl : m.val curr = 10
      · obtain ⟨m₂, m₃, ring₂, hset, hsend, hset', hloop⟩ :=
          printLoop_line (by omega) (by rw [hend]; exact hc) (by rw [hinv.val]; exact hnl) h
        obtain ⟨k, rfl⟩ := Nat.exists_eq_add_of_le hcurr
        obtain ⟨e₁, e₂, -⟩ := @line_offsets data length k (by omega) (by omega) (by omega) (by omega)
        obtain ⟨hval₂, -⟩ := ProtMem.set_some hset
        obtain ⟨hval₃, -⟩ := ProtMem.set_some hset'
        rw [hnext, hinv.val] at hval₂ hval₃
        rw [e₁] at hsend hloop
        rw [e₂, hnext] at hloop
        refine ih (hinv.line hstop hroom (by omega) ?_ hnl hval₂ hval₃ hsend) (Nat.le_refl _)
          (by omega) (fun a ha ha' => by omega) hloop
        exact fun i hi => hplain (data + i) (by omega) (by omega)
      · have hloop := printLoop_next (by omega) (by rw [hend]; exact hc)
          (by rw [hinv.val]; exact hnl) h
        rw [hnext] at hloop
        refine ih hinv (by omega) (by omega) (fun a ha ha' => ?_) hloop
        by_cases hac : a = curr
        · rw [hac]
          exact hnl
        · exact hplain a ha (by omega)
    · unfold printLoop at h
      rw [hend, if_neg hc] at h
      injection h with h
      rw [← h]
      refine ⟨hinv, fun a ha ha' => hplain a ha ?_⟩
      omega

/-- one character for which there is room -/
theorem RingAdds.sendChar {c : Nat} (h : RingAdds ring ring' bytes) (hroom : bytes.length < ring.free)
    (hs : ringSend ring' (fun _ => some c) 1 = some ring'') : RingAdds ring ring'' (bytes ++ [c]) := by
  obtain ⟨new, hadds, hlen, hdata⟩ := ringSend_adds h hs
  have hused := h.room
  have h1 : new.length = 1 := by
    unfold XenconsOut.free at hroom
    omega
  obtain ⟨b, rfl⟩ := List.length_eq_one_iff.mp h1
  have hb : b = c := (Option.some.inj (hdata 0 Nat.one_pos)).symm
  rw [← hb]
  exact hadds

/-- a text with no newline but, it may be, at its end -/
theorem ProtMem.bytes_last (hplain : ∀ i, i < n → m.val (data + i) ≠ 10) (hlt : data + n < 2^32) :
    addCr (m.bytes data (n + 1)) =
      m.bytes data (n + 1) ++ (if m.val (data + n) = 10 then [13] else []) := by
  rw [m.bytes_succ, u32_of_lt hlt, addCr_concat]
  intro d hd
  obtain ⟨i, hi, rfl⟩ := List.mem_map.mp hd
  have hi := List.mem_range.mp hi
  have hui : u32 (data + i) = data + i := u32_of_lt (by omega)
  rw [hui]
  exact hplain i hi

/-- **what is left after the loop** is sent, with a carriage return when it ends with a newline -/
theorem PrintInv.last {stop : Nat} (hinv : PrintInv m ring buf stop m₁ ring' data (n + 1))
    (hstop : stop ≤ 2^32) (hfit : (addCr (m.bytes buf (stop - buf))).length ≤ ring.free)
    (hplain : ∀ a, data ≤ a → a + 1 < stop → m.val a ≠ 10)
    (hsend : ringSend ring' (fun i => m₁.get (data + i)) (n + 1) = some ring'')
    {r : ProtMem × XenconsOut}
    (h : (if m.val (data + n) = 10 then
      (ringSend ring'' (fun _ => some 13) 1).map fun ring => (m₁, ring) else some (m₁, ring'')) = some r) :
    ring.appended r.2 = addCr (m.bytes buf (stop - buf)) ∧ r.1 = m₁ := by
  have hlen := hinv.stop_eq
  have hrest := @ProtMem.bytes_last m data n (fun i hi => hplain (data + i) (by omega) (by omega))
    (by omega)
  have hall : addCr (m.bytes buf (data - buf)) ++ addCr (m.bytes data (n + 1)) =
      addCr (m.bytes buf (stop - buf)) := by
    rw [addCr_bytes_add hinv.buf_le, hlen]
  rw [← hall, List.length_append, hrest, List.length_append, m.length_bytes] at hfit
  have hsame : m₁.bytes data (n + 1) = m.bytes data (n + 1) :=
    ProtMem.bytes_congr fun i _ => by rw [hinv.val]
  have hadds := hinv.adds.sendAll (by omega) hsend
  rw [hsame] at hadds
  rw [← hall, hrest, ← List.append_assoc]
  by_cases hc : m.val (data + n) = 10
  · rw [if_pos hc] at h hfit ⊢
    obtain ⟨ring₃, hsend', rfl⟩ := Option.map_eq_some_iff.mp h
    rw [List.length_singleton] at hfit
    have hroom : (addCr (m.bytes buf (data - buf)) ++ m.bytes data (n + 1)).length < ring.free := by
      rw [List.length_append, m.length_bytes]
      omega
    exact ⟨(hadds.sendChar hroom hsend').appended, rfl⟩
  · rw [if_neg hc] at h ⊢
    cases h
    rw [List.append_nil]
    exact ⟨hadds.appended, rfl⟩

/-- Where there is room in the ring, a print puts the text out with a carriage return behind each
newline, the last one too, and leaves the memory with the values it had. -/
theorem print_adds_cr {sysarg : Nat} (hsize : m.getWord sysarg = some size)
    (hbuf : m.getWord (sysarg + 4) = some buf) (hpos : 0 < toInt size) (hwrap : buf + size ≤ 2^32)
    (hfit : (addCr (m.bytes buf size)).length ≤ ring.free)
    (h : sysPrint m ring sysarg = some (m', ring', 0)) :
    ring.appended ring' = addCr (m.bytes buf size) ∧ m'.val = m.val := by
  obtain ⟨-, hrun⟩ := sysPrint_zero hsize hbuf h
  have hs : 0 < size := by
    unfold toInt at hpos
    split at hpos <;> omega
  unfold xenConsolePrint at hrun
  obtain ⟨r, hloop, htail⟩ := Option.bind_eq_some_iff.mp hrun
  have hused : ring.used ≤ sizeofOut := by
    by_contra hc
    unfold XenconsOut.free at hfit
    have hle := length_le_addCr (m.bytes buf size)
    rw [m.length_bytes] at hle
    omega
  have hstop : buf + size - buf = size := Nat.add_sub_cancel_left _ _
  have hstart : PrintInv m ring buf (buf + size) m ring buf size := by
    refine ⟨rfl, Nat.le_refl _, rfl, hs, ?_⟩
    rw [Nat.sub_self]
    exact RingAdds.refl hused
  have hfit' : (addCr (m.bytes buf (buf + size - buf))).length ≤ ring.free := by
    rw [hstop]
    exact hfit
  obtain ⟨hinv, hplain⟩ := printLoop_lines hwrap hfit' hstart (Nat.le_refl _)
    (by omega) (by intro a ha ha'; omega) hloop
  obtain ⟨m₁, ring₁, data, length⟩ := r
  dsimp only at hinv hplain htail
  obtain ⟨ring₂, hsend, htail₂⟩ := Option.bind_eq_some_iff.mp htail
  obtain ⟨c, hget, hlast₂⟩ := Option.bind_eq_some_iff.mp htail₂
  obtain ⟨n, rfl⟩ : ∃ n, length = n + 1 := ⟨length - 1, by have := hinv.pos; omega⟩
  have hlen := hinv.stop_eq
  have hlast : u32sub (data + (n + 1)) 1 = data + n := by
    unfold u32sub u32
    omega
  have hval := ProtMem.get_some hget
  rw [hlast, u32_of_lt (by omega), hinv.val] at hval
  rw [hval] at hlast₂
  obtain ⟨happ, hmem⟩ := hinv.last hwrap hfit' hplain hsend hlast₂
  rw [hstop] at happ
  dsimp only at happ hmem
  rw [hmem]
  exact ⟨happ, hinv.val⟩

/-- two newlines: the first line is sent with the second newline stored over -/
theorem print_adds_cr_two : ∃ m' ring',
    sysPrint (twoChars 10) emptyRing 0x1000 = some (m', ring', 0) ∧
      emptyRing.appended ring' = addCr ((twoChars 10).bytes 0x2000 2) ∧
      m'.val = (twoChars 10).val := by
  obtain ⟨m', ring', h⟩ := @twoChars_run 10 (by decide)
  exact ⟨m', ring', h, print_adds_cr (by decide) (by decide) (by decide)
    (by decide) (by decide) h⟩

end Paravirt

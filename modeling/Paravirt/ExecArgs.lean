import Paravirt.Exec
import Paravirt.Unmap
import Mathlib.Data.List.Basic

/-!
# The arguments of exec (kern/usercopy.c, kern/vmm.c, kern/process.c)

The kernel reads and writes its caller's memory by address.  An access to a page that is not
present is a page fault in supervisor mode, on which the kernel panics: `none`.  `Exec.lean` takes
the arguments as strings; here they are bytes, copied twice.

* `PagedMem`            bytes, the pages that are present, and the addresses written;
* `copyLoop`            the loop of `copy_string_array` and of `vmm_copy_argvec`;
* `copyArgs`            the two copies: to a kernel buffer, and from it to the stack, after the stack
                        was zeroed;
* `execArgs`            the way of the arguments through `sys_exec`, up to the entry of the new program:
                        behind the copies the old areas go, and those of the new program are set up;
* `ArgvAt`              an array of pointers to strings, with a null pointer at its end;
* `copyLoop_iff`        what the loop leaves, and when it does not fault;
* `entryMem_writes`     what it leaves on the stack is what `Exec.lean` writes there;
* `exec_args_iff`       the arguments arrive unchanged exactly where no page of theirs is absent, and
                        none of the block on the stack is lost on the way.
-/

namespace Paravirt

/-! ## memory -/

structure PagedMem where
  val : Nat → Nat
  present : Nat → Bool
  written : List Nat := []

namespace PagedMem

variable (m : PagedMem)

def get (a : Nat) : Option Nat :=
  if m.present (u32 a / pageSize) then some (m.val (u32 a)) else none

def put (a byte : Nat) : PagedMem :=
  { m with val := Function.update m.val (u32 a) byte, written := u32 a :: m.written }

def set (a byte : Nat) : Option PagedMem :=
  if m.present (u32 a / pageSize) then some (m.put a byte) else none

def getWord (a : Nat) : Option Nat :=
  (m.get a).bind fun b₀ => (m.get (a + 1)).bind fun b₁ => (m.get (a + 2)).bind fun b₂ =>
    (m.get (a + 3)).bind fun b₃ => some (b₀ + 256 * b₁ + 65536 * b₂ + 16777216 * b₃)

def setBytes : List Nat → Nat → PagedMem → Option PagedMem
  | [], _, m => some m
  | byte :: bytes, a, m => (m.set a byte).bind (setBytes bytes (a + 1))

def wordBytes (v : Nat) : List Nat :=
  [v % 256, v / 256 % 256, v / 65536 % 256, v / 16777216 % 256]

def setWord (a v : Nat) : Option PagedMem := setBytes (wordBytes v) a m

/-! ## the functions -/

def strlenLoop : Nat → PagedMem → Nat → Option Nat
  | 0, _, _ => none
  | fuel + 1, m, s => (m.get s).bind fun c =>
    if c = 0 then some 0 else (strlenLoop fuel m (s + 1)).map (· + 1)

def strcpyLoop : Nat → PagedMem → Nat → Nat → Option PagedMem
  | 0, _, _, _ => none
  | fuel + 1, m, dest, src => (m.get src).bind fun c => (m.set dest c).bind fun m =>
    if c = 0 then some m else strcpyLoop fuel m (dest + 1) (src + 1)

/-- a string that does not end in all the address space never does -/
def strlen (s : Nat) : Option Nat := strlenLoop (2^32) m s

def strcpy (dest src : Nat) : Option PagedMem := strcpyLoop (2^32) m dest src

/-- the loop of `get_string_array_dim` -/
def dimLoop : Nat → PagedMem → Nat → Nat → Nat → Option (Nat × Nat)
  | 0, _, _, _, _ => none
  | fuel + 1, m, argvec, argc, strSize => (m.getWord (argvec + 4 * argc)).bind fun s =>
    if s = 0 then some (argc, strSize) else
      (m.strlen s).bind fun len => dimLoop fuel m argvec (argc + 1) (strSize + (len + 1))

/-- `get_string_array_dim`: `argc`, `argvec_array_size` and `argvec_str_size` -/
def getStringArrayDim (argvec : Nat) : Option (Nat × Nat × Nat) :=
  (dimLoop (2^32) m argvec 0 0).map fun d => (d.1, 4 * (d.1 + 1), d.2)

/-- `argc` strings, each with its pointer; the length is read off the copy -/
def copyLoop : Nat → PagedMem → Nat → Nat → Nat → Option PagedMem
  | 0, m, dest, _, _ => m.setWord dest 0
  | argc + 1, m, dest, src, str =>
    (m.setWord dest str).bind fun m => (m.getWord src).bind fun s => (m.strcpy str s).bind fun m =>
      (m.getWord dest).bind fun copy => (m.strlen copy).bind fun len =>
        copyLoop argc m (dest + 4) (src + 4) (str + (len + 1))

def copyStringArray (destBuf argvec argc arraySize : Nat) : Option PagedMem :=
  copyLoop argc m destBuf argvec (u32 (destBuf + arraySize))

/-- `vmm_copy_argvec`: the memory and the new `esp` -/
def vmmCopyArgvec (esp argvec : Nat) : Option (PagedMem × Nat) :=
  (m.getStringArrayDim argvec).bind fun d =>
    let stackArgvec := u32sub (u32sub esp d.2.2) d.2.1
    (copyLoop d.1 m stackArgvec argvec (u32sub esp d.2.2)).bind fun m =>
      (m.setWord (u32sub stackArgvec 4) stackArgvec).bind fun m =>
        (m.setWord (u32sub stackArgvec 8) d.1).bind fun m =>
          (m.setWord (u32sub stackArgvec 12) 0).map fun m => (m, u32sub stackArgvec 12)

/-- `vm_area_zero` of the whole stack, from page to page: the pages that are there -/
def zeroStack (start size : Nat) : PagedMem :=
  { m with val := fun x => if start ≤ x ∧ x < start + size ∧ m.present (x / pageSize) then 0
                           else m.val x }

end PagedMem

def stackStart (userStackSize : Nat) : Nat := u32sub vmmKernelBase (userStackSize + pageSize)

/-- `esp` before the arguments -/
def stackTop (userStackSize : Nat) : Nat :=
  u32 (stackStart userStackSize + userStackSize + 2^32 - 1) &&& threadStackAlign

namespace PagedMem

/-- the copies in `sys_exec` and `task_reload`, with the buffer `malloc` gave -/
def copyArgs (m : PagedMem) (execargv execargvSrc userStackSize : Nat) : Option (PagedMem × Nat) :=
  (m.getStringArrayDim execargvSrc).bind fun d =>
    (m.copyStringArray execargv execargvSrc d.1 d.2.1).bind fun m =>
      (m.zeroStack (stackStart userStackSize) userStackSize).vmmCopyArgvec (stackTop userStackSize)
        execargv

/-- the pages of an area go, whoever else has bytes there: `vm_area_unmap`, and the null pages of
`vm_area_create_null` -/
def unmap (m : PagedMem) (vma : VmArea) : PagedMem :=
  { m with present := fun p =>
      m.present p && !(vmPages vma.startAddress vma.size).contains (p * pageSize) }

/-- the areas `vm_area_remove_taskvm` frees; the thread holds its stack -/
def goneAreas (userStack : VmArea) (vmas : List VmArea) : List VmArea :=
  (vmas.filter fun vma => !vma.keptByReload).filter fun vma => vma ≠ userStack

def vmAreaRemoveTaskvm (m : PagedMem) (userStack : VmArea) (vmas : List VmArea) : PagedMem :=
  (goneAreas userStack vmas).foldl unmap m

/-- a `task_load` that succeeds; `loaded` are the areas it makes (`loadedAreas`), the last one first -/
def taskLoad (m : PagedMem) (loaded : List VmArea) : PagedMem :=
  loaded.foldr (fun vma m => m.unmap vma) m

/-- the arguments on their way to the entry of the new program; `thread_reset` sets registers only -/
def execArgs (m : PagedMem) (execargv execargvSrc userStackSize : Nat) (userStack : VmArea)
    (vmas loaded : List VmArea) : Option (PagedMem × Nat) :=
  (m.copyArgs execargv execargvSrc userStackSize).map fun r =>
    ((r.1.vmAreaRemoveTaskvm userStack vmas).taskLoad loaded, r.2)

end PagedMem

/-! ## total memory -/

namespace PagedMem

def store : List Nat → Nat → PagedMem → PagedMem
  | [], _, m => m
  | byte :: bytes, a, m => store bytes (a + 1) (m.put a byte)

def HasPage (m : PagedMem) (x : Nat) : Prop := m.present (x / pageSize) = true

/-- all that changed between two memories lies in `R` -/
structure Within (R : Nat → Prop) (m m' : PagedMem) : Prop where
  val : ∀ x, ¬ R x → m'.val x = m.val x
  present : m'.present = m.present
  written : ∀ x ∈ m'.written, x ∈ m.written ∨ R x

def InRange (a n x : Nat) : Prop := a ≤ x ∧ x < a + n

section
variable {m m' m'' : PagedMem} {R S : Nat → Prop} {a n x v : Nat}

theorem Within.refl : Within R m m := ⟨fun _ _ => rfl, rfl, fun _ h => .inl h⟩

theorem Within.trans (h : Within R m m') (h' : Within R m' m'') : Within R m m'' := by
  refine ⟨fun x hx => (h'.val x hx).trans (h.val x hx), h'.present.trans h.present, fun x hx => ?_⟩
  rcases h'.written x hx with hx | hx
  · exact h.written x hx
  · exact .inr hx

theorem Within.mono (h : Within R m m') (hRS : ∀ x, R x → S x) : Within S m m' :=
  ⟨fun x hx => h.val x fun hc => hx (hRS x hc), h.present,
    fun x hx => (h.written x hx).imp_right (hRS x)⟩

theorem Within.hasPage (h : Within R m m') : m'.HasPage x ↔ m.HasPage x := by
  unfold HasPage
  rw [h.present]

theorem store_within (bytes : List Nat) (h : a + bytes.length ≤ 2^32) :
    Within (InRange a bytes.length) m (store bytes a m) := by
  induction bytes generalizing a m with
  | nil => exact .refl
  | cons byte bytes ih =>
    rw [List.length_cons] at h ⊢
    have ha : u32 a = a := u32_of_lt (by omega)
    have hput : Within (InRange a (bytes.length + 1)) m (m.put a byte) := by
      refine ⟨fun x hx => Function.update_of_ne (fun hc => hx ?_) _ _, rfl, fun x hx => ?_⟩
      · rw [ha] at hc
        exact ⟨by omega, by omega⟩
      · rcases List.mem_cons.mp hx with hx | hx
        · rw [ha] at hx
          exact .inr ⟨by omega, by omega⟩
        · exact .inl hx
    refine hput.trans ((ih (by omega)).mono fun x hx => ⟨?_, ?_⟩)
    · have := hx.1
      omega
    · have := hx.2
      omega

theorem store_val (bytes : List Nat) (h : a + bytes.length ≤ 2^32) (i : Nat)
    (hi : i < bytes.length) : (store bytes a m).val (a + i) = bytes[i] := by
  induction bytes generalizing a m i with
  | nil => exact absurd hi (Nat.not_lt_zero i)
  | cons byte bytes ih =>
    rw [List.length_cons] at h hi
    have ha : u32 a = a := u32_of_lt (by omega)
    cases i with
    | zero =>
      have hw := (store_within (m := m.put a byte) (a := a + 1) bytes (by omega)).val a
        fun hc => by have := hc.1; omega
      refine hw.trans ?_
      show Function.update m.val (u32 a) byte a = byte
      rw [ha, Function.update_self]
    | succ i =>
      have := ih (m := m.put a byte) (a := a + 1) (by omega) i (by omega)
      rw [show a + (i + 1) = a + 1 + i by omega]
      exact this

theorem setBytes_iff (bytes : List Nat) (h : a + bytes.length ≤ 2^32) :
    setBytes bytes a m = some m' ↔
      (∀ x, InRange a bytes.length x → m.HasPage x) ∧ m' = store bytes a m := by
  induction bytes generalizing a m with
  | nil =>
    constructor
    · intro h'
      exact ⟨fun x hx => absurd hx.2 (Nat.not_lt.mpr hx.1), (Option.some.inj h').symm⟩
    · intro h'
      exact congrArg some h'.2.symm
  | cons byte bytes ih =>
    rw [List.length_cons] at h ⊢
    have ha : u32 a = a := u32_of_lt (by omega)
    unfold setBytes set
    rw [ha]
    by_cases hp : m.present (a / pageSize)
    · rw [if_pos hp, Option.bind_some, ih (by omega)]
      refine and_congr_left fun _ => ⟨fun hall x hx => ?_, fun hall x hx => ?_⟩
      · by_cases hxa : x = a
        · rw [hxa]
          exact hp
        · exact hall x ⟨by have := hx.1; omega, by have := hx.2; omega⟩
      · exact hall x ⟨by have := hx.1; omega, by have := hx.2; omega⟩
    · rw [if_neg hp]
      constructor
      · intro hc
        exact absurd hc.symm (Option.some_ne_none _)
      · intro hc
        exact absurd (hc.1 a ⟨Nat.le_refl a, by omega⟩) hp

/-! ## words -/

def word (val : Nat → Nat) (a : Nat) : Nat :=
  val a + 256 * val (a + 1) + 65536 * val (a + 2) + 16777216 * val (a + 3)

theorem word_congr {f g : Nat → Nat} (h : ∀ x, InRange a 4 x → f x = g x) :
    word f a = word g a := by
  unfold word
  rw [h a ⟨by omega, by omega⟩, h (a + 1) ⟨by omega, by omega⟩, h (a + 2) ⟨by omega, by omega⟩,
    h (a + 3) ⟨by omega, by omega⟩]

theorem get_of_hasPage (ha : a < 2^32) (h : m.HasPage a) : m.get a = some (m.val a) := by
  unfold get
  rw [u32_of_lt ha]
  exact if_pos h

theorem hasPage_of_get (ha : a < 2^32) (h : m.get a = some v) : m.HasPage a ∧ v = m.val a := by
  unfold get at h
  rw [u32_of_lt ha] at h
  split at h
  · exact ⟨‹_›, (Option.some.inj h).symm⟩
  · exact absurd h.symm (Option.some_ne_none _)

theorem get_iff (ha : a < 2^32) : m.get a = some v ↔ m.HasPage a ∧ v = m.val a := by
  refine ⟨hasPage_of_get ha, fun h => ?_⟩
  rw [get_of_hasPage ha h.1, h.2]

theorem getWord_iff (ha : a + 4 ≤ 2^32) :
    m.getWord a = some v ↔ (∀ x, InRange a 4 x → m.HasPage x) ∧ v = word m.val a := by
  unfold getWord
  simp only [Option.bind_eq_some_iff, get_iff (show a < 2^32 by omega),
    get_iff (show a + 1 < 2^32 by omega), get_iff (show a + 2 < 2^32 by omega),
    get_iff (show a + 3 < 2^32 by omega)]
  constructor
  · rintro ⟨_, ⟨h0, rfl⟩, _, ⟨h1, rfl⟩, _, ⟨h2, rfl⟩, _, ⟨h3, rfl⟩, hv⟩
    refine ⟨fun x hx => ?_, (Option.some.inj hv).symm⟩
    have hl := hx.1
    have hu := hx.2
    obtain rfl | rfl | rfl | rfl : x = a ∨ x = a + 1 ∨ x = a + 2 ∨ x = a + 3 := by omega
    · exact h0
    · exact h1
    · exact h2
    · exact h3
  · rintro ⟨h, rfl⟩
    exact ⟨_, ⟨h _ ⟨by omega, by omega⟩, rfl⟩, _, ⟨h _ ⟨by omega, by omega⟩, rfl⟩, _,
      ⟨h _ ⟨by omega, by omega⟩, rfl⟩, _, ⟨h _ ⟨by omega, by omega⟩, rfl⟩, rfl⟩

theorem word_store (ha : a + 4 ≤ 2^32) (hv : v < 2^32) :
    word (store (wordBytes v) a m).val a = v := by
  have h := store_val (m := m) (a := a) (wordBytes v) ha
  have h0 : (store (wordBytes v) a m).val a = v % 256 := h 0 (show 0 < 4 by decide)
  have h1 : (store (wordBytes v) a m).val (a + 1) = v / 256 % 256 := h 1 (show 1 < 4 by decide)
  have h2 : (store (wordBytes v) a m).val (a + 2) = v / 65536 % 256 := h 2 (show 2 < 4 by decide)
  have h3 : (store (wordBytes v) a m).val (a + 3) = v / 16777216 % 256 := h 3 (show 3 < 4 by decide)
  unfold word
  rw [h0, h1, h2, h3]
  omega

theorem setWord_iff (ha : a + 4 ≤ 2^32) :
    m.setWord a v = some m' ↔
      (∀ x, InRange a 4 x → m.HasPage x) ∧ m' = store (wordBytes v) a m :=
  setBytes_iff (wordBytes v) ha

theorem word_within (h : Within R m m') (ha : ∀ x, InRange a 4 x → ¬ R x) :
    word m'.val a = word m.val a :=
  word_congr fun x hx => h.val x (ha x hx)

end

/-! ## strings -/

/-- a string of bytes with a terminator -/
def CStr (val : Nat → Nat) : List Nat → Nat → Prop
  | [], p => val p = 0
  | c :: s, p => val p = c ∧ c ≠ 0 ∧ CStr val s (p + 1)

section
variable {m m' : PagedMem} {f g : Nat → Nat} {s : List Nat} {p dest fuel r : Nat}

theorem CStr.congr (h : CStr f s p) (hfg : ∀ x, InRange p (s.length + 1) x → g x = f x) :
    CStr g s p := by
  induction s generalizing p with
  | nil => exact (hfg p ⟨Nat.le_refl p, Nat.lt_succ_self p⟩).trans h
  | cons c s ih =>
    obtain ⟨h1, h2, h3⟩ := h
    rw [List.length_cons] at hfg
    refine ⟨(hfg p ⟨Nat.le_refl p, by omega⟩).trans h1, h2, ih h3 fun x hx => hfg x ?_⟩
    exact ⟨by have := hx.1; omega, by have := hx.2; omega⟩

theorem CStr.nonzero (h : CStr f s p) : ∀ c ∈ s, c ≠ 0 := by
  induction s generalizing p with
  | nil => exact fun c hc => absurd hc List.not_mem_nil
  | cons c s ih =>
    intro d hd
    rcases List.mem_cons.mp hd with rfl | hd
    · exact h.2.1
    · exact ih h.2.2 d hd

/-- a string that was stored -/
theorem cstr_store (hs : ∀ c ∈ s, c ≠ 0) (hp : p + (s.length + 1) ≤ 2^32) :
    CStr (store (s ++ [0]) p m).val s p := by
  induction s generalizing p m with
  | nil => exact store_val (m := m) (a := p) [0] hp 0 Nat.one_pos
  | cons c s ih =>
    rw [List.length_cons] at hp
    have hlen : (c :: s ++ [0]).length = s.length + 1 + 1 := List.length_append
    refine ⟨?_, hs c List.mem_cons_self,
      ih (fun d hd => hs d (List.mem_cons_of_mem c hd)) (by omega)⟩
    exact store_val (m := m) (a := p) (c :: s ++ [0]) (by omega) 0 (by omega)

theorem strlenLoop_iff (hs : CStr m.val s p) (hp : p + (s.length + 1) ≤ 2^32)
    (hfuel : s.length < fuel) :
    strlenLoop fuel m p = some r ↔
      (∀ x, InRange p (s.length + 1) x → m.HasPage x) ∧ r = s.length := by
  induction s generalizing p fuel r with
  | nil =>
    obtain ⟨fuel, rfl⟩ : ∃ n, fuel = n + 1 := ⟨fuel - 1, by omega⟩
    have hs : m.val p = 0 := hs
    rw [List.length_nil] at hp ⊢
    unfold strlenLoop
    simp only [Option.bind_eq_some_iff, get_iff (show p < 2^32 by omega)]
    constructor
    · rintro ⟨c, ⟨hpage, rfl⟩, hc⟩
      rw [if_pos hs] at hc
      refine ⟨fun x hx => ?_, (Option.some.inj hc).symm⟩
      obtain rfl : x = p := Nat.le_antisymm (Nat.le_of_lt_succ hx.2) hx.1
      exact hpage
    · rintro ⟨hpage, rfl⟩
      exact ⟨_, ⟨hpage p ⟨Nat.le_refl p, Nat.lt_succ_self p⟩, rfl⟩, if_pos hs⟩
  | cons c s ih =>
    obtain ⟨fuel, rfl⟩ : ∃ n, fuel = n + 1 := ⟨fuel - 1, by omega⟩
    obtain ⟨h1, h2, h3⟩ := hs
    rw [List.length_cons] at hp hfuel ⊢
    have ih : ∀ r, strlenLoop fuel m (p + 1) = some r ↔
        (∀ x, InRange (p + 1) (s.length + 1) x → m.HasPage x) ∧ r = s.length :=
      fun r => ih h3 (by omega) (by omega)
    unfold strlenLoop
    simp only [Option.bind_eq_some_iff, get_iff (show p < 2^32 by omega)]
    constructor
    · rintro ⟨d, ⟨hpage, rfl⟩, hd⟩
      rw [h1, if_neg h2] at hd
      obtain ⟨len, hlen, rfl⟩ := Option.map_eq_some_iff.mp hd
      obtain ⟨hall, rfl⟩ := (ih len).mp hlen
      refine ⟨fun x hx => ?_, rfl⟩
      rcases Nat.eq_or_lt_of_le hx.1 with rfl | hlt
      · exact hpage
      · exact hall x ⟨hlt, by have := hx.2; omega⟩
    · rintro ⟨hall, rfl⟩
      refine ⟨_, ⟨hall p ⟨Nat.le_refl p, by omega⟩, rfl⟩, ?_⟩
      rw [h1, if_neg h2]
      refine Option.map_eq_some_iff.mpr ⟨s.length, (ih _).mpr ⟨fun x hx => hall x ?_, rfl⟩, rfl⟩
      exact ⟨by have := hx.1; omega, by have := hx.2; omega⟩

theorem strlen_iff (hs : CStr m.val s p) (hp : p + (s.length + 1) ≤ 2^32) :
    m.strlen p = some r ↔
      (∀ x, InRange p (s.length + 1) x → m.HasPage x) ∧ r = s.length :=
  strlenLoop_iff hs hp (by omega)

theorem inRange_succ {n x : Nat} : InRange p (n + 1) x ↔ x = p ∨ InRange (p + 1) n x := by
  unfold InRange
  omega

theorem strcpyLoop_iff (hs : CStr m.val s p) (hp : p + (s.length + 1) ≤ 2^32)
    (hd : dest + (s.length + 1) ≤ 2^32) (hfuel : s.length < fuel)
    (hsep : ∀ x, InRange p (s.length + 1) x → ¬ InRange dest (s.length + 1) x) :
    strcpyLoop fuel m dest p = some m' ↔
      (∀ x, InRange p (s.length + 1) x → m.HasPage x) ∧
        (∀ x, InRange dest (s.length + 1) x → m.HasPage x) ∧ m' = store (s ++ [0]) dest m := by
  induction s generalizing p dest fuel m with
  | nil =>
    obtain ⟨fuel, rfl⟩ : ∃ n, fuel = n + 1 := ⟨fuel - 1, by omega⟩
    have hs : m.val p = 0 := hs
    rw [List.length_nil] at hp hd ⊢
    have hone : ∀ {a x : Nat}, InRange a (0 + 1) x ↔ x = a := by
      intro a x
      unfold InRange
      omega
    have hud : u32 dest = dest := u32_of_lt (by omega)
    unfold strcpyLoop set
    simp only [Option.bind_eq_some_iff, get_iff (show p < 2^32 by omega), hone, forall_eq, hud]
    constructor
    · rintro ⟨c, ⟨hpage, rfl⟩, m₁, hm₁, hc⟩
      rw [if_pos hs] at hc
      split at hm₁
      · cases hm₁
        cases hc
        rw [hs]
        exact ⟨hpage, ‹_›, rfl⟩
      · exact absurd hm₁.symm (Option.some_ne_none _)
    · rintro ⟨hpage, hpage', rfl⟩
      refine ⟨_, ⟨hpage, rfl⟩, _, if_pos hpage', ?_⟩
      rw [if_pos hs, hs]
      rfl
  | cons c s ih =>
    obtain ⟨fuel, rfl⟩ : ∃ n, fuel = n + 1 := ⟨fuel - 1, by omega⟩
    obtain ⟨h1, h2, h3⟩ := hs
    rw [List.length_cons] at hp hd hfuel hsep ⊢
    have hud : u32 dest = dest := u32_of_lt (by omega)
    have hput : Within (InRange dest 1) m (m.put dest c) :=
      store_within (m := m) (a := dest) [c] (show dest + 1 ≤ 2^32 by omega)
    have h3' : CStr (m.put dest c).val s (p + 1) := by
      refine h3.congr fun x hx => hput.val x fun hc => hsep x (inRange_succ.mpr (.inr hx)) ?_
      exact ⟨hc.1, by have := hc.2; omega⟩
    have ih : strcpyLoop fuel (m.put dest c) (dest + 1) (p + 1) = some m' ↔ _ :=
      ih h3' (by omega) (by omega) (by omega) fun x hx hc =>
        hsep x (inRange_succ.mpr (.inr hx)) (inRange_succ.mpr (.inr hc))
    unfold strcpyLoop set
    simp only [Option.bind_eq_some_iff, get_iff (show p < 2^32 by omega), hud,
      inRange_succ (p := p), inRange_succ (p := dest), forall_eq_or_imp]
    constructor
    · rintro ⟨d, ⟨hpage, rfl⟩, m₁, hm₁, hm⟩
      rw [h1] at hm₁ hm
      rw [if_neg h2] at hm
      split at hm₁
      · cases hm₁
        obtain ⟨hsrc, hdest, rfl⟩ := ih.mp hm
        exact ⟨⟨hpage, hsrc⟩, ⟨‹_›, hdest⟩, rfl⟩
      · exact absurd hm₁.symm (Option.some_ne_none _)
    · rintro ⟨⟨hpage, hsrc⟩, ⟨hpage', hdest⟩, rfl⟩
      refine ⟨_, ⟨hpage, rfl⟩, _, if_pos hpage', ?_⟩
      rw [h1, if_neg h2]
      exact ih.mpr ⟨hsrc, hdest, rfl⟩

theorem strcpy_iff (hs : CStr m.val s p) (hp : p + (s.length + 1) ≤ 2^32)
    (hd : dest + (s.length + 1) ≤ 2^32)
    (hsep : ∀ x, InRange p (s.length + 1) x → ¬ InRange dest (s.length + 1) x) :
    m.strcpy dest p = some m' ↔
      (∀ x, InRange p (s.length + 1) x → m.HasPage x) ∧
        (∀ x, InRange dest (s.length + 1) x → m.HasPage x) ∧ m' = store (s ++ [0]) dest m :=
  strcpyLoop_iff hs hp hd (by omega) hsep

end

/-! ## arrays of strings -/

/-- an array of pointers at `a`, to the strings of `args`, and a null pointer -/
def ArgvAt (val : Nat → Nat) : List (Nat × List Nat) → Nat → Prop
  | [], a => a + 4 ≤ 2^32 ∧ word val a = 0
  | arg :: args, a => a + 4 ≤ 2^32 ∧ word val a = arg.1 ∧ arg.1 ≠ 0 ∧
      arg.1 + (arg.2.length + 1) ≤ 2^32 ∧ CStr val arg.2 arg.1 ∧ ArgvAt val args (a + 4)

/-- the bytes of the array and of its strings -/
def Touches : List (Nat × List Nat) → Nat → Nat → Prop
  | [], a, x => InRange a 4 x
  | arg :: args, a, x => InRange a 4 x ∨ InRange arg.1 (arg.2.length + 1) x ∨ Touches args (a + 4) x

/-- the bytes of a copy: the array at `dest`, the strings from `str` on -/
def Block (strs : List (List Nat)) (dest str x : Nat) : Prop :=
  InRange dest (argvecArraySize strs) x ∨ InRange str (argvecStrSize strs) x

/-- the strings of a copy, with their places -/
def placed : List (List Nat) → Nat → List (Nat × List Nat)
  | [], _ => []
  | s :: strs, str => (str, s) :: placed strs (str + (s.length + 1))

/-- the memory the loop of the copies leaves -/
def layout : List (List Nat) → Nat → Nat → PagedMem → PagedMem
  | [], dest, _, m => store (wordBytes 0) dest m
  | s :: strs, dest, str, m => layout strs (dest + 4) (str + (s.length + 1))
      (store (s ++ [0]) str (store (wordBytes str) dest m))

theorem argvecStrSize_cons (s : List Nat) (strs : List (List Nat)) :
    argvecStrSize (s :: strs) = s.length + 1 + argvecStrSize strs := by
  unfold argvecStrSize
  rw [List.map_cons, List.sum_cons]

theorem argvecArraySize_cons (s : List Nat) (strs : List (List Nat)) :
    argvecArraySize (s :: strs) = 4 + argvecArraySize strs := by
  unfold argvecArraySize
  rw [List.length_cons]
  omega

section
variable {m m' : PagedMem} {f g : Nat → Nat} {s : List Nat} {strs : List (List Nat)}
  {arg : Nat × List Nat} {args : List (Nat × List Nat)} {a dest src str x : Nat}

theorem block_nil : Block [] dest str x ↔ InRange dest 4 x := by
  unfold Block InRange argvecArraySize argvecStrSize
  rw [List.map_nil, List.sum_nil, List.length_nil]
  omega

theorem block_cons : Block (s :: strs) dest str x ↔ InRange dest 4 x ∨
    InRange str (s.length + 1) x ∨ Block strs (dest + 4) (str + (s.length + 1)) x := by
  unfold Block InRange
  rw [argvecStrSize_cons, argvecArraySize_cons]
  omega

theorem ArgvAt.congr (h : ArgvAt f args a) (hfg : ∀ x, Touches args a x → g x = f x) :
    ArgvAt g args a := by
  induction args generalizing a with
  | nil => exact ⟨h.1, (word_congr hfg).trans h.2⟩
  | cons arg args ih =>
    obtain ⟨h1, h2, h3, h4, h5, h6⟩ := h
    exact ⟨h1, (word_congr fun x hx => hfg x (.inl hx)).trans h2, h3, h4,
      h5.congr fun x hx => hfg x (.inr (.inl hx)), ih h6 fun x hx => hfg x (.inr (.inr hx))⟩

theorem ArgvAt.nonzero (h : ArgvAt f args a) : ∀ s ∈ args.map Prod.snd, ∀ c ∈ s, c ≠ 0 := by
  induction args generalizing a with
  | nil => exact fun s hs => absurd hs List.not_mem_nil
  | cons arg args ih =>
    intro s hs
    obtain ⟨-, -, -, -, h5, h6⟩ := h
    rcases List.mem_cons.mp hs with rfl | hs
    · exact h5.nonzero
    · exact ih h6 s hs

/-- **the sizes**: the loop of `get_string_array_dim` reads the array and its strings -/
theorem dimLoop_iff {argvec argc strSize fuel : Nat} {d : Nat × Nat}
    (h : ArgvAt m.val args (argvec + 4 * argc)) (hfuel : args.length < fuel) :
    dimLoop fuel m argvec argc strSize = some d ↔
      (∀ x, Touches args (argvec + 4 * argc) x → m.HasPage x) ∧
        d = (argc + args.length, strSize + argvecStrSize (args.map Prod.snd)) := by
  induction args generalizing argc strSize fuel with
  | nil =>
    obtain ⟨fuel, rfl⟩ : ∃ n, fuel = n + 1 := ⟨fuel - 1, by omega⟩
    obtain ⟨h1, h2⟩ := h
    unfold dimLoop
    simp only [Option.bind_eq_some_iff, getWord_iff h1]
    constructor
    · rintro ⟨p, ⟨hpage, rfl⟩, hd⟩
      rw [if_pos h2] at hd
      exact ⟨hpage, (Option.some.inj hd).symm⟩
    · rintro ⟨hpage, rfl⟩
      exact ⟨_, ⟨hpage, rfl⟩, if_pos h2⟩
  | cons arg args ih =>
    obtain ⟨fuel, rfl⟩ : ∃ n, fuel = n + 1 := ⟨fuel - 1, by omega⟩
    obtain ⟨h1, h2, h3, h4, h5, h6⟩ := h
    rw [List.length_cons] at hfuel ⊢
    have he : argvec + 4 * argc + 4 = argvec + 4 * (argc + 1) := by omega
    rw [he] at h6
    have ih : dimLoop fuel m argvec (argc + 1) (strSize + (arg.2.length + 1)) = some d ↔ _ :=
      ih h6 (show args.length < fuel by omega)
    have hd : (argc + (args.length + 1), strSize + argvecStrSize ((arg :: args).map Prod.snd)) =
        (argc + 1 + args.length,
          strSize + (arg.2.length + 1) + argvecStrSize (args.map Prod.snd)) := by
      rw [List.map_cons, argvecStrSize_cons]
      exact congrArg₂ Prod.mk (by omega) (by omega)
    rw [hd]
    unfold dimLoop Touches
    rw [he]
    simp only [Option.bind_eq_some_iff, getWord_iff h1]
    constructor
    · rintro ⟨p, ⟨hpage, rfl⟩, hrest⟩
      rw [h2, if_neg h3] at hrest
      obtain ⟨len, hlen, hrest⟩ := Option.bind_eq_some_iff.mp hrest
      obtain ⟨hstr, rfl⟩ := (strlen_iff h5 h4).mp hlen
      obtain ⟨htail, rfl⟩ := ih.mp hrest
      refine ⟨fun x hx => ?_, rfl⟩
      rcases hx with hx | hx | hx
      · exact hpage x hx
      · exact hstr x hx
      · exact htail x hx
    · rintro ⟨hall, rfl⟩
      refine ⟨_, ⟨fun x hx => hall x (.inl hx), rfl⟩, ?_⟩
      rw [h2, if_neg h3]
      exact Option.bind_eq_some_iff.mpr ⟨_, (strlen_iff h5 h4).mpr
        ⟨fun x hx => hall x (.inr (.inl hx)), rfl⟩,
          ih.mpr ⟨fun x hx => hall x (.inr (.inr hx)), rfl⟩⟩

theorem getStringArrayDim_iff {argvec : Nat} {d : Nat × Nat × Nat} (h : ArgvAt m.val args argvec)
    (hlen : args.length < 2^32) :
    m.getStringArrayDim argvec = some d ↔ (∀ x, Touches args argvec x → m.HasPage x) ∧
      d = (args.length, argvecArraySize (args.map Prod.snd),
        argvecStrSize (args.map Prod.snd)) := by
  unfold getStringArrayDim
  rw [Option.map_eq_some_iff]
  have hdim : ∀ e, dimLoop (2^32) m argvec 0 0 = some e ↔ _ := fun e => dimLoop_iff h hlen
  simp only [hdim]
  unfold argvecArraySize
  rw [List.length_map, Nat.zero_add, Nat.zero_add]
  constructor
  · rintro ⟨e, ⟨hall, rfl⟩, rfl⟩
    exact ⟨hall, rfl⟩
  · rintro ⟨hall, rfl⟩
    exact ⟨_, ⟨hall, rfl⟩, rfl⟩

theorem layout_within (h₁ : dest + argvecArraySize strs ≤ str)
    (h₂ : str + argvecStrSize strs ≤ 2^32) :
    Within (Block strs dest str) m (layout strs dest str m) := by
  induction strs generalizing dest str m with
  | nil =>
    have h4 : argvecArraySize [] = 4 := rfl
    exact (store_within (wordBytes 0) (show dest + 4 ≤ 2^32 by omega)).mono fun x hx =>
      block_nil.mpr hx
  | cons s strs ih =>
    rw [argvecStrSize_cons] at h₂
    rw [argvecArraySize_cons] at h₁
    have hlen : (s ++ [0]).length = s.length + 1 := List.length_append
    have hs := store_within (m := store (wordBytes str) dest m) (a := str) (s ++ [0]) (by omega)
    rw [hlen] at hs
    refine ((store_within (wordBytes str) (show dest + 4 ≤ 2^32 by omega)).mono fun x hx =>
      block_cons.mpr (.inl hx)).trans ((hs.mono fun x hx => block_cons.mpr (.inr (.inl hx))).trans
        ((ih (by omega) (by omega)).mono fun x hx => block_cons.mpr (.inr (.inr hx))))

/-- one string and its pointer are written -/
theorem layout_step {m₁ m₂ : PagedMem} (h₁ : m₁ = store (wordBytes str) dest m)
    (h₂ : m₂ = store (s ++ [0]) str m₁) (hs : ∀ c ∈ s, c ≠ 0) (hd : dest + 4 ≤ str)
    (hstr : str + (s.length + 1) ≤ 2^32) :
    Within (InRange dest 4) m m₁ ∧ Within (InRange str (s.length + 1)) m₁ m₂ ∧
      word m₂.val dest = str ∧ CStr m₂.val s str := by
  have w₁ : Within (InRange dest 4) m m₁ := by
    rw [h₁]
    exact store_within (wordBytes str) (show dest + 4 ≤ 2^32 by omega)
  have hlen : (s ++ [0]).length = s.length + 1 := List.length_append
  have w₂ : Within (InRange str (s.length + 1)) m₁ m₂ := by
    rw [h₂, ← hlen]
    exact store_within (s ++ [0]) (by omega)
  refine ⟨w₁, w₂, ?_, ?_⟩
  · rw [word_within w₂ fun x hx hc => by have := hx.2; have := hc.1; omega, h₁]
    exact word_store (by omega) (by omega)
  · rw [h₂]
    exact cstr_store hs hstr

/-- **the copy is such an array** -/
theorem layout_argvAt (hs : ∀ s ∈ strs, ∀ c ∈ s, c ≠ 0) (h₁ : dest + argvecArraySize strs ≤ str)
    (h₂ : str + argvecStrSize strs ≤ 2^32) :
    ArgvAt (layout strs dest str m).val (placed strs str) dest := by
  induction strs generalizing dest str m with
  | nil =>
    have h4 : argvecArraySize [] = 4 := rfl
    exact ⟨by omega, word_store (by omega) (by decide)⟩
  | cons s strs ih =>
    rw [argvecStrSize_cons] at h₂
    rw [argvecArraySize_cons] at h₁
    have hpos : 4 ≤ argvecArraySize strs := by
      unfold argvecArraySize
      omega
    obtain ⟨-, -, hw, hc⟩ := @layout_step m s dest str _ _ rfl rfl
      (hs s List.mem_cons_self) (by omega) (by omega)
    have hrest : Within (Block strs (dest + 4) (str + (s.length + 1)))
        (store (s ++ [0]) str (store (wordBytes str) dest m)) _ :=
      layout_within (by omega) (by omega)
    have hout : ∀ x, InRange dest 4 x ∨ InRange str (s.length + 1) x →
        ¬ Block strs (dest + 4) (str + (s.length + 1)) x := by
      unfold InRange Block InRange
      omega
    refine ⟨by omega, ?_, by show str ≠ 0; omega, by show str + (s.length + 1) ≤ 2^32; omega, ?_,
      ih (fun t ht => hs t (List.mem_cons_of_mem s ht)) (by omega) (by omega)⟩
    · exact (word_within hrest fun x hx => hout x (.inl hx)).trans hw
    · exact hc.congr fun x hx => hrest.val x (hout x (.inr hx))

theorem placed_strings (strs : List (List Nat)) (str : Nat) :
    (placed strs str).map Prod.snd = strs := by
  induction strs generalizing str with
  | nil => rfl
  | cons s strs ih => exact congrArg (s :: ·) (ih _)

theorem touches_placed : Touches (placed strs str) dest x ↔ Block strs dest str x := by
  induction strs generalizing str dest with
  | nil => exact block_nil.symm
  | cons s strs ih => exact (or_congr_right (or_congr_right ih)).trans block_cons.symm

theorem placed_bounds : ∀ arg ∈ placed strs str,
    str ≤ arg.1 ∧ arg.1 + (arg.2.length + 1) ≤ str + argvecStrSize strs := by
  induction strs generalizing str with
  | nil => exact fun arg h => absurd h List.not_mem_nil
  | cons s strs ih =>
    intro arg h
    rw [argvecStrSize_cons]
    rcases List.mem_cons.mp h with rfl | h
    · exact ⟨Nat.le_refl str, by show str + (s.length + 1) ≤ _; omega⟩
    · have := ih arg h
      omega

theorem placed_apart :
    (placed strs str).Pairwise fun arg arg' => arg.1 + (arg.2.length + 1) ≤ arg'.1 := by
  induction strs generalizing str with
  | nil => exact .nil
  | cons s strs ih => exact .cons (fun arg' h => (placed_bounds arg' h).1) ih

/-- **one turn of the loop**: a pointer is read, the string behind it and its new pointer are
written -/
theorem copyLoop_turn {n : Nat} (hsrc : src + 4 ≤ 2^32) (hp : p + (s.length + 1) ≤ 2^32)
    (hw : word m.val src = p) (hs : CStr m.val s p)
    (hpages : ∀ x, InRange src 4 x ∨ InRange p (s.length + 1) x → m.HasPage x)
    (hdest : dest + 4 ≤ str) (hstr : str + (s.length + 1) ≤ 2^32)
    (hsep : ∀ x, InRange src 4 x ∨ InRange p (s.length + 1) x →
      ¬ (InRange dest 4 x ∨ InRange str (s.length + 1) x)) :
    copyLoop (n + 1) m dest src str = some m' ↔
      (∀ x, InRange dest 4 x ∨ InRange str (s.length + 1) x → m.HasPage x) ∧
        copyLoop n (store (s ++ [0]) str (store (wordBytes str) dest m)) (dest + 4) (src + 4)
          (str + (s.length + 1)) = some m' := by
  obtain ⟨m₁, hm₁⟩ : ∃ m₁, m₁ = store (wordBytes str) dest m := ⟨_, rfl⟩
  obtain ⟨m₂, hm₂⟩ : ∃ m₂, m₂ = store (s ++ [0]) str m₁ := ⟨_, rfl⟩
  obtain ⟨w₁, w₂, hword, hc⟩ := layout_step hm₁ hm₂ hs.nonzero hdest hstr
  have hp₁ : ∀ x, m₁.HasPage x ↔ m.HasPage x := fun x => w₁.hasPage
  have hp₂ : ∀ x, m₂.HasPage x ↔ m.HasPage x := fun x => w₂.hasPage.trans w₁.hasPage
  -- the source is as it was: nothing of it lies where the pointer went
  have hslot : word m₁.val src = p :=
    (word_congr fun x hx => w₁.val x fun hc => hsep x (.inl hx) (.inl hc)).trans hw
  have hs₁ : CStr m₁.val s p :=
    hs.congr fun x hx => w₁.val x fun hc => hsep x (.inr hx) (.inl hc)
  have hcpy : ∀ m', m₁.strcpy str p = some m' ↔ _ := fun m' =>
    strcpy_iff hs₁ hp hstr fun x hx hc => hsep x (.inr hx) (.inr hc)
  simp only [hp₁, ← hm₂] at hcpy
  rw [← hm₁, ← hm₂]
  show (m.setWord dest str).bind _ = some m' ↔ _
  constructor
  · intro hrun
    obtain ⟨_, hset, hrun⟩ := Option.bind_eq_some_iff.mp hrun
    obtain ⟨hd, rfl⟩ := (setWord_iff (by omega)).mp hset
    rw [← hm₁] at hrun
    obtain ⟨_, hget, hrun⟩ := Option.bind_eq_some_iff.mp hrun
    obtain ⟨-, rfl⟩ := (getWord_iff hsrc).mp hget
    rw [hslot] at hrun
    obtain ⟨_, hcopy, hrun⟩ := Option.bind_eq_some_iff.mp hrun
    obtain ⟨-, hto, rfl⟩ := (hcpy _).mp hcopy
    obtain ⟨_, hget, hrun⟩ := Option.bind_eq_some_iff.mp hrun
    obtain ⟨-, rfl⟩ := (getWord_iff (by omega)).mp hget
    rw [hword] at hrun
    obtain ⟨_, hlen, hrun⟩ := Option.bind_eq_some_iff.mp hrun
    obtain ⟨-, rfl⟩ := (strlen_iff hc (by omega)).mp hlen
    exact ⟨fun x hx => hx.elim (hd x) (hto x), hrun⟩
  · rintro ⟨hall, hrun⟩
    have hget : m₁.getWord src = some p := (getWord_iff hsrc).mpr
      ⟨fun x hx => (hp₁ x).mpr (hpages x (.inl hx)), hslot.symm⟩
    have hcopy := (hcpy m₂).mpr ⟨fun x hx => hpages x (.inr hx), fun x hx => hall x (.inr hx), rfl⟩
    have hget' : m₂.getWord dest = some str := (getWord_iff (by omega)).mpr
      ⟨fun x hx => (hp₂ x).mpr (hall x (.inl hx)), hword.symm⟩
    have hlen : m₂.strlen str = some s.length := (strlen_iff hc (by omega)).mpr
      ⟨fun x hx => (hp₂ x).mpr (hall x (.inr hx)), rfl⟩
    exact Option.bind_eq_some_iff.mpr ⟨m₁, (setWord_iff (by omega)).mpr
      ⟨fun x hx => hall x (.inl hx), hm₁⟩, Option.bind_eq_some_iff.mpr ⟨_, hget,
        Option.bind_eq_some_iff.mpr ⟨_, hcopy, Option.bind_eq_some_iff.mpr ⟨_, hget',
          Option.bind_eq_some_iff.mpr ⟨_, hlen, hrun⟩⟩⟩⟩⟩

/-- **the loop of the copies**, from an array that can be read -/
theorem copyLoop_iff (h : ArgvAt m.val args src) (hsrc : ∀ x, Touches args src x → m.HasPage x)
    (h₁ : dest + argvecArraySize (args.map Prod.snd) ≤ str)
    (h₂ : str + argvecStrSize (args.map Prod.snd) ≤ 2^32)
    (hsep : ∀ x, Touches args src x → ¬ Block (args.map Prod.snd) dest str x) :
    copyLoop args.length m dest src str = some m' ↔
      (∀ x, Block (args.map Prod.snd) dest str x → m.HasPage x) ∧
        m' = layout (args.map Prod.snd) dest str m := by
  induction args generalizing m dest src str with
  | nil =>
    have h4 : argvecArraySize (List.map Prod.snd ([] : List (Nat × List Nat))) = 4 := rfl
    show m.setWord dest 0 = some m' ↔ (∀ x, Block [] dest str x → m.HasPage x) ∧ _
    simp only [block_nil]
    exact setWord_iff (by omega)
  | cons arg args ih =>
    obtain ⟨h3, h4, h5, h6, h7, h8⟩ := h
    have hblock := @block_cons arg.2 (args.map Prod.snd) dest str
    rw [List.map_cons] at h₁ h₂ hsep ⊢
    simp only [hblock] at hsep ⊢
    rw [argvecStrSize_cons] at h₂
    rw [argvecArraySize_cons] at h₁
    have hpos : 4 ≤ argvecArraySize (args.map Prod.snd) := by
      unfold argvecArraySize
      omega
    have hturn : copyLoop (args.length + 1) m dest src str = some m' ↔ _ :=
      copyLoop_turn h3 h6 h4 h7 (fun x hx => hsrc x (or_assoc.mp (.inl hx))) (by omega) (by omega)
        fun x hx hc => hsep x (or_assoc.mp (.inl hx)) (or_assoc.mp (.inl hc))
    obtain ⟨m₂, hm₂⟩ : ∃ m₂, m₂ = store (arg.2 ++ [0]) str (store (wordBytes str) dest m) := ⟨_, rfl⟩
    obtain ⟨w₁, w₂, -, -⟩ := layout_step rfl hm₂ h7.nonzero (by omega) (by omega)
    have hp₂ : ∀ x, m₂.HasPage x ↔ m.HasPage x := fun x => w₂.hasPage.trans w₁.hasPage
    -- what is left of the source is as it was: nothing of it lies in the copy
    have hkeep : ∀ x, Touches args (src + 4) x → m₂.val x = m.val x := by
      intro x hx
      have e₁ := w₁.val x fun hc => hsep x (.inr (.inr hx)) (.inl hc)
      exact (w₂.val x fun hc => hsep x (.inr (.inr hx)) (.inr (.inl hc))).trans e₁
    have hrest :
        copyLoop args.length m₂ (dest + 4) (src + 4) (str + (arg.2.length + 1)) = some m' ↔ _ :=
      ih (h8.congr hkeep) (fun x hx => (hp₂ x).mpr (hsrc x (.inr (.inr hx)))) (by omega) (by omega)
        fun x hx hc => hsep x (.inr (.inr hx)) (.inr (.inr hc))
    simp only [hp₂] at hrest
    rw [← hm₂] at hturn
    rw [List.length_cons, hturn, hrest, hm₂]
    constructor
    · rintro ⟨hhere, htail, hm'⟩
      exact ⟨fun x hx => (or_assoc.mpr hx).elim (hhere x) (htail x), hm'⟩
    · rintro ⟨hall, hm'⟩
      exact ⟨fun x hx => hall x (or_assoc.mp (.inl hx)), fun x hx => hall x (.inr (.inr hx)), hm'⟩

/-- the bytes `vmm_copy_argvec` takes off the stack: the strings, the array, and `argv`, `argc` and
a return address below it -/
def entrySize (strs : List (List Nat)) : Nat := 12 + argvecArraySize strs + argvecStrSize strs

/-- where `vmm_copy_argvec` puts things -/
theorem entry_offsets {esp : Nat} (hesp : esp + entrySize strs < 2^32) :
    u32sub (esp + entrySize strs) (argvecStrSize strs) = esp + 12 + argvecArraySize strs ∧
      u32sub (esp + 12 + argvecArraySize strs) (argvecArraySize strs) = esp + 12 ∧
      u32sub (esp + 12) 4 = esp + 8 ∧ u32sub (esp + 12) 8 = esp + 4 ∧
      u32sub (esp + 12) 12 = esp := by
  unfold entrySize at hesp ⊢
  have e : esp + (12 + argvecArraySize strs + argvecStrSize strs) =
      esp + 12 + argvecArraySize strs + argvecStrSize strs := by omega
  rw [e]
  refine ⟨u32sub_add (by omega), u32sub_add (by omega), ?_, ?_, u32sub_add (by omega)⟩
  · rw [show esp + 12 = esp + 8 + 4 by omega]
    exact u32sub_add (by omega)
  · rw [show esp + 12 = esp + 4 + 8 by omega]
    exact u32sub_add (by omega)

/-- the stack from `esp` on, at entry -/
def entryMem (strs : List (List Nat)) (esp : Nat) (m : PagedMem) : PagedMem :=
  store (wordBytes 0) esp (store (wordBytes strs.length) (esp + 4)
    (store (wordBytes (esp + 12)) (esp + 8)
      (layout strs (esp + 12) (esp + 12 + argvecArraySize strs) m)))

theorem inRange_words {esp : Nat} : InRange esp 12 x ↔
    InRange esp 4 x ∨ InRange (esp + 4) 4 x ∨ InRange (esp + 8) 4 x := by
  unfold InRange
  omega

theorem inRange_entry {esp : Nat} : InRange esp (entrySize strs) x ↔
    InRange esp 12 x ∨ Block strs (esp + 12) (esp + 12 + argvecArraySize strs) x := by
  unfold Block InRange entrySize
  omega

/-- the three words below the array -/
theorem entryWords_iff {esp argc argv : Nat} {r : PagedMem × Nat} (hesp : esp + 12 ≤ 2^32) :
    ((m.setWord (esp + 8) argv).bind fun m => (m.setWord (esp + 4) argc).bind fun m =>
        (m.setWord esp 0).map fun m => (m, esp)) = some r ↔
      (∀ x, InRange esp 12 x → m.HasPage x) ∧
        r = (store (wordBytes 0) esp (store (wordBytes argc) (esp + 4)
          (store (wordBytes argv) (esp + 8) m)), esp) := by
  obtain ⟨m₂, hm₂⟩ : ∃ m₂, m₂ = store (wordBytes argv) (esp + 8) m := ⟨_, rfl⟩
  obtain ⟨m₃, hm₃⟩ : ∃ m₃, m₃ = store (wordBytes argc) (esp + 4) m₂ := ⟨_, rfl⟩
  have p₂ : ∀ x, m₂.HasPage x ↔ m.HasPage x := fun x => by
    rw [hm₂]
    exact (store_within (wordBytes argv) (show esp + 8 + 4 ≤ 2^32 by omega)).hasPage
  have p₃ : ∀ x, m₃.HasPage x ↔ m.HasPage x := fun x => by
    rw [hm₃, (store_within (wordBytes argc) (show esp + 4 + 4 ≤ 2^32 by omega)).hasPage]
    exact p₂ x
  have s₁ := fun m' => @setWord_iff m m' (esp + 8) argv (by omega)
  have s₂ := fun m' => @setWord_iff m₂ m' (esp + 4) argc (by omega)
  have s₃ := fun m' => @setWord_iff m₃ m' esp 0 (by omega)
  simp only [← hm₂] at s₁
  simp only [p₂, ← hm₃] at s₂
  simp only [p₃] at s₃
  rw [← hm₂, ← hm₃]
  constructor
  · intro hrun
    obtain ⟨_, hset, hrun⟩ := Option.bind_eq_some_iff.mp hrun
    obtain ⟨h8, rfl⟩ := (s₁ _).mp hset
    obtain ⟨_, hset, hrun⟩ := Option.bind_eq_some_iff.mp hrun
    obtain ⟨h4, rfl⟩ := (s₂ _).mp hset
    obtain ⟨_, hset, hr⟩ := Option.map_eq_some_iff.mp hrun
    obtain ⟨h0, rfl⟩ := (s₃ _).mp hset
    refine ⟨fun x hx => ?_, hr.symm⟩
    rcases inRange_words.mp hx with hx | hx | hx
    · exact h0 x hx
    · exact h4 x hx
    · exact h8 x hx
  · rintro ⟨hall, rfl⟩
    exact Option.bind_eq_some_iff.mpr ⟨m₂, (s₁ m₂).mpr
      ⟨fun x hx => hall x (inRange_words.mpr (.inr (.inr hx))), rfl⟩,
        Option.bind_eq_some_iff.mpr ⟨m₃, (s₂ m₃).mpr
          ⟨fun x hx => hall x (inRange_words.mpr (.inr (.inl hx))), rfl⟩,
            Option.map_eq_some_iff.mpr ⟨_, (s₃ _).mpr
              ⟨fun x hx => hall x (inRange_words.mpr (.inl hx)), rfl⟩, rfl⟩⟩⟩

/-- **vmm_copy_argvec**: it returns when the source and the block below the top of the stack are
there, and leaves the block -/
theorem vmmCopyArgvec_iff {esp argvec : Nat} {r : PagedMem × Nat} (h : ArgvAt m.val args argvec)
    (hesp : esp + entrySize (args.map Prod.snd) < 2^32)
    (hsep : ∀ x, Touches args argvec x → ¬ InRange esp (entrySize (args.map Prod.snd)) x) :
    m.vmmCopyArgvec (esp + entrySize (args.map Prod.snd)) argvec = some r ↔
      (∀ x, Touches args argvec x → m.HasPage x) ∧
        (∀ x, InRange esp (entrySize (args.map Prod.snd)) x → m.HasPage x) ∧
          r = (entryMem (args.map Prod.snd) esp m, esp) := by
  obtain ⟨strs, hstrs⟩ : ∃ strs, args.map Prod.snd = strs := ⟨_, rfl⟩
  have hlen : args.length = strs.length := by rw [← hstrs, List.length_map]
  have hdim := fun d => getStringArrayDim_iff (d := d) h (by
    unfold entrySize argvecArraySize at hesp
    rw [List.length_map] at hesp
    omega)
  have hcopy := fun m' hsrc => @copyLoop_iff m m' args (esp + 12) argvec
    (esp + 12 + argvecArraySize strs) h hsrc
  rw [hstrs] at hesp hsep hdim hcopy ⊢
  simp only [inRange_entry] at hsep ⊢
  obtain ⟨e₁, e₂, e₃, e₄, e₅⟩ := entry_offsets hesp
  unfold entrySize at hesp
  obtain ⟨m₁, hm₁⟩ : ∃ m₁, m₁ = layout strs (esp + 12) (esp + 12 + argvecArraySize strs) m :=
    ⟨_, rfl⟩
  have p₁ : ∀ x, m₁.HasPage x ↔ m.HasPage x := fun x => by
    rw [hm₁]
    exact (layout_within (by omega) (by omega)).hasPage
  have hwords := @entryWords_iff m₁ esp strs.length (esp + 12) r (by omega)
  simp only [p₁] at hwords
  have hentry : entryMem strs esp m = store (wordBytes 0) esp (store (wordBytes strs.length)
      (esp + 4) (store (wordBytes (esp + 12)) (esp + 8) m₁)) := by
    rw [hm₁]
    rfl
  rw [← hentry] at hwords
  have hsep' : ∀ x, Touches args argvec x →
      ¬ Block strs (esp + 12) (esp + 12 + argvecArraySize strs) x :=
    fun x hx hc => hsep x hx (.inr hc)
  unfold vmmCopyArgvec
  constructor
  · intro hrun
    obtain ⟨_, hd, hrun⟩ := Option.bind_eq_some_iff.mp hrun
    obtain ⟨hsrc, rfl⟩ := (hdim _).mp hd
    dsimp only at hrun
    rw [e₁, e₂, e₃, e₄, e₅, hlen] at hrun
    obtain ⟨_, hloop, hrun⟩ := Option.bind_eq_some_iff.mp hrun
    rw [← hlen] at hloop
    obtain ⟨hblock, rfl⟩ := (hcopy _ hsrc (by omega) (by omega) hsep').mp hloop
    rw [← hm₁] at hrun
    obtain ⟨hbelow, hr⟩ := hwords.mp hrun
    exact ⟨hsrc, fun x hx => hx.elim (hbelow x) (hblock x), hr⟩
  · rintro ⟨hsrc, hall, hr⟩
    refine Option.bind_eq_some_iff.mpr ⟨_, (hdim _).mpr ⟨hsrc, rfl⟩, ?_⟩
    dsimp only
    rw [e₁, e₂, e₃, e₄, e₅]
    refine Option.bind_eq_some_iff.mpr ⟨m₁, (hcopy m₁ hsrc (by omega) (by omega) hsep').mpr
      ⟨fun x hx => hall x (.inr hx), hm₁⟩, ?_⟩
    rw [hlen]
    exact hwords.mpr ⟨fun x hx => hall x (.inl hx), hr⟩

/-- what the new program finds at `esp`: a return address, `argc`, and `argv` -/
structure AtEntry (strs : List (List Nat)) (m' : PagedMem) (esp : Nat) : Prop where
  ret : word m'.val esp = 0
  argc : word m'.val (esp + 4) = strs.length
  argv : word m'.val (esp + 8) = esp + 12
  strings : ∃ args : List (Nat × List Nat), args.map Prod.snd = strs ∧
    ArgvAt m'.val args (esp + 12) ∧
    (args.Pairwise fun arg arg' => arg.1 + (arg.2.length + 1) ≤ arg'.1) ∧
    ∀ arg ∈ args, esp + 12 + argvecArraySize strs ≤ arg.1 ∧
      arg.1 + (arg.2.length + 1) ≤ esp + entrySize strs

theorem AtEntry.congr {m₁ m₂ : PagedMem} {esp : Nat} (h : AtEntry strs m₁ esp)
    (e : m₂.val = m₁.val) : AtEntry strs m₂ esp := by
  obtain ⟨h1, h2, h3, h4⟩ := h
  rw [← e] at h1 h2 h3 h4
  exact ⟨h1, h2, h3, h4⟩

theorem entryMem_spec {esp : Nat} (hs : ∀ s ∈ strs, ∀ c ∈ s, c ≠ 0)
    (hesp : esp + entrySize strs < 2^32) : AtEntry strs (entryMem strs esp m) esp ∧
      Within (InRange esp (entrySize strs)) m (entryMem strs esp m) := by
  unfold entrySize at hesp
  have hargc : strs.length < 2^32 := by
    unfold argvecArraySize at hesp
    omega
  obtain ⟨str, hstr⟩ : ∃ str, str = esp + 12 + argvecArraySize strs := ⟨_, rfl⟩
  obtain ⟨m₁, hm₁⟩ : ∃ m₁, m₁ = layout strs (esp + 12) str m := ⟨_, rfl⟩
  obtain ⟨m₂, hm₂⟩ : ∃ m₂, m₂ = store (wordBytes (esp + 12)) (esp + 8) m₁ := ⟨_, rfl⟩
  obtain ⟨m₃, hm₃⟩ : ∃ m₃, m₃ = store (wordBytes strs.length) (esp + 4) m₂ := ⟨_, rfl⟩
  obtain ⟨m₄, hm₄⟩ : ∃ m₄, m₄ = store (wordBytes 0) esp m₃ := ⟨_, rfl⟩
  have hentry : entryMem strs esp m = m₄ := by
    rw [hm₄, hm₃, hm₂, hm₁, hstr]
    unfold entryMem
    rfl
  have w₁ : Within (Block strs (esp + 12) str) m m₁ := by
    rw [hm₁]
    exact layout_within (by omega) (by omega)
  have w₂ : Within (InRange (esp + 8) 4) m₁ m₂ := by
    rw [hm₂]
    exact store_within (wordBytes (esp + 12)) (show esp + 8 + 4 ≤ 2^32 by omega)
  have w₃ : Within (InRange (esp + 4) 4) m₂ m₃ := by
    rw [hm₃]
    exact store_within (wordBytes strs.length) (show esp + 4 + 4 ≤ 2^32 by omega)
  have w₄ : Within (InRange esp 4) m₃ m₄ := by
    rw [hm₄]
    exact store_within (wordBytes 0) (show esp + 4 ≤ 2^32 by omega)
  rw [hentry]
  refine ⟨⟨?_, ?_, ?_, placed strs str, placed_strings strs str, ?_, placed_apart, ?_⟩, ?_⟩
  · rw [hm₄]
    exact word_store (by omega) (by decide)
  · rw [word_within w₄ fun x hx hc => by have := hx.1; have := hc.2; omega, hm₃]
    exact word_store (by omega) hargc
  · rw [word_within w₄ fun x hx hc => by have := hx.1; have := hc.2; omega,
      word_within w₃ fun x hx hc => by have := hx.1; have := hc.2; omega, hm₂]
    exact word_store (by omega) (by omega)
  · -- nothing of the copy lies in the three words below it
    have hcopy : ArgvAt m₁.val (placed strs str) (esp + 12) := by
      rw [hm₁]
      exact layout_argvAt hs (by omega) (by omega)
    refine hcopy.congr fun x hx => ?_
    have hx : esp + 12 ≤ x := by
      rcases touches_placed.mp hx with hx | hx
      · exact hx.1
      · have := hx.1
        omega
    rw [w₄.val x fun hc => by have := hc.2; omega, w₃.val x fun hc => by have := hc.2; omega,
      w₂.val x fun hc => by have := hc.2; omega]
  · intro arg harg
    unfold entrySize
    have := placed_bounds arg harg
    omega
  · subst hstr
    have hbelow : ∀ x, InRange esp 4 x ∨ InRange (esp + 4) 4 x ∨ InRange (esp + 8) 4 x →
        InRange esp (entrySize strs) x := fun x hx =>
      inRange_entry.mpr (.inl (inRange_words.mpr hx))
    exact ((w₁.mono fun x hx => inRange_entry.mpr (.inr hx)).trans
      (w₂.mono fun x hx => hbelow x (.inr (.inr hx)))).trans
        ((w₃.mono fun x hx => hbelow x (.inr (.inl hx))).trans
          (w₄.mono fun x hx => hbelow x (.inl hx)))

end

/-! ## the writes of `Exec.lean` -/

def putAll (writes : List (Nat × Nat)) (m : PagedMem) : PagedMem :=
  writes.foldl (fun m w => m.put w.1 w.2) m

section
variable {m : PagedMem} {strs : List (List Nat)} {dest str esp : Nat}

theorem putAll_append (ws ws' : List (Nat × Nat)) :
    putAll (ws ++ ws') m = putAll ws' (putAll ws m) :=
  List.foldl_append

theorem put_u32 (a byte : Nat) : m.put (u32 a) byte = m.put a byte := by
  have h : u32 (u32 a) = u32 a := Nat.mod_mod ..
  unfold put
  rw [h]

theorem putAll_wordWrites (a v : Nat) : putAll (wordWrites a v) m = store (wordBytes v) a m := by
  unfold putAll wordWrites wordBytes
  simp only [List.foldl_cons, List.foldl_nil, put_u32, store, Nat.add_assoc]

theorem putAll_bytes (bytes : List Nat) (a k : Nat) :
    putAll ((bytes.zipIdx k).map fun c : Nat × Nat => (u32 (a + c.2), c.1)) m =
      store bytes (a + k) m := by
  induction bytes generalizing k m with
  | nil => rfl
  | cons byte bytes ih =>
    have h := ih (m := m.put (a + k) byte) (k + 1)
    rw [List.zipIdx_cons, List.map_cons]
    show putAll _ (m.put (u32 (a + k)) byte) = store bytes (a + k + 1) (m.put (a + k) byte)
    rw [put_u32]
    exact h

theorem putAll_argvecWrites (h₁ : dest + argvecArraySize strs ≤ str)
    (h₂ : str + argvecStrSize strs < 2^32) :
    putAll (argvecWrites strs dest str) m = layout strs dest str m := by
  induction strs generalizing dest str m with
  | nil => exact putAll_wordWrites dest 0
  | cons s strs ih =>
    rw [argvecStrSize_cons] at h₂
    rw [argvecArraySize_cons] at h₁
    unfold argvecWrites layout
    rw [putAll_append, putAll_append, putAll_wordWrites, putAll_bytes, u32_of_lt (by omega),
      u32_of_lt (by omega)]
    exact ih (by omega) (by omega)

/-- the bytes at entry are those of the writes -/
theorem entryMem_writes (hesp : esp + entrySize strs < 2^32) :
    putAll (Paravirt.vmmCopyArgvec (esp + entrySize strs) strs).1 m = entryMem strs esp m ∧
      (Paravirt.vmmCopyArgvec (esp + entrySize strs) strs).2 = esp := by
  obtain ⟨e₁, e₂, e₃, e₄, e₅⟩ := entry_offsets hesp
  unfold entrySize at hesp
  unfold Paravirt.vmmCopyArgvec entryMem
  simp only [e₁, e₂, e₃, e₄, e₅, putAll_append, putAll_wordWrites]
  rw [putAll_argvecWrites (by omega) (by omega)]
  exact ⟨rfl, trivial⟩

end

/-! ## exec -/

/-- an argument vector and a buffer for it: the sums of the kernel do not wrap, the copy fits on the
stack, and the buffer is memory of the kernel's own -/
structure ExecInput (m : PagedMem) (args : List (Nat × List Nat)) (buf argvec userStackSize : Nat) :
    Prop where
  argv : ArgvAt m.val args argvec
  below : userStackSize + pageSize ≤ vmmKernelBase
  fits : stackStart userStackSize + entrySize (args.map Prod.snd) ≤ stackTop userStackSize
  buffer : buf + (argvecArraySize (args.map Prod.snd) + argvecStrSize (args.map Prod.snd)) < 2^32
  pages : ∀ x, InRange buf
    (argvecArraySize (args.map Prod.snd) + argvecStrSize (args.map Prod.snd)) x → m.HasPage x
  apart : ∀ x, InRange buf
    (argvecArraySize (args.map Prod.snd) + argvecStrSize (args.map Prod.snd)) x →
      ¬ Touches args argvec x ∧ ¬ InRange (stackStart userStackSize) userStackSize x

/-- the copies write nowhere but in the buffer and in the block on the stack, and at entry the block is
there, with the strings in it -/
def ArgsDelivered (m : PagedMem) (args : List (Nat × List Nat)) (buf argvec userStackSize : Nat)
    (userStack : VmArea) (vmas loaded : List VmArea) : Prop :=
  ∃ m' esp, m.execArgs buf argvec userStackSize userStack vmas loaded = some (m', esp) ∧
    esp + entrySize (args.map Prod.snd) = stackTop userStackSize ∧
    AtEntry (args.map Prod.snd) m' esp ∧
    (∀ x, InRange esp (entrySize (args.map Prod.snd)) x → m'.HasPage x) ∧
    ∀ x ∈ m'.written, x ∈ m.written ∨
      InRange buf (argvecArraySize (args.map Prod.snd) + argvecStrSize (args.map Prod.snd)) x ∨
      InRange esp (entrySize (args.map Prod.snd)) x

/-- the block of the user stack that the arguments take -/
def OnStack (args : List (Nat × List Nat)) (userStackSize x : Nat) : Prop :=
  x < stackTop userStackSize ∧ stackTop userStackSize ≤ x + entrySize (args.map Prod.snd)

/-- every page of the arguments, and of their place on the stack, is present -/
def ArgsPresent (m : PagedMem) (args : List (Nat × List Nat)) (argvec userStackSize : Nat) : Prop :=
  (∀ x, Touches args argvec x → m.HasPage x) ∧ ∀ x, OnStack args userStackSize x → m.HasPage x

/-- no page of their place on the stack is one of an area that goes, or of one that is loaded -/
def ArgsKept (args : List (Nat × List Nat)) (userStackSize : Nat) (userStack : VmArea)
    (vmas loaded : List VmArea) : Prop :=
  ∀ x, OnStack args userStackSize x → ∀ vma ∈ goneAreas userStack vmas ++ loaded,
    pageAddr x ∉ vmPages vma.startAddress vma.size

/-! ## the pages that go -/

section
variable {m : PagedMem} {x : Nat}

theorem unmap_hasPage (hx : x < 2^32) (vma : VmArea) : (m.unmap vma).HasPage x ↔
    m.HasPage x ∧ pageAddr x ∉ vmPages vma.startAddress vma.size := by
  have e : x / pageSize * pageSize = pageAddr x := by
    rw [pageAddr_eq, Nat.mod_eq_of_lt (by omega)]
    rfl
  unfold HasPage unmap
  dsimp only
  rw [e, Bool.and_eq_true, Bool.not_eq_true', ← Bool.not_eq_true, List.contains_iff_mem]

theorem foldl_unmap_hasPage (hx : x < 2^32) (l : List VmArea) : (l.foldl unmap m).HasPage x ↔
    m.HasPage x ∧ ∀ vma ∈ l, pageAddr x ∉ vmPages vma.startAddress vma.size := by
  induction l generalizing m with
  | nil => exact (and_iff_left fun _ h => absurd h List.not_mem_nil).symm
  | cons vma l ih =>
    rw [List.foldl_cons, ih, unmap_hasPage hx, and_assoc, List.forall_mem_cons]

/-- only pages go -/
theorem foldl_unmap_val (l : List VmArea) :
    (l.foldl unmap m).val = m.val ∧ (l.foldl unmap m).written = m.written := by
  induction l generalizing m with
  | nil => exact ⟨rfl, rfl⟩
  | cons vma l ih =>
    rw [List.foldl_cons]
    exact ih

theorem reload_eq (userStack : VmArea) (vmas loaded : List VmArea) :
    (m.vmAreaRemoveTaskvm userStack vmas).taskLoad loaded =
      (goneAreas userStack vmas ++ loaded.reverse).foldl unmap m := by
  unfold vmAreaRemoveTaskvm taskLoad
  rw [List.foldl_append, List.foldl_reverse]

theorem pageAddr_of_mem_vmPages {a start size : Nat} (h : a ∈ vmPages start size) :
    pageAddr a = a ∧ a < 2^32 := by
  obtain ⟨i, -, rfl⟩ := List.mem_map.mp h
  refine ⟨?_, Nat.mod_lt _ (Nat.two_pow_pos 32)⟩
  unfold pageShift u32
  rw [Nat.shiftLeft_eq, pageAddr_eq, pageAddr_eq]
  omega

/-- **the pages are those `vm_area_remove_taskvm` takes in `Exec.lean`**, where they are entries of
the page tables -/
theorem vmAreaRemoveTaskvm_hasPage {base live : List Tiling.Block} {dirs : List Nat} {mm : Mm}
    {pd : Nat} {userStack : VmArea} {vmas : List VmArea} (h : Ready base live dirs mm)
    (hd : pd ∈ dirs) (hu : ∀ vma ∈ goneAreas userStack vmas,
      ∀ a ∈ vmPages vma.startAddress vma.size, UserPde (pdeIndex a))
    (hm : m.HasPage x ↔ frameAt mm pd x ≠ none) (hx : x < 2^32) (heap : List Nat) :
    (m.vmAreaRemoveTaskvm userStack vmas).HasPage x ↔
      frameAt (Paravirt.vmAreaRemoveTaskvm pd userStack ⟨heap, mm, vmas⟩).mm pd x ≠ none := by
  have hfree : ∀ vma ∈ goneAreas userStack vmas, ∀ mm, vmAreaFree pd mm vma =
      vmAreaUnmapLoop pd .file (vmPages vma.startAddress vma.size) mm := by
    intro vma hv mm
    have hk := (List.mem_filter.mp (List.mem_filter.mp hv).1).2
    unfold VmArea.keptByReload at hk
    simp only [Bool.not_eq_true', decide_eq_false_iff_not, not_or] at hk
    unfold vmAreaFree vmAreaUnmap
    rw [if_neg hk.2.1]
    exact unmapLoop_type pd hk.1 (by decide) _ mm
  obtain ⟨live', hun⟩ := unmapLoop_user (by decide : VmaType.file ≠ .kernelStack) hd
    ((goneAreas userStack vmas).flatMap fun vma => vmPages vma.startAddress vma.size) h (by
      intro a ha
      obtain ⟨vma, hv, ha⟩ := List.mem_flatMap.mp ha
      exact hu vma hv a ha)
  have he : (Paravirt.vmAreaRemoveTaskvm pd userStack ⟨heap, mm, vmas⟩).mm = vmAreaUnmapLoop pd
      .file ((goneAreas userStack vmas).flatMap fun vma => vmPages vma.startAddress vma.size) mm :=
    foldl_unmapLoop hfree mm
  have hpage : (∃ a ∈ (goneAreas userStack vmas).flatMap fun vma =>
      vmPages vma.startAddress vma.size, SamePage x a) ↔
      ∃ vma ∈ goneAreas userStack vmas, pageAddr x ∈ vmPages vma.startAddress vma.size := by
    constructor
    · rintro ⟨a, ha, hs⟩
      obtain ⟨vma, hv, ha⟩ := List.mem_flatMap.mp ha
      obtain ⟨ea, hlt⟩ := pageAddr_of_mem_vmPages ha
      rw [samePage_iff hx hlt, ea] at hs
      exact ⟨vma, hv, hs ▸ ha⟩
    · rintro ⟨vma, hv, ha⟩
      exact ⟨_, List.mem_flatMap.mpr ⟨vma, hv, ha⟩, (samePage_pageAddr x).symm⟩
  rw [he, hun.frame pd hd x]
  unfold vmAreaRemoveTaskvm
  rw [foldl_unmap_hasPage hx, hm]
  by_cases hg : ∃ vma ∈ goneAreas userStack vmas, pageAddr x ∈ vmPages vma.startAddress vma.size
  · rw [if_pos ⟨rfl, hpage.mpr hg⟩]
    obtain ⟨vma, hv, ha⟩ := hg
    exact iff_of_false (fun hc => hc.2 vma hv ha) fun hc => hc rfl
  · rw [if_neg fun hc => hg (hpage.mp hc.2)]
    exact and_iff_left fun vma hv ha => hg ⟨vma, hv, ha⟩

/-- **between the copies and the entry pages go, and no byte changes** -/
theorem reload_spec (m : PagedMem) (userStack : VmArea) (vmas loaded : List VmArea) :
    ∃ m', (m.vmAreaRemoveTaskvm userStack vmas).taskLoad loaded = m' ∧ m'.val = m.val ∧
      m'.written = m.written ∧ ∀ x, x < 2^32 → (m'.HasPage x ↔ m.HasPage x ∧
        ∀ vma ∈ goneAreas userStack vmas ++ loaded,
          pageAddr x ∉ vmPages vma.startAddress vma.size) := by
  obtain ⟨hval, hwritten⟩ := @foldl_unmap_val m (goneAreas userStack vmas ++ loaded.reverse)
  refine ⟨_, reload_eq userStack vmas loaded, hval, hwritten, fun x hx => ?_⟩
  rw [foldl_unmap_hasPage hx]
  refine and_congr_right fun _ => forall_congr' fun vma => ?_
  rw [List.mem_append, List.mem_append, List.mem_reverse]

end

section
variable {m m' : PagedMem} {args : List (Nat × List Nat)} {buf argvec userStackSize : Nat}

theorem stackTop_eq {userStackSize : Nat} (h : userStackSize + pageSize ≤ vmmKernelBase) :
    stackStart userStackSize + userStackSize + pageSize = vmmKernelBase ∧
      stackTop userStackSize = 0xbfffefe0 := by
  unfold vmmKernelBase pageSize at h
  have hstart : stackStart userStackSize = 0xc0000000 - (userStackSize + 4096) := by
    unfold stackStart u32sub vmmKernelBase pageSize u32
    omega
  have htop : u32 (stackStart userStackSize + userStackSize + 2^32 - 1) = 0xbfffefff := by
    rw [hstart]
    unfold u32
    omega
  unfold stackTop
  rw [htop, hstart]
  refine ⟨?_, by decide⟩
  unfold vmmKernelBase pageSize
  omega

theorem zeroStack_written (start size : Nat) : (m.zeroStack start size).written = m.written := rfl

theorem zeroStack_within (start size : Nat) :
    Within (InRange start size) m (m.zeroStack start size) where
  val _ hx := if_neg fun hc => hx ⟨hc.1, hc.2.1⟩
  present := rfl
  written _ hx := .inl hx

theorem block_buffer (args : List (Nat × List Nat)) (buf x : Nat) :
    Block (args.map Prod.snd) buf (buf + argvecArraySize (args.map Prod.snd)) x ↔
      InRange buf (argvecArraySize (args.map Prod.snd) + argvecStrSize (args.map Prod.snd)) x := by
  unfold Block InRange
  omega

/-- **the first copy**, to the buffer -/
theorem ExecInput.first (h : ExecInput m args buf argvec userStackSize) (r : PagedMem) :
    ((m.getStringArrayDim argvec).bind fun d => m.copyStringArray buf argvec d.1 d.2.1) = some r ↔
      (∀ x, Touches args argvec x → m.HasPage x) ∧ r = layout (args.map Prod.snd) buf
        (buf + argvecArraySize (args.map Prod.snd)) m := by
  have hbuf := h.buffer
  have hdim := fun d => getStringArrayDim_iff (d := d) h.argv (by
    unfold argvecArraySize at hbuf
    rw [List.length_map] at hbuf
    omega)
  have hloop := fun hsrc => @copyLoop_iff m r args buf argvec
    (buf + argvecArraySize (args.map Prod.snd)) h.argv hsrc (Nat.le_refl _) (by omega)
    fun x hx hc => (h.apart x ((block_buffer args buf x).mp hc)).1 hx
  have hu : u32 (buf + argvecArraySize (args.map Prod.snd)) =
      buf + argvecArraySize (args.map Prod.snd) := u32_of_lt (by omega)
  rw [Option.bind_eq_some_iff]
  unfold copyStringArray
  constructor
  · rintro ⟨d, hd, hrun⟩
    obtain ⟨hsrc, rfl⟩ := (hdim d).mp hd
    dsimp only at hrun
    rw [hu] at hrun
    exact ⟨hsrc, ((hloop hsrc).mp hrun).2⟩
  · rintro ⟨hsrc, hr⟩
    refine ⟨_, (hdim _).mpr ⟨hsrc, rfl⟩, ?_⟩
    dsimp only
    rw [hu]
    exact (hloop hsrc).mpr ⟨fun x hx => h.pages x ((block_buffer args buf x).mp hx), hr⟩

/-- the memory between the copies: the stack was zeroed, which leaves the buffer alone -/
def between (m : PagedMem) (args : List (Nat × List Nat)) (buf userStackSize : Nat) :
    PagedMem :=
  (layout (args.map Prod.snd) buf (buf + argvecArraySize (args.map Prod.snd)) m).zeroStack
    (stackStart userStackSize) userStackSize

theorem ExecInput.between_spec (h : ExecInput m args buf argvec userStackSize) :
    ArgvAt (between m args buf userStackSize).val
        (placed (args.map Prod.snd) (buf + argvecArraySize (args.map Prod.snd))) buf ∧
      (∀ x, (between m args buf userStackSize).HasPage x ↔ m.HasPage x) ∧
      ∀ x ∈ (between m args buf userStackSize).written, x ∈ m.written ∨ InRange buf
        (argvecArraySize (args.map Prod.snd) + argvecStrSize (args.map Prod.snd)) x := by
  have hbuf := h.buffer
  obtain ⟨m₁, hm₁⟩ : ∃ m₁, m₁ = layout (args.map Prod.snd) buf
      (buf + argvecArraySize (args.map Prod.snd)) m := ⟨_, rfl⟩
  have w₁ : Within (Block (args.map Prod.snd) buf
      (buf + argvecArraySize (args.map Prod.snd))) m m₁ := by
    rw [hm₁]
    exact layout_within (Nat.le_refl _) (by omega)
  have w₂ := @zeroStack_within m₁ (stackStart userStackSize) userStackSize
  have hcopy : ArgvAt m₁.val
      (placed (args.map Prod.snd) (buf + argvecArraySize (args.map Prod.snd))) buf := by
    rw [hm₁]
    exact layout_argvAt h.argv.nonzero (Nat.le_refl _) (by omega)
  unfold between
  rw [← hm₁]
  refine ⟨hcopy.congr fun x hx => w₂.val x ?_, fun x => w₂.hasPage.trans w₁.hasPage, fun x hx => ?_⟩
  · exact (h.apart x ((block_buffer args buf x).mp (touches_placed.mp hx))).2
  · rw [zeroStack_written] at hx
    exact (w₁.written x hx).imp_right (block_buffer args buf x).mp

/-- **the second copy**, to the stack -/
theorem ExecInput.second (h : ExecInput m args buf argvec userStackSize) {esp : Nat}
    (hesp : esp + entrySize (args.map Prod.snd) = stackTop userStackSize) (r : PagedMem × Nat) :
    (between m args buf userStackSize).vmmCopyArgvec (stackTop userStackSize) buf = some r ↔
      (∀ x, OnStack args userStackSize x → m.HasPage x) ∧
        r = (entryMem (args.map Prod.snd) esp (between m args buf userStackSize), esp) := by
  obtain ⟨htop, hbound⟩ := stackTop_eq h.below
  unfold vmmKernelBase pageSize at htop
  have hfits := h.fits
  obtain ⟨hargv, hpage, -⟩ := h.between_spec
  have hcopy := @vmmCopyArgvec_iff _
    (placed (args.map Prod.snd) (buf + argvecArraySize (args.map Prod.snd))) esp buf r hargv
    (by rw [placed_strings]; omega) (by
      rw [placed_strings]
      intro x hx hc
      refine (h.apart x ((block_buffer args buf x).mp (touches_placed.mp hx))).2 ⟨?_, ?_⟩
      · have := hc.1
        omega
      · have := hc.2
        omega)
  rw [placed_strings, hesp] at hcopy
  simp only [touches_placed, block_buffer, hpage] at hcopy
  have hwhole : ∀ x, InRange esp (entrySize (args.map Prod.snd)) x ↔
      OnStack args userStackSize x := by
    intro x
    unfold InRange OnStack
    omega
  simp only [hwhole] at hcopy
  rw [hcopy]
  exact and_iff_right h.pages

/-- **both copies** -/
theorem ExecInput.copyArgs_iff (h : ExecInput m args buf argvec userStackSize) {esp : Nat}
    (hesp : esp + entrySize (args.map Prod.snd) = stackTop userStackSize) (r : PagedMem × Nat) :
    m.copyArgs buf argvec userStackSize = some r ↔ ArgsPresent m args argvec userStackSize ∧
      r = (entryMem (args.map Prod.snd) esp (between m args buf userStackSize), esp) := by
  have he : m.copyArgs buf argvec userStackSize =
      ((m.getStringArrayDim argvec).bind fun d =>
        m.copyStringArray buf argvec d.1 d.2.1).bind fun m =>
          (m.zeroStack (stackStart userStackSize) userStackSize).vmmCopyArgvec
            (stackTop userStackSize) buf := by
    rw [Option.bind_assoc]
    rfl
  rw [he, Option.bind_eq_some_iff]
  unfold ArgsPresent
  constructor
  · rintro ⟨m₁, hfirst, hsecond⟩
    obtain ⟨hsrc, rfl⟩ := (h.first m₁).mp hfirst
    obtain ⟨hstack, hr⟩ := (h.second hesp r).mp hsecond
    exact ⟨⟨hsrc, hstack⟩, hr⟩
  · rintro ⟨⟨hsrc, hstack⟩, hr⟩
    exact ⟨_, (h.first _).mpr ⟨hsrc, rfl⟩, (h.second hesp r).mpr ⟨hstack, hr⟩⟩

/-- **exec delivers its arguments** exactly where the kernel finds every page of them present, and
of the stack it puts them on, and takes none of the latter away again: it does not bring a page in
and panics on a fault of its own, and it unmaps and maps whole pages -/
theorem exec_args_iff (h : ExecInput m args buf argvec userStackSize) (userStack : VmArea)
    (vmas loaded : List VmArea) :
    ArgsDelivered m args buf argvec userStackSize userStack vmas loaded ↔
      ArgsPresent m args argvec userStackSize ∧
        ArgsKept args userStackSize userStack vmas loaded := by
  obtain ⟨-, hbound⟩ := stackTop_eq h.below
  have hfits := h.fits
  obtain ⟨esp, hesp⟩ : ∃ esp, esp + entrySize (args.map Prod.snd) = stackTop userStackSize :=
    ⟨stackTop userStackSize - entrySize (args.map Prod.snd), by omega⟩
  obtain ⟨m₁, hm₁⟩ : ∃ m₁, m₁ = entryMem (args.map Prod.snd) esp
      (between m args buf userStackSize) := ⟨_, rfl⟩
  have hrun := h.copyArgs_iff hesp
  rw [← hm₁] at hrun
  obtain ⟨hentry, hwithin⟩ := @entryMem_spec (between m args buf userStackSize) _ esp h.argv.nonzero
    (by omega)
  rw [← hm₁] at hentry hwithin
  obtain ⟨-, hpage, hwritten⟩ := h.between_spec
  obtain ⟨m₂, hm₂, hval, hwr, hkept⟩ := reload_spec m₁ userStack vmas loaded
  have hblock : ∀ x, InRange esp (entrySize (args.map Prod.snd)) x ↔
      OnStack args userStackSize x := by
    intro x
    unfold InRange OnStack
    omega
  have hlt : ∀ x, OnStack args userStackSize x → x < 2^32 := by
    intro x hx
    have := hx.1
    omega
  constructor
  · rintro ⟨m', esp', hm', -, -, hthere, -⟩
    obtain ⟨r, hr, e⟩ := Option.map_eq_some_iff.mp hm'
    obtain ⟨hpresent, rfl⟩ := (hrun r).mp hr
    dsimp only at e
    rw [hm₂] at e
    cases e
    exact ⟨hpresent, fun x hx => ((hkept x (hlt x hx)).mp (hthere x ((hblock x).mpr hx))).2⟩
  · rintro ⟨hpresent, hk⟩
    refine ⟨m₂, esp, Option.map_eq_some_iff.mpr ⟨_, (hrun _).mpr ⟨hpresent, rfl⟩, ?_⟩, hesp,
      hentry.congr hval, fun x hx => ?_, fun x hx => ?_⟩
    · rw [hm₂]
    · have hx := (hblock x).mp hx
      exact (hkept x (hlt x hx)).mpr
        ⟨hwithin.hasPage.mpr ((hpage x).mpr (hpresent.2 x hx)), hk x hx⟩
    · rw [hwr] at hx
      rcases hwithin.written x hx with hx | hx
      · exact (hwritten x hx).imp_right .inl
      · exact .inr (.inr hx)

end

/-- an array with one argument; the string `a` is on a page of its own -/
def oneArgVal (x : Nat) : Nat :=
  if x = 0x1000001 then 0x10 else if x = 0x1000003 then 0x01 else if x = 0x1001000 then 97 else 0

def oneArg (present : Nat → Bool) : PagedMem where
  val := oneArgVal
  present := present

theorem oneArg_input (present : Nat → Bool) (h : ∀ p, p ≠ 0x1001 → present p = true) :
    ExecInput (oneArg present) [(0x1001000, [97])] 0xc0100000 0x1000000 0x4000 := by
  have hbelow : 0x4000 + pageSize ≤ vmmKernelBase := by decide
  obtain ⟨hstart, htop⟩ := stackTop_eq hbelow
  have harray : argvecArraySize (List.map Prod.snd [((0x1001000 : Nat), [97])]) = 8 := rfl
  have hstr : argvecStrSize (List.map Prod.snd [((0x1001000 : Nat), [97])]) = 2 := rfl
  unfold vmmKernelBase pageSize at hstart
  refine ⟨?_, hbelow, ?_, ?_, fun x hx => h _ ?_, fun x hx => ?_⟩
  · show ArgvAt oneArgVal _ _
    exact ⟨by decide, by decide, by decide, by decide, ⟨by decide, by decide, rfl⟩, by decide,
      by decide⟩
  · unfold entrySize
    omega
  · rw [harray, hstr]
    decide
  · have := hx.1
    unfold pageSize
    omega
  · rw [harray, hstr] at hx
    unfold InRange at hx
    constructor
    · intro hc
      rcases hc with hc | hc | hc
      · have := hc.2
        omega
      · have := hc.2
        dsimp only [List.length_cons, List.length_nil] at this
        omega
      · have := hc.2
        omega
    · intro hc
      have := hc.2
      omega

/-- the stack of a program with a page of text and a page of data, and the program it calls `exec`
on: text and data -/
def oneArgStack : VmArea := zeroArea 1 0xbfffb000 0x4000 pgtabAttribUsrRw vmaFlagStack

def oneArgVmas : List VmArea :=
  [fileArea 1 0x1000000 0x200 pgtabAttribUsrRo 0 1 0x1000,
    fileArea 1 0x1001000 0x80 pgtabAttribUsrRw 0 1 0x2000, oneArgStack]

def oneArgLoaded : List VmArea :=
  loadedAreas 1 2 (((SimpleElf.init 0x1000000).record ⟨1, 0x1000000, 0x1000, 0x1400⟩ .text).record
    ⟨9, 0x1002000, 0x3000, 0x100⟩ .data)

theorem oneArg_kept :
    ArgsKept [(0x1001000, [97])] 0x4000 oneArgStack oneArgVmas oneArgLoaded := by
  intro x hx
  have hbelow : 0x4000 + pageSize ≤ vmmKernelBase := by decide
  obtain ⟨-, htop⟩ := stackTop_eq hbelow
  have hsize : entrySize (List.map Prod.snd [((0x1001000 : Nat), [97])]) = 22 := rfl
  have hx1 := hx.1
  have hx2 := hx.2
  rw [htop] at hx1 hx2
  rw [hsize] at hx2
  have e : pageAddr x = 0xbfffe000 := by
    rw [pageAddr_eq]
    omega
  rw [e]
  decide

/-- with all pages present it arrives: the old areas and the new ones are apart from the stack -/
theorem exec_args_iff_one :
    ArgsDelivered (oneArg fun _ => true) [(0x1001000, [97])] 0xc0100000 0x1000000 0x4000 oneArgStack
      oneArgVmas oneArgLoaded :=
  (exec_args_iff (oneArg_input _ fun _ _ => rfl) oneArgStack oneArgVmas oneArgLoaded).mpr
    ⟨⟨fun _ _ => rfl, fun _ _ => rfl⟩, oneArg_kept⟩

/-- the page of the string was not loaded yet: the kernel panics -/
theorem exec_args_absent_page :
    ExecInput (oneArg fun p => p ≠ 0x1001) [(0x1001000, [97])] 0xc0100000 0x1000000 0x4000 ∧
      ¬ ArgsDelivered (oneArg fun p => p ≠ 0x1001) [(0x1001000, [97])] 0xc0100000 0x1000000
        0x4000 oneArgStack oneArgVmas oneArgLoaded := by
  have h := oneArg_input (fun p => p ≠ 0x1001) fun p hp => decide_eq_true hp
  refine ⟨h, ?_⟩
  rintro ⟨m', esp, hm', hesp, -⟩
  obtain ⟨r, hr, -⟩ := Option.map_eq_some_iff.mp hm'
  have hpage := ((h.copyArgs_iff hesp r).mp hr).1.1 0x1001000 (.inr (.inl ⟨by decide, by decide⟩))
  have hpage : decide (0x1001000 / pageSize ≠ 0x1001) = true := hpage
  exact absurd hpage (by decide)

end PagedMem

end Paravirt

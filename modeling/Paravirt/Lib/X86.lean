import Mathlib.Logic.Function.Basic
import Mathlib.Algebra.Group.Nat.Defs
import Mathlib.Algebra.Group.Int.Defs
import Mathlib.Data.List.Basic

/-!
# A small IA-32 machine with an oracle for C calls

Routines are instruction lists; a jump goes forward to a label of the same routine.  What a
`call` does is a parameter, so a statement about a routine holds for every C code that obeys the
convention.

* `Machine`            registers, flags, byte memory, and a state `σ` the C code may use;
* `exec`               runs a routine to its `ret`, `iret` or `int`;
* `Cdecl`              what the cdecl convention promises about one call;
* `Stack`              the words from the stack pointer up to a base;
* `Stack.push/pop/call`  how the instructions move the symbolic stack.
-/

namespace X86

abbrev Word := BitVec 32
abbrev Memory := Word → BitVec 8

inductive Reg
  | eax | ebx | ecx | edx | esi | edi | ebp | esp
deriving DecidableEq, Repr

/-! ## Memory -/

/-- a little-endian word -/
def Memory.read32 (m : Memory) (a : Word) : Word :=
  m (a + 3) ++ m (a + 2) ++ m (a + 1) ++ m a

def Memory.write32 (m : Memory) (a v : Word) : Memory := fun b =>
  if b = a then v.extractLsb' 0 8
  else if b = a + 1 then v.extractLsb' 8 8
  else if b = a + 2 then v.extractLsb' 16 8
  else if b = a + 3 then v.extractLsb' 24 8
  else m b

theorem bytes_append (v : Word) :
    (v.extractLsb' 24 8 ++ v.extractLsb' 16 8 ++ v.extractLsb' 8 8 ++ v.extractLsb' 0 8 : Word) =
      v := by
  apply BitVec.eq_of_getLsbD_eq
  intro i hi
  simp only [BitVec.getLsbD_append, BitVec.getLsbD_extractLsb']
  by_cases h1 : i < 8
  · simp [h1]
  · by_cases h2 : i < 16
    · have e : 8 + (i - 8) = i := by omega
      have h3 : i - 8 < 8 := by omega
      simp [h1, h3, e]
    · by_cases h4 : i < 24
      · have e : 16 + (i - 8 - 8) = i := by omega
        have h5 : ¬ i - 8 < 8 := by omega
        have h6 : i - 8 - 8 < 8 := by omega
        simp [h1, h5, h6, e]
      · have e : 24 + (i - 8 - 8 - 8) = i := by omega
        have h5 : ¬ i - 8 < 8 := by omega
        have h6 : ¬ i - 8 - 8 < 8 := by omega
        have h7 : i - 8 - 8 - 8 < 8 := by omega
        simp [h1, h5, h6, h7, e]

theorem Memory.read32_write32 (m : Memory) (a v : Word) : (m.write32 a v).read32 a = v := by
  have e1 : a + 1 ≠ a := by bv_omega
  have e2 : a + 2 ≠ a := by bv_omega
  have e3 : a + 2 ≠ a + 1 := by bv_omega
  have e4 : a + 3 ≠ a := by bv_omega
  have e5 : a + 3 ≠ a + 1 := by bv_omega
  have e6 : a + 3 ≠ a + 2 := by bv_omega
  unfold Memory.read32 Memory.write32
  simp only [if_true, if_neg e1, if_neg e2, if_neg e3, if_neg e4, if_neg e5, if_neg e6]
  exact bytes_append v

/-- a byte outside the four written ones stays -/
theorem Memory.write32_of_le (m : Memory) (a v b : Word) (h : 4 ≤ (b - a).toNat) :
    m.write32 a v b = m b := by
  have e0 : b ≠ a := by bv_omega
  have e1 : b ≠ a + 1 := by bv_omega
  have e2 : b ≠ a + 2 := by bv_omega
  have e3 : b ≠ a + 3 := by bv_omega
  unfold Memory.write32
  rw [if_neg e0, if_neg e1, if_neg e2, if_neg e3]

/-- a word apart from the written one stays -/
theorem Memory.read32_write32_of_le (m : Memory) (a v b : Word) (h : 4 ≤ (b - a).toNat)
    (h' : (b - a).toNat + 4 ≤ 2 ^ 32) : (m.write32 a v).read32 b = m.read32 b := by
  unfold Memory.read32
  rw [write32_of_le m a v b h, write32_of_le m a v (b + 1) (by bv_omega),
    write32_of_le m a v (b + 2) (by bv_omega), write32_of_le m a v (b + 3) (by bv_omega)]

theorem Memory.read32_congr {m m' : Memory} {a : Word}
    (h : ∀ k : Word, k.toNat < 4 → m' (a + k) = m (a + k)) : m'.read32 a = m.read32 a := by
  have h0 : m' a = m a := by simpa using h 0 (by decide)
  unfold Memory.read32
  rw [h0, h 1 (by decide), h 2 (by decide), h 3 (by decide)]

/-! ## The machine -/

structure Machine (σ : Type) where
  reg : Reg → Word
  eflags : Word
  cs : Word
  ss : Word
  mem : Memory
  /-- what the C code keeps in its own variables -/
  vars : σ

/-- `(base, index, scale)` -/
structure Addr where
  base : Reg
  index : Option Reg
  scale : Word

inductive Instr (L F : Type)
  | pushl (src : Reg)
  | pushlMem (src : Addr)
  | popl (dst : Reg)
  | movl (src dst : Reg)
  | movlImm (v : Word) (dst : Reg)
  | movlMem (src : Addr) (dst : Reg)
  | leal (src : Addr) (dst : Reg)
  | xorl (src dst : Reg)
  | cmplImm (v : Word) (r : Reg)
  | jz (l : L)
  | jmp (l : L)
  | label (l : L)
  | call (f : F)
  | int (n : Word)
  | ret
  | iret

/-- how a routine ends: with the popped address, or at an `int` with the rest to run -/
inductive Exit (L F : Type)
  | ret (eip : Word)
  | iret (eip : Word)
  | int (n : Word) (rest : List (Instr L F))

variable {σ L F : Type}

def Machine.setReg (m : Machine σ) (r : Reg) (v : Word) : Machine σ :=
  { m with reg := Function.update m.reg r v }

def Machine.push (m : Machine σ) (v : Word) : Machine σ :=
  { m with
    reg := Function.update m.reg .esp (m.reg .esp - 4)
    mem := m.mem.write32 (m.reg .esp - 4) v }

/-- the word the stack pointer is at -/
def Machine.top (m : Machine σ) : Word := m.mem.read32 (m.reg .esp)

def Machine.drop (m : Machine σ) : Machine σ := m.setReg .esp (m.reg .esp + 4)

/-- `popl %esp` leaves the popped word in `%esp` -/
def Machine.pop (m : Machine σ) (r : Reg) : Machine σ := m.drop.setReg r m.top

def Machine.ea (m : Machine σ) (a : Addr) : Word :=
  match a.index with
  | none => m.reg a.base
  | some i => m.reg a.base + m.reg i * a.scale

/-- the zero flag is bit 6 -/
def Machine.setZf (m : Machine σ) (b : Bool) : Machine σ :=
  { m with eflags := if b then m.eflags ||| 0x40 else m.eflags &&& 0xffffffbf }

def Machine.zf (m : Machine σ) : Bool := m.eflags.getLsbD 6

/-- `eip`, `cs`, `eflags`, `esp`, `ss` come off the stack -/
def Machine.iret (m : Machine σ) : Machine σ :=
  { m with
    cs := m.drop.top
    eflags := m.drop.drop.top
    ss := m.drop.drop.drop.drop.top
    reg := Function.update m.reg .esp m.drop.drop.drop.top }

/-- a software interrupt to the kernel, whose stack starts at `esp0` -/
def Machine.trap (m : Machine σ) (esp0 next kcs kss : Word) : Machine σ :=
  let m' : Machine σ := { m with reg := Function.update m.reg .esp esp0, cs := kcs, ss := kss }
  ((((m'.push m.ss).push (m.reg .esp)).push m.eflags).push m.cs).push next

/-- runs a routine; with `some l`, everything up to the label is skipped -/
def exec [DecidableEq L] (env : F → Machine σ → Machine σ) :
    Option L → List (Instr L F) → Machine σ → Option (Exit L F × Machine σ)
  | _, [], _ => none
  | some l, .label l' :: is, m => if l = l' then exec env none is m else exec env (some l) is m
  | some l, _ :: is, m => exec env (some l) is m
  | none, .pushl r :: is, m => exec env none is (m.push (m.reg r))
  | none, .pushlMem a :: is, m => exec env none is (m.push (m.mem.read32 (m.ea a)))
  | none, .popl r :: is, m => exec env none is (m.pop r)
  | none, .movl s d :: is, m => exec env none is (m.setReg d (m.reg s))
  | none, .movlImm v d :: is, m => exec env none is (m.setReg d v)
  | none, .movlMem a d :: is, m => exec env none is (m.setReg d (m.mem.read32 (m.ea a)))
  | none, .leal a d :: is, m => exec env none is (m.setReg d (m.ea a))
  | none, .xorl s d :: is, m =>
      exec env none is ((m.setReg d (m.reg d ^^^ m.reg s)).setZf (m.reg d ^^^ m.reg s == 0))
  | none, .cmplImm v r :: is, m => exec env none is (m.setZf (m.reg r == v))
  | none, .jz l :: is, m => if m.zf then exec env (some l) is m else exec env none is m
  | none, .jmp l :: is, m => exec env (some l) is m
  | none, .label _ :: is, m => exec env none is m
  | none, .call f :: is, m => exec env none is (env f m)
  | none, .int n :: is, m => some (.int n is, m)
  | none, .ret :: _, m => some (.ret m.top, m.drop)
  | none, .iret :: _, m => some (.iret m.top, m.iret)

/-- the instructions that go on to the next one -/
def Instr.isStraight : Instr L F → Bool
  | .jz _ | .jmp _ | .int _ | .ret | .iret => false
  | _ => true

/-- what such an instruction does -/
def Instr.effect (env : F → Machine σ → Machine σ) : Instr L F → Machine σ → Machine σ
  | .pushl r, m => m.push (m.reg r)
  | .pushlMem a, m => m.push (m.mem.read32 (m.ea a))
  | .popl r, m => m.pop r
  | .movl s d, m => m.setReg d (m.reg s)
  | .movlImm v d, m => m.setReg d v
  | .movlMem a d, m => m.setReg d (m.mem.read32 (m.ea a))
  | .leal a d, m => m.setReg d (m.ea a)
  | .xorl s d, m => (m.setReg d (m.reg d ^^^ m.reg s)).setZf (m.reg d ^^^ m.reg s == 0)
  | .cmplImm v r, m => m.setZf (m.reg r == v)
  | .call f, m => env f m
  | _, m => m

def straight (env : F → Machine σ → Machine σ) : List (Instr L F) → Machine σ → Machine σ
  | [], m => m
  | i :: is, m => straight env is (i.effect env m)

theorem exec_append [DecidableEq L] (env : F → Machine σ → Machine σ) {code : List (Instr L F)}
    (h : ∀ i ∈ code, i.isStraight = true) (rest : List (Instr L F)) (m : Machine σ) :
    exec env none (code ++ rest) m = exec env none rest (straight env code m) := by
  induction code generalizing m with
  | nil => rfl
  | cons i is ih =>
    have hi := h i List.mem_cons_self
    have his := fun j hj => h j (List.mem_cons_of_mem i hj)
    cases i with
    | jz l => exact absurd hi (by simp [Instr.isStraight])
    | jmp l => exact absurd hi (by simp [Instr.isStraight])
    | int n => exact absurd hi (by simp [Instr.isStraight])
    | ret => exact absurd hi (by simp [Instr.isStraight])
    | iret => exact absurd hi (by simp [Instr.isStraight])
    | _ => exact ih his _

theorem straight_append (env : F → Machine σ → Machine σ) (a b : List (Instr L F))
    (m : Machine σ) : straight env (a ++ b) m = straight env b (straight env a m) := by
  induction a generalizing m with
  | nil => rfl
  | cons i is ih => exact ih _

/-! ## What an instruction leaves alone -/

@[simp] theorem Machine.setReg_reg_self (m : Machine σ) (r : Reg) (v : Word) :
    (m.setReg r v).reg r = v := Function.update_self ..

theorem Machine.setReg_reg_of_ne (m : Machine σ) {r r' : Reg} (v : Word) (h : r' ≠ r) :
    (m.setReg r v).reg r' = m.reg r' := Function.update_of_ne h ..

@[simp] theorem Machine.setReg_mem (m : Machine σ) (r : Reg) (v : Word) :
    (m.setReg r v).mem = m.mem := rfl

@[simp] theorem Machine.setReg_vars (m : Machine σ) (r : Reg) (v : Word) :
    (m.setReg r v).vars = m.vars := rfl

@[simp] theorem Machine.push_reg_esp (m : Machine σ) (v : Word) :
    (m.push v).reg .esp = m.reg .esp - 4 := by
  simp [push]

theorem Machine.push_reg_of_ne (m : Machine σ) {r : Reg} (v : Word) (h : r ≠ .esp) :
    (m.push v).reg r = m.reg r := Function.update_of_ne h ..

@[simp] theorem Machine.push_vars (m : Machine σ) (v : Word) : (m.push v).vars = m.vars := rfl

@[simp] theorem Machine.drop_reg_esp (m : Machine σ) : m.drop.reg .esp = m.reg .esp + 4 := by
  unfold drop
  exact m.setReg_reg_self _ _

theorem Machine.drop_reg_of_ne (m : Machine σ) {r : Reg} (h : r ≠ .esp) :
    m.drop.reg r = m.reg r := Function.update_of_ne h ..

@[simp] theorem Machine.drop_mem (m : Machine σ) : m.drop.mem = m.mem := rfl

@[simp] theorem Machine.drop_vars (m : Machine σ) : m.drop.vars = m.vars := rfl

@[simp] theorem Machine.pop_reg_self (m : Machine σ) (r : Reg) : (m.pop r).reg r = m.top :=
  Function.update_self ..

theorem Machine.pop_reg_of_ne (m : Machine σ) {r r' : Reg} (h : r' ≠ r) (h' : r' ≠ .esp) :
    (m.pop r).reg r' = m.reg r' := by
  unfold pop
  rw [setReg_reg_of_ne _ _ h, drop_reg_of_ne _ h']

@[simp] theorem Machine.pop_mem (m : Machine σ) (r : Reg) : (m.pop r).mem = m.mem := rfl

@[simp] theorem Machine.pop_vars (m : Machine σ) (r : Reg) : (m.pop r).vars = m.vars := rfl

theorem Machine.iret_reg_of_ne (m : Machine σ) {r : Reg} (h : r ≠ .esp) :
    m.iret.reg r = m.reg r := Function.update_of_ne h ..

@[simp] theorem Machine.iret_reg_esp (m : Machine σ) :
    m.iret.reg .esp = m.drop.drop.drop.top := by
  simp [iret]

@[simp] theorem Machine.iret_mem (m : Machine σ) : m.iret.mem = m.mem := rfl

@[simp] theorem Machine.setZf_reg (m : Machine σ) (b : Bool) : (m.setZf b).reg = m.reg := rfl

@[simp] theorem Machine.setZf_mem (m : Machine σ) (b : Bool) : (m.setZf b).mem = m.mem := rfl

@[simp] theorem Machine.setZf_vars (m : Machine σ) (b : Bool) : (m.setZf b).vars = m.vars := rfl

@[simp] theorem Machine.setZf_zf (m : Machine σ) (b : Bool) : (m.setZf b).zf = b := by
  cases b <;> simp [setZf, zf]

/-! ## The symbolic stack -/

/-- the words from the stack pointer up to `base` are `ws` -/
structure Stack (base : Word) (ws : List Word) (m : Machine σ) : Prop where
  esp : m.reg .esp = base - BitVec.ofNat 32 (4 * ws.length)
  word : ∀ i (h : i < ws.length),
    m.mem.read32 (m.reg .esp + BitVec.ofNat 32 (4 * i)) = ws.get ⟨i, h⟩

theorem Stack.nil (m : Machine σ) : Stack (m.reg .esp) [] m where
  esp := by simp
  word i h := absurd h (Nat.not_lt_zero i)

theorem Stack.top_eq {base v : Word} {ws : List Word} {m : Machine σ}
    (s : Stack base (v :: ws) m) : m.top = v := by
  have h := s.word 0 (Nat.zero_lt_succ _)
  simpa [Machine.top] using h

theorem Stack.push {base : Word} {ws : List Word} {m : Machine σ} (s : Stack base ws m)
    (hlen : 4 * ws.length + 4 < 2 ^ 32) (v : Word) : Stack base (v :: ws) (m.push v) where
  esp := by
    rw [Machine.push_reg_esp, s.esp]
    simp only [List.length_cons]
    bv_omega
  word i h := by
    rw [Machine.push_reg_esp]
    show (m.mem.write32 (m.reg .esp - 4) v).read32 _ = _
    cases i with
    | zero =>
      simpa using m.mem.read32_write32 (m.reg .esp - 4) v
    | succ i =>
      have hi : i < ws.length := Nat.lt_of_succ_lt_succ h
      have e : m.reg .esp - 4 + BitVec.ofNat 32 (4 * (i + 1)) =
          m.reg .esp + BitVec.ofNat 32 (4 * i) := by bv_omega
      rw [e, Memory.read32_write32_of_le _ _ _ _ (by bv_omega) (by bv_omega)]
      exact s.word i hi

/-- pushes a whole list, its last word first -/
def Machine.pushList (m : Machine σ) : List Word → Machine σ
  | [] => m
  | w :: ws => (m.pushList ws).push w

theorem Stack.pushList {base : Word} {ws : List Word} {m : Machine σ} (s : Stack base ws m) :
    ∀ vs : List Word, 4 * (vs.length + ws.length) < 2 ^ 32 →
      Stack base (vs ++ ws) (m.pushList vs)
  | [], _ => s
  | v :: vs, h => by
    rw [List.length_cons] at h
    exact (Stack.pushList s vs (by omega)).push (by rw [List.length_append]; omega) v

theorem Machine.pushList_reg_of_ne (m : Machine σ) {r : Reg} (h : r ≠ .esp) :
    ∀ ws : List Word, (m.pushList ws).reg r = m.reg r
  | [] => rfl
  | w :: ws => ((m.pushList ws).push_reg_of_ne w h).trans (m.pushList_reg_of_ne h ws)

theorem Machine.pushList_vars (m : Machine σ) : ∀ ws : List Word, (m.pushList ws).vars = m.vars
  | [] => rfl
  | _ :: ws => m.pushList_vars ws

theorem Stack.drop {base v : Word} {ws : List Word} {m : Machine σ}
    (s : Stack base (v :: ws) m) : Stack base ws m.drop where
  esp := by
    rw [Machine.drop_reg_esp, s.esp]
    simp only [List.length_cons]
    bv_omega
  word i h := by
    have e : m.reg .esp + 4 + BitVec.ofNat 32 (4 * i) =
        m.reg .esp + BitVec.ofNat 32 (4 * (i + 1)) := by bv_omega
    rw [Machine.drop_reg_esp, Machine.drop_mem, e]
    exact s.word (i + 1) (Nat.succ_lt_succ h)

theorem Stack.congr {base : Word} {ws : List Word} {m m' : Machine σ} (s : Stack base ws m)
    (hesp : m'.reg .esp = m.reg .esp) (hmem : m'.mem = m.mem) : Stack base ws m' where
  esp := by rw [hesp, s.esp]
  word i h := by rw [hesp, hmem]; exact s.word i h

theorem Stack.congr_frame {base : Word} {ws : List Word} {m m' : Machine σ} (s : Stack base ws m)
    (hlen : 4 * ws.length < 2 ^ 32) (hesp : m'.reg .esp = m.reg .esp)
    (hmem : ∀ k : Word, k.toNat < 4 * ws.length →
      m'.mem (m.reg .esp + k) = m.mem (m.reg .esp + k)) : Stack base ws m' where
  esp := by rw [hesp, s.esp]
  word i h := by
    rw [hesp, ← s.word i h]
    refine Memory.read32_congr fun k hk => ?_
    have e : (BitVec.ofNat 32 (4 * i) + k).toNat = 4 * i + k.toNat := by
      rw [BitVec.toNat_add, BitVec.toNat_ofNat]
      omega
    rw [BitVec.add_assoc]
    exact hmem _ (by omega)

/-- the word at `base` belongs to the stack that ends one word higher -/
theorem Stack.extend {base : Word} {ws : List Word} {m : Machine σ} (s : Stack base ws m)
    {v : Word} (hv : m.mem.read32 base = v) : Stack (base + 4) (ws ++ [v]) m where
  esp := by
    rw [s.esp, List.length_append, List.length_singleton]
    bv_omega
  word i h := by
    show _ = (ws ++ [v])[i]
    by_cases hi : i < ws.length
    · rw [List.getElem_append_left hi]
      exact s.word i hi
    · have e : i = ws.length := by
        rw [List.length_append, List.length_singleton] at h
        omega
      subst e
      have eb : m.reg .esp + BitVec.ofNat 32 (4 * ws.length) = base := by
        rw [s.esp]
        bv_omega
      rw [List.getElem_append_right (Nat.le_refl _), eb, hv]
      simp

theorem Stack.setReg {base : Word} {ws : List Word} {m : Machine σ} (s : Stack base ws m)
    {r : Reg} (hr : r ≠ .esp) (v : Word) : Stack base ws (m.setReg r v) :=
  s.congr (m.setReg_reg_of_ne v hr.symm) rfl

theorem Stack.pop {base v : Word} {ws : List Word} {m : Machine σ}
    (s : Stack base (v :: ws) m) {r : Reg} (hr : r ≠ .esp) : Stack base ws (m.pop r) :=
  s.drop.setReg hr _

/-- `popl %esp` of the address just above the popped word drops it -/
theorem Stack.pop_esp {base v : Word} {ws : List Word} {m : Machine σ}
    (s : Stack base (v :: ws) m) (hv : v = base - BitVec.ofNat 32 (4 * ws.length)) :
    Stack base ws (m.pop .esp) := by
  refine s.drop.congr ?_ rfl
  rw [Machine.pop_reg_self, s.top_eq, hv, s.drop.esp]

/-- the word `4 * d` bytes below `base` -/
theorem Stack.read {base : Word} {ws : List Word} {m : Machine σ} (s : Stack base ws m) {d : Nat}
    (h0 : 0 < d) (h : d ≤ ws.length) :
    m.mem.read32 (base - BitVec.ofNat 32 (4 * d)) =
      ws.get ⟨ws.length - d, by omega⟩ := by
  have e : base - BitVec.ofNat 32 (4 * d) =
      m.reg .esp + BitVec.ofNat 32 (4 * (ws.length - d)) := by
    rw [s.esp]
    have h1 : 4 * ws.length = 4 * d + 4 * (ws.length - d) := by omega
    rw [h1]
    generalize 4 * d = x, 4 * (ws.length - d) = y
    rw [BitVec.ofNat_add]
    bv_omega
  rw [e]
  exact s.word _ _

/-! ## The cdecl convention -/

/-- What a call of a C function with `args` bytes of arguments promises: the callee-saved
registers and the stack pointer come back, and so do the caller's stack above the arguments, up
to `top`, and the bytes in `keep`. -/
structure Cdecl (args : Nat) (top : Word) (keep : Word → Prop) (m m' : Machine σ) : Prop where
  ebx : m'.reg .ebx = m.reg .ebx
  esi : m'.reg .esi = m.reg .esi
  edi : m'.reg .edi = m.reg .edi
  ebp : m'.reg .ebp = m.reg .ebp
  esp : m'.reg .esp = m.reg .esp
  frame : ∀ k : Word, args ≤ k.toNat → k.toNat < (top - m.reg .esp).toNat →
    m'.mem (m.reg .esp + k) = m.mem (m.reg .esp + k)
  kept : ∀ a, keep a → m'.mem a = m.mem a

/-- the stack after a call: only the argument words may differ -/
theorem Stack.call {base top : Word} {as ws : List Word} {keep : Word → Prop}
    {m m' : Machine σ} (s : Stack base (as ++ ws) m)
    (h : Cdecl (4 * as.length) top keep m m')
    (htop : 4 * (as.length + ws.length) ≤ (top - m.reg .esp).toNat) :
    ∃ as', as'.length = as.length ∧ Stack base (as' ++ ws) m' := by
  let as' := (List.range as.length).map fun i =>
    m'.mem.read32 (m'.reg .esp + BitVec.ofNat 32 (4 * i))
  have hlen : as'.length = as.length := by simp [as']
  refine ⟨as', hlen, ?_, ?_⟩
  · rw [h.esp, s.esp]
    simp only [List.length_append, hlen]
  · intro i hi
    have hi' : i < as.length + ws.length := by simpa [hlen] using hi
    show _ = (as' ++ ws)[i]
    by_cases hlt : i < as.length
    · rw [List.getElem_append_left (hlen ▸ hlt)]
      simp [as']
    · have hi2 : i < (as ++ ws).length := by simpa using hi'
      have hw : m.mem.read32 (m.reg .esp + BitVec.ofNat 32 (4 * i)) = (as ++ ws)[i] :=
        s.word i hi2
      rw [List.getElem_append_right (by omega)] at hw
      rw [List.getElem_append_right (by omega)]
      simp only [hlen]
      rw [← hw, h.esp]
      refine Memory.read32_congr fun k hk => ?_
      have htop32 : (top - m.reg .esp).toNat < 2 ^ 32 := BitVec.isLt _
      have e : (BitVec.ofNat 32 (4 * i) + k).toNat = 4 * i + k.toNat := by
        rw [BitVec.toNat_add, BitVec.toNat_ofNat]
        omega
      rw [BitVec.add_assoc]
      exact h.frame _ (by omega) (by omega)

/-- a call without arguments leaves the symbolic stack alone -/
theorem Stack.call0 {base top : Word} {ws : List Word} {keep : Word → Prop} {m m' : Machine σ}
    (s : Stack base ws m) (h : Cdecl 0 top keep m m')
    (htop : 4 * ws.length ≤ (top - m.reg .esp).toNat) : Stack base ws m' := by
  have s0 : Stack base ([] ++ ws) m := s
  obtain ⟨as', hlen, s'⟩ := s0.call h (by simpa using htop)
  have : as' = [] := List.eq_nil_of_length_eq_zero hlen
  subst this
  exact s'

end X86

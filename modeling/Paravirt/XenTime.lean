import Paravirt.Zone
import Paravirt.Lib.Seqlock
import Mathlib.Algebra.Group.Nat.Defs
import Mathlib.Tactic.Ring

/-!
# Time (kern/xen_time.c)

The hypervisor publishes the time values in memory that it shares with the guest, under a version
counter; the guest copies them, and computes the time from the copy and the time stamp counter.
The two reads of the version in the test of a loop are made in the order in which they are written.

* `getTimeValuesFromXen`, `updateWallclock`   the two copies, access by access;
* `scaleCode`        the assembly of `scale_delta`, instruction by instruction;
* `monotonicClock`, `gettimeofday`   what is computed from a copy;
* `shared_time_snapshot`     a copy is one set of values, whatever the hypervisor does meanwhile;
* `scale_delta_exact_iff`    the carry that the assembly loses;
* `monotonic_clock_exact_iff`   the offset that the return type cuts off;
* `gettimeofday_exact`       seconds and microseconds are the wall clock.
-/

namespace Paravirt

/-! ## the copies -/

/-- the words of `struct vcpu_time_info` and of the wall clock that are copied; a 64-bit value is
two -/
inductive TimeWord where
  | tscLo | tscHi | sysLo | sysHi | mul | shift
  | wcSec | wcNsec
deriving DecidableEq

def timeFields : List TimeWord := [.tscLo, .tscHi, .sysLo, .sysHi, .mul, .shift]

def wallFields : List TimeWord := [.wcSec, .wcNsec]

/-- the hypervisor and `get_time_values_from_xen`; the word `version` has 32 bits -/
def getTimeValuesFromXen : Seqlock.State TimeWord Nat → Seqlock.Access TimeWord Nat →
    Seqlock.State TimeWord Nat → Prop :=
  Seqlock.Step (2^32) timeFields

/-- the hypervisor and `update_wallclock` -/
def updateWallclock : Seqlock.State TimeWord Nat → Seqlock.Access TimeWord Nat →
    Seqlock.State TimeWord Nat → Prop :=
  Seqlock.Step (2^32) wallFields

/-- When the loop of either function is left, all the words of the copy are those of one
publication, not older than the call, as long as there are fewer than `2^32` increments of the
version during the call. -/
theorem shared_time_snapshot {s s' : Seqlock.State TimeWord Nat}
    {as : List (Seqlock.Access TimeWord Nat)} {fields : List TimeWord}
    (hcall : (fields = timeFields ∧ Steps getTimeValuesFromXen s as s') ∨
      (fields = wallFields ∧ Steps updateWallclock s as s'))
    (hpc : s.pc = .start) (hlog : s.count % 2 = 0 → s.log s.count = s.cells)
    (hwrap : s'.count < s.count + 2^32) (hdone : s'.pc = .done) :
    ∃ e, s.count ≤ e ∧ e ≤ s'.count ∧ e % 2 = 0 ∧ s'.version = u32 e ∧
      ∀ w ∈ fields, s'.copy w = s'.log e w := by
  rcases hcall with ⟨rfl, hrun⟩ | ⟨rfl, hrun⟩
  · exact Seqlock.snapshot hrun (by decide) hpc hlog hwrap hdone
  · exact Seqlock.snapshot hrun (by decide) hpc hlog hwrap hdone

/-- the shared words before a call, at the count 4 -/
def quietTime : Seqlock.State TimeWord Nat where
  cells := fun _ => 7
  count := 4
  log := fun _ _ => 7
  pc := .start
  version := 0
  copy := fun _ => 0
  began := 0

/-- a publication that begins inside the first turn of the loop -/
def busyTime : Seqlock.State TimeWord Nat :=
  let s := (quietTime.read (2^32) wallFields).bump
  Seqlock.State.bump { s with cells := Function.update s.cells .wcSec 9 }

/-- there is a second turn -/
def copiedTime : Seqlock.State TimeWord Nat := (Seqlock.State.read (2^32) wallFields)^[9] busyTime

theorem busyTime_steps : ∃ as, Steps (Seqlock.Step (2^32) wallFields) quietTime as busyTime := by
  have hodd : (quietTime.read (2^32) wallFields).bump.count % 2 = 1 := rfl
  have h1 := Steps.single (@Seqlock.Step.read TimeWord Nat _ (2^32) wallFields quietTime)
  have h2 := Steps.snoc h1 (Seqlock.Step.bump _)
  have h3 := Steps.snoc h2 (Seqlock.Step.store _ .wcSec 9 hodd)
  exact ⟨_, Steps.snoc h3 (Seqlock.Step.bump _)⟩

theorem copiedTime_steps : ∃ as, Steps updateWallclock quietTime as copiedTime := by
  obtain ⟨as, h⟩ := busyTime_steps
  exact Seqlock.steps_reads h 9

theorem shared_time_snapshot_busy : ∃ e, quietTime.count ≤ e ∧ e ≤ copiedTime.count ∧ e % 2 = 0 ∧
    copiedTime.version = u32 e ∧ ∀ w ∈ wallFields, copiedTime.copy w = copiedTime.log e w :=
  copiedTime_steps.elim fun _ h =>
    shared_time_snapshot (.inr ⟨rfl, h⟩) rfl (fun _ => rfl) (by decide) rfl

/-! ## the offset -/

/-- the registers of the assembly: `%4` and `%5` hold the high half of the delta and the fraction -/
inductive ScaleReg where
  | eax | edx | hi | frac
deriving DecidableEq

inductive ScaleInstr where
  | mul (src : ScaleReg)
  | mov (src dst : ScaleReg)
  | add (src dst : ScaleReg)
  | xor (src dst : ScaleReg)
  | adc (src dst : ScaleReg)

structure ScaleRegs where
  reg : ScaleReg → Nat
  carry : Bool

def ScaleInstr.exec (m : ScaleRegs) : ScaleInstr → ScaleRegs
  | .mul src =>
    let product := m.reg .eax * m.reg src
    ⟨Function.update (Function.update m.reg .eax (u32 product)) .edx (product / 2^32),
      2^32 ≤ product⟩
  | .mov src dst => ⟨Function.update m.reg dst (m.reg src), m.carry⟩
  | .add src dst =>
    ⟨Function.update m.reg dst (u32 (m.reg dst + m.reg src)), 2^32 ≤ m.reg dst + m.reg src⟩
  | .xor src dst => ⟨Function.update m.reg dst (m.reg dst ^^^ m.reg src), false⟩
  | .adc src dst =>
    ⟨Function.update m.reg dst (u32 (m.reg dst + m.reg src + m.carry.toNat)),
      2^32 ≤ m.reg dst + m.reg src + m.carry.toNat⟩

def scaleCode : List ScaleInstr :=
  [.mul .frac, .mov .hi .eax, .mov .edx .hi, .mul .frac, .add .hi .eax, .xor .frac .frac,
    .adc .frac .edx]

/-- the assembly of `scale_delta` on the shifted delta -/
def scaleAsm (delta mulFrac : Nat) : Nat :=
  let m : ScaleRegs := ⟨fun
    | .eax => delta % 2^32
    | .edx => 0
    | .hi => delta / 2^32
    | .frac => mulFrac, false⟩
  let m := scaleCode.foldl ScaleInstr.exec m
  m.reg .eax + 2^32 * m.reg .edx

/-- the delta is shifted first, to the right for a negative shift -/
def shiftDelta (delta : Nat) (shift : Int) : Nat :=
  if shift < 0 then delta / 2^(-shift).toNat else delta * 2^shift.toNat % 2^64

/-- `scale_delta` -/
def scaleDelta (delta mulFrac : Nat) (shift : Int) : Nat := scaleAsm (shiftDelta delta shift) mulFrac

/-- the two halves of the product do not carry into the high word -/
def NoCarry (delta mulFrac : Nat) : Prop :=
  delta / 2^32 * mulFrac % 2^32 + delta % 2^32 * mulFrac / 2^32 < 2^32

instance (delta mulFrac : Nat) : Decidable (NoCarry delta mulFrac) :=
  inferInstanceAs (Decidable (_ < _))

theorem scaleAsm_eq {delta mulFrac : Nat} (hd : delta < 2^64) (hm : mulFrac < 2^32) :
    scaleAsm delta mulFrac =
      u32 (delta / 2^32 * mulFrac % 2^32 + delta % 2^32 * mulFrac / 2^32) +
        2^32 * (delta / 2^32 * mulFrac / 2^32) := by
  have hlt : delta / 2^32 * mulFrac / 2^32 < 2^32 := by
    apply Nat.div_lt_of_lt_mul
    have h1 : delta / 2^32 < 2^32 := Nat.div_lt_of_lt_mul (by omega)
    calc delta / 2^32 * mulFrac ≤ delta / 2^32 * 2^32 := Nat.mul_le_mul_left _ (Nat.le_of_lt hm)
      _ < 2^32 * 2^32 := Nat.mul_lt_mul_of_pos_right h1 (Nat.two_pow_pos 32)
  simp [scaleAsm, scaleCode, ScaleInstr.exec, Function.update, u32]
  omega

/-- the product of the halves -/
theorem mul_div_halves (delta mulFrac : Nat) :
    delta * mulFrac / 2^32 = delta / 2^32 * mulFrac + delta % 2^32 * mulFrac / 2^32 := by
  have hsplit : delta * mulFrac = delta % 2^32 * mulFrac + 2^32 * (delta / 2^32 * mulFrac) := by
    conv_lhs => rw [← Nat.mod_add_div delta (2^32)]
    ring
  rw [hsplit, Nat.add_mul_div_left _ _ (Nat.two_pow_pos 32), Nat.add_comm]

/-- What `scale_delta` returns is the product, shifted, exactly when the addition of the two halves
does not carry: `xor` clears the carry before `adc` adds it. -/
theorem scale_delta_exact_iff {delta mulFrac : Nat} {shift : Int}
    (hd : shiftDelta delta shift < 2^64) (hm : mulFrac < 2^32) :
    scaleDelta delta mulFrac shift = shiftDelta delta shift * mulFrac / 2^32 ↔
      NoCarry (shiftDelta delta shift) mulFrac := by
  unfold scaleDelta NoCarry
  generalize shiftDelta delta shift = d at hd
  rw [scaleAsm_eq hd hm, mul_div_halves d mulFrac]
  generalize hp : d / 2^32 * mulFrac = p
  have hq : d % 2^32 * mulFrac / 2^32 < 2^32 := by
    apply Nat.div_lt_of_lt_mul
    calc d % 2^32 * mulFrac ≤ d % 2^32 * 2^32 := Nat.mul_le_mul_left _ (Nat.le_of_lt hm)
      _ < 2^32 * 2^32 :=
        Nat.mul_lt_mul_of_pos_right (Nat.mod_lt _ (Nat.two_pow_pos 32)) (Nat.two_pow_pos 32)
  generalize d % 2^32 * mulFrac / 2^32 = q at hq
  unfold u32
  omega

theorem scale_delta_exact_iff_carry :
    scaleDelta (2^33 - 1) (2^32 - 1) 0 = shiftDelta (2^33 - 1) 0 * (2^32 - 1) / 2^32 ↔
      NoCarry (shiftDelta (2^33 - 1) 0) (2^32 - 1) :=
  scale_delta_exact_iff (by decide) (by decide)

/-! ## the clocks -/

/-- what the clock uses of `shadow` -/
structure ShadowTime where
  tscTimestamp : Nat
  systemTimestamp : Nat
  tscToNsecMul : Nat
  tscShift : Int

def u64 (n : Nat) : Nat := n % 2^64

/-- the delta that `get_nsec_offset` scales, at the time stamp `now` -/
def ShadowTime.delta (sh : ShadowTime) (now : Nat) : Nat :=
  u64 (now + (2^64 - sh.tscTimestamp))

/-- `get_nsec_offset`; it returns an `unsigned long`, which has 32 bits -/
def getNsecOffset (sh : ShadowTime) (now : Nat) : Nat :=
  u32 (scaleDelta (sh.delta now) sh.tscToNsecMul sh.tscShift)

/-- `monotonic_clock`, with values that are up to date -/
def monotonicClock (sh : ShadowTime) (now : Nat) : Nat :=
  u64 (sh.systemTimestamp + getNsecOffset sh now)

/-- the nanoseconds since the values were published, as the header of the interface defines them -/
def ShadowTime.offset (sh : ShadowTime) (now : Nat) : Nat :=
  shiftDelta (sh.delta now) sh.tscShift * sh.tscToNsecMul / 2^32

theorem shiftDelta_lt {delta : Nat} {shift : Int} (hd : delta < 2^64) :
    shiftDelta delta shift < 2^64 := by
  unfold shiftDelta
  split
  · exact Nat.lt_of_le_of_lt (Nat.div_le_self _ _) hd
  · exact Nat.mod_lt _ (Nat.two_pow_pos 64)

/-- the low word is right, carry or not -/
theorem getNsecOffset_eq {sh : ShadowTime} (now : Nat) (hm : sh.tscToNsecMul < 2^32) :
    getNsecOffset sh now = u32 (sh.offset now) := by
  have hd : shiftDelta (sh.delta now) sh.tscShift < 2^64 :=
    shiftDelta_lt (Nat.mod_lt _ (Nat.two_pow_pos 64))
  unfold getNsecOffset scaleDelta ShadowTime.offset
  generalize shiftDelta (sh.delta now) sh.tscShift = d at hd
  rw [scaleAsm_eq hd hm, mul_div_halves d]
  unfold u32
  omega

theorem offset_lt {sh : ShadowTime} (now : Nat) (hm : sh.tscToNsecMul < 2^32) :
    sh.offset now < 2^64 := by
  have hd : shiftDelta (sh.delta now) sh.tscShift < 2^64 :=
    shiftDelta_lt (Nat.mod_lt _ (Nat.two_pow_pos 64))
  unfold ShadowTime.offset
  apply Nat.div_lt_of_lt_mul
  calc shiftDelta (sh.delta now) sh.tscShift * sh.tscToNsecMul
      ≤ shiftDelta (sh.delta now) sh.tscShift * 2^32 := Nat.mul_le_mul_left _ (Nat.le_of_lt hm)
    _ < 2^64 * 2^32 := Nat.mul_lt_mul_of_pos_right hd (Nat.two_pow_pos 32)
    _ = 2^32 * 2^64 := by rw [Nat.mul_comm]

/-- The monotonic clock is the time of the published values and of the time stamp counter exactly as
long as the values are less than `2^32` nanoseconds old; a lost carry does not matter to it. -/
theorem monotonic_clock_exact_iff {sh : ShadowTime} (now : Nat) (hm : sh.tscToNsecMul < 2^32) :
    monotonicClock sh now = u64 (sh.systemTimestamp + sh.offset now) ↔ sh.offset now < 2^32 := by
  have hlt := offset_lt now hm
  unfold monotonicClock
  rw [getNsecOffset_eq now hm]
  generalize sh.offset now = off at hlt
  unfold u64 u32
  constructor
  · intro h
    omega
  · intro h
    rw [Nat.mod_eq_of_lt h]

/-- a time stamp counter of 4 GHz, with a published value -/
def shadowExample : ShadowTime := ⟨1000, 5000000000, 2^30, 0⟩

theorem monotonic_clock_exact_iff_late : monotonicClock shadowExample (2^34 + 1000) =
      u64 (5000000000 + shadowExample.offset (2^34 + 1000)) ↔
    shadowExample.offset (2^34 + 1000) < 2^32 :=
  monotonic_clock_exact_iff (2^34 + 1000) (by decide)

end Paravirt

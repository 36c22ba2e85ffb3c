import Mathlib.Algebra.Order.Ring.Pow
import Reckon.Proofs.Decimal.Nearest
/-! How far apart the numbers are that a precision can hold. Taking one from a number above ten to the
precision is rounded back to it; multiplying by what rounds to more than one always gives more. -/
namespace Reckon.Decimal
variable {p : Precision} {x y b : ℚ}

theorem Representable.units (held : Representable p x) (positive : 0 < x) {q : ℤ}
    (place : q ≤ lastPlace p x) : ∃ m : ℕ, x = m * 10 ^ q := by
  obtain ⟨k, f, value, few, above⟩ := held
  have size : |x| = k * 10 ^ f := (abs_of_pos positive).trans value
  have below := representablePlace size few above positive.ne'
  refine ⟨k * tenTo (f - q).toNat, ?_⟩
  rw [Nat.cast_mul, tenToToNat (by omega), mul_assoc, ← tenAdd, sub_add_cancel]
  exact value

theorem lastPlaceMono (positive : 0 < x) (order : x ≤ y) : lastPlace p x ≤ lastPlace p y := by
  have leading : leadingPlace x ≤ leadingPlace y := by
    apply Int.log_mono_right (abs_pos.mpr positive.ne')
    rwa [abs_of_pos positive, abs_of_pos (positive.trans_le order)]
  unfold lastPlace
  omega

theorem representableGap (held : Representable p x) (heldToo : Representable p y) (positive : 0 < x)
    (below : x < y) : x + 10 ^ lastPlace p x ≤ y := by
  obtain ⟨m, value⟩ := held.units positive le_rfl
  obtain ⟨n, valueToo⟩ := heldToo.units (positive.trans below) (lastPlaceMono positive below.le)
  have unit := tenPos (lastPlace p x)
  rw [value, valueToo] at below
  have order : m + 1 ≤ n := by exact_mod_cast lt_of_mul_lt_mul_right below unit.le
  have cast : (m : ℚ) + 1 ≤ n := by exact_mod_cast order
  calc x + 10 ^ lastPlace p x
    _ = (m + 1) * 10 ^ lastPlace p x := by rw [add_mul, one_mul, ← value]
    _ ≤ n * 10 ^ lastPlace p x := mul_le_mul_of_nonneg_right cast unit.le
    _ = y := valueToo.symm

theorem representableNext (held : Representable p x) (positive : 0 < x) :
    Representable p (x + 10 ^ lastPlace p x) := by
  obtain ⟨m, value⟩ := held.units positive le_rfl
  have next : x + 10 ^ lastPlace p x = (m + 1 : ℕ) * 10 ^ lastPlace p x := by
    rw [Nat.cast_succ, add_mul, one_mul, ← value]
  have bound := (le_abs_self x).trans_lt (ltLastPlace p x)
  have fewer : (m : ℚ) < tenTo p.digits :=
    lt_of_mul_lt_mul_right (value.symm.trans_lt bound) (tenPos _).le
  have few : m < tenTo p.digits := by exact_mod_cast fewer
  rw [next]
  exact representableUnits few (le_max_left ..)

/- What rounds to more than one is at least half a unit above it, and half of the distance to the next
number is always reached. It is passed except from a power of ten, whose case is that of one. -/

theorem representableOne (p : Precision) : Representable p 1 :=
  ⟨1, 0, by simp, Nat.one_lt_pow p.pos.ne' (by norm_num), (tinyNegative p).le⟩

theorem oneLtOfNearest (nonneg : 0 ≤ b) (growing : 1 < nearest p b) : 1 < b := by
  by_contra small
  have order := nearestMono (p := p) nonneg (not_lt.mp small)
  have kept := nearestRepresentable (p := p) (x := 1) (by rw [abs_one]; exact representableOne p)
  linarith

theorem halfUnitAbove (nonneg : 0 ≤ b) (growing : 1 < nearest p b) :
    2 + 10 ^ lastPlace p 1 ≤ 2 * b := by
  have gap := representableGap (representableOne p) (nearestHeld nonneg) one_pos growing
  have half := closerAbove growing (nearestLeast nonneg (representableOne p))
  linarith

theorem nearestGrows (held : Representable p x) (large : 1 ≤ x) (nonneg : 0 ≤ b)
    (growing : 1 < nearest p b) : x < nearest p (x * b) := by
  have positive : 0 < x := one_pos.trans_le large
  have first := leadingLe positive.ne'
  rw [abs_of_pos positive] at first
  rcases first.eq_or_lt with power | above
  · have place := Int.toNat_of_nonneg (leadingNonneg large)
    rw [← place] at power
    rw [← power, mul_comm, nearestTens _ (oneLtOfNearest nonneg growing).le]
    exact lt_mul_of_one_lt_left (tenPos _) growing
  · by_contra small
    have unit : (10 : ℚ) ^ lastPlace p x = 10 ^ leadingPlace x * 10 ^ lastPlace p 1 := by
      have place : leadingPlace 1 = 0 := leadingIs (by simp) (by norm_num)
      rw [lastPlaceLarge large, lastPlaceLarge le_rfl, place, ← tenAdd]
      congr 1
      ring
    have next := tenPos (lastPlace p x)
    have half := closerBelow (by linarith)
      (nearestLeast (mul_nonneg positive.le nonneg) (representableNext held positive))
    have steps := mul_le_mul_of_nonneg_left (halfUnitAbove nonneg growing) positive.le
    have longer := mul_lt_mul_of_pos_right above (tenPos (lastPlace p 1))
    linarith

theorem growthFactor (held : Representable p x) (heldToo : Representable p y) (positive : 0 < x)
    (below : x < y) : x * (1 + 1 / tenTo p.digits) ≤ y := by
  have gap := representableGap held heldToo positive below
  have bound := (le_abs_self x).trans_lt (ltLastPlace p x)
  have tens : (0 : ℚ) < tenTo p.digits := by exact_mod_cast tenToPos p.digits
  have share : x / tenTo p.digits ≤ 10 ^ lastPlace p x := by
    rw [div_le_iff₀ tens, mul_comm]
    exact bound.le
  calc x * (1 + 1 / tenTo p.digits)
    _ = x + x / tenTo p.digits := by ring
    _ ≤ y := by linarith

end Reckon.Decimal

import Mathlib.Data.Nat.Factorization.Basic
import Mathlib.Data.Rat.Cast.Order
import Mathlib.Tactic.FieldSimp
import Mathlib.Tactic.Linarith
import Mathlib.Tactic.NormNum
import Mathlib.Tactic.Positivity
import Mathlib.Tactic.Ring
import Reckon.Proofs.Decimal.Finite
/-! The rational number that a finite number denotes. Comparison is by this number, and a sum, difference
or product is one rounding of the exact result. -/
namespace Reckon.Decimal

def scaled (negative : Bool) (coefficient : Nat) (exponent : Int) : ℚ :=
  (if negative then -(coefficient : ℚ) else coefficient) * 10 ^ exponent

def rational : Decimal → ℚ
  | .finite s c e => scaled s c e
  | _ => 0

theorem tenPos (e : Int) : (0 : ℚ) < 10 ^ e := zpow_pos (by norm_num) e

theorem tenAdd (e f : Int) : (10 : ℚ) ^ (e + f) = 10 ^ e * 10 ^ f := zpow_add₀ (by norm_num) e f

theorem tenToLt {m n : ℕ} (less : m < n) : tenTo m < tenTo n := Nat.pow_lt_pow_right (by decide) less

theorem tenToCast (n : Nat) : (tenTo n : ℚ) = 10 ^ (n : Int) := by
  unfold tenTo
  rw [zpow_natCast]
  exact Nat.cast_pow 10 n

theorem tenToToNat {e : Int} (above : 0 ≤ e) : (tenTo e.toNat : ℚ) = 10 ^ e := by
  rw [tenToCast, Int.toNat_of_nonneg above]

theorem scaledZero (s : Bool) (e : Int) : scaled s 0 e = 0 := by
  cases s <;> simp [scaled]

theorem absScaled (s : Bool) (c : Nat) (e : Int) : |scaled s c e| = c * 10 ^ e := by
  unfold scaled
  cases s <;> simp [abs_mul, abs_of_pos (tenPos e)]

theorem scaledEqZero {s : Bool} {c : Nat} {e : Int} : scaled s c e = 0 ↔ c = 0 := by
  rw [← abs_eq_zero, absScaled, mul_eq_zero, Nat.cast_eq_zero]
  exact or_iff_left (tenPos e).ne'

theorem scaledNegative {s : Bool} {c : Nat} {e : Int} (nonzero : c ≠ 0) : scaled s c e < 0 ↔ s = true := by
  have size : (0 : ℚ) < c * 10 ^ e := mul_pos (Nat.cast_pos.mpr (Nat.pos_of_ne_zero nonzero)) (tenPos e)
  unfold scaled
  cases s
  · simpa using size.le
  · simpa using size

theorem scaledMul (s t : Bool) (c d : Nat) (e f : Int) :
    scaled (s != t) (c * d) (e + f) = scaled s c e * scaled t d f := by
  unfold scaled
  rw [tenAdd]
  cases s <;> cases t <;> simp <;> ring

theorem scaledOpposite (s : Bool) (c : Nat) (e : Int) : scaled (!s) c e = -scaled s c e := by
  unfold scaled
  cases s <;> simp

theorem unitsScaled (s : Bool) (c : Nat) {e unit : Int} (below : unit ≤ e) :
    (units s c e unit : ℚ) * 10 ^ unit = scaled s c e := by
  have shift : (10 : ℚ) ^ (e - unit) * 10 ^ unit = 10 ^ e := by
    rw [← tenAdd, Int.sub_add_cancel]
  unfold units scaled
  cases s
  · simp [tenToToNat (Int.sub_nonneg.mpr below), mul_assoc, shift]
  · simp [tenToToNat (Int.sub_nonneg.mpr below), mul_assoc, shift]

theorem natAbsScaled {n : Int} {s : Bool} (sign : n ≠ 0 → s = decide (n < 0)) (e : Int) :
    scaled s n.natAbs e = n * 10 ^ e := by
  unfold scaled
  rcases lt_trichotomy n 0 with below | rfl | above
  · rw [sign below.ne, decide_eq_true below, if_pos rfl, Nat.cast_natAbs, abs_of_neg below]
    simp
  · simp
  · rw [sign above.ne', decide_eq_false (not_lt.mpr above.le), if_neg Bool.false_ne_true,
      Nat.cast_natAbs, abs_of_pos above]

theorem coefficientBelow (c : Nat) : (c : ℚ) < 10 ^ (digitCount c : Int) := by
  rw [← tenToCast]
  exact_mod_cast ltTenToDigitCount c

theorem coefficientAbove {c : Nat} (nonzero : c ≠ 0) : (10 : ℚ) ^ ((digitCount c : Int) - 1) ≤ c := by
  have pos := digitCountPos c
  have place : (digitCount c : Int) - 1 = (digitCount c - 1 : Nat) := by omega
  rw [place, ← tenToCast]
  exact_mod_cast tenToDigitCountLe nonzero

theorem rationalOfInt (n : ℤ) : (ofInt n).rational = n :=
  (natAbsScaled (fun _ => rfl) 0).trans (by rw [zpow_zero, mul_one])

theorem rationalOfNat (n : ℕ) : (ofNat n).rational = n := by
  show scaled false n 0 = n
  simp [scaled]

theorem rationalZero : zero.rational = 0 := scaledZero false 0

theorem rationalOne : one.rational = 1 := by
  show scaled false 1 0 = 1
  simp [scaled]

variable {a b : Decimal}

theorem rationalOpposite (finite : a.isFinite = true) : (opposite a).rational = -a.rational := by
  obtain ⟨s, c, e, rfl⟩ := finiteForm finite
  exact scaledOpposite s c e

theorem differenceScaled (s : Bool) (c : Nat) (e : Int) (t : Bool) (d : Nat) (f : Int) :
    (difference s c e t d f : ℚ) * 10 ^ min e f = scaled s c e - scaled t d f := by
  unfold difference
  rw [Int.cast_sub, sub_mul, unitsScaled s c (min_le_left e f), unitsScaled t d (min_le_right e f)]

theorem equalRational (left : a.isFinite = true) (right : b.isFinite = true) :
    equal? a b = .ok (decide (a.rational = b.rational)) := by
  obtain ⟨s, c, e, rfl⟩ := finiteForm left
  obtain ⟨t, d, f, rfl⟩ := finiteForm right
  have gap := differenceScaled s c e t d f
  have same : difference s c e t d f = 0 ↔ (finite s c e).rational = (finite t d f).rational := by
    have sameUnits : (difference s c e t d f : ℚ) * 10 ^ min e f = 0 ↔ difference s c e t d f = 0 :=
      (mul_eq_zero_iff_right (tenPos _).ne').trans Int.cast_eq_zero
    rw [gap, sub_eq_zero] at sameUnits
    exact sameUnits.symm
  exact congrArg Except.ok (Bool.eq_iff_iff.mpr (by simpa using same))

theorem lessRational (left : a.isFinite = true) (right : b.isFinite = true) :
    less? a b = .ok (decide (a.rational < b.rational)) := by
  obtain ⟨s, c, e, rfl⟩ := finiteForm left
  obtain ⟨t, d, f, rfl⟩ := finiteForm right
  have gap := differenceScaled s c e t d f
  have order : difference s c e t d f < 0 ↔ (finite s c e).rational < (finite t d f).rational := by
    have below : (difference s c e t d f : ℚ) * 10 ^ min e f < 0 * 10 ^ min e f ↔
        difference s c e t d f < 0 := (mul_lt_mul_iff_left₀ (tenPos _)).trans Int.cast_lt_zero
    rw [gap, zero_mul, sub_neg] at below
    exact below.symm
  exact congrArg Except.ok (decide_eq_decide.mpr order)

def Rounding (p : Precision) (x : ℚ) (outcome : Except Signal Decimal) : Prop :=
  ∃ s c e, outcome = round p s c e ∧ scaled s c e = x

variable {p : Precision}

theorem addRounding (left : a.isFinite = true) (right : b.isFinite = true) :
    Rounding p (a.rational + b.rational) (add p a b) := by
  obtain ⟨s, c, e, rfl⟩ := finiteForm left
  obtain ⟨t, d, f, rfl⟩ := finiteForm right
  refine ⟨_, _, _, rfl, ?_⟩
  rw [natAbsScaled (fun nonzero => if_neg nonzero), Int.cast_add, add_mul,
    unitsScaled s c (min_le_left e f), unitsScaled t d (min_le_right e f)]
  rfl

theorem subRounding (left : a.isFinite = true) (right : b.isFinite = true) :
    Rounding p (a.rational - b.rational) (sub p a b) := by
  have sum := addRounding (p := p) left (oppositeFinite right)
  rwa [rationalOpposite right, ← sub_eq_add_neg] at sum

theorem mulRounding (left : a.isFinite = true) (right : b.isFinite = true) :
    Rounding p (a.rational * b.rational) (mul p a b) := by
  obtain ⟨s, c, e, rfl⟩ := finiteForm left
  obtain ⟨t, d, f, rfl⟩ := finiteForm right
  exact ⟨_, _, _, rfl, scaledMul s t c d e f⟩

theorem plusRounding (finite : a.isFinite = true) : Rounding p a.rational (plus p a) := by
  obtain ⟨s, c, e, rfl⟩ := finiteForm finite
  refine ⟨_, _, _, rfl, ?_⟩
  by_cases vanishes : c = 0
  · rw [vanishes, scaledZero, rational, scaledZero]
  · have kept : (s && c != 0) = s := by simp [vanishes]
    rw [kept]
    rfl

theorem tenParts (e : Int) : (10 : ℚ) ^ e * tenTo (-e).toNat = tenTo e.toNat := by
  rw [tenToCast, tenToCast, ← tenAdd]
  congr 1
  omega

theorem coefficientOfWhole {s : Bool} {c : Nat} {e n : Int} (same : scaled s c e = n) :
    c * tenTo e.toNat = n.natAbs * tenTo (-e).toNat := by
  have size := absScaled s c e
  rw [same, ← Int.cast_abs, Int.abs_eq_natAbs] at size
  have parts : (c : ℚ) * tenTo e.toNat = n.natAbs * tenTo (-e).toNat := by
    rw [← tenParts, ← mul_assoc, ← size, Int.cast_natCast]
  exact_mod_cast parts

theorem isWholeOfRational {n : Int} (finite : a.isFinite = true) (same : a.rational = n) :
    a.isWhole = true := by
  obtain ⟨s, c, e, rfl⟩ := finiteForm finite
  have coefficient := coefficientOfWhole same
  simp only [isWhole, beq_iff_eq]
  rcases le_total 0 e with above | below
  · rw [Int.toNat_of_nonpos (Int.neg_nonpos_of_nonneg above)]
    exact Nat.mod_one c
  · rw [Int.toNat_of_nonpos below] at coefficient
    exact Nat.mod_eq_zero_of_dvd ⟨n.natAbs, by rw [mul_comm, ← coefficient]; exact (mul_one c).symm⟩

theorem toIntRational (finite : a.isFinite = true) (whole : a.isWhole = true) :
    ∃ n : Int, a.toInt? = some n ∧ a.rational = n := by
  obtain ⟨s, c, e, rfl⟩ := finiteForm finite
  simp only [isWhole, beq_iff_eq] at whole
  obtain ⟨k, rfl⟩ := Nat.dvd_of_mod_eq_zero whole
  have cut : tenTo (-e).toNat * k * tenTo e.toNat / tenTo (-e).toNat = k * tenTo e.toNat := by
    rw [mul_assoc, Nat.mul_div_cancel_left _ (tenToPos _)]
  refine ⟨_, rfl, ?_⟩
  have value : (10 : ℚ) ^ e * tenTo (-e).toNat * k = k * tenTo e.toNat := by
    rw [tenParts, mul_comm]
  simp only [cut, rational, scaled]
  cases s
  · simp [← value]
    ring
  · simp [← value]
    ring

theorem scaledTens (s : Bool) (c n : Nat) (e : Int) : scaled s (c * tenTo n) e = scaled s c (e + n) := by
  unfold scaled
  rw [Nat.cast_mul, tenToCast, Int.add_comm, tenAdd]
  cases s
  · simp [mul_assoc]
  · simp [mul_assoc]

theorem shortestCoefficient {c k : ℕ} {e q : ℤ} (last : ¬ 10 ∣ c) (same : (c : ℚ) * 10 ^ e = k * 10 ^ q) :
    q ≤ e ∧ c ≤ k := by
  have order : q ≤ e := by
    by_contra above
    apply last
    have shifted : c = k * tenTo (q - e).toNat := by
      have cast : (c : ℚ) = k * tenTo (q - e).toNat := by
        apply mul_right_cancel₀ (tenPos e).ne'
        rw [tenToToNat (by omega), mul_assoc, ← tenAdd, sub_add_cancel, same]
      exact_mod_cast cast
    rw [shifted]
    exact (dvd_pow_self 10 (by omega)).mul_left k
  refine ⟨order, ?_⟩
  have shifted : c * tenTo (e - q).toNat = k := by
    have cast : (c : ℚ) * tenTo (e - q).toNat = k := by
      apply mul_right_cancel₀ (tenPos q).ne'
      rw [tenToToNat (by omega), mul_assoc, ← tenAdd, sub_add_cancel, same]
    exact_mod_cast cast
  rw [← shifted]
  exact Nat.le_mul_of_pos_right c (tenToPos _)

theorem shortestDigits {c : ℕ} (nonzero : c ≠ 0) : ∃ a t, ¬ 10 ∣ a ∧ c = a * tenTo t := by
  obtain ⟨t, a, last, same⟩ := Nat.exists_eq_pow_mul_and_not_dvd nonzero 10 (by decide)
  exact ⟨a, t, last, same.trans (Nat.mul_comm ..)⟩

theorem shortestUnique {s t : Bool} {c d : ℕ} {e f : ℤ} (last : ¬ 10 ∣ c) (last' : ¬ 10 ∣ d)
    (same : scaled s c e = scaled t d f) : s = t ∧ c = d ∧ e = f := by
  have nonzero : c ≠ 0 := fun vanishes => last (vanishes ▸ dvd_zero 10)
  have nonzero' : d ≠ 0 := fun vanishes => last' (vanishes ▸ dvd_zero 10)
  have sign : s = true ↔ t = true := by
    rw [← scaledNegative nonzero, ← scaledNegative nonzero', same]
  have size : (c : ℚ) * 10 ^ e = d * 10 ^ f := by
    rw [← absScaled s c e, same, absScaled]
  obtain ⟨place, short⟩ := shortestCoefficient last size
  obtain ⟨place', short'⟩ := shortestCoefficient last' size.symm
  exact ⟨Bool.eq_iff_iff.mpr sign, le_antisymm short short', le_antisymm place' place⟩

theorem shortestForm {d : Decimal} (finite : d.isFinite = true) (nonzero : d.rational ≠ 0) :
    ∃ (a : ℕ) (j : ℤ), |d.rational| = a * 10 ^ j ∧ ¬ 10 ∣ a := by
  obtain ⟨s, c, e, rfl⟩ := finiteForm finite
  obtain ⟨a, t, last, rfl⟩ := shortestDigits fun vanishes => nonzero (scaledEqZero.mpr vanishes)
  exact ⟨a, e + t, by rw [rational, scaledTens, absScaled], last⟩

/- A quotient is cut one digit past the precision at the earliest, so that nothing is cut off one whose
digits the precision can hold. -/

theorem dropZerosScaled (s : Bool) (n c : Nat) (e : Int) :
    scaled s (dropZeros n c e).1 (dropZeros n c e).2 = scaled s c e := by
  fun_induction dropZeros n c e with
  | case1 => rfl
  | case2 n c e last ih =>
    have tens : c / 10 * tenTo 1 = c := Nat.div_mul_cancel (Nat.dvd_of_mod_eq_zero last)
    calc _ = scaled s (c / 10) (e + 1) := ih
      _ = scaled s (c / 10 * tenTo 1) e := (scaledTens s (c / 10) 1 e).symm
      _ = scaled s c e := by rw [tens]
  | case3 => rfl

theorem fewDigits {k n : Nat} (few : k < tenTo n) : (k : ℚ) < 10 ^ (n : Int) := by
  rw [← tenToCast]
  exact_mod_cast few

theorem quotientWhole {c d k : Nat} {q shift : Int} (exact : (c : ℚ) = k * 10 ^ q * d)
    (few : k < tenTo p.digits) (past : shift = digitCount d - digitCount c + p.digits + 1) :
    d * tenTo (-shift).toNat ∣ c * tenTo shift.toNat := by
  by_cases vanishes : c = 0
  · rw [vanishes, Nat.zero_mul]
    exact Nat.dvd_zero _
  have positive : (0 : ℚ) < d := by
    rcases Nat.eq_zero_or_pos d with rfl | pos
    · simp [vanishes] at exact
    · exact_mod_cast pos
  -- The quotient in its shifted place is above ten to the precision.
  have high : (10 : ℚ) ^ (p.digits : Int) * d < k * 10 ^ (q + shift) * d := by
    calc (10 : ℚ) ^ (p.digits : Int) * d
      _ < 10 ^ (p.digits : Int) * 10 ^ (digitCount d : Int) :=
        mul_lt_mul_of_pos_left (coefficientBelow d) (tenPos _)
      _ = 10 ^ ((digitCount c : Int) - 1) * 10 ^ shift := by
        rw [← tenAdd, ← tenAdd, past]
        congr 1
        ring
      _ ≤ c * 10 ^ shift := mul_le_mul_of_nonneg_right (coefficientAbove vanishes) (tenPos _).le
      _ = k * 10 ^ (q + shift) * d := by
        rw [exact, tenAdd]
        ring
  have up : 0 ≤ q + shift := by
    by_contra down
    have small : (10 : ℚ) ^ (q + shift) ≤ 1 := zpow_le_one_of_nonpos₀ (by norm_num) (by omega)
    have fewer := fewDigits few
    have high := lt_of_mul_lt_mul_right high positive.le
    have low := mul_le_of_le_one_right (Nat.cast_nonneg' k) small
    linarith
  refine ⟨k * tenTo (q + shift).toNat, ?_⟩
  have parts : (c : ℚ) * tenTo shift.toNat =
      d * tenTo (-shift).toNat * (k * tenTo (q + shift).toNat) := by
    rw [tenToToNat up, exact, ← tenParts shift, tenAdd]
    ring
  exact_mod_cast parts

theorem divRounds (left : a.isFinite = true) (right : b.isFinite = true) (nonzero : b.rational ≠ 0) :
    ∃ x, Rounding p x (div p a b) := by
  obtain ⟨s, c, e, rfl⟩ := finiteForm left
  obtain ⟨t, d, f, rfl⟩ := finiteForm right
  have divisor : d ≠ 0 := fun vanishes => nonzero (scaledEqZero.mpr vanishes)
  simp only [div, if_neg divisor, quotient]
  split
  · exact ⟨_, _, _, _, rfl, rfl⟩
  · exact ⟨_, _, _, _, rfl, rfl⟩

theorem quotientScaled {s t : Bool} {c d u : Nat} {e f shift : Int} (nonzero : d ≠ 0)
    (cut : c * tenTo shift.toNat = u * (d * tenTo (-shift).toNat)) :
    scaled (s != t) u (e - f - shift) = scaled s c e / scaled t d f := by
  have unit : (tenTo (-shift).toNat : ℚ) ≠ 0 := Nat.cast_ne_zero.mpr (tenToPos _).ne'
  have whole : ((u * d : Nat) : ℚ) = c * 10 ^ shift := by
    apply mul_right_cancel₀ unit
    rw [mul_assoc, tenParts]
    exact_mod_cast (mul_assoc u d _).trans cut.symm
  have place : (10 : ℚ) ^ e = 10 ^ shift * 10 ^ (e - shift) := by
    rw [← tenAdd, add_sub_cancel]
  rw [eq_div_iff (scaledEqZero.not.mpr nonzero), ← scaledMul]
  have signs : ((s != t) != t) = s := by cases s <;> cases t <;> rfl
  rw [signs, show e - f - shift + f = e - shift by omega]
  unfold scaled
  rw [whole, place]
  cases s
  · simp [mul_assoc]
  · simp [mul_assoc]

theorem divRounding {k : Nat} {q : Int} (left : a.isFinite = true) (right : b.isFinite = true)
    (nonzero : b.rational ≠ 0) (exact : |a.rational / b.rational| = k * 10 ^ q)
    (few : k < tenTo p.digits) : Rounding p (a.rational / b.rational) (div p a b) := by
  obtain ⟨s, c, e, rfl⟩ := finiteForm left
  obtain ⟨t, d, f, rfl⟩ := finiteForm right
  have divisor : d ≠ 0 := fun vanishes => nonzero (scaledEqZero.mpr vanishes)
  have positive : (d : ℚ) ≠ 0 := Nat.cast_ne_zero.mpr divisor
  have ratio : (c : ℚ) = k * 10 ^ (q + (f - e)) * d := by
    have lower : (d : ℚ) * 10 ^ f ≠ 0 := mul_ne_zero positive (tenPos f).ne'
    rw [abs_div, rational, rational, absScaled, absScaled, div_eq_iff lower] at exact
    have shifted : (10 : ℚ) ^ (q + (f - e)) * 10 ^ e = 10 ^ q * 10 ^ f := by
      rw [← tenAdd, ← tenAdd]
      congr 1
      ring
    apply mul_right_cancel₀ (tenPos e).ne'
    calc (c : ℚ) * 10 ^ e
      _ = k * d * (10 ^ q * 10 ^ f) := by rw [exact]; ring
      _ = k * 10 ^ (q + (f - e)) * d * 10 ^ e := by rw [← shifted]; ring
  simp only [div, if_neg divisor, quotient]
  have whole := quotientWhole ratio few rfl
  rw [if_pos (Nat.mod_eq_zero_of_dvd whole)]
  refine ⟨_, _, _, rfl, ?_⟩
  rw [dropZerosScaled]
  exact quotientScaled divisor (Nat.div_mul_cancel whole).symm

end Reckon.Decimal

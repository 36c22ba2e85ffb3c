import Mathlib.Data.Int.Log
import Mathlib.Data.Rat.Floor
import Reckon.Proofs.Decimal.Ceiling
import Reckon.Proofs.Decimal.Exact
/-! Rounding as a function of the exact value. What comes out is the nearest number that the precision
can hold, and nothing else goes wrong than that it is too large. -/
namespace Reckon.Decimal

structure IsNearest (x : ℚ) (n : ℤ) : Prop where
  near : |x - n| ≤ 1 / 2
  even : |x - n| = 1 / 2 → n % 2 = 0

theorem IsNearest.least {x : ℚ} {n : ℤ} (nearest : IsNearest x n) (m : ℤ) : |x - n| ≤ |x - m| := by
  rcases eq_or_ne n m with rfl | apart
  · exact le_rfl
  · have step : (1 : ℚ) ≤ |(n : ℚ) - m| := by
      exact_mod_cast Int.one_le_abs (sub_ne_zero.mpr apart)
    have path := abs_sub_le (n : ℚ) x m
    rw [abs_sub_comm (n : ℚ) x] at path
    have near := nearest.near
    linarith

theorem IsNearest.unique {x : ℚ} {n m : ℤ} (first : IsNearest x n) (second : IsNearest x m) : n = m := by
  have near := first.near
  have nearToo := second.near
  have same := le_antisymm (first.least m) (second.least n)
  have path := abs_sub_le (n : ℚ) x m
  rw [abs_sub_comm (n : ℚ) x, same] at path
  by_contra apart
  have step : 1 ≤ |n - m| := Int.one_le_abs (sub_ne_zero.mpr apart)
  have cast : (1 : ℚ) ≤ |(n : ℚ) - m| := by exact_mod_cast step
  have close : |(n : ℚ) - m| ≤ 1 := by linarith
  have tie : |x - m| = 1 / 2 := by linarith
  have even := first.even (same.trans tie)
  have evenToo := second.even tie
  have bound : |n - m| ≤ 1 := by exact_mod_cast close
  rw [abs_le] at bound
  omega

theorem IsNearest.neg {x : ℚ} {n : ℤ} (nearest : IsNearest x n) : IsNearest (-x) (-n) := by
  have same : |(-x) - (-n : ℤ)| = |x - n| := by
    rw [← abs_neg (x - n)]
    congr 1
    push_cast
    ring
  constructor
  · rw [same]
    exact nearest.near
  · intro tie
    have even := nearest.even (same.symm.trans tie)
    omega

theorem halfEvenTie {n d : Nat} (pos : 0 < d)
    (tie : 2 * (halfEven n d * d) = 2 * n + d ∨ 2 * n = 2 * (halfEven n d * d) + d) :
    halfEven n d % 2 = 0 := by
  have split := Nat.div_add_mod n d
  have low := Nat.mod_lt n pos
  rw [Nat.mul_comm] at split
  have up : (n / d + 1) * d = n / d * d + d := Nat.succ_mul ..
  unfold halfEven at tie ⊢
  split at tie
  · omega
  · split at tie
    · rw [up] at tie
      omega
    · rename_i notBelow notAbove
      rw [if_neg notBelow, if_neg notAbove]
      omega

theorem halfEvenNearest (n : Nat) {d : Nat} (pos : 0 < d) : IsNearest ((n : ℚ) / d) (halfEven n d) := by
  have positive : (0 : ℚ) < d := by exact_mod_cast pos
  obtain ⟨low, high⟩ := halfEvenNear n pos
  have lowCast : 2 * ((halfEven n d : ℚ) * d) ≤ 2 * n + d := by exact_mod_cast low
  have highCast : 2 * (n : ℚ) ≤ 2 * (halfEven n d * d) + d := by exact_mod_cast high
  have size : |(n : ℚ) / d - (halfEven n d : ℤ)| = |(n : ℚ) - halfEven n d * d| / d := by
    rw [Int.cast_natCast, div_sub' positive.ne', abs_div, abs_of_pos positive, mul_comm (d : ℚ)]
  constructor
  · rw [size, div_le_iff₀ positive, abs_le]
    constructor <;> linarith
  · intro tie
    rw [size, div_eq_iff positive.ne'] at tie
    have even : halfEven n d % 2 = 0 := by
      apply halfEvenTie pos
      rcases abs_cases ((n : ℚ) - halfEven n d * d) with ⟨sign, _⟩ | ⟨sign, _⟩
      · right
        have above : 2 * (n : ℚ) = 2 * (halfEven n d * d) + d := by linarith
        exact_mod_cast above
      · left
        have below : 2 * ((halfEven n d : ℚ) * d) = 2 * n + d := by linarith
        exact_mod_cast below
    omega

def nearestWhole (x : ℚ) : ℤ :=
  if x < 0 then -halfEven x.num.natAbs x.den else halfEven x.num.natAbs x.den

theorem nearestWholeIsNearest (x : ℚ) : IsNearest x (nearestWhole x) := by
  have unsigned := halfEvenNearest x.num.natAbs x.den_pos
  have size : |x| = x.num.natAbs / x.den := by
    rw [Rat.abs_def, Rat.divInt_eq_div, Int.cast_natCast, Int.cast_natCast]
  rw [← size] at unsigned
  unfold nearestWhole
  split
  · rename_i below
    rw [abs_of_neg below] at unsigned
    simpa using unsigned.neg
  · rename_i notBelow
    rwa [abs_of_nonneg (not_lt.mp notBelow)] at unsigned

theorem nearestWholeEq {x : ℚ} {n : ℤ} (nearest : IsNearest x n) : nearestWhole x = n :=
  (nearestWholeIsNearest x).unique nearest

theorem nearestWholeInt (n : ℤ) : nearestWhole n = n := by
  apply nearestWholeEq
  constructor <;> simp

theorem nearestWholeAbsLe {x : ℚ} {n : ℕ} (small : |x| ≤ n) : |nearestWhole x| ≤ n := by
  have near := (nearestWholeIsNearest x).near
  have path := abs_sub_abs_le_abs_sub (nearestWhole x : ℚ) x
  rw [abs_sub_comm] at path
  have room : |(nearestWhole x : ℚ)| < n + 1 := by linarith
  have whole : |nearestWhole x| < n + 1 := by exact_mod_cast room
  omega

def leadingPlace (x : ℚ) : ℤ := Int.log 10 |x|

variable {p : Precision} {x y z : ℚ}

theorem leadingLe (nonzero : x ≠ 0) : 10 ^ leadingPlace x ≤ |x| := by
  have below := Int.zpow_log_le_self (b := 10) (by norm_num) (abs_pos.mpr nonzero)
  exact_mod_cast below

theorem ltLeading (x : ℚ) : |x| < 10 ^ (leadingPlace x + 1) := by
  have above := Int.lt_zpow_succ_log_self (b := 10) (by norm_num) |x|
  exact_mod_cast above

theorem tenMono {e f : ℤ} (order : e ≤ f) : (10 : ℚ) ^ e ≤ 10 ^ f := zpow_le_zpow_right₀ (by norm_num) order

theorem placeOfTenLt {e f : ℤ} (order : (10 : ℚ) ^ e < 10 ^ f) : e < f :=
  (zpow_lt_zpow_iff_right₀ (by norm_num)).mp order

theorem leadingIs {e : ℤ} (low : 10 ^ e ≤ |x|) (high : |x| < 10 ^ (e + 1)) : leadingPlace x = e := by
  have nonzero : x ≠ 0 := abs_pos.mp ((tenPos e).trans_le low)
  have down := placeOfTenLt (low.trans_lt (ltLeading x))
  have up := placeOfTenLt ((leadingLe nonzero).trans_lt high)
  omega

def lastPlace (p : Precision) (x : ℚ) : ℤ := max (tiny p) (leadingPlace x - p.digits + 1)

def nearest (p : Precision) (x : ℚ) : ℚ := nearestWhole (x / 10 ^ lastPlace p x) * 10 ^ lastPlace p x

def Representable (p : Precision) (x : ℚ) : Prop :=
  ∃ (k : ℕ) (q : ℤ), x = k * 10 ^ q ∧ k < tenTo p.digits ∧ tiny p ≤ q

theorem tinyNegative (p : Precision) : tiny p < 0 := by
  have pos := p.pos
  unfold tiny smallestExponent
  omega

theorem nearestNeg (p : Precision) (x : ℚ) : nearest p (-x) = -nearest p x := by
  have place : lastPlace p (-x) = lastPlace p x := by
    rw [lastPlace, lastPlace, leadingPlace, leadingPlace, abs_neg]
  unfold nearest
  rw [place, neg_div, nearestWholeEq (nearestWholeIsNearest _).neg]
  push_cast
  ring

theorem nearestZero (p : Precision) : nearest p 0 = 0 := by
  have whole : nearestWhole 0 = 0 := nearestWholeInt 0
  unfold nearest
  rw [zero_div, whole]
  simp

theorem nearestOfMultiple {n q : ℤ} (multiple : x = n * 10 ^ q) (place : lastPlace p x ≤ q) :
    nearest p x = x := by
  have whole : x / 10 ^ lastPlace p x = (n * tenTo (q - lastPlace p x).toNat : ℤ) := by
    rw [div_eq_iff (tenPos _).ne', Int.cast_mul, Int.cast_natCast, tenToToNat (by omega), mul_assoc,
      ← tenAdd, sub_add_cancel]
    exact multiple
  unfold nearest
  rw [whole, nearestWholeInt, ← whole, div_mul_cancel₀ _ (tenPos _).ne']

theorem representablePlace {k : ℕ} {q : ℤ} (value : |x| = k * 10 ^ q) (few : k < tenTo p.digits)
    (reach : tiny p ≤ q) (nonzero : x ≠ 0) : lastPlace p x ≤ q := by
  have leading : leadingPlace x < p.digits + q := by
    apply placeOfTenLt
    calc (10 : ℚ) ^ leadingPlace x
      _ ≤ k * 10 ^ q := value ▸ leadingLe nonzero
      _ < 10 ^ (p.digits : ℤ) * 10 ^ q := mul_lt_mul_of_pos_right (fewDigits few) (tenPos q)
      _ = 10 ^ (p.digits + q) := (tenAdd ..).symm
  unfold lastPlace
  omega

theorem nearestRepresentable (held : Representable p |x|) : nearest p x = x := by
  rcases eq_or_ne x 0 with rfl | nonzero
  · exact nearestZero p
  · obtain ⟨k, q, value, few, reach⟩ := held
    have place := representablePlace value few reach nonzero
    rcases abs_choice x with same | opposite
    · exact nearestOfMultiple (n := k) (by rw [← same, value]; rfl) place
    · have multiple : x = (-k : ℤ) * 10 ^ q := by
        rw [Int.cast_neg, neg_mul]
        exact neg_eq_iff_eq_neg.mp (opposite ▸ value)
      exact nearestOfMultiple multiple place

theorem representableUnits {k : ℕ} {q : ℤ} (few : k ≤ tenTo p.digits) (place : tiny p ≤ q) :
    Representable p (k * 10 ^ q) := by
  rcases few.lt_or_eq with fewer | full
  · exact ⟨k, q, rfl, fewer, place⟩
  · refine ⟨1, p.digits + q, ?_, Nat.one_lt_pow p.pos.ne' (by norm_num), by omega⟩
    rw [full, tenToCast, tenAdd, Nat.cast_one, one_mul]

theorem ltLastPlace (p : Precision) (x : ℚ) : |x| < tenTo p.digits * 10 ^ lastPlace p x := by
  have digits : leadingPlace x + 1 ≤ p.digits + lastPlace p x := by
    unfold lastPlace
    omega
  rw [tenToCast, ← tenAdd]
  exact (ltLeading x).trans_le (tenMono digits)

theorem representableNearest (p : Precision) (x : ℚ) : Representable p |nearest p x| := by
  let place := lastPlace p x
  let whole := nearestWhole (x / 10 ^ place)
  have size : |nearest p x| = whole.natAbs * 10 ^ place := by
    unfold nearest
    rw [abs_mul, abs_of_pos (tenPos _), Nat.cast_natAbs, Int.cast_abs]
  have small : |x / 10 ^ place| ≤ tenTo p.digits := by
    rw [abs_div, abs_of_pos (tenPos _), div_le_iff₀ (tenPos _)]
    exact (ltLastPlace p x).le
  have few : whole.natAbs ≤ tenTo p.digits := by
    have bound := nearestWholeAbsLe small
    rw [Int.abs_eq_natAbs] at bound
    exact_mod_cast bound
  rw [size]
  exact representableUnits few (le_max_left ..)

theorem nearestLeastMultiple {n q : ℤ} (place : lastPlace p x ≤ q) :
    |x - nearest p x| ≤ |x - n * 10 ^ q| := by
  let unit : ℚ := 10 ^ lastPlace p x
  let m : ℤ := n * tenTo (q - lastPlace p x).toNat
  have multiple : (m : ℚ) * unit = n * 10 ^ q := by
    rw [Int.cast_mul, Int.cast_natCast, tenToToNat (by omega), mul_assoc, ← tenAdd, sub_add_cancel]
  have inUnits : ∀ w : ℤ, |x - w * unit| = |x / unit - w| * unit := by
    intro w
    have positive : 0 < unit := tenPos _
    rw [← abs_of_pos positive, ← abs_mul, sub_mul, abs_of_pos positive, div_mul_cancel₀ _ positive.ne']
  have least := (nearestWholeIsNearest (x / unit)).least m
  rw [← multiple, inUnits]
  exact (inUnits (nearestWhole (x / unit))).trans_le (mul_le_mul_of_nonneg_right least (tenPos _).le)

theorem nearestLeast (nonneg : 0 ≤ x) (held : Representable p z) : |x - nearest p x| ≤ |x - z| := by
  rcases nonneg.eq_or_lt with rfl | positive
  · rw [nearestZero, sub_zero, abs_zero]
    exact abs_nonneg _
  obtain ⟨k, q, rfl, few, reach⟩ := held
  by_cases place : lastPlace p x ≤ q
  · exact nearestLeastMultiple (n := k) place
  · -- Such a number is below the power of ten at the first digit.
    have pos := p.pos
    have leading : lastPlace p x ≤ leadingPlace x ∧ p.digits + q ≤ leadingPlace x := by
      unfold lastPlace at place ⊢
      omega
    have below : (k : ℚ) * 10 ^ q ≤ 10 ^ leadingPlace x := by
      calc (k : ℚ) * 10 ^ q
        _ ≤ 10 ^ (p.digits : ℤ) * 10 ^ q := mul_le_mul_of_nonneg_right (fewDigits few).le (tenPos q).le
        _ = 10 ^ (p.digits + q) := (tenAdd ..).symm
        _ ≤ 10 ^ leadingPlace x := tenMono leading.2
    have first := leadingLe positive.ne'
    rw [abs_of_pos positive] at first
    have least := nearestLeastMultiple (n := 1) leading.1
    rw [Int.cast_one, one_mul, abs_of_nonneg (sub_nonneg.mpr first)] at least
    rw [abs_of_nonneg (sub_nonneg.mpr (below.trans first))]
    linarith

theorem representableZero (p : Precision) : Representable p 0 :=
  ⟨0, tiny p, by simp, tenToPos _, le_rfl⟩

theorem closerAbove (below : y < z) (closer : |x - z| ≤ |x - y|) : y + z ≤ 2 * x := by
  rcases abs_cases (x - z) with ⟨first, _⟩ | ⟨first, _⟩ <;>
    rcases abs_cases (x - y) with ⟨second, _⟩ | ⟨second, _⟩ <;> linarith

theorem closerBelow (below : y < z) (closer : |x - y| ≤ |x - z|) : 2 * x ≤ y + z := by
  rcases abs_cases (x - z) with ⟨first, _⟩ | ⟨first, _⟩ <;>
    rcases abs_cases (x - y) with ⟨second, _⟩ | ⟨second, _⟩ <;> linarith

theorem nearestNonneg (nonneg : 0 ≤ x) : 0 ≤ nearest p x := by
  by_contra negative
  have least := nearestLeast nonneg (representableZero p)
  have low := closerBelow (not_le.mp negative) least
  have other := not_le.mp negative
  linarith

theorem nearestHeld (nonneg : 0 ≤ x) : Representable p (nearest p x) := by
  rw [← abs_of_nonneg (nearestNonneg nonneg)]
  exact representableNearest p x

theorem nearestAbs (p : Precision) (x : ℚ) : |nearest p x| = nearest p |x| := by
  rcases abs_cases x with ⟨same, nonneg⟩ | ⟨opposite, negative⟩
  · rw [same, abs_of_nonneg (nearestNonneg nonneg)]
  · rw [opposite, ← abs_neg, ← nearestNeg]
    exact abs_of_nonneg (nearestNonneg (neg_nonneg.mpr negative.le))

theorem nearestMono (nonneg : 0 ≤ x) (order : x ≤ y) : nearest p x ≤ nearest p y := by
  by_contra crossed
  have below := not_le.mp crossed
  have high := closerAbove below (nearestLeast nonneg (nearestHeld (nonneg.trans order)))
  have low := closerBelow below (nearestLeast (nonneg.trans order) (nearestHeld nonneg))
  have same : x = y := by linarith
  exact crossed (same ▸ le_rfl)

theorem leadingNonneg (large : 1 ≤ x) : 0 ≤ leadingPlace x := by
  have reach : (10 : ℚ) ^ (0 : ℤ) < 10 ^ (leadingPlace x + 1) := by
    rw [zpow_zero]
    exact large.trans_lt ((le_abs_self x).trans_lt (ltLeading x))
  have order := placeOfTenLt reach
  omega

theorem lastPlaceLarge (large : 1 ≤ x) : lastPlace p x = leadingPlace x - p.digits + 1 := by
  have first := leadingNonneg large
  unfold lastPlace tiny smallestExponent
  omega

theorem nearestTens (n : ℕ) (large : 1 ≤ x) :
    nearest p (x * 10 ^ (n : ℤ)) = nearest p x * 10 ^ (n : ℤ) := by
  have leading : leadingPlace (x * 10 ^ (n : ℤ)) = leadingPlace x + n := by
    apply leadingIs
    · rw [tenAdd, abs_mul, abs_of_pos (tenPos _)]
      exact mul_le_mul_of_nonneg_right (leadingLe (one_pos.trans_le large).ne') (tenPos _).le
    · rw [add_right_comm, tenAdd, abs_mul, abs_of_pos (tenPos _)]
      exact mul_lt_mul_of_pos_right (ltLeading x) (tenPos _)
  have tens : (1 : ℚ) ≤ 10 ^ (n : ℤ) := one_le_zpow₀ (by norm_num) (Int.natCast_nonneg n)
  have place : lastPlace p (x * 10 ^ (n : ℤ)) = lastPlace p x + n := by
    rw [lastPlaceLarge (one_le_mul_of_one_le_of_one_le large tens), lastPlaceLarge large, leading]
    ring
  unfold nearest
  rw [place, tenAdd, mul_div_mul_right _ _ (tenPos _).ne', mul_assoc]

def ceiling : ℚ := 10 ^ (largestExponent + 1)

theorem inRangeCases (s : Bool) (c : ℕ) (e : ℤ) :
    (ceiling ≤ c * 10 ^ e ∧ inRange s c e = .error .overflow) ∨
      ((c : ℚ) * 10 ^ e < ceiling ∧ inRange s c e = .ok (.finite s c e)) := by
  unfold inRange
  split
  · rename_i out
    refine .inl ⟨?_, rfl⟩
    calc ceiling
      _ ≤ 10 ^ ((digitCount c : ℤ) - 1 + e) := tenMono (by omega)
      _ = 10 ^ ((digitCount c : ℤ) - 1) * 10 ^ e := tenAdd ..
      _ ≤ c * 10 ^ e := mul_le_mul_of_nonneg_right (coefficientAbove out.1) (tenPos e).le
  · rename_i within
    refine .inr ⟨?_, rfl⟩
    by_cases vanishes : c = 0
    · rw [vanishes, Nat.cast_zero, zero_mul]
      exact tenPos _
    · calc (c : ℚ) * 10 ^ e
        _ < 10 ^ (digitCount c : ℤ) * 10 ^ e := mul_lt_mul_of_pos_right (coefficientBelow c) (tenPos e)
        _ = 10 ^ (digitCount c + e) := (tenAdd ..).symm
        _ ≤ ceiling := tenMono (by omega)

theorem unsignedNonneg (c : ℕ) (e : ℤ) : 0 ≤ (c : ℚ) * 10 ^ e :=
  mul_nonneg (Nat.cast_nonneg' c) (tenPos e).le

theorem leadingCoefficient {c : ℕ} (nonzero : c ≠ 0) (e : ℤ) :
    leadingPlace (c * 10 ^ e) = digitCount c - 1 + e := by
  have size : |(c : ℚ) * 10 ^ e| = c * 10 ^ e := abs_of_nonneg (unsignedNonneg c e)
  apply leadingIs
  · rw [size, tenAdd]
    exact mul_le_mul_of_nonneg_right (coefficientAbove nonzero) (tenPos e).le
  · rw [size, show (digitCount c : ℤ) - 1 + e + 1 = digitCount c + e by ring, tenAdd]
    exact mul_lt_mul_of_pos_right (coefficientBelow c) (tenPos e)

theorem lastKeptPlace {c : ℕ} (nonzero : c ≠ 0) (e : ℤ) :
    lastKept p c e = max e (lastPlace p (c * 10 ^ e)) := by
  rw [lastPlace, leadingCoefficient nonzero]
  unfold lastKept
  omega

theorem keptNearest {c : ℕ} (nonzero : c ≠ 0) (e : ℤ) :
    (halfEven c (tenTo (lastKept p c e - e).toNat) : ℚ) * 10 ^ lastKept p c e = nearest p (c * 10 ^ e) := by
  rw [lastKeptPlace nonzero]
  rcases le_total (lastPlace p (c * 10 ^ e)) e with fine | coarse
  · have same : nearest p (c * 10 ^ e) = c * 10 ^ e := nearestOfMultiple (n := c) rfl fine
    rw [max_eq_left fine, sub_self, same]
    exact congrArg (fun n : ℕ => (n : ℚ) * 10 ^ e) (halfEvenOne c)
  · have cut : (c : ℚ) * 10 ^ e / 10 ^ lastPlace p (c * 10 ^ e) =
        c / tenTo (lastPlace p (c * 10 ^ e) - e).toNat := by
      rw [tenToToNat (by omega), div_eq_div_iff (tenPos _).ne' (tenPos _).ne', mul_assoc, ← tenAdd,
        add_sub_cancel]
    rw [max_eq_right coarse]
    unfold nearest
    rw [cut, nearestWholeEq (halfEvenNearest c (tenToPos _))]
    rfl

theorem keptFew (c : ℕ) (e : ℤ) : halfEven c (tenTo (lastKept p c e - e).toNat) ≤ tenTo p.digits := by
  apply halfEvenAtMost
  have digits : digitCount c ≤ p.digits + (lastKept p c e - e).toNat := by
    unfold lastKept
    omega
  have few := (ltTenToDigitCount c).trans_le (tenToLe digits)
  have unit := tenToPos (lastKept p c e - e).toNat
  rw [tenToAdd] at few
  omega

theorem carriedTens {k : ℕ} (few : k ≤ tenTo p.digits) (carry : p.digits < digitCount k) (e : ℤ) :
    ((k / 10 : ℕ) : ℚ) * 10 ^ (e + 1) = k * 10 ^ e := by
  have full : k = tenTo p.digits := by
    apply le_antisymm few
    by_contra fewer
    have short := (digitCountLe p.pos).mpr (not_le.mp fewer)
    omega
  have tens : k / 10 * 10 = k := by
    apply Nat.div_mul_cancel
    rw [full, ← Nat.sub_add_cancel p.pos]
    exact ⟨tenTo (p.digits - 1), Nat.mul_comm ..⟩
  rw [Int.add_comm, tenAdd, zpow_one, ← mul_assoc]
  exact congrArg (fun n : ℕ => (n : ℚ) * 10 ^ e) tens ▸ by push_cast; rfl

theorem roundCases (p : Precision) (s : Bool) (c : ℕ) (e : ℤ) :
    (ceiling ≤ nearest p (c * 10 ^ e) ∧ round p s c e = .error .overflow) ∨
      (nearest p (c * 10 ^ e) < ceiling ∧
        ∃ k q, round p s c e = .ok (.finite s k q) ∧ (k : ℚ) * 10 ^ q = nearest p (c * 10 ^ e)) := by
  by_cases vanishes : c = 0
  · right
    rw [vanishes, Nat.cast_zero, zero_mul, nearestZero, roundZero]
    exact ⟨tenPos _, 0, _, rfl, by simp⟩
  have kept := keptNearest (p := p) vanishes e
  have few := keptFew (p := p) c e
  simp only [round, if_neg vanishes]
  split
  · rename_i carry
    rw [← kept, ← carriedTens few carry]
    exact (inRangeCases s _ _).imp_right fun within => ⟨within.1, _, _, within.2, rfl⟩
  · rw [← kept]
    exact (inRangeCases s _ _).imp_right fun within => ⟨within.1, _, _, within.2, rfl⟩

theorem Rounding.cases {outcome : Except Signal Decimal} (rounding : Rounding p x outcome) :
    (ceiling ≤ |nearest p x| ∧ outcome = .error .overflow) ∨
      (|nearest p x| < ceiling ∧ ∃ d, outcome = .ok d ∧ d.isFinite = true ∧ d.rational = nearest p x) := by
  obtain ⟨s, c, e, rfl, rfl⟩ := rounding
  have nonneg : 0 ≤ nearest p (c * 10 ^ e) := nearestNonneg (unsignedNonneg c e)
  have signed : nearest p (scaled s c e) = if s then -nearest p (c * 10 ^ e) else nearest p (c * 10 ^ e) := by
    unfold scaled
    cases s
    · rfl
    · exact (congrArg (nearest p) (neg_mul ..)).trans (nearestNeg ..)
  have size : |nearest p (scaled s c e)| = nearest p (c * 10 ^ e) := by
    rw [signed]
    cases s
    · exact abs_of_nonneg nonneg
    · exact (abs_neg _).trans (abs_of_nonneg nonneg)
  rw [size]
  refine (roundCases p s c e).imp_right ?_
  rintro ⟨below, k, q, found, value⟩
  refine ⟨below, _, found, rfl, ?_⟩
  rw [signed, rational, scaled, ← value]
  cases s
  · rfl
  · exact neg_mul ..

theorem Rounding.ok {d : Decimal} (rounding : Rounding p x (.ok d)) :
    d.isFinite = true ∧ d.rational = nearest p x ∧ |d.rational| < ceiling := by
  obtain ⟨_, overflow⟩ | ⟨small, d, same, finite, value⟩ := rounding.cases
  · cases overflow
  · cases same
    exact ⟨finite, value, value ▸ small⟩

theorem Rounding.okOfSmall {outcome : Except Signal Decimal} (rounding : Rounding p x outcome)
    (small : |nearest p x| < ceiling) :
    ∃ d, outcome = .ok d ∧ d.isFinite = true ∧ d.rational = nearest p x := by
  obtain ⟨large, _⟩ | ⟨_, found⟩ := rounding.cases
  · exact absurd small (not_lt.mpr large)
  · exact found

theorem Rounding.overflowIff {outcome : Except Signal Decimal} (rounding : Rounding p x outcome) :
    outcome = .error .overflow ↔ ceiling ≤ |nearest p x| := by
  obtain ⟨large, rfl⟩ | ⟨small, d, rfl, _⟩ := rounding.cases
  · simp [large]
  · simp [small]

end Reckon.Decimal

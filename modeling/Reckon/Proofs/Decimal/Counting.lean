import Reckon.Proofs.Decimal.Common
import Reckon.Proofs.Decimal.Nearest
/-! Counting in decimals. A whole number that the precision can hold is kept digit by digit, with the exponent
zero; one that is larger is rounded to something that is no smaller than the first of these. -/
namespace Reckon.Decimal
open Text
variable {p : Precision} {m n : ℕ} {a b d : Decimal} {x : ℚ}

inductive Counts (p : Precision) (n : ℕ) : Decimal → Prop where
  | exact (few : n < tenTo p.digits) : Counts p n (.ofNat n)
  | beyond {d : Decimal} (many : tenTo p.digits ≤ n) (finite : d.isFinite = true)
      (above : (tenTo p.digits : ℚ) ≤ d.rational) : Counts p n d

theorem Counts.isFinite (counts : Counts p n d) : d.isFinite = true := by
  cases counts with
  | exact few => rfl
  | beyond many finite above => exact finite

theorem Counts.atLeast (counts : Counts p n d) : ((min n (tenTo p.digits) : ℕ) : ℚ) ≤ d.rational := by
  cases counts with
  | exact few => rw [rationalOfNat, min_eq_left few.le]
  | beyond many finite above => rwa [min_eq_right many]

theorem Counts.ofFew (counts : Counts p n d) (few : n < tenTo p.digits) : d = .ofNat n := by
  cases counts with
  | exact => rfl
  | beyond many finite above => exact absurd few (not_lt.mpr many)

theorem Counts.ofSmall (counts : Counts p n d) (small : d.rational < tenTo p.digits) : d = .ofNat n := by
  cases counts with
  | exact few => rfl
  | beyond many finite above => exact absurd small (not_lt.mpr above)

theorem roundCount (room : p.digits ≤ 1000000) (few : n < tenTo p.digits) :
    round p false n 0 = .ok (.ofNat n) := by
  have below := tinyNegative p
  by_cases vanishes : n = 0
  · have place : min (max 0 (tiny p)) largestExponent = 0 := by
      rw [max_eq_left below.le]
      rfl
    rw [vanishes, roundZero, place]
    rfl
  · have short := (digitCountLe p.pos).mpr few
    have last : lastKept p n 0 = 0 := by
      unfold lastKept
      omega
    have within : ¬ (n ≠ 0 ∧ largestExponent < 0 + (digitCount n : ℤ) - 1) := by
      simp only [largestExponent]
      omega
    have kept : halfEven n (tenTo ((0 : ℤ) - 0).toNat) = n := halfEvenOne n
    simp only [round, if_neg vanishes, last, kept, if_neg (not_lt.mpr short), inRange, if_neg within]
    rfl

theorem Rounding.countsBeyond (rounding : Rounding p x (.ok d)) (large : (tenTo p.digits : ℚ) ≤ x) :
    d.isFinite = true ∧ (tenTo p.digits : ℚ) ≤ d.rational := by
  obtain ⟨finite, value, _⟩ := rounding.ok
  have unit : Representable p (tenTo p.digits : ℚ) := by
    simpa using representableUnits (k := tenTo p.digits) (q := 0) le_rfl (tinyNegative p).le
  have same : nearest p (tenTo p.digits : ℚ) = tenTo p.digits :=
    nearestRepresentable (by rwa [abs_of_nonneg (Nat.cast_nonneg' _)])
  refine ⟨finite, ?_⟩
  rw [value, ← same]
  exact nearestMono (Nat.cast_nonneg' _) large

theorem addOfNat (p : Precision) (m n : ℕ) : add p (.ofNat m) (.ofNat n) = round p false (m + n) 0 := by
  have units : units false m 0 0 + units false n 0 0 = ((m + n : ℕ) : ℤ) := by
    simp [units, tenTo]
  have sign : (if ((m + n : ℕ) : ℤ) = 0 then false && false else decide (((m + n : ℕ) : ℤ) < 0)) = false := by
    split
    · rfl
    · exact decide_eq_false (by omega)
  simp only [ofNat, add, min_self, units, sign, Int.natAbs_natCast]

theorem addCounts (room : p.digits ≤ 1000000) (left : Counts p m a) (right : Counts p n b)
    (added : add p a b = .ok d) : Counts p (m + n) d := by
  by_cases few : m + n < tenTo p.digits
  · obtain ⟨_⟩ | ⟨many, _, _⟩ := left
    · obtain ⟨_⟩ | ⟨many, _, _⟩ := right
      · rw [addOfNat, roundCount room few] at added
        cases added
        exact .exact few
      · exact absurd few (by omega)
    · exact absurd few (by omega)
  · have rounding := addRounding (p := p) left.isFinite right.isFinite
    rw [added] at rounding
    have least : tenTo p.digits ≤ min m (tenTo p.digits) + min n (tenTo p.digits) := by omega
    have large : (tenTo p.digits : ℚ) ≤ a.rational + b.rational := by
      calc (tenTo p.digits : ℚ)
        _ ≤ (min m (tenTo p.digits) : ℕ) + (min n (tenTo p.digits) : ℕ) := by exact_mod_cast least
        _ ≤ a.rational + b.rational := add_le_add left.atLeast right.atLeast
    obtain ⟨finite, above⟩ := rounding.countsBeyond large
    exact .beyond (not_lt.mp few) finite above

theorem mulCounts (room : p.digits ≤ 1000000) (multiplied : mul p (.ofNat m) (.ofNat n) = .ok d) :
    Counts p (m * n) d := by
  by_cases few : m * n < tenTo p.digits
  · have rounded : round p false (m * n) 0 = .ok d := multiplied
    rw [roundCount room few] at rounded
    cases rounded
    exact .exact few
  · have rounding := mulRounding (p := p) (a := .ofNat m) (b := .ofNat n) rfl rfl
    rw [multiplied, rationalOfNat, rationalOfNat] at rounding
    have many := not_lt.mp few
    obtain ⟨finite, above⟩ := rounding.countsBeyond (by exact_mod_cast many)
    exact .beyond many finite above

theorem textOfNat (n : ℕ) : (ofNat n).text = natText n := by
  have long : 0 < (writeDigits n).length := Nat.length_toDigits_pos
  have plain : (0 : ℤ) ≤ 0 ∧ -6 < ((writeDigits n).length : ℤ) := by omega
  have digits : finiteText n 0 = writeDigits n := by
    simp only [finiteText, zero_add, if_pos plain, sub_self, pointAtEnd (writtenPresent n)]
    exact List.append_nil _
  simp only [ofNat, text, digits]
  rfl

end Reckon.Decimal

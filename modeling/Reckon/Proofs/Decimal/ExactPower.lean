import Reckon.Proofs.Decimal.Power
/-! Powers that come out exact. If the precision can hold a power, it can hold all the lower ones, so that
no product on the way is rounded; and the exponent is small enough to be counted down exactly. -/
namespace Reckon.Decimal
variable {p : Precision} {x : ℚ} {a n : ℕ} {j : ℤ}

theorem notTensPow (last : ¬ 10 ∣ a) : ¬ 10 ∣ a ^ n := by
  intro tens
  apply last
  have two : 2 ∣ a := Nat.prime_two.dvd_of_dvd_pow ((by decide : 2 ∣ 10).trans tens)
  have five : 5 ∣ a := Nat.prime_five.dvd_of_dvd_pow ((by decide : 5 ∣ 10).trans tens)
  exact Nat.Coprime.mul_dvd_of_dvd_of_dvd (by decide) two five

theorem absPow (size : |x| = a * 10 ^ j) (n : ℕ) : |x ^ n| = (a ^ n : ℕ) * 10 ^ (j * n) := by
  rw [abs_pow, size, mul_pow, Nat.cast_pow, zpow_mul, zpow_natCast]

theorem powerHeld {i : ℕ} (size : |x| = a * 10 ^ j) (last : ¬ 10 ∣ a) (held : Representable p |x ^ n|)
    (order : i ≤ n) : Representable p |x ^ i| := by
  obtain ⟨k, q, value, few, above⟩ := held
  rw [absPow size] at value ⊢
  obtain ⟨place, short⟩ := shortestCoefficient (notTensPow last) value
  have positive : 0 < a := Nat.pos_of_ne_zero fun vanishes => last (vanishes ▸ dvd_zero 10)
  refine ⟨a ^ i, j * i, rfl, ?_, ?_⟩
  · exact ((Nat.pow_le_pow_right positive order).trans short).trans_lt few
  · have lowest : tiny p ≤ j * n := above.trans place
    have below := (tinyNegative p).le
    rcases le_total 0 j with up | down
    · exact below.trans (mul_nonneg up (Int.natCast_nonneg i))
    · exact lowest.trans (mul_le_mul_of_nonpos_left (by exact_mod_cast order) down)

theorem powerBelow {i : ℕ} (within : |x ^ n| < ceiling) (order : i ≤ n) : |x ^ i| < ceiling := by
  rw [abs_pow] at within ⊢
  rcases le_total |x| 1 with small | large
  · exact (pow_le_one₀ (abs_nonneg x) small).trans_lt oneLtCeiling
  · exact (pow_le_pow_right₀ large order).trans_lt within

theorem exponentFew (size : |x| = a * 10 ^ j) (last : ¬ 10 ∣ a) (apart : |x| ≠ 1)
    (held : Representable p |x ^ n|) (within : |x ^ n| < ceiling) : n < 4 * p.digits + 1000000 := by
  obtain ⟨k, q, value, few, above⟩ := held
  rw [absPow size] at value within
  obtain ⟨place, short⟩ := shortestCoefficient (notTensPow last) value
  have lowest : tiny p ≤ j * n := above.trans place
  have nonzero : a ≠ 0 := fun vanishes => last (vanishes ▸ dvd_zero 10)
  by_cases unit : a = 1
  · subst unit
    rw [one_pow, Nat.cast_one, one_mul] at within
    rw [Nat.cast_one, one_mul] at size
    have highest := placeOfTenLt within
    have up : j ≠ 0 := by
      rintro rfl
      exact apart (size.trans (zpow_zero 10))
    unfold tiny smallestExponent at lowest
    unfold largestExponent at highest
    rcases lt_or_gt_of_ne up with below | beyond
    · have steps : j * n ≤ -1 * n := mul_le_mul_of_nonneg_right (by omega) (Int.natCast_nonneg n)
      omega
    · have steps : 1 * (n : ℤ) ≤ j * n := mul_le_mul_of_nonneg_right (by omega) (Int.natCast_nonneg n)
      omega
  · have binary : 2 ^ n < 2 ^ (4 * p.digits) := by
      calc 2 ^ n
        _ ≤ a ^ n := Nat.pow_le_pow_left (by omega) n
        _ < tenTo p.digits := short.trans_lt few
        _ ≤ (2 ^ 4) ^ p.digits := Nat.pow_le_pow_left (by decide) p.digits
        _ = 2 ^ (4 * p.digits) := (pow_mul 2 4 p.digits).symm
    have fewer := (Nat.pow_lt_pow_iff_right (by decide)).mp binary
    omega

theorem exponentBelow (admitted : (p.digits : ℤ) ≤ Precision.limit) (few : n < 4 * p.digits + 1000000) :
    (n : ℚ) < ceiling := by
  have small : n < tenTo 20 := by
    have size : tenTo 20 = 100000000000000000000 := by rfl
    unfold Precision.limit at admitted
    omega
  have cast : (n : ℚ) < tenTo 20 := by exact_mod_cast small
  rw [tenToCast] at cast
  exact cast.trans_le (tenMono (by decide))

theorem multiplyDownExact {base result remaining : Decimal} {m rounds : ℕ} {r : ℚ}
    (baseFinite : base.isFinite = true) (resultFinite : result.isFinite = true)
    (remainingFinite : remaining.isFinite = true) (count : remaining.rational = m)
    (few : m ≤ tenTo p.digits) (below : (m : ℚ) < ceiling) (enough : m < rounds)
    (value : result.rational = r) (held : ∀ i ≤ m, Representable p |r * base.rational ^ i|)
    (within : ∀ i ≤ m, |r * base.rational ^ i| < ceiling) :
    ∃ d, multiplyDown p base rounds result remaining = .ok d ∧ d.isFinite = true ∧
      d.rational = r * base.rational ^ m := by
  induction m generalizing r rounds result remaining with
  | zero =>
    obtain ⟨left, rfl⟩ := Nat.exists_eq_succ_of_ne_zero enough.ne'
    have spent : remaining.rational ≤ 0 := (count.trans Nat.cast_zero).le
    refine ⟨result, (multiplyCases baseFinite resultFinite remainingFinite).finished spent left,
      resultFinite, ?_⟩
    rw [pow_zero, mul_one, value]
  | succ m ih =>
    obtain ⟨left, rfl⟩ := Nat.exists_eq_succ_of_ne_zero (show rounds ≠ 0 by omega)
    have first := held 1 (by omega)
    have firstWithin := within 1 (by omega)
    rw [pow_one] at first firstWithin
    have product : nearest p (result.rational * base.rational) = r * base.rational := by
      rw [value]
      exact nearestRepresentable first
    have rest : nearest p (remaining.rational - 1) = m := by
      rw [count, Nat.cast_succ, add_sub_cancel_right, nearestCount (by omega)]
    have smaller : (m : ℚ) < ceiling := (Nat.cast_le.mpr (Nat.le_succ m)).trans_lt below
    obtain ⟨next, less, nextFinite, nextValue, lessFinite, lessValue, goesOn⟩ :=
      (multiplyCases (p := p) baseFinite resultFinite remainingFinite).goesOn
        (by rw [count]; exact Nat.cast_pos.mpr (Nat.succ_pos m)) (by rwa [product])
        (by rwa [rest, Nat.abs_cast])
    have shift : ∀ i, r * base.rational * base.rational ^ i = r * base.rational ^ (i + 1) := fun i => by
      ring
    have enoughLeft : m < left := by omega
    obtain ⟨d, found, finite, power⟩ := ih nextFinite lessFinite (lessValue.trans rest) (by omega) smaller
      enoughLeft (nextValue.trans product)
      (fun i few => shift i ▸ held (i + 1) (by omega)) (fun i few => shift i ▸ within (i + 1) (by omega))
    exact ⟨d, (goesOn left).trans found, finite, power.trans (shift m)⟩

variable {limit : Option Int} {base exponent : Decimal}

theorem exactOfHeld {outcome : Except Signal Decimal} (rounding : Rounding p x outcome)
    (held : Representable p |x|) (within : |x| < ceiling) :
    ∃ d, outcome = .ok d ∧ d.isFinite = true ∧ d.rational = x := by
  have same := nearestRepresentable held
  obtain ⟨d, found, finite, value⟩ := rounding.okOfSmall (by rwa [same])
  exact ⟨d, found, finite, value.trans same⟩

theorem minusOneParity (n : ℕ) :
    (if (n : ℤ) % 2 = 0 then one else minusOne).rational = (-1 : ℚ) ^ n := by
  rcases Nat.even_or_odd n with even | odd
  · rw [if_pos (by obtain ⟨k, rfl⟩ := even; omega), even.neg_one_pow, rationalOne]
  · rw [if_neg (by obtain ⟨k, rfl⟩ := odd; omega), odd.neg_one_pow, rationalMinusOne]

theorem enoughExact (admitted : (p.digits : ℤ) ≤ Precision.limit) (baseFinite : base.isFinite = true)
    (exponentFinite : exponent.isFinite = true) (count : exponent.rational = n)
    (whole : exponent.toInt? = some (n : ℤ))
    (proper : base.rational ≠ 0 ∧ base.rational ≠ 1 ∧ base.rational ≠ -1) (few : n ≤ tenTo p.digits)
    (held : Representable p |base.rational ^ n|) (within : |base.rational ^ n| < ceiling) :
    ∃ d, multiplyDown p base (enoughRounds p exponent) one exponent = .ok d ∧ d.isFinite = true ∧
      d.rational = base.rational ^ n := by
  obtain ⟨notZero, notOne, notMinusOne⟩ := proper
  obtain ⟨a, j, size, last⟩ := shortestForm baseFinite notZero
  have apart : |base.rational| ≠ 1 := fun single => by
    rcases eq_or_eq_neg_of_abs_eq single with isOne | minusOne
    · exact notOne isOne
    · exact notMinusOne minusOne
  have below := exponentBelow admitted (exponentFew size last apart held within)
  have enough : n < enoughRounds p exponent := by
    have room := roundsRoom p
    have rounds := enoughRoundsEnough (p := p) whole
    omega
  -- No product on the way is rounded, as the lower powers are held where the last one is.
  obtain ⟨d, found, finite, value⟩ := multiplyDownExact (p := p) (r := 1) baseFinite oneFinite
    exponentFinite count few below enough rationalOne
    (fun i order => by rw [one_mul]; exact powerHeld size last held order)
    (fun i order => by rw [one_mul]; exact powerBelow within order)
  exact ⟨d, found, finite, by rw [value, one_mul]⟩

theorem powerExact (admitted : (p.digits : ℤ) ≤ Precision.limit) (baseFinite : base.isFinite = true)
    (exponentFinite : exponent.isFinite = true) (count : exponent.rational = n)
    (few : base.rational = 0 ∨ base.rational = 1 ∨ base.rational = -1 ∨
      n ≤ tenTo p.digits ∧ ∀ most ∈ limit, (n : ℤ) ≤ most)
    (held : Representable p |base.rational ^ n|) (within : |base.rational ^ n| < ceiling) :
    ∃ d, power p limit base exponent = .ok d ∧ d.isFinite = true ∧ d.rational = base.rational ^ n := by
  have unique : ∀ m : ℕ, exponent.rational = m → m = n := fun m same => by
    exact_mod_cast same.symm.trans count
  have multiplied (proper : base.rational ≠ 0 ∧ base.rational ≠ 1 ∧ base.rational ≠ -1) :
      n ≤ tenTo p.digits ∧ ∀ most ∈ limit, (n : ℤ) ≤ most :=
    ((few.resolve_left proper.1).resolve_left proper.2.1).resolve_left proper.2.2
  cases powerCase p limit baseFinite exponentFinite with
  | notCount noCount outcome => exact absurd ⟨n, count⟩ noCount
  | zero atZero outcome =>
    obtain rfl := unique 0 (atZero.trans Nat.cast_zero.symm)
    exact ⟨one, outcome, rfl, by rw [rationalOne, pow_zero]⟩
  | simple m same nonzero value outcome =>
    obtain rfl := unique m same
    have power : base.rational ^ m = base.rational := by
      rcases value with isZero | isOne
      · rw [isZero, zero_pow nonzero]
      · rw [isOne, one_pow]
    rw [power] at held within ⊢
    obtain ⟨d, kept, finite, value⟩ := exactOfHeld (plusRounding baseFinite) held within
    rw [kept] at outcome
    exact ⟨d, outcome, finite, value⟩
  | minusOne m same value outcome =>
    obtain rfl := unique m same
    refine ⟨_, outcome, ?_, ?_⟩
    · split <;> rfl
    · rw [value]
      exact minusOneParity m
  | above m most same limited more proper outcome =>
    obtain rfl := unique m same
    exact absurd ((multiplied proper).2 most limited) (not_le.mpr more)
  | loop m same whole nonzero proper allowed outcome =>
    obtain rfl := unique m same
    rw [outcome]
    exact enoughExact admitted baseFinite exponentFinite same whole proper (multiplied proper).1 held within

theorem tenPower (admitted : (p.digits : ℤ) ≤ Precision.limit) (few : n ≤ tenTo p.digits) (small : n < 1000000)
    (limits : ∀ most ∈ limit, (n : ℤ) ≤ most) :
    ∃ d, power p limit (ofNat 10) (ofNat n) = .ok d ∧ d.isFinite = true ∧ d.rational = (tenTo n : ℕ) := by
  have ten : (ofNat 10).rational = 10 := rationalOfNat 10
  have size : |(10 : ℚ) ^ n| = 10 ^ (n : ℤ) := by rw [abs_of_pos (by positivity), zpow_natCast]
  have held : Representable p |(10 : ℚ) ^ n| :=
    ⟨1, n, by rw [size, Nat.cast_one, one_mul], Nat.one_lt_pow p.pos.ne' (by norm_num),
      (tinyNegative p).le.trans (Int.natCast_nonneg n)⟩
  have within : |(10 : ℚ) ^ n| < ceiling := by
    rw [size]
    exact zpow_lt_zpow_right₀ (by norm_num) (by unfold largestExponent; omega)
  rw [← ten] at held within
  obtain ⟨d, found, finite, value⟩ := powerExact admitted rfl rfl (rationalOfNat n)
    (.inr (.inr (.inr ⟨few, limits⟩))) held within
  exact ⟨d, found, finite, by rw [value, ten, tenToCast, zpow_natCast]⟩

end Reckon.Decimal

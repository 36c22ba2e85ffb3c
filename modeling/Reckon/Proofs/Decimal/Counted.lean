import Reckon.Proofs.Decimal.Power
/-! Powers that are counted exactly. While the exponent and all that is left of it can be held, a power is one
multiplied by the base as often as the exponent says, and nothing but one of these products overflows. -/
namespace Reckon.Decimal
variable {p : Precision} {limit : Option Int} {base result remaining exponent : Decimal} {n : ℕ}

def multiplied (p : Precision) (base : Decimal) : ℕ → Decimal → Except Signal Decimal
  | 0, result => .ok result
  | n + 1, result => do
    let product ← mul p result base
    multiplied p base n product

theorem multipliedNext {product : Decimal} (first : mul p result base = .ok product) :
    multiplied p base (n + 1) result = multiplied p base n product := by
  simp only [multiplied, first, bind, Except.bind]

theorem multipliedStops {signal : Signal} (first : mul p result base = .error signal) :
    multiplied p base (n + 1) result = .error signal := by
  simp only [multiplied, first, bind, Except.bind]

theorem multipliedCases (baseFinite : base.isFinite = true) (resultFinite : result.isFinite = true) (n : ℕ) :
    (∃ d, multiplied p base n result = .ok d ∧
        ¬ ∃ i < n, ∃ e, multiplied p base i result = .ok e ∧ mul p e base = .error .overflow) ∨
      multiplied p base n result = .error .overflow ∧
        ∃ i < n, ∃ e, multiplied p base i result = .ok e ∧ mul p e base = .error .overflow := by
  induction n generalizing result with
  | zero => exact .inl ⟨result, rfl, by simp⟩
  | succ n ih =>
    obtain ⟨_, overflow⟩ | ⟨_, product, first, productFinite, _⟩ :=
      (mulRounding (p := p) resultFinite baseFinite).cases
    · exact .inr ⟨multipliedStops overflow, 0, Nat.succ_pos n, result, rfl, overflow⟩
    · rw [multipliedNext first]
      obtain ⟨d, found, small⟩ | ⟨overflow, i, few, e, reached, large⟩ := ih productFinite
      · refine .inl ⟨d, found, ?_⟩
        rintro ⟨i, few, e, reached, large⟩
        cases i with
        | zero =>
          cases reached
          cases first.symm.trans large
        | succ i =>
          rw [multipliedNext first] at reached
          exact small ⟨i, by omega, e, reached, large⟩
      · exact .inr ⟨overflow, i + 1, by omega, e, by rw [multipliedNext first, reached], large⟩

theorem multiplyDownNext {rest : Decimal} (remainingFinite : remaining.isFinite = true)
    (left : 0 < remaining.rational) (taken : sub p remaining one = .ok rest) (rounds : ℕ) :
    multiplyDown p base (rounds + 1) result remaining =
      orFault (mul p result base) >>= fun product => multiplyDown p base rounds product rest := by
  have question := lessRational (a := zero) rfl remainingFinite
  rw [rationalZero, decide_eq_true left] at question
  simp only [multiplyDown, question, taken, orFault, bind, Except.bind]
  rfl

theorem multiplyDownBeyond (baseFinite : base.isFinite = true) (resultFinite : result.isFinite = true)
    (remainingFinite : remaining.isFinite = true) (left : 0 < remaining.rational)
    (large : ceiling ≤ |nearest p (remaining.rational - 1)|) (rounds : ℕ) :
    multiplyDown p base (rounds + 1) result remaining = .error (.signal .overflow) := by
  cases multiplyCases (p := p) baseFinite resultFinite remainingFinite with
  | done spent => exact absurd left (not_lt.mpr spent)
  | overflow _ _ ends => exact ends rounds
  | next _ rest _ _ _ _ _ restValue restSmall =>
    rw [restValue] at restSmall
    exact absurd restSmall (not_lt.mpr large)

theorem multiplyDownMultiplied {rounds : ℕ} (baseFinite : base.isFinite = true)
    (resultFinite : result.isFinite = true) (remainingFinite : remaining.isFinite = true)
    (count : remaining.rational = n) (few : n ≤ tenTo p.digits) (within : (n : ℚ) ≤ ceiling)
    (enough : n < rounds) :
    multiplyDown p base rounds result remaining = orFault (multiplied p base n result) := by
  -- On the count, of which each round takes one; the rounds left need only stay above it.
  induction n generalizing result remaining rounds with
  | zero =>
    obtain ⟨rounds, rfl⟩ := Nat.exists_eq_succ_of_ne_zero enough.ne'
    have spent : remaining.rational ≤ 0 := (count.trans Nat.cast_zero).le
    exact (multiplyCases baseFinite resultFinite remainingFinite).finished spent rounds
  | succ n ih =>
    obtain ⟨rounds, rfl⟩ := Nat.exists_eq_succ_of_ne_zero (show rounds ≠ 0 by omega)
    have left : 0 < remaining.rational := by
      rw [count]
      exact Nat.cast_pos.mpr n.succ_pos
    have below : (n : ℚ) < ceiling := (Nat.cast_lt.mpr n.lt_succ_self).trans_le within
    have less : nearest p (remaining.rational - one.rational) = n := by
      rw [count, rationalOne, Nat.cast_succ, add_sub_cancel_right, nearestCount (by omega)]
    obtain ⟨rest, taken, restFinite, restValue⟩ :=
      (subRounding (p := p) (b := one) remainingFinite rfl).okOfSmall (by rwa [less, Nat.abs_cast])
    rw [multiplyDownNext remainingFinite left taken]
    obtain ⟨_, overflow⟩ | ⟨_, product, first, productFinite, _⟩ :=
      (mulRounding (p := p) resultFinite baseFinite).cases
    · rw [overflow, multipliedStops overflow]
      rfl
    · rw [first, multipliedNext first]
      exact ih productFinite restFinite (restValue.trans less) (by omega) below.le (by omega)

theorem multipliedSmall (baseFinite : base.isFinite = true) (fading : |base.rational| ≤ 1)
    (resultFinite : result.isFinite = true) (small : |result.rational| ≤ 1) (n : ℕ) :
    ∃ d, multiplied p base n result = .ok d := by
  induction n generalizing result with
  | zero => exact ⟨result, rfl⟩
  | succ n ih =>
    have size : |nearest p (result.rational * base.rational)| ≤ 1 := by
      have order : |result.rational * base.rational| ≤ 1 := by
        rw [abs_mul]
        exact mul_le_one₀ small (abs_nonneg _) fading
      have rounded := nearestMono (p := p) (abs_nonneg _) order
      have single : nearest p 1 = 1 := nearestRepresentable (by rw [abs_one]; exact representableOne p)
      rwa [single, ← nearestAbs] at rounded
    obtain ⟨product, first, productFinite, value⟩ :=
      (mulRounding (p := p) resultFinite baseFinite).okOfSmall (size.trans_lt oneLtCeiling)
    rw [multipliedNext first]
    exact ih productFinite (value ▸ size)

structure PowerMultiplies (p : Precision) (limit : Option Int) (base exponent : Decimal) (n : ℕ) : Prop where
  outcome : (∃ d, multiplied p base n one = .ok d ∧ power p limit base exponent = .ok d) ∨
    power p limit base exponent = .error (.signal .overflow)
  overflow : power p limit base exponent = .error (.signal .overflow) ↔
    ∃ i < n, ∃ d, multiplied p base i one = .ok d ∧ mul p d base = .error .overflow

theorem powerMultipliesOf (baseFinite : base.isFinite = true)
    (same : power p limit base exponent = orFault (multiplied p base n one)) :
    PowerMultiplies p limit base exponent n := by
  obtain ⟨d, found, small⟩ | ⟨overflow, large⟩ := multipliedCases (p := p) baseFinite oneFinite n
  · rw [found] at same
    exact ⟨.inl ⟨d, found, same⟩, iff_of_false (by simp [same, orFault]) small⟩
  · rw [overflow] at same
    exact ⟨.inr same, iff_of_true same large⟩

theorem powerCounted (baseFinite : base.isFinite = true) (exponentFinite : exponent.isFinite = true)
    (proper : base.rational ≠ 0 ∧ base.rational ≠ 1 ∧ base.rational ≠ -1) (count : exponent.rational = n)
    (few : n ≤ tenTo p.digits) (limits : ∀ most ∈ limit, (n : ℤ) ≤ most) :
    (n = 0 ∧ power p limit base exponent = .ok one) ∨ n ≠ 0 ∧ ∃ rounds > n,
      power p limit base exponent = multiplyDown p base rounds one exponent := by
  have unique : ∀ m : ℕ, exponent.rational = m → m = n := fun m same => by
    exact_mod_cast same.symm.trans count
  cases powerCase p limit baseFinite exponentFinite with
  | notCount noCount => exact absurd ⟨n, count⟩ noCount
  | zero atZero outcome => exact .inl ⟨(unique 0 (atZero.trans Nat.cast_zero.symm)).symm, outcome⟩
  | simple _ _ _ value => exact absurd value (not_or.mpr ⟨proper.1, proper.2.1⟩)
  | minusOne _ _ value => exact absurd value proper.2.2
  | above m most same limited more =>
    obtain rfl := unique m same
    exact absurd (limits most limited) (not_le.mpr more)
  | loop m same whole nonzero _ _ outcome =>
    obtain rfl := unique m same
    have rounds := enoughRoundsEnough (p := p) whole
    have room := roundsRoom p
    exact .inr ⟨nonzero, _, by omega, outcome⟩

theorem tenToRises (k : ℕ) : tenTo k < tenTo (k + 1) := by
  have pos := tenToPos k
  rw [tenToSucc]
  omega

theorem rationalTens (k : ℕ) : (finite false 1 k).rational = tenTo k := by
  rw [tenToCast]
  simp [rational, scaled]

theorem ceilingTens : ceiling = (tenTo 1000000 : ℕ) := (tenToCast 1000000).symm

theorem multiplyDownMany {rounds : ℕ} (baseFinite : base.isFinite = true)
    (resultFinite : result.isFinite = true) (remainingFinite : remaining.isFinite = true)
    (count : remaining.rational = n) (few : n ≤ tenTo p.digits) (many : tenTo 1000000 < n)
    (started : 0 < rounds) : multiplyDown p base rounds result remaining = .error (.signal .overflow) := by
  obtain ⟨m, rfl⟩ := Nat.exists_eq_succ_of_ne_zero (show n ≠ 0 by omega)
  obtain ⟨rounds, rfl⟩ := Nat.exists_eq_succ_of_ne_zero started.ne'
  have left : 0 < remaining.rational := by
    rw [count]
    exact Nat.cast_pos.mpr m.succ_pos
  have less : nearest p (remaining.rational - 1) = m := by
    rw [count, Nat.cast_succ, add_sub_cancel_right, nearestCount (by omega)]
  apply multiplyDownBeyond baseFinite resultFinite remainingFinite left
  rw [less, Nat.abs_cast, ceilingTens]
  exact Nat.cast_le.mpr (Nat.le_of_lt_succ many)

theorem powerBeyond (baseFinite : base.isFinite = true) (exponentFinite : exponent.isFinite = true)
    (proper : base.rational ≠ 0 ∧ base.rational ≠ 1 ∧ base.rational ≠ -1) (count : exponent.rational = n)
    (few : n ≤ tenTo p.digits) (limits : ∀ most ∈ limit, (n : ℤ) ≤ most) (many : tenTo 1000000 < n) :
    power p limit base exponent = .error (.signal .overflow) := by
  obtain ⟨vanishes, _⟩ | ⟨_, rounds, more, outcome⟩ :=
    powerCounted (p := p) baseFinite exponentFinite proper count few limits
  · exact absurd many (by omega)
  · rw [outcome]
    exact multiplyDownMany baseFinite oneFinite exponentFinite count few many (by omega)

/-- An exponent that is at most ten to the precision, and in range, says how often the base is multiplied; and
nothing overflows but one of the products. Above ten to the million, taking one from the exponent overflows,
whatever the products are. -/
theorem powerMultiplied (baseFinite : base.isFinite = true) (exponentFinite : exponent.isFinite = true)
    (proper : base.rational ≠ 0 ∧ base.rational ≠ 1 ∧ base.rational ≠ -1) (count : exponent.rational = n)
    (few : n ≤ tenTo p.digits) (limits : ∀ most ∈ limit, (n : ℤ) ≤ most) :
    (n ≤ tenTo 1000000 → PowerMultiplies p limit base exponent n) ∧
      (tenTo 1000000 < n → power p limit base exponent = .error (.signal .overflow)) := by
  refine ⟨fun within => powerMultipliesOf baseFinite ?_,
    powerBeyond baseFinite exponentFinite proper count few limits⟩
  obtain ⟨rfl, outcome⟩ | ⟨_, rounds, more, outcome⟩ :=
    powerCounted (p := p) baseFinite exponentFinite proper count few limits
  · exact outcome
  · rw [outcome]
    refine multiplyDownMultiplied baseFinite oneFinite exponentFinite count few ?_ more
    rw [ceilingTens]
    exact Nat.cast_le.mpr within

theorem powerMultipliedTenTimes :
    PowerMultiplies ⟨2, by decide⟩ (some 100000) (.finite false 15 (-1)) (.finite false 100 (-1)) 10 ∧
      power ⟨1000001, by decide⟩ none (.finite false 15 (-1)) (.finite false 1 1000001) =
        .error (.signal .overflow) := by
  have proper : (finite false 15 (-1)).rational ≠ 0 ∧ (finite false 15 (-1)).rational ≠ 1 ∧
      (finite false 15 (-1)).rational ≠ -1 := by norm_num [rational, scaled]
  have ten : (finite false 100 (-1)).rational = (10 : ℕ) := by norm_num [rational, scaled]
  have ranged : 10 ≤ tenTo 1000000 := tenToLe (show 1 ≤ 1000000 by decide)
  have noLimit : ∀ most ∈ (none : Option Int), (tenTo 1000001 : ℤ) ≤ most := fun most member =>
    absurd member (Option.not_mem_none most)
  refine ⟨(powerMultiplied rfl rfl proper ten ?_ ?_).1 ranged,
    (powerMultiplied (p := ⟨1000001, by decide⟩) rfl rfl proper (rationalTens 1000001) le_rfl noLimit).2
      (tenToRises 1000000)⟩
  · decide
  · simp

/- One half to ten to the 1000001, at as many digits: all the products sink to zero, the count overflows. -/

theorem powerCountOutOfRange :
    (finite false 5 (-1)).rational = 1 / 2 ∧ (finite false 1 1000001).rational = tenTo 1000001 ∧
      power ⟨1000001, by decide⟩ none (.finite false 5 (-1)) (.finite false 1 1000001) =
        .error (.signal .overflow) ∧
      (∀ i, ∃ d, multiplied ⟨1000001, by decide⟩ (.finite false 5 (-1)) i one = .ok d) ∧
      ¬ PowerMultiplies ⟨1000001, by decide⟩ none (.finite false 5 (-1)) (.finite false 1 1000001)
        (tenTo 1000001) := by
  have baseFinite : (finite false 5 (-1)).isFinite = true := rfl
  have half : (finite false 5 (-1)).rational = 1 / 2 := by norm_num [rational, scaled]
  have proper : (finite false 5 (-1)).rational ≠ 0 ∧ (finite false 5 (-1)).rational ≠ 1 ∧
      (finite false 5 (-1)).rational ≠ -1 := by norm_num [half]
  have noLimit : ∀ most ∈ (none : Option Int), (tenTo 1000001 : ℤ) ≤ most := fun most member =>
    absurd member (Option.not_mem_none most)
  have overflow : power ⟨1000001, by decide⟩ none (.finite false 5 (-1)) (.finite false 1 1000001) =
      .error (.signal .overflow) :=
    powerBeyond baseFinite rfl proper (rationalTens 1000001) le_rfl noLimit (tenToRises 1000000)
  have products : ∀ i, ∃ d, multiplied ⟨1000001, by decide⟩ (.finite false 5 (-1)) i one = .ok d :=
    multipliedSmall baseFinite (by rw [half]; norm_num [abs_of_pos]) rfl (by rw [rationalOne, abs_one])
  refine ⟨half, rationalTens 1000001, overflow, products, fun multiplies => ?_⟩
  obtain ⟨i, _, d, reached, large⟩ := multiplies.overflow.mp overflow
  obtain ⟨_, next⟩ := products (i + 1)
  obtain ⟨_, _, small⟩ | ⟨stops, _⟩ :=
    multipliedCases (p := ⟨1000001, by decide⟩) baseFinite oneFinite (i + 1)
  · exact small ⟨i, i.lt_succ_self, d, reached, large⟩
  · cases next.symm.trans stops

end Reckon.Decimal

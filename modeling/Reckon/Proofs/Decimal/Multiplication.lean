import Reckon.Proofs.Decimal.Countdown
/-! Powers by repeated multiplication, round by round. A count up to ten to the precision ends the rounds,
and so does a base that rounds to more than one in size, by an overflow. Without either they go on for ever. -/
namespace Reckon.Decimal
variable {p : Precision} {base result remaining : Decimal}

inductive MultiplyCase (p : Precision) (base result remaining : Decimal) : Prop where
  | done (spent : remaining.rational ≤ 0)
      (ends : ∀ n, multiplyDown p base (n + 1) result remaining = .ok result)
  | overflow (left : 0 < remaining.rational)
      (large : ceiling ≤ |nearest p (result.rational * base.rational)| ∨
        ceiling ≤ |nearest p (remaining.rational - 1)|)
      (ends : ∀ n, multiplyDown p base (n + 1) result remaining = .error (.signal .overflow))
  | next (product rest : Decimal) (left : 0 < remaining.rational) (productFinite : product.isFinite = true)
      (productValue : product.rational = nearest p (result.rational * base.rational))
      (productSmall : |product.rational| < ceiling) (restFinite : rest.isFinite = true)
      (restValue : rest.rational = nearest p (remaining.rational - 1))
      (restSmall : |rest.rational| < ceiling)
      (goesOn : ∀ n, multiplyDown p base (n + 1) result remaining = multiplyDown p base n product rest)

theorem multiplyCases (baseFinite : base.isFinite = true) (resultFinite : result.isFinite = true)
    (remainingFinite : remaining.isFinite = true) : MultiplyCase p base result remaining := by
  have question := lessRational (a := zero) rfl remainingFinite
  rw [rationalZero] at question
  by_cases left : 0 < remaining.rational
  · rw [decide_eq_true left] at question
    have product := mulRounding (p := p) resultFinite baseFinite
    have rest := subRounding (p := p) (b := one) remainingFinite rfl
    rw [rationalOne] at rest
    obtain ⟨large, overflow⟩ | ⟨productSmall, product, multiplied, productFinite, productValue⟩ :=
      product.cases
    · refine .overflow left (.inl large) fun n => ?_
      simp only [multiplyDown, question, overflow, orFault, bind, Except.bind]
      rfl
    obtain ⟨large, overflow⟩ | ⟨restSmall, rest, taken, restFinite, restValue⟩ := rest.cases
    · refine .overflow left (.inr large) fun n => ?_
      simp only [multiplyDown, question, multiplied, overflow, orFault, bind, Except.bind]
      rfl
    · rw [← productValue] at productSmall
      rw [← restValue] at restSmall
      refine .next product rest left productFinite productValue productSmall restFinite restValue
        restSmall fun n => ?_
      simp only [multiplyDown, question, multiplied, taken, orFault, bind, Except.bind]
      rfl
  · rw [decide_eq_false left] at question
    refine .done (not_lt.mp left) fun n => ?_
    simp only [multiplyDown, question, orFault, bind, Except.bind]
    rfl

theorem MultiplyCase.finished (round : MultiplyCase p base result remaining)
    (spent : remaining.rational ≤ 0) (n : ℕ) :
    multiplyDown p base (n + 1) result remaining = .ok result := by
  cases round with
  | done _ ends => exact ends n
  | overflow left => exact absurd spent (not_le.mpr left)
  | next _ _ left => exact absurd spent (not_le.mpr left)

theorem MultiplyCase.goesOn (round : MultiplyCase p base result remaining) (left : 0 < remaining.rational)
    (productSmall : |nearest p (result.rational * base.rational)| < ceiling)
    (restSmall : |nearest p (remaining.rational - 1)| < ceiling) :
    ∃ product rest, product.isFinite = true ∧
      product.rational = nearest p (result.rational * base.rational) ∧ rest.isFinite = true ∧
      rest.rational = nearest p (remaining.rational - 1) ∧
      ∀ n, multiplyDown p base (n + 1) result remaining = multiplyDown p base n product rest := by
  cases round with
  | done spent => exact absurd left (not_lt.mpr spent)
  | overflow _ large =>
    rcases large with large | large
    · exact absurd productSmall (not_lt.mpr large)
    · exact absurd restSmall (not_lt.mpr large)
  | next product rest _ productFinite productValue _ restFinite restValue _ goesOn =>
    exact ⟨product, rest, productFinite, productValue, restFinite, restValue, goesOn⟩

theorem countEnds {m rounds : ℕ} (baseFinite : base.isFinite = true) (resultFinite : result.isFinite = true)
    (remainingFinite : remaining.isFinite = true) (count : remaining.rational = m)
    (few : m ≤ tenTo p.digits) (enough : m < rounds) :
    multiplyDown p base rounds result remaining ≠ .error .endless := by
  induction rounds generalizing m result remaining with
  | zero => omega
  | succ rounds ih =>
    cases multiplyCases (p := p) baseFinite resultFinite remainingFinite with
    | done spent ends => simp [ends]
    | overflow left large ends => simp [ends]
    | next product rest left productFinite productValue productSmall restFinite restValue restSmall goesOn =>
      rw [count] at left restValue
      obtain ⟨k, rfl⟩ := Nat.exists_eq_succ_of_ne_zero (Nat.cast_pos.mp left).ne'
      rw [Nat.cast_succ, add_sub_cancel_right, nearestCount (by omega)] at restValue
      rw [goesOn]
      exact ih productFinite restFinite restValue (by omega) (by omega)

theorem factorNonneg (p : Precision) : (0 : ℚ) ≤ 1 + 1 / tenTo p.digits := by positivity

theorem growthEnds {rounds : ℕ} (baseFinite : base.isFinite = true) (resultFinite : result.isFinite = true)
    (remainingFinite : remaining.isFinite = true) (growing : 1 < nearest p |base.rational|)
    (held : Representable p |result.rational|) (large : 1 ≤ |result.rational|)
    (small : |result.rational| < ceiling)
    (enough : ceiling ≤ |result.rational| * (1 + 1 / tenTo p.digits) ^ rounds) :
    multiplyDown p base rounds result remaining ≠ .error .endless := by
  induction rounds generalizing result remaining with
  | zero =>
    rw [pow_zero, mul_one] at enough
    exact absurd enough (not_le.mpr small)
  | succ rounds ih =>
    cases multiplyCases (p := p) baseFinite resultFinite remainingFinite with
    | done spent ends => simp [ends]
    | overflow left large ends => simp [ends]
    | next product rest left productFinite productValue productSmall restFinite restValue restSmall goesOn =>
      have size : |product.rational| = nearest p (|result.rational| * |base.rational|) := by
        rw [productValue, nearestAbs, abs_mul]
      have grows := nearestGrows held large (abs_nonneg _) growing
      rw [← size] at grows
      have heldToo : Representable p |product.rational| := by
        rw [productValue]
        exact representableNearest p _
      have factor := growthFactor held heldToo (one_pos.trans_le large) grows
      rw [goesOn]
      refine ih productFinite restFinite heldToo (large.trans grows.le) productSmall ?_
      -- One round fewer is left, and the product has grown by the factor of one round.
      calc ceiling
        _ ≤ |result.rational| * (1 + 1 / tenTo p.digits) ^ (rounds + 1) := enough
        _ = |result.rational| * (1 + 1 / tenTo p.digits) * (1 + 1 / tenTo p.digits) ^ rounds := by ring
        _ ≤ |product.rational| * (1 + 1 / tenTo p.digits) ^ rounds :=
          mul_le_mul_of_nonneg_right factor (pow_nonneg (factorNonneg p) rounds)

/- Ten to the precision such steps double the number at least, and ten million times as many leave the
range. -/

theorem growthTens (p : Precision) (n : ℕ) :
    (10 : ℚ) ^ (n : ℤ) ≤ (1 + 1 / tenTo p.digits) ^ (tenTo p.digits * (10 * n)) := by
  have tens : (tenTo p.digits : ℚ) ≠ 0 := Nat.cast_ne_zero.mpr (tenToPos _).ne'
  have step : (0 : ℚ) ≤ 1 / tenTo p.digits := by positivity
  have doubled : (2 : ℚ) ≤ (1 + 1 / tenTo p.digits) ^ tenTo p.digits := by
    have linear := one_add_mul_le_pow (a := (1 / tenTo p.digits : ℚ)) (by linarith) (tenTo p.digits)
    rw [mul_one_div_cancel tens] at linear
    linarith
  calc (10 : ℚ) ^ (n : ℤ)
    _ ≤ (2 ^ 10) ^ n := by
      rw [zpow_natCast]
      exact pow_le_pow_left₀ (by norm_num) (by norm_num) n
    _ = 2 ^ (10 * n) := (pow_mul 2 10 n).symm
    _ ≤ ((1 + 1 / tenTo p.digits) ^ tenTo p.digits) ^ (10 * n) :=
      pow_le_pow_left₀ (by norm_num) doubled _
    _ = (1 + 1 / tenTo p.digits) ^ (tenTo p.digits * (10 * n)) := (pow_mul ..).symm

theorem growthEnough (p : Precision) : ceiling ≤ (1 + 1 / tenTo p.digits : ℚ) ^ tenTo (p.digits + 7) := by
  have exponent : largestExponent + 1 = (tenTo 6 : ℕ) := by decide
  have steps : tenTo (p.digits + 7) = tenTo p.digits * (10 * tenTo 6) := tenToAdd p.digits 7
  have enough := growthTens p (tenTo 6)
  rwa [← steps, ← exponent] at enough

theorem oneLtCeiling : 1 < ceiling := one_lt_zpow₀ (by norm_num) (by decide)

theorem standstillEndless (baseFinite : base.isFinite = true) (resultFinite : result.isFinite = true)
    (remainingFinite : remaining.isFinite = true) (fading : nearest p |base.rational| ≤ 1)
    (small : |result.rational| ≤ 1) (held : Representable p remaining.rational)
    (above : tenTo p.digits < remaining.rational) (within : remaining.rational < ceiling) (rounds : ℕ) :
    multiplyDown p base rounds result remaining = .error .endless := by
  induction rounds generalizing result remaining with
  | zero => rfl
  | succ rounds ih =>
    -- The invariant of the round: the product stays at most one, and the count stays as it is.
    have faded : |nearest p (result.rational * base.rational)| ≤ 1 := by
      rw [nearestAbs, abs_mul]
      have order : |result.rational| * |base.rational| ≤ |base.rational| :=
        mul_le_of_le_one_left (abs_nonneg _) small
      exact (nearestMono (mul_nonneg (abs_nonneg _) (abs_nonneg _)) order).trans fading
    have positive : 0 < remaining.rational := (Nat.cast_nonneg' _).trans_lt above
    have stays := nearestStays held above
    obtain ⟨product, rest, productFinite, productValue, restFinite, restValue, goesOn⟩ :=
      (multiplyCases (p := p) baseFinite resultFinite remainingFinite).goesOn positive
        (faded.trans_lt oneLtCeiling) (by rwa [stays, abs_of_pos positive])
    have same : rest.rational = remaining.rational := restValue.trans stays
    rw [goesOn]
    refine ih productFinite restFinite ?_ ?_ ?_ ?_
    · rwa [productValue]
    · rwa [same]
    · rwa [same]
    · rwa [same]

structure Stalls (p : Precision) (base exponent : Decimal) : Prop where
  count : ∃ rest, sub p exponent one = .ok rest ∧ tenTo p.digits < rest.rational
  fading : ∃ d, plus p base = .ok d ∧ |d.rational| ≤ 1

variable {exponent : Decimal}

theorem stallsIff (baseFinite : base.isFinite = true) (exponentFinite : exponent.isFinite = true) :
    Stalls p base exponent ↔ tenTo p.digits < nearest p (exponent.rational - 1) ∧
      nearest p (exponent.rational - 1) < ceiling ∧ nearest p |base.rational| ≤ 1 := by
  have rest := subRounding (p := p) (b := one) exponentFinite rfl
  have rounded := plusRounding (p := p) baseFinite
  rw [rationalOne] at rest
  constructor
  · rintro ⟨⟨left, taken, above⟩, ⟨d, kept, small⟩⟩
    rw [taken] at rest
    rw [kept] at rounded
    obtain ⟨_, value, within⟩ := rest.ok
    obtain ⟨_, valueToo, _⟩ := rounded.ok
    rw [← nearestAbs, ← valueToo, ← value]
    exact ⟨above, (le_abs_self _).trans_lt within, small⟩
  · rintro ⟨above, within, small⟩
    have positive : 0 < nearest p (exponent.rational - 1) := (Nat.cast_nonneg' _).trans_lt above
    rw [← nearestAbs] at small
    obtain ⟨left, taken, _, value⟩ := rest.okOfSmall (by rwa [abs_of_pos positive])
    obtain ⟨d, kept, _, valueToo⟩ := rounded.okOfSmall (small.trans_lt oneLtCeiling)
    exact ⟨⟨left, taken, by rwa [value]⟩, ⟨d, kept, by rwa [valueToo]⟩⟩

theorem Stalls.endless (baseFinite : base.isFinite = true) (exponentFinite : exponent.isFinite = true)
    (stalls : Stalls p base exponent) (rounds : ℕ) :
    multiplyDown p base rounds one exponent = .error .endless := by
  obtain ⟨above, within, fading⟩ := (stallsIff baseFinite exponentFinite).mp stalls
  have counted : 0 < nearest p (exponent.rational - 1) := (Nat.cast_nonneg' _).trans_lt above
  have positive : 0 < exponent.rational := by
    by_contra low
    have nonneg : 0 ≤ -(exponent.rational - 1) := by linarith
    have mirrored := nearestNonneg (p := p) nonneg
    rw [nearestNeg] at mirrored
    linarith
  have faded : |nearest p (one.rational * base.rational)| ≤ 1 := by
    rwa [rationalOne, one_mul, nearestAbs]
  cases rounds with
  | zero => rfl
  | succ rounds =>
    obtain ⟨product, rest, productFinite, productValue, restFinite, restValue, goesOn⟩ :=
      (multiplyCases (p := p) baseFinite oneFinite exponentFinite).goesOn positive
        (faded.trans_lt oneLtCeiling) (by rwa [abs_of_pos counted])
    have held := representableNearest p (exponent.rational - 1)
    rw [abs_of_pos counted] at held
    rw [goesOn]
    rw [← restValue] at held above within
    exact standstillEndless baseFinite productFinite restFinite fading (productValue ▸ faded) held above
      within rounds

theorem roundsRoom (p : Precision) : tenTo p.digits + 1 < tenTo (p.digits + 7) := by
  have pos := tenToPos p.digits
  rw [tenToAdd, show tenTo 7 = 10000000 by rfl]
  omega

theorem endlessStalls {n rounds : ℕ} (baseFinite : base.isFinite = true)
    (exponentFinite : exponent.isFinite = true) (whole : exponent.rational = n)
    (enough : (n ≤ tenTo p.digits ∧ n < rounds) ∨ tenTo (p.digits + 7) ≤ rounds)
    (endless : multiplyDown p base rounds one exponent = .error .endless) : Stalls p base exponent := by
  have room := roundsRoom p
  by_contra ends
  rw [stallsIff baseFinite exponentFinite] at ends
  by_cases few : n ≤ tenTo p.digits
  · exact countEnds baseFinite rfl exponentFinite whole few (by omega) endless
  have many : tenTo (p.digits + 7) ≤ rounds := by omega
  by_cases growing : 1 < nearest p |base.rational|
  · have single : |one.rational| = 1 := by rw [rationalOne, abs_one]
    have factor : (1 : ℚ) ≤ 1 + 1 / tenTo p.digits := by
      have step : (0 : ℚ) ≤ 1 / tenTo p.digits := by positivity
      linarith
    refine growthEnds baseFinite rfl exponentFinite growing ?_ single.ge ?_ ?_ endless
    · rw [single]
      exact representableOne p
    · rw [single]
      exact oneLtCeiling
    · rw [single, one_mul]
      exact (growthEnough p).trans (pow_le_pow_right₀ factor many)
  · obtain ⟨left, rfl⟩ := Nat.exists_eq_succ_of_ne_zero (show rounds ≠ 0 by omega)
    cases multiplyCases (p := p) baseFinite oneFinite exponentFinite with
    | done spent finished => cases (finished left).symm.trans endless
    | overflow left' large finished => cases (finished left).symm.trans endless
    | next product rest _ productFinite productValue productSmall restFinite restValue restSmall goesOn =>
      rw [← restValue] at ends
      have low : rest.rational ≤ tenTo p.digits := by
        by_contra above
        exact ends ⟨not_le.mp above, (le_abs_self _).trans_lt restSmall, not_lt.mp growing⟩
      have high : tenTo p.digits ≤ rest.rational := by
        have order : (tenTo p.digits : ℚ) ≤ exponent.rational - 1 := by
          have more : (tenTo p.digits : ℚ) + 1 ≤ n := by exact_mod_cast not_le.mp few
          rw [whole]
          linarith
        rw [restValue, ← nearestCount le_rfl]
        exact nearestMono (Nat.cast_nonneg' _) order
      rw [goesOn] at endless
      exact countEnds baseFinite productFinite restFinite (le_antisymm low high) le_rfl (by omega) endless

end Reckon.Decimal

import Reckon.Postfix.Evaluation
import Reckon.Proofs.Decimal.Multiplication
/-! When a power is found: what its guards let through, and when the multiplication then comes to an end. -/
namespace Reckon.Decimal
variable {p : Precision} {limit : Option Int} {base exponent : Decimal}

theorem rationalMinusOne : minusOne.rational = -1 := by
  show (opposite one).rational = -1
  rw [rationalOpposite rfl, rationalOne]

theorem isExponentCases (finite : exponent.isFinite = true) :
    (isExponent exponent = .ok false ∧ ¬ ∃ n : ℕ, exponent.rational = n) ∨
      isExponent exponent = .ok true ∧ ∃ n : ℕ, exponent.rational = n ∧ exponent.toInt? = some (n : ℤ) := by
  have question := lessRational (b := zero) finite rfl
  rw [rationalZero] at question
  by_cases negative : exponent.rational < 0
  · rw [decide_eq_true negative] at question
    refine .inl ⟨by simp only [isExponent, question]; rfl, ?_⟩
    rintro ⟨n, value⟩
    exact absurd (value ▸ negative) (not_lt.mpr (Nat.cast_nonneg' n))
  · rw [decide_eq_false negative] at question
    have answer : isExponent exponent = .ok exponent.isWhole := by
      simp only [isExponent, question]
      rfl
    rw [answer]
    cases whole : exponent.isWhole with
    | false =>
      refine .inl ⟨rfl, ?_⟩
      rintro ⟨n, value⟩
      have yes := isWholeOfRational (n := n) finite value
      rw [whole] at yes
      cases yes
    | true =>
      obtain ⟨n, found, value⟩ := toIntRational finite whole
      rw [value] at negative
      obtain ⟨k, rfl⟩ := Int.eq_ofNat_of_zero_le (Int.cast_nonneg_iff.mp (not_lt.mp negative))
      exact .inr ⟨rfl, k, value, found⟩

inductive PowerCase (p : Precision) (limit : Option Int) (base exponent : Decimal) : Prop where
  | notCount (noCount : ¬ ∃ n : ℕ, exponent.rational = n)
      (outcome : power p limit base exponent = .error (.refusal (.exponentNotWhole base exponent)))
  | zero (count : exponent.rational = 0) (outcome : power p limit base exponent = .ok one)
  | simple (n : ℕ) (count : exponent.rational = n) (nonzero : n ≠ 0)
      (value : base.rational = 0 ∨ base.rational = 1)
      (outcome : power p limit base exponent = orFault (plus p base))
  | minusOne (n : ℕ) (count : exponent.rational = n) (value : base.rational = -1)
      (outcome : power p limit base exponent = .ok (if (n : ℤ) % 2 = 0 then one else minusOne))
  | above (n : ℕ) (most : ℤ) (count : exponent.rational = n) (limited : limit = some most)
      (more : most < n) (proper : base.rational ≠ 0 ∧ base.rational ≠ 1 ∧ base.rational ≠ -1)
      (outcome : power p limit base exponent = .error (aboveLimit base exponent most))
  | loop (n : ℕ) (count : exponent.rational = n) (whole : exponent.toInt? = some (n : ℤ))
      (nonzero : n ≠ 0)
      (proper : base.rational ≠ 0 ∧ base.rational ≠ 1 ∧ base.rational ≠ -1)
      (within : checkLimit limit base exponent = .ok ())
      (outcome : power p limit base exponent =
        multiplyDown p base (enoughRounds p exponent) one exponent)

theorem checkLimitCases (finite : exponent.isFinite = true) {n : ℕ} (count : exponent.rational = n) :
    checkLimit limit base exponent = .ok () ∨
      ∃ most, limit = some most ∧ most < n ∧
        checkLimit limit base exponent = .error (aboveLimit base exponent most) := by
  cases limit with
  | none => exact .inl rfl
  | some most =>
    have question := lessRational (a := ofInt most) rfl finite
    rw [rationalOfInt, count] at question
    by_cases more : (most : ℚ) < (n : ℚ)
    · rw [decide_eq_true more] at question
      refine .inr ⟨most, rfl, by exact_mod_cast more, ?_⟩
      simp only [checkLimit, question]
      rfl
    · rw [decide_eq_false more] at question
      refine .inl ?_
      simp only [checkLimit, question]
      rfl

theorem isZeroOrOneRational (finite : base.isFinite = true) :
    isZeroOrOne base = .ok (decide (base.rational = 0 ∨ base.rational = 1)) := by
  have atZero := equalRational (b := zero) finite rfl
  have atOne := equalRational (b := one) finite rfl
  rw [rationalZero] at atZero
  rw [rationalOne] at atOne
  by_cases value : base.rational = 0
  · simp only [isZeroOrOne, atZero, value]
    rfl
  · simp only [isZeroOrOne, atZero, value, atOne, false_or, decide_false]
    rfl

structure Limited (base exponent : Decimal) : Prop where
  count : isExponent exponent = .ok true
  nonzero : equal? exponent zero = .ok false
  proper : isZeroOrOne base = .ok false
  signed : equal? base minusOne = .ok false

theorem powerLimited (limited : Limited base exponent) :
    power p limit base exponent = (do
      checkLimit limit base exponent
      multiplyDown p base (enoughRounds p exponent) one exponent) := by
  simp only [power, limited.count, limited.nonzero, limited.proper, limited.signed]
  rfl

theorem limitedFinite (baseFinite : base.isFinite = true) (exponentFinite : exponent.isFinite = true)
    (count : isExponent exponent = .ok true) (nonzero : exponent.rational ≠ 0)
    (proper : base.rational ≠ 0 ∧ base.rational ≠ 1 ∧ base.rational ≠ -1) : Limited base exponent := by
  obtain ⟨notZero, notOne, notMinusOne⟩ := proper
  have atZero := equalRational (b := zero) exponentFinite rfl
  have atMinusOne := equalRational (b := minusOne) baseFinite rfl
  have simple := isZeroOrOneRational baseFinite
  rw [rationalZero, decide_eq_false nonzero] at atZero
  rw [rationalMinusOne, decide_eq_false notMinusOne] at atMinusOne
  rw [decide_eq_false (not_or.mpr ⟨notZero, notOne⟩)] at simple
  exact ⟨count, atZero, simple, atMinusOne⟩

theorem powerCase (p : Precision) (limit : Option Int) (baseFinite : base.isFinite = true)
    (exponentFinite : exponent.isFinite = true) : PowerCase p limit base exponent := by
  obtain ⟨no, noCount⟩ | ⟨yes, n, count, whole⟩ := isExponentCases exponentFinite
  · refine .notCount noCount ?_
    simp only [power, no]
    rfl
  have atZero := equalRational (b := zero) exponentFinite rfl
  rw [rationalZero] at atZero
  by_cases zeroExponent : exponent.rational = 0
  · rw [decide_eq_true zeroExponent] at atZero
    refine .zero zeroExponent ?_
    simp only [power, yes, atZero]
    rfl
  have nonzero : n ≠ 0 := by
    rintro rfl
    exact zeroExponent (count.trans Nat.cast_zero)
  have simple := isZeroOrOneRational baseFinite
  by_cases value : base.rational = 0 ∨ base.rational = 1
  · rw [decide_eq_true value] at simple
    rw [decide_eq_false zeroExponent] at atZero
    refine .simple n count nonzero value ?_
    simp only [power, yes, atZero, simple]
    cases plus p base <;> rfl
  by_cases negative : base.rational = -1
  · have atMinusOne := equalRational (b := minusOne) baseFinite rfl
    rw [rationalMinusOne, decide_eq_true negative] at atMinusOne
    rw [decide_eq_false value] at simple
    rw [decide_eq_false zeroExponent] at atZero
    refine .minusOne n count negative ?_
    simp only [power, yes, atZero, simple, atMinusOne, minusOneTo, whole]
    rfl
  obtain ⟨notZero, notOne⟩ := not_or.mp value
  have proper := And.intro notZero (And.intro notOne negative)
  have limited := limitedFinite baseFinite exponentFinite yes zeroExponent proper
  have compared : power p limit base exponent = _ := powerLimited limited
  obtain within | ⟨most, same, more, outcome⟩ := checkLimitCases exponentFinite count
  · rw [within] at compared
    exact .loop n count whole nonzero proper within compared
  · rw [outcome] at compared
    exact .above n most count same more proper compared

theorem multiplyDownCases {result remaining : Decimal} (baseFinite : base.isFinite = true)
    (resultFinite : result.isFinite = true) (remainingFinite : remaining.isFinite = true) (rounds : ℕ) :
    (∃ d, multiplyDown p base rounds result remaining = .ok d ∧ d.isFinite = true) ∨
      multiplyDown p base rounds result remaining = .error (.signal .overflow) ∨
      multiplyDown p base rounds result remaining = .error .endless := by
  induction rounds generalizing result remaining with
  | zero => exact .inr (.inr rfl)
  | succ rounds ih =>
    cases multiplyCases (p := p) baseFinite resultFinite remainingFinite with
    | done spent ends => exact .inl ⟨result, ends rounds, resultFinite⟩
    | overflow left large ends => exact .inr (.inl (ends rounds))
    | next product rest left productFinite productValue productSmall restFinite restValue restSmall goesOn =>
      rw [goesOn]
      exact ih productFinite restFinite

def Ended (outcome : Except Fault Decimal) : Prop :=
  (∃ d, outcome = .ok d) ∨ outcome = .error (.signal .overflow)

theorem endsIff {n : ℕ} (baseFinite : base.isFinite = true) (exponentFinite : exponent.isFinite = true)
    (count : exponent.rational = n) :
    (∃ rounds, Ended (multiplyDown p base rounds one exponent)) ↔ ¬ Stalls p base exponent := by
  constructor
  · rintro ⟨rounds, ended⟩ stalls
    rw [stalls.endless baseFinite exponentFinite] at ended
    obtain ⟨d, found⟩ | overflow := ended
    · cases found
    · cases overflow
  · intro ends
    refine ⟨tenTo (p.digits + 7), ?_⟩
    obtain ⟨d, found, _⟩ | overflow | endless := multiplyDownCases (p := p) baseFinite oneFinite
      exponentFinite (tenTo (p.digits + 7))
    · exact .inl ⟨d, found⟩
    · exact .inr overflow
    · exact absurd (endlessStalls baseFinite exponentFinite count (.inr le_rfl) endless) ends

theorem enoughRoundsEnough {n : ℕ} (whole : exponent.toInt? = some (n : ℤ)) :
    (n ≤ tenTo p.digits ∧ n < enoughRounds p exponent) ∨ tenTo (p.digits + 7) ≤ enoughRounds p exponent := by
  unfold enoughRounds
  rw [whole]
  simp only [Int.natAbs_natCast]
  split
  · rename_i short
    have few := (digitCountLe p.pos).mp short
    exact .inl ⟨few.le, Nat.lt_succ_self n⟩
  · exact .inr le_rfl

theorem plusAboveOne (baseFinite : base.isFinite = true) :
    (∀ d, plus p base = .ok d → 1 < |d.rational|) ↔ 1 < nearest p |base.rational| := by
  rw [← nearestAbs]
  obtain ⟨large, overflow⟩ | ⟨_, d, kept, _, value⟩ := (plusRounding (p := p) baseFinite).cases
  · simp [overflow, oneLtCeiling.trans_le large]
  · simp [kept, value]

structure Passes (limit : Option Int) (base exponent : Decimal) : Prop where
  count : isExponent exponent = .ok true
  within : checkLimit limit base exponent = .ok ()

/-- The multiplication of a power ends if the exponent is at most ten to the precision and six, the
sixteen at one digit apart, or if taking one from it overflows, or if the base is not at most one in
size after rounding; and in no other case. -/
theorem multiplicationEnds (p : Precision) {limit : Option Int} {base exponent : Decimal}
    (baseFinite : base.isFinite = true) (exponentFinite : exponent.isFinite = true)
    (passes : Passes limit base exponent) :
    ∃ n : ℕ, exponent.rational = n ∧
      ((∃ rounds, Ended (multiplyDown p base rounds one exponent)) ↔
        (n ≤ tenTo p.digits + 6 ∧ ¬ (p.digits = 1 ∧ n = 16)) ∨ sub p exponent one = .error .overflow ∨
          ∀ d, plus p base = .ok d → 1 < |d.rational|) := by
  obtain ⟨no, _⟩ | ⟨_, n, count, _⟩ := isExponentCases exponentFinite
  · cases no.symm.trans passes.count
  refine ⟨n, count, ?_⟩
  have rest := subRounding (p := p) (b := one) exponentFinite rfl
  rw [rationalOne, count] at rest
  rw [endsIff baseFinite exponentFinite count, stallsIff baseFinite exponentFinite, count,
    plusAboveOne baseFinite, rest.overflowIff, countPasses]
  by_cases passing : tenTo p.digits + 6 < n ∨ p.digits = 1 ∧ n = 16
  · have positive := (Nat.cast_nonneg' _).trans_lt ((countPasses p n).mpr passing)
    rw [abs_of_pos positive]
    have notFew : ¬ (n ≤ tenTo p.digits + 6 ∧ ¬ (p.digits = 1 ∧ n = 16)) := by omega
    rw [or_iff_right notFew, not_and, not_and_or, not_lt, not_le]
    exact forall_prop_of_true passing
  · have few : n ≤ tenTo p.digits + 6 ∧ ¬ (p.digits = 1 ∧ n = 16) := by omega
    exact iff_of_true (fun stalls => passing stalls.1) (.inl few)

theorem multiplicationEndsAtMost :
    ∃ rounds, Ended (multiplyDown ⟨2, by decide⟩ (.finite false 5 (-1)) rounds one (.finite false 106 0)) := by
  have passes : Passes (some usualExponentLimit) (.finite false 5 (-1)) (.finite false 106 0) :=
    ⟨by decide, by decide⟩
  obtain ⟨n, count, ends⟩ := multiplicationEnds ⟨2, by decide⟩ rfl rfl passes
  have value : n = 106 := by
    have same : ((106 : ℕ) : ℚ) = n := by
      rw [← count]
      norm_num [rational, scaled]
    exact_mod_cast same.symm
  subst value
  exact ends.mpr (.inl (by decide))

/- One more is too many for a base of one half: taking one from 107 is rounded to 110, from which taking one
is rounded back, and the products sink to zero. -/

theorem multiplicationEndless :
    Passes (some usualExponentLimit) (.finite false 5 (-1)) (.finite false 107 0) ∧
      ∀ rounds, multiplyDown ⟨2, by decide⟩ (.finite false 5 (-1)) rounds one (.finite false 107 0) =
        .error .endless := by
  refine ⟨⟨by decide, by decide⟩, fun rounds => Stalls.endless rfl rfl ?_ rounds⟩
  constructor
  · refine ⟨.finite false 11 1, by decide, ?_⟩
    norm_num [rational, scaled, tenTo]
  · refine ⟨.finite false 5 (-1), by decide, ?_⟩
    norm_num [rational, scaled]

end Reckon.Decimal

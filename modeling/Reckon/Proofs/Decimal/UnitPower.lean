import Reckon.Proofs.Decimal.Counted
import Reckon.Proofs.Decimal.ExactPower
/-! Powers of zero, one and minus one, which are answered without a product. -/
namespace Reckon.Decimal
variable {p : Precision} {base result exponent : Decimal} {n : ℕ} {x y : ℚ}

def Unital (x : ℚ) : Prop := x = 0 ∨ x = 1 ∨ x = -1

theorem unitalMul (first : Unital x) (second : Unital y) : Unital (x * y) := by
  obtain rfl | rfl | rfl := first
  · rw [zero_mul]
    exact .inl rfl
  · rwa [one_mul]
  · obtain rfl | rfl | rfl := second
    · exact .inl (mul_zero _)
    · exact .inr (.inr (mul_one _))
    · exact .inr (.inl (by norm_num))

theorem unitalSize (unital : Unital x) : |x| = 0 ∨ |x| = 1 := by
  obtain rfl | rfl | rfl := unital <;> simp

theorem unitalHeld (p : Precision) (unital : Unital x) : Representable p |x| := by
  obtain isZero | isOne := unitalSize unital
  · rw [isZero]
    exact representableZero p
  · rw [isOne]
    exact representableOne p

theorem unitalSmall (unital : Unital x) : |x| < ceiling := by
  obtain isZero | isOne := unitalSize unital
  · rw [isZero]
    exact one_pos.trans oneLtCeiling
  · rw [isOne]
    exact oneLtCeiling

theorem Rounding.unital {outcome : Except Signal Decimal} (rounding : Rounding p x outcome)
    (unital : Unital x) : ∃ d, outcome = .ok d ∧ d.isFinite = true ∧ d.rational = x :=
  exactOfHeld rounding (unitalHeld p unital) (unitalSmall unital)

theorem multipliedUnital (baseFinite : base.isFinite = true) (baseUnital : Unital base.rational)
    (resultFinite : result.isFinite = true) (resultUnital : Unital result.rational) (n : ℕ) :
    ∃ d, multiplied p base n result = .ok d ∧ d.isFinite = true ∧
      d.rational = result.rational * base.rational ^ n := by
  induction n generalizing result with
  | zero => exact ⟨result, rfl, resultFinite, by rw [pow_zero, mul_one]⟩
  | succ n ih =>
    have unital := unitalMul resultUnital baseUnital
    obtain ⟨product, first, productFinite, value⟩ :=
      (mulRounding (p := p) resultFinite baseFinite).unital unital
    obtain ⟨d, found, finite, power⟩ := ih productFinite (value ▸ unital)
    rw [multipliedNext first]
    exact ⟨d, found, finite, by rw [power, value, pow_succ', mul_assoc]⟩

def immediate (p : Precision) (base : Decimal) (n : ℕ) : Except Fault Decimal :=
  if n = 0 then .ok one
  else if base.rational = -1 then .ok (if (n : ℤ) % 2 = 0 then one else minusOne)
  else orFault (plus p base)

theorem powerImmediate (limit : Option Int) (baseFinite : base.isFinite = true)
    (unital : Unital base.rational) (exponentFinite : exponent.isFinite = true)
    (count : exponent.rational = n) : power p limit base exponent = immediate p base n := by
  have unique : ∀ m : ℕ, exponent.rational = m → m = n := fun m same => by
    exact_mod_cast same.symm.trans count
  have improper : ¬ (base.rational ≠ 0 ∧ base.rational ≠ 1 ∧ base.rational ≠ -1) := by
    rintro ⟨notZero, notOne, notMinusOne⟩
    obtain isZero | isOne | minusOne := unital
    · exact notZero isZero
    · exact notOne isOne
    · exact notMinusOne minusOne
  unfold immediate
  cases powerCase p limit baseFinite exponentFinite with
  | notCount noCount => exact absurd ⟨n, count⟩ noCount
  | zero atZero outcome =>
    obtain rfl := unique 0 (atZero.trans Nat.cast_zero.symm)
    rw [outcome, if_pos rfl]
  | simple m same nonzero value outcome =>
    obtain rfl := unique m same
    have notMinusOne : base.rational ≠ -1 := by
      rcases value with isZero | isOne
      · norm_num [isZero]
      · norm_num [isOne]
    rw [outcome, if_neg nonzero, if_neg notMinusOne]
  | minusOne m same value outcome =>
    obtain rfl := unique m same
    rw [outcome, if_pos value]
    rcases eq_or_ne m 0 with rfl | nonzero
    · rfl
    · rw [if_neg nonzero]
  | above m most same limited more proper => exact absurd proper improper
  | loop m same whole nonzero proper => exact absurd proper improper

theorem immediateValue (baseFinite : base.isFinite = true) (unital : Unital base.rational) (n : ℕ) :
    ∃ d, immediate p base n = .ok d ∧ d.isFinite = true ∧ d.rational = base.rational ^ n := by
  unfold immediate
  by_cases atZero : n = 0
  · rw [if_pos atZero]
    exact ⟨one, rfl, rfl, by rw [atZero, pow_zero, rationalOne]⟩
  rw [if_neg atZero]
  by_cases minus : base.rational = -1
  · rw [if_pos minus]
    refine ⟨_, rfl, ?_, ?_⟩
    · split <;> rfl
    · rw [minus]
      exact minusOneParity n
  · rw [if_neg minus]
    obtain ⟨d, kept, finite, value⟩ := (plusRounding (p := p) baseFinite).unital unital
    rw [kept]
    refine ⟨d, rfl, finite, ?_⟩
    obtain isZero | isOne | minusOne := unital
    · rw [value, isZero, zero_pow atZero]
    · rw [value, isOne, one_pow]
    · exact absurd minusOne minus

/-- A power of zero, one or minus one is the same under every limit of the exponent. Multiplying as often as the
exponent says finds an equal number if the exponent is at most ten to the precision, and in range; above ten
to the million, taking one from the exponent overflows. -/
theorem powerOfUnital (baseFinite : base.isFinite = true) (exponentFinite : exponent.isFinite = true)
    (unital : base.rational = 0 ∨ base.rational = 1 ∨ base.rational = -1) (count : exponent.rational = n)
    (few : n ≤ tenTo p.digits) :
    ∃ d, (∀ limit, power p limit base exponent = .ok d) ∧ d.isFinite = true ∧
      d.rational = base.rational ^ n ∧
      (n ≤ tenTo 1000000 → ∃ e, (∀ rounds > n, multiplyDown p base rounds one exponent = .ok e) ∧
        e.isFinite = true ∧ equal? d e = .ok true) ∧
      (tenTo 1000000 < n → ∀ rounds > 0,
        multiplyDown p base rounds one exponent = .error (.signal .overflow)) := by
  obtain ⟨d, found, finite, value⟩ := immediateValue (p := p) baseFinite unital n
  refine ⟨d, fun limit => (powerImmediate limit baseFinite unital exponentFinite count).trans found, finite,
    value, fun within => ?_, fun many rounds started => ?_⟩
  · obtain ⟨e, multiplied, finite', value'⟩ :=
      multipliedUnital (p := p) baseFinite unital oneFinite (.inr (.inl rationalOne)) n
    refine ⟨e, fun rounds enough => ?_, finite', ?_⟩
    · have below : (n : ℚ) ≤ ceiling := by
        rw [ceilingTens]
        exact Nat.cast_le.mpr within
      rw [multiplyDownMultiplied baseFinite oneFinite exponentFinite count few below enough, multiplied]
      rfl
    · rw [equalRational finite finite', value, value', rationalOne, one_mul, decide_eq_true rfl]
  · exact multiplyDownMany baseFinite oneFinite exponentFinite count few many started

theorem powerOfUnitalMinus :
    ∃ d, (∀ limit, power ⟨2, by decide⟩ limit (.finite true 1000 (-3)) (.finite false 30 (-1)) = .ok d) ∧
      d.rational = -1 ∧
      ∃ e, multiplyDown ⟨2, by decide⟩ (.finite true 1000 (-3)) 4 one (.finite false 30 (-1)) = .ok e ∧
        equal? d e = .ok true := by
  have base : (finite true 1000 (-3)).rational = -1 := by norm_num [rational, scaled]
  have three : (finite false 30 (-1)).rational = (3 : ℕ) := by norm_num [rational, scaled]
  have few : 3 ≤ tenTo (⟨2, by decide⟩ : Precision).digits := by decide
  obtain ⟨d, found, _, value, within, _⟩ := powerOfUnital rfl rfl (.inr (.inr base)) three few
  obtain ⟨e, multiplied, _, same⟩ := within (tenToLe (show 1 ≤ 1000000 by decide) |>.trans' (by decide))
  refine ⟨d, found, ?_, e, multiplied 4 (by decide), same⟩
  rw [value, base]
  norm_num

/- One to ten to the 1000001, at as many digits: the answer is one, and the count of the multiplication
overflows, however many rounds it is given. -/

theorem powerOfOneOutOfRange :
    (finite false 1 1000001).rational = tenTo 1000001 ∧
      (∃ d, power ⟨1000001, by decide⟩ none one (.finite false 1 1000001) = .ok d ∧ d.rational = 1) ∧
      ¬ ∃ rounds e, multiplyDown ⟨1000001, by decide⟩ one rounds one (.finite false 1 1000001) = .ok e := by
  have large : (finite false 1 1000001).rational = (tenTo 1000001 : ℕ) := rationalTens 1000001
  have unital : Unital one.rational := .inr (.inl rationalOne)
  obtain ⟨d, found, _, value⟩ := immediateValue (p := ⟨1000001, by decide⟩) oneFinite unital (tenTo 1000001)
  refine ⟨large, ⟨d, (powerImmediate none oneFinite unital rfl large).trans found, ?_⟩, ?_⟩
  · rw [value, rationalOne, one_pow]
  · rintro ⟨rounds, e, ends⟩
    rcases Nat.eq_zero_or_pos rounds with rfl | started
    · cases ends
    · have overflow := multiplyDownMany (p := ⟨1000001, by decide⟩) oneFinite oneFinite rfl large le_rfl
        (tenToRises 1000000) started
      cases overflow.symm.trans ends

end Reckon.Decimal

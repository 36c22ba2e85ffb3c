import Reckon.Proofs.Decimal.Held
import Reckon.Proofs.Decimal.Power
import Reckon.Proofs.Outcome
/-! Arithmetic on all the numbers there are, also on those that are not finite: which signals it gives, and all
the faults of a power. -/
namespace Reckon.Decimal
variable {p : Precision} {most : Int} {a b base exponent result remaining : Decimal}

def Signal.Refused (s : Signal) : Prop := s ≠ .divisionByZero

theorem overflowRefused : Signal.overflow.Refused := by simp [Signal.Refused]

theorem invalidRefused : Signal.invalidOperation.Refused := by simp [Signal.Refused]

theorem roundRaises {s : Bool} {c : ℕ} {e : ℤ} : Raises Signal.Refused (round p s c e) := by
  have range (c : ℕ) (e : ℤ) : Raises Signal.Refused (inRange s c e) := by
    unfold inRange
    split
    · exact raisesError overflowRefused
    · exact raisesOk _
  unfold round
  split
  · exact raisesOk _
  · dsimp only
    split
    · exact range _ _
    · exact range _ _

theorem propagateRaises : Raises Signal.Refused (propagate p a b) := by
  unfold propagate
  split
  · exact raisesError invalidRefused
  · exact raisesError invalidRefused
  · exact raisesOk _
  · exact raisesOk _
  · exact raisesError invalidRefused

theorem addRaises : Raises Signal.Refused (add p a b) := by
  unfold add
  split
  · exact roundRaises
  · split
    · exact raisesOk _
    · exact raisesError invalidRefused
  · exact raisesOk _
  · exact raisesOk _
  · exact propagateRaises

theorem mulRaises : Raises Signal.Refused (mul p a b) := by
  unfold mul
  split
  · exact roundRaises
  · exact raisesOk _
  · split
    · exact raisesError invalidRefused
    · exact raisesOk _
  · split
    · exact raisesError invalidRefused
    · exact raisesOk _
  · exact propagateRaises

theorem plusRaises : Raises Signal.Refused (plus p a) := by
  unfold plus
  split
  · exact roundRaises
  · exact raisesOk _
  · exact propagateRaises

theorem quotientRaises {s : Bool} {c d : ℕ} {e : ℤ} : Raises Signal.Refused (quotient p s c d e) := by
  unfold quotient
  dsimp only
  split
  · exact roundRaises
  · exact roundRaises

theorem divRaises (nonzero : equal? b zero = .ok false) : Raises Signal.Refused (div p a b) := by
  unfold div
  split
  · rename_i t d f
    have divisor : d ≠ 0 := by
      rintro rfl
      simp [equal?, zero, ofNat, difference, units] at nonzero
    rw [if_neg divisor]
    exact quotientRaises
  · exact raisesError invalidRefused
  · exact raisesOk _
  · exact raisesOk _
  · exact propagateRaises

theorem equalRaises : Raises Signal.Refused (equal? a b) := by
  unfold equal?
  split
  all_goals first
    | exact raisesOk _
    | exact raisesError invalidRefused

theorem lessRaises : Raises Signal.Refused (less? a b) := by
  unfold less?
  split
  all_goals first
    | exact raisesOk _
    | exact raisesError invalidRefused

/- A number that is neither finite nor signals on every use. Multiplying by it never fails, so that only the count
decides how a power of it ends. -/

def Quiet : Decimal → Prop
  | .finite .. => False
  | .infinite _ => True
  | .nan _ signaling _ => signaling = false

def Steady (p : Precision) (base : Decimal) (results : Decimal → Prop) : Prop :=
  ∀ d, results d → ∃ product, mul p d base = .ok product ∧ results product

theorem mulQuiet (quiet : base.Quiet) (quietToo : result = one ∨ result.Quiet) :
    ∃ product, mul p result base = .ok product ∧ product.Quiet := by
  cases base with
  | finite t d f => cases quiet
  | infinite t =>
    obtain rfl | quietResult := quietToo
    · exact ⟨_, rfl, trivial⟩
    · cases result with
      | finite s c e => cases quietResult
      | infinite s => exact ⟨_, rfl, trivial⟩
      | nan s q n =>
        cases quietResult
        exact ⟨_, rfl, rfl⟩
  | nan t q n =>
    cases quiet
    obtain rfl | quietResult := quietToo
    · exact ⟨_, rfl, rfl⟩
    · cases result with
      | finite s c e => cases quietResult
      | infinite s => exact ⟨_, rfl, rfl⟩
      | nan s q n =>
        cases quietResult
        exact ⟨_, rfl, rfl⟩

theorem quietSteady (p : Precision) (quiet : base.Quiet) : Steady p base fun d => d = one ∨ d.Quiet := by
  intro d among
  obtain ⟨product, multiplied, quietProduct⟩ := mulQuiet quiet among
  exact ⟨product, multiplied, .inr quietProduct⟩

theorem oneSteady (p : Precision) : Steady p one fun d => d.isFinite = true ∧ d.rational = 1 := by
  rintro d ⟨finite, value⟩
  have product := mulRounding (p := p) finite oneFinite
  rw [value, rationalOne, mul_one] at product
  have same : nearest p 1 = 1 := by
    have count := nearestCount (p := p) (n := 1) (tenToPos _)
    rwa [Nat.cast_one] at count
  obtain ⟨product, multiplied, productFinite, productValue⟩ :=
    product.okOfSmall (by rw [same, abs_one]; exact oneLtCeiling)
  exact ⟨product, multiplied, productFinite, productValue.trans same⟩

/- Two multiplications without failing products go on together, as only the count can end a round. -/

theorem endlessSteady {other : Decimal} {results results' : Decimal → Prop} (steady : Steady p base results)
    (steady' : Steady p other results') {d d' : Decimal} (among : results d) (among' : results' d')
    {rounds : ℕ} (endless : multiplyDown p base rounds d remaining = .error .endless) :
    multiplyDown p other rounds d' remaining = .error .endless := by
  induction rounds generalizing d d' remaining with
  | zero => rfl
  | succ rounds ih =>
    obtain ⟨product, multiplied, among⟩ := steady d among
    obtain ⟨product', multiplied', among'⟩ := steady' d' among'
    simp only [multiplyDown, multiplied, multiplied'] at endless ⊢
    -- Only the count is asked, and it is the same on both sides.
    cases question : less? zero remaining with
    | error s =>
      rw [question] at endless
      cases endless
    | ok left =>
      cases left with
      | false =>
        rw [question] at endless
        cases endless
      | true =>
        cases taken : sub p remaining one with
        | error s =>
          simp only [question, taken] at endless
          cases endless
        | ok rest =>
          simp only [question, taken] at endless ⊢
          exact ih among among' endless

theorem quietEndless {n rounds : ℕ} (quiet : base.Quiet) (exponentFinite : exponent.isFinite = true)
    (count : exponent.rational = n)
    (enough : (n ≤ tenTo p.digits ∧ n < rounds) ∨ tenTo (p.digits + 7) ≤ rounds)
    (endless : multiplyDown p base rounds one exponent = .error .endless) (others : ℕ) :
    multiplyDown p base others one exponent = .error .endless := by
  have stalls : Stalls p one exponent := endlessStalls oneFinite exponentFinite count enough
    (endlessSteady (quietSteady p quiet) (oneSteady p) (.inl rfl) ⟨oneFinite, rationalOne⟩ endless)
  exact endlessSteady (oneSteady p) (quietSteady p quiet) ⟨oneFinite, rationalOne⟩ (.inl rfl)
    (stalls.endless oneFinite exponentFinite others)

structure Multiplied (limit : Option Int) (base exponent : Decimal) : Prop
    extends Limited base exponent where
  within : checkLimit limit base exponent = .ok ()

/- The powers that have no value and are not refused: the multiplication does not end, the parity of an infinite
exponent is asked for, or the refusal would name a limit that is too long. -/

def Endless (p : Precision) (limit : Option Int) (base exponent : Decimal) : Prop :=
  Multiplied limit base exponent ∧ ∀ rounds, multiplyDown p base rounds one exponent = .error .endless

def NoParity (base exponent : Decimal) : Prop := equal? base minusOne = .ok true ∧ exponent = .infinite false

structure Untold (limit : Option Int) (base exponent : Decimal) : Prop
    extends Limited base exponent where
  above : ∃ most, limit = some most ∧ Text.isTooLong most = true ∧ less? (ofInt most) exponent = .ok true

inductive PowerFault (p : Precision) (limit : Option Int) (base exponent : Decimal) : Fault → Prop where
  | refusal {r : Refusal} (category : r.category = .invalidExponent) :
    PowerFault p limit base exponent (.refusal r)
  | signal {s : Signal} (refused : s.Refused) : PowerFault p limit base exponent (.signal s)
  | endless (endless : Endless p limit base exponent) : PowerFault p limit base exponent .endless
  | infiniteWhole (noParity : NoParity base exponent) : PowerFault p limit base exponent .infiniteWhole
  | numberTooLong (untold : Untold limit base exponent) : PowerFault p limit base exponent .numberTooLong

theorem orFaultRaises {α : Type} {errors : Fault → Prop} {outcome : Except Signal α}
    (covers : ∀ s : Signal, s.Refused → errors (.signal s)) (raises : Raises Signal.Refused outcome) :
    Raises errors (orFault outcome) := by
  cases outcome with
  | ok a => exact raisesOk a
  | error s => exact raisesError (covers s (raises s rfl))

theorem multiplyDownRaises (rounds : ℕ) :
    Raises (fun f => f = .endless ∨ ∃ s : Signal, f = .signal s ∧ s.Refused)
      (multiplyDown p base rounds result remaining) := by
  have covers (s : Signal) (refused : s.Refused) :
      Fault.signal s = .endless ∨ ∃ t : Signal, .signal s = Fault.signal t ∧ t.Refused :=
    .inr ⟨s, rfl, refused⟩
  induction rounds generalizing result remaining with
  | zero => exact raisesError (.inl rfl)
  | succ rounds ih =>
    refine (orFaultRaises covers lessRaises).bind fun left _ => ?_
    cases left with
    | false => exact raisesOk result
    | true =>
      refine (orFaultRaises covers mulRaises).bind fun product _ => ?_
      exact (orFaultRaises covers addRaises).bind fun rest _ => ih

theorem countOrInfinite (whole : isExponent exponent = .ok true) :
    (exponent.isFinite = true ∧ ∃ n : ℕ, exponent.rational = n ∧ exponent.toInt? = some (n : ℤ)) ∨
      exponent = .infinite false := by
  cases exponent with
  | finite s c e =>
    have finite : (Decimal.finite s c e).isFinite = true := rfl
    obtain ⟨no, _⟩ | ⟨_, n, count⟩ := isExponentCases finite
    · cases no.symm.trans whole
    · exact .inl ⟨finite, n, count⟩
  | infinite s =>
    cases s with
    | false => exact .inr rfl
    | true => cases whole
  | nan s q n => cases whole

theorem infiniteAbove (most : Int) (base : Decimal) :
    checkLimit (some most) base (.infinite false) = .error (aboveLimit base (.infinite false) most) := rfl

theorem Multiplied.countWithin (multiplied : Multiplied (some most) base exponent) :
    exponent.isFinite = true ∧ ∃ n : ℕ, exponent.rational = n ∧ exponent.toInt? = some (n : ℤ) := by
  obtain count | rfl := countOrInfinite multiplied.count
  · exact count
  · cases (infiniteAbove most base).symm.trans multiplied.within

theorem finiteOrQuiet (proper : isZeroOrOne base = .ok false) : base.isFinite = true ∨ base.Quiet := by
  cases base with
  | finite s c e => exact .inl rfl
  | infinite s => exact .inr trivial
  | nan s q n =>
    cases q with
    | false => exact .inr rfl
    | true => cases proper

theorem Multiplied.endless (multiplied : Multiplied (some most) base exponent)
    (endless : multiplyDown p base (enoughRounds p exponent) one exponent = .error .endless) :
    Endless p (some most) base exponent := by
  obtain ⟨finite, n, count, whole⟩ := multiplied.countWithin
  have enough := enoughRoundsEnough (p := p) whole
  refine ⟨multiplied, fun rounds => ?_⟩
  obtain baseFinite | quiet := finiteOrQuiet multiplied.proper
  · exact (endlessStalls baseFinite finite count enough endless).endless baseFinite finite rounds
  · exact quietEndless quiet finite count enough endless rounds

theorem isExponentRaises : Raises Signal.Refused (isExponent exponent) := by
  refine lessRaises.bind fun negative _ => ?_
  cases negative with
  | false => exact raisesOk _
  | true => exact raisesOk _

theorem isZeroOrOneRaises : Raises Signal.Refused (isZeroOrOne base) := by
  refine equalRaises.bind fun isZero _ => ?_
  cases isZero with
  | false => exact equalRaises
  | true => exact raisesOk _

theorem checkLimitRaises (limited : Limited base exponent) :
    Raises (PowerFault p (some most) base exponent) (checkLimit (some most) base exponent) := by
  refine (orFaultRaises (fun _ => .signal) lessRaises).bind fun above more => ?_
  cases above with
  | false => exact raisesOk _
  | true =>
    refine raisesError ?_
    cases long : Text.isTooLong most with
    | false =>
      rw [aboveLimit, long]
      exact .refusal rfl
    | true =>
      rw [aboveLimit, long]
      exact .numberTooLong ⟨limited, most, rfl, long, signalOk more⟩

theorem minusOneToRaises {limit : Option Int} (whole : isExponent exponent = .ok true)
    (signed : equal? base minusOne = .ok true) :
    Raises (PowerFault p limit base exponent) (minusOneTo exponent) := by
  obtain ⟨_, n, _, found⟩ | rfl := countOrInfinite whole
  · simp only [minusOneTo, found]
    exact raisesOk _
  · exact raisesError (.infiniteWhole ⟨signed, rfl⟩)

theorem powerStages {limit : Option Int} {errors : Fault → Prop}
    (signals : ∀ s : Signal, s.Refused → errors (.signal s))
    (noCount : errors (.refusal (.exponentNotWhole base exponent)))
    (parity : isExponent exponent = .ok true → equal? base minusOne = .ok true →
      Raises errors (minusOneTo exponent))
    (above : Limited base exponent → Raises errors (checkLimit limit base exponent))
    (products : Multiplied limit base exponent →
      Raises errors (multiplyDown p base (enoughRounds p exponent) one exponent)) :
    Raises errors (power p limit base exponent) := by
  refine (orFaultRaises signals isExponentRaises).bind fun whole count => ?_
  cases whole with
  | false => exact raisesError noCount
  | true =>
    refine (orFaultRaises signals equalRaises).bind fun isZero nonzero => ?_
    cases isZero with
    | true => exact raisesOk one
    | false =>
      refine (orFaultRaises signals isZeroOrOneRaises).bind fun simple proper => ?_
      cases simple with
      | true => exact orFaultRaises signals plusRaises
      | false =>
        refine (orFaultRaises signals equalRaises).bind fun minus signed => ?_
        cases minus with
        | true => exact parity (signalOk count) (signalOk signed)
        | false =>
          have limited : Limited base exponent :=
            ⟨signalOk count, signalOk nonzero, signalOk proper, signalOk signed⟩
          exact (above limited).bind fun _ within => products ⟨limited, within⟩

theorem powerRaises (p : Precision) (most : Int) (base exponent : Decimal) :
    Raises (PowerFault p (some most) base exponent) (power p (some most) base exponent) := by
  refine powerStages (fun _ => .signal) (.refusal rfl) minusOneToRaises checkLimitRaises ?_
  intro multiplied f fails
  obtain rfl | ⟨s, rfl, refused⟩ := multiplyDownRaises _ f fails
  · exact .endless (multiplied.endless fails)
  · exact .signal refused

theorem isZeroOrOneMinusOne (signed : equal? base minusOne = .ok true) : isZeroOrOne base = .ok false := by
  have finite : base.isFinite = true := by
    cases base with
    | finite s c e => rfl
    | infinite s => cases signed
    | nan s q n => cases q <;> cases signed
  have value : base.rational = -1 := by
    rw [equalRational (b := minusOne) finite rfl, rationalMinusOne] at signed
    exact of_decide_eq_true (Except.ok.inj signed)
  rw [isZeroOrOneRational finite, value, decide_eq_false (by norm_num)]

theorem powerNoParity (p : Precision) (limit : Option Int) (noParity : NoParity base exponent) :
    power p limit base exponent = .error .infiniteWhole := by
  obtain ⟨signed, rfl⟩ := noParity
  simp only [power, isZeroOrOneMinusOne signed, signed]
  rfl

theorem powerEndless {limit : Option Int} (endless : Endless p limit base exponent) :
    power p limit base exponent = .error .endless := by
  obtain ⟨multiplied, products⟩ := endless
  rw [powerLimited multiplied.toLimited, multiplied.within]
  exact products _

theorem powerUntold {limit : Option Int} (p : Precision) (untold : Untold limit base exponent) :
    power p limit base exponent = .error .numberTooLong := by
  obtain ⟨most, rfl, long, more⟩ := untold.above
  have checked : checkLimit (some most) base exponent = .error .numberTooLong := by
    simp only [checkLimit, more, aboveLimit, long]
    rfl
  rw [powerLimited untold.toLimited, checked]
  rfl

theorem isTooLongIff {n : Int} : Text.isTooLong n = true ↔ tenTo Text.longestNumber ≤ n.natAbs := by
  rw [Text.isTooLong, decide_eq_true_eq, ← digitCountWritten, ← not_le, digitCountLe (by decide), not_lt]

theorem untoldAbove {n : ℕ} (baseFinite : base.isFinite = true) (exponentFinite : exponent.isFinite = true)
    (count : exponent.rational = n) (nonzero : n ≠ 0)
    (proper : base.rational ≠ 0 ∧ base.rational ≠ 1 ∧ base.rational ≠ -1) (more : most < n)
    (long : Text.isTooLong most = true) : Untold (some most) base exponent := by
  have above := lessRational (a := ofInt most) rfl exponentFinite
  rw [rationalOfInt, count, decide_eq_true (by exact_mod_cast more)] at above
  obtain ⟨_, noCount⟩ | ⟨yes, _⟩ := isExponentCases exponentFinite
  · exact absurd ⟨n, count⟩ noCount
  · have limited := limitedFinite baseFinite exponentFinite yes (by rw [count]; exact_mod_cast nonzero) proper
    exact ⟨limited, most, rfl, long, above⟩

end Reckon.Decimal

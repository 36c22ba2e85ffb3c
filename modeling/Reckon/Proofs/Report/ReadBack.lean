import Reckon.Proofs.Decimal.Common
import Reckon.Proofs.Report.Faults
import Reckon.Proofs.Tree.Exact
import Reckon.Proofs.Yard.Rules
/-! Printed results as texts. A result that is not negative is a numeral, which is taken as it stands. A
negative one was computed, so the precision can hold it, and zero minus its size is exact. -/
namespace Reckon
open Decimal Token

namespace Yard
variable {m n : String} {a b : Decimal}

theorem orderNumber (rule : Rule) (reads : readLiteral n = .ok a) :
    order rule [⟨.number, n⟩] = .ok [.operand a] := by
  have fed : feed receive (empty rule) [⟨.number, n⟩] = (⟨rule, pending [], #[.operand a]⟩, none) :=
    feedTaken (receiveNumber n a reads (empty rule))
  exact orderFinished fed (finishPending rule [] _)

theorem orderPair (rule : Rule) (o : Operator) (first : readLiteral m = .ok a) (second : readLiteral n = .ok b) :
    order rule [⟨.number, m⟩, ⟨.operator, o.symbol⟩, ⟨.number, n⟩] =
      .ok (Tree.node o (.leaf a) (.leaf b)).postorder := by
  have fed : feed receive (empty rule) [⟨.number, m⟩, ⟨.operator, o.symbol⟩, ⟨.number, n⟩] =
      (⟨rule, pending [o], #[.operand a, .operand b]⟩, none) := by
    rw [feedTaken (receiveNumber m a first _), feedTaken (receiveOperator ..),
      feedTaken (receiveNumber n b second _)]
    cases rule <;> rfl
  exact orderFinished fed (finishPending rule [o] _)

end Yard

namespace Decimal
variable {body : List Char} {x : ℚ}

theorem Spells.fits (spells : Spells body x) : Fits ⟨.number, String.ofList body⟩ := by
  refine ⟨by simpa using spells.present, ?_, fun single => nomatch single⟩
  intro c member
  rw [String.toList_ofList] at member
  exact classOfDigit (spells.plain c member)

theorem Spells.literal (spells : Spells body x) :
    ∃ d, Yard.readLiteral (String.ofList body) = .ok d ∧ d.isFinite = true ∧ d.rational = x := by
  obtain ⟨d, reads, finite, value⟩ := spells.reads
  exact ⟨d, by simp only [Yard.readLiteral, reads], finite, value⟩

theorem Spells.munched (spells : Spells body x) : munch body = [⟨.number, String.ofList body⟩] := by
  have ends : CharClass.ofNext [] ≠ .digit := by decide
  have cut := munchFits spells.fits fun _ => ends
  rw [String.toList_ofList, List.append_nil] at cut
  exact cut

theorem Spells.readable (spells : Spells body x) : Readable body := by
  simpa using fitsReadable spells.fits

theorem zeroFits : Fits ⟨.number, "0"⟩ := by decide

theorem minusFits : Fits ⟨.operator, "-"⟩ := by decide

theorem Spells.readableNegated (spells : Spells body x) : Readable ('0' :: '-' :: body) := by
  have behind : Readable ('-' :: body) :=
    List.forall_mem_append.mpr ⟨fitsReadable minusFits, spells.readable⟩
  exact List.forall_mem_append.mpr ⟨fitsReadable zeroFits, behind⟩

theorem Spells.munchNegated (spells : Spells body x) :
    munch ('0' :: '-' :: body) = [⟨.number, "0"⟩, ⟨.operator, "-"⟩, ⟨.number, String.ofList body⟩] := by
  have first : CharClass.ofNext ('-' :: body) ≠ .digit := (by decide : CharClass.ofChar '-' ≠ .digit)
  have second : CharClass.ofNext body ≠ .operator := by
    obtain ⟨c, rest, rfl⟩ := List.exists_cons_of_ne_nil spells.present
    rw [CharClass.ofNext, classOfDigit (spells.plain c List.mem_cons_self)]
    decide
  have atZero := munchFits zeroFits fun _ => first
  have atMinus := munchFits minusFits fun _ => second
  calc munch ('0' :: '-' :: body)
    _ = ⟨.number, "0"⟩ :: munch ('-' :: body) := atZero
    _ = ⟨.number, "0"⟩ :: ⟨.operator, "-"⟩ :: munch body := congrArg _ atMinus
    _ = _ := by rw [spells.munched]

end Decimal

namespace Report
variable {s : Settings} {text : String} {r : Report}

def ReadsBack (s : Settings) (r : Report) (text : String) : Prop :=
  ∃ again, Report.of s text = .ok again ∧ equal? again.result r.result = .ok true ∧
    again.formatted = r.formatted

theorem ofTree (made : Report.of s text = .ok r) :
    ∃ t : Tree Decimal, (∀ d, .operand d ∈ t.postorder → d.Unsigned) ∧
      t.value s.digits (some s.maxExponent) = .ok r.result := by
  obtain ⟨i, taken, evaluated, _⟩ := ofOk made
  obtain ⟨ordered, reads⟩ := takeInRecorded taken
  obtain ⟨t, order, valued⟩ := Tree.treeOfEvaluated evaluated
  exact ⟨t, order ▸ Yard.orderUnsigned ordered reads, valued⟩

theorem resultFinite (made : Report.of s text = .ok r) : r.result.isFinite = true := by
  obtain ⟨t, unsigned, valued⟩ := ofTree made
  exact Tree.valueFinite (fun d member => (unsigned d member).finite) valued

theorem negativeHeld (made : Report.of s text = .ok r) (negative : r.result.rational < 0) :
    r.result.Held s.digits := by
  obtain ⟨t, unsigned, valued⟩ := ofTree made
  cases t with
  | leaf d =>
    cases valued
    obtain ⟨c, e, form, _⟩ := unsigned r.result (List.mem_singleton.mpr rfl)
    rw [form] at negative
    exact absurd (unsignedNonneg c e) (not_le.mpr negative)
  | node o left right => exact Tree.valueHeld (fun d member => (unsigned d member).finite) valued

theorem readsBackOf {chars : List Char} {ts : List Token} {t : Tree Decimal} {v : Decimal}
    (made : Report.of s text = .ok r) (readable : Readable chars) (tokens : munch chars = ts)
    (noWords : ∀ u ∈ ts, u.kind ≠ .word) (ordered : Yard.order s.rule ts = .ok t.postorder)
    (valued : t.value s.digits (some s.maxExponent) = .ok v) (finite : v.isFinite = true)
    (same : v.rational = r.result.rational) : ReadsBack s r (String.ofList chars) := by
  have resultFinite := resultFinite made
  rw [← String.toList_ofList (l := chars)] at readable tokens
  rw [← Phrase.streamNoWords noWords, ← tokens] at ordered
  rw [← Tree.evaluateTree] at valued
  obtain ⟨again, found, _, rfl⟩ := (ofReadable readable ordered).1 v valued finite
  obtain ⟨_, _, _, formatted, _⟩ := ofOk made
  obtain ⟨_, _, _, formattedAgain, _⟩ := ofOk found
  refine ⟨again, found, ?_, ?_⟩
  · rw [equalRational finite resultFinite, decide_eq_true same]
  · rw [commonOfRational finite resultFinite same, formatted] at formattedAgain
    exact (Except.ok.inj formattedAgain).symm

theorem numeralReadsBack {body : List Char} (made : Report.of s text = .ok r)
    (spells : Spells body r.result.rational) : ReadsBack s r (String.ofList body) := by
  obtain ⟨d, literal, finite, value⟩ := spells.literal
  have ordered := Yard.orderNumber s.rule literal
  exact readsBackOf (t := .leaf d) made spells.readable spells.munched (by simp) ordered rfl
    finite value

theorem negatedReadsBack {body : List Char} (made : Report.of s text = .ok r)
    (negative : r.result.rational < 0) (spells : Spells body |r.result.rational|) :
    ReadsBack s r (String.ofList ('0' :: '-' :: body)) := by
  obtain ⟨d, literal, finite, value⟩ := spells.literal
  have zeroLiteral : Yard.readLiteral "0" = .ok zero := by decide
  have ordered := Yard.orderPair s.rule .minus zeroLiteral literal
  have held := negativeHeld made negative
  have admitted : (s.digits.digits : ℤ) ≤ Precision.limit := by
    have range := s.precisionRange
    simp only [Settings.digits, Precision.limit]
    omega
  have comes : Operator.Exactly s.digits (some s.maxExponent) .minus 0 |r.result.rational|
      (0 - |r.result.rational|) := .minus ..
  have difference : 0 - |r.result.rational| = r.result.rational := by
    rw [abs_of_neg negative, zero_sub, neg_neg]
  rw [difference] at comes
  obtain ⟨v, found, valueFinite, same⟩ := Operator.exactOutcome admitted rfl finite rationalZero value comes
    held.representable held.within
  have valued : (Tree.node .minus (.leaf zero) (.leaf d)).value s.digits (some s.maxExponent) = .ok v := found
  exact readsBackOf made spells.readableNegated spells.munchNegated (by simp) ordered valued valueFinite
    same

/-- A printed result reads back as that result and is printed the same again; a zero is put before the sign
of a negative one. -/
theorem printedReadsBack (made : Report.of s text = .ok r) :
    (less? r.result zero = .ok false ∧ ReadsBack s r r.formatted) ∨
      less? r.result zero = .ok true ∧ ReadsBack s r ("0" ++ r.formatted) := by
  have finite := resultFinite made
  have question := lessRational (b := zero) finite rfl
  obtain ⟨_, _, _, formatted, _⟩ := ofOk made
  obtain ⟨body, common, spells⟩ := commonSpells finite
  have printed := Except.ok.inj (formatted.symm.trans common)
  rw [rationalZero] at question
  by_cases negative : r.result.rational < 0
  · rw [decide_eq_true negative] at question printed
    have whole : "0" ++ r.formatted = String.ofList ('0' :: '-' :: body) := by
      rw [printed, ← String.toList_inj]
      simp [signText]
    exact .inr ⟨question, whole ▸ negatedReadsBack made negative spells⟩
  · rw [decide_eq_false negative] at question printed
    rw [abs_of_nonneg (not_lt.mp negative)] at spells
    exact .inl ⟨question, printed ▸ numeralReadsBack made spells⟩

theorem printedReadsBackHalf :
    ∃ r, Report.of .usual "1 - 3 * 0.50" = .ok r ∧ r.formatted = "-0.5" ∧ ReadsBack .usual r "0-0.5" := by
  let r : Report := ⟨"1 - 3 * 0.50", .finite true 50 (-2), "-0.5", ["1", "3", "0.50", "*", "-"],
    [⟨.number, "1"⟩, ⟨.operator, "-"⟩, ⟨.number, "3"⟩, ⟨.operator, "*"⟩, ⟨.number, "0.50"⟩]⟩
  have made : Report.of .usual "1 - 3 * 0.50" = .ok r := by decide +kernel
  refine ⟨r, made, rfl, ?_⟩
  obtain ⟨notBelow, _⟩ | ⟨_, back⟩ := printedReadsBack made
  · have below : less? r.result zero = .ok true := by decide
    cases below.symm.trans notBelow
  · exact back

end Report
end Reckon

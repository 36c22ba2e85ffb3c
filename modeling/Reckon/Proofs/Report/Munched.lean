import Reckon.Proofs.Intake
import Reckon.Proofs.Token.Munch
import Reckon.Proofs.Tree.Finite
/-! The report on a text by its tokens: what the intake makes of a text is what it makes of the tokens that
are munched off it, one after the other. -/
namespace Reckon.Report
open Token
variable {s : Settings} {text : String} {ts : List Token} {elements : List Element}

def takeRest (i : Intake) (position : Nat) : List Char → Intake × Option Fault
  | a :: _ => (i, some (.refusal (.unrecognized a position)))
  | [] =>
    match i.closePhrase with
    | (i, none) => i.finishYard
    | refused => refused

theorem takeInText {before rest : List Char} (whole : text.toList = before ++ rest)
    (readable : Readable before) (stops : ∀ a ∈ rest.head?, CharClass.ofChar a = .unrecognized) :
    takeIn s text =
      match feed Intake.receive (.empty s.tokenLevel s.rule) (munch before) with
      | (i, none) => takeRest i before.length rest
      | refused => refused := by
  have told := Cursor.scanTold Intake.receive (.empty s.tokenLevel s.rule) whole readable stops
  obtain ⟨receiver, halt⟩ := Prod.mk.inj told
  simp only [takeIn, receiver, halt]
  cases feed Intake.receive (.empty s.tokenLevel s.rule) (munch before) with
  | mk i fault => cases fault <;> cases rest <;> rfl

theorem takeInReadable (readable : Readable text.toList) :
    takeIn s text =
      match (Intake.empty s.tokenLevel s.rule).takeAll (munch text.toList) with
      | (i, none) => i.finishYard
      | refused => refused := by
  have taken := takeInText (s := s) (List.append_nil _).symm readable endStops
  rw [taken]
  unfold Intake.takeAll
  cases feed Intake.receive (.empty s.tokenLevel s.rule) (munch text.toList) with
  | mk i fault => cases fault <;> rfl

theorem takeInOrdered (readable : Readable text.toList)
    (ordered : Yard.order s.rule ((Phrase.stream #[] (munch text.toList)).map Phrase.Item.token) =
      .ok elements) :
    ∃ i, takeIn s text = (i, none) ∧ i.yard.output.toList = elements := by
  let start := Intake.empty s.tokenLevel s.rule
  obtain ⟨y, z, fed, finished, output⟩ := Yard.orderOk ordered
  have fromStart : feed Yard.receive start.yard
    ((Phrase.stream start.phrase (munch text.toList)).map _) = (y, none) := fed
  obtain ⟨yard, outcome⟩ := start.takeAllYard (munch text.toList)
  rw [fromStart] at yard outcome
  rw [takeInReadable readable]
  cases all : start.takeAll (munch text.toList) with
  | mk i fault =>
    rw [all] at yard outcome
    obtain rfl : fault = none := outcome
    obtain rfl : i.yard = y := yard
    simp only [Intake.finishYard, finished]
    exact ⟨_, rfl, output⟩

theorem failedFault (text : String) (journal : Journal) (f : Fault) :
    (failed text journal f).1 = .error f := by
  cases f <;> rfl

theorem ofStopped {i : Intake} {f : Fault} (stopped : takeIn s text = (i, some f)) :
    Report.of s text = .error f := by
  simp only [Report.of, run, stopped]
  exact failedFault ..

theorem ofTakenIn {i : Intake} (taken : takeIn s text = (i, none)) : Report.of s text =
    match evaluatePostfix s.digits (some s.maxExponent) i.yard.output.toList with
    | .error f => .error f
    | .ok v => match v.common with
      | .error signal => .error (.signal signal)
      | .ok formatted => .ok ⟨text, v, formatted, i.yard.output.toList.map Element.text, i.record.toList⟩ := by
  simp only [Report.of, run, taken]
  cases evaluatePostfix s.digits (some s.maxExponent) i.yard.output.toList with
  | error f => exact failedFault ..
  | ok v =>
    simp only
    cases v.common <;> rfl

theorem ofTaken {i : Intake} (taken : takeIn s text = (i, none)) :
    (∀ v, evaluatePostfix s.digits (some s.maxExponent) i.yard.output.toList = .ok v →
      v.isFinite = true → ∃ r, Report.of s text = .ok r ∧
        r.postfixTexts = i.yard.output.toList.map Element.text ∧ r.result = v) ∧
    (∀ f, evaluatePostfix s.digits (some s.maxExponent) i.yard.output.toList = .error f →
      Report.of s text = .error f) := by
  rw [ofTakenIn taken]
  constructor
  · intro v evaluated finite
    obtain ⟨formatted, common⟩ := Decimal.commonFinite finite
    simp only [evaluated, common]
    exact ⟨_, rfl, rfl, rfl⟩
  · intro f failing
    simp only [failing]

theorem ofReadable (readable : Readable text.toList)
    (ordered : Yard.order s.rule ((Phrase.stream #[] (munch text.toList)).map Phrase.Item.token) =
      .ok elements) :
    (∀ v, evaluatePostfix s.digits (some s.maxExponent) elements = .ok v → v.isFinite = true →
      ∃ r, Report.of s text = .ok r ∧ r.postfixTexts = elements.map Element.text ∧ r.result = v) ∧
    (∀ f, evaluatePostfix s.digits (some s.maxExponent) elements = .error f →
      Report.of s text = .error f) := by
  obtain ⟨i, taken, rfl⟩ := takeInOrdered readable ordered
  exact ofTaken taken

theorem ofOrdered (spaced : Spaced ts text.toList)
    (ordered : Yard.order s.rule ((Phrase.stream #[] ts).map Phrase.Item.token) = .ok elements) :
    (∀ v, evaluatePostfix s.digits (some s.maxExponent) elements = .ok v → v.isFinite = true →
      ∃ r, Report.of s text = .ok r ∧ r.postfixTexts = elements.map Element.text ∧ r.result = v) ∧
    (∀ f, evaluatePostfix s.digits (some s.maxExponent) elements = .error f →
      Report.of s text = .error f) := by
  rw [← spaced.munch] at ordered
  exact ofReadable spaced.readable ordered

end Reckon.Report

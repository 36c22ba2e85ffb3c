import Reckon.Proofs.Report.Certified
import Reckon.Proofs.Report.Unknown
import Reckon.Proofs.Token.Lowered
/-! The case of letters makes no difference to a report. A text and the same text in lower case are taken in
in step; what each of them records are its tokens in the case in which they came. -/
namespace Reckon
open Token

namespace Intake
variable {i j : Intake}

theorem Alike.symm (alike : Alike i j) : Alike j i :=
  ⟨alike.phrase.symm, alike.yard.symm, alike.record.symm⟩

theorem receivePart {t u : Token} (same : t.part = u.part) (i : Intake) : i.receive t = i.receive u := by
  have taken : i.phrase.take t = i.phrase.take u := by rw [Phrase.takePart, Phrase.takePart, same]
  simp only [receive, taken]

theorem receiveLowered (alike : Alike i j) (t : Token) : InStep (i.receive t) (j.receive t.lowered) := by
  have part := partLowered t
  cases origin : t.part with
  | barrier u | number w =>
    rw [origin] at part
    rw [← receivePart (origin.trans part.symm) j]
    exact receiveInStep alike t
  | unknown lexeme =>
    rw [origin] at part
    obtain ⟨k, taken, first⟩ := i.receiveUnknown (t := t) (by rw [knownPart, origin])
    obtain ⟨k', taken', second⟩ := j.receiveUnknown (t := t.lowered) (by rw [knownPart, part]; rfl)
    rw [taken, taken']
    exact .mk ((first.trans alike).trans second.symm)

theorem feedLowered (alike : Alike i j) (ts : List Token) :
    InStep (feed receive i ts) (feed receive j (ts.map lowered)) := by
  induction ts generalizing i j with
  | nil => exact .mk alike
  | cons t ts ih =>
    have step := receiveLowered alike t
    rw [List.map_cons]
    unfold feed
    generalize i.receive t = x at step
    generalize j.receive t.lowered = y at step
    cases step with
    | @mk _ _ fault between =>
      cases fault with
      | none => exact ih between
      | some f => exact .mk between

end Intake

namespace Report
open Intake Phrase
variable {s : Settings} {text : String} {i j : Intake}

theorem takeInLowered (s : Settings) (text : String) :
    InStep (takeIn s text) (takeIn s (lower text)) := by
  obtain ⟨before, rest, whole, readable, stops⟩ := readableCut text.toList
  have head : (rest.map Char.toLower).head? = rest.head? := by
    cases rest with
    | nil => rfl
    | cons a rest =>
      have other : CharClass.ofChar a ≠ .letter := by simp [stops a rfl]
      rw [List.map_cons, CharClass.lowerLetter other]
      rfl
  have whole' : (lower text).toList = before.map Char.toLower ++ rest.map Char.toLower := by
    rw [lowerToList, whole, List.map_append]
  have fed := feedLowered (Alike.refl (.empty s.tokenLevel s.rule)) (munch before)
  rw [takeInText whole readable stops, takeInText whole' (readableLower readable) (head ▸ stops),
    (munchedWhole readable).lowered rfl, List.length_map]
  exact fed.andThen fun alike => restInStep alike before.length head

theorem recordLowered (taken : takeIn s text = (i, none)) (lowerTaken : takeIn s (lower text) = (j, none)) :
    j.record.toList = i.record.toList.map lowered := by
  obtain ⟨readable, record⟩ := takeInStream taken
  obtain ⟨_, lowerRecord⟩ := takeInStream lowerTaken
  rw [lowerRecord, record, lowerToList, (munchedWhole readable).lowered rfl, streamLowered]

structure Told where
  result : Decimal
  formatted : String
  postfixTexts : List String
  tokens : List Token

def told (r : Report) : Told := ⟨r.result, r.formatted, r.postfixTexts, r.tokens.map lowered⟩

theorem toldLower (s : Settings) (text : String) :
    (Report.of s text).map told = (Report.of s (lower text)).map told := by
  have step := takeInLowered s text
  cases taken : takeIn s text with
  | mk i fault =>
    cases lowerTaken : takeIn s (lower text) with
    | mk j fault' =>
      rw [taken, lowerTaken] at step
      cases step with
      | mk alike =>
        cases fault with
        | some f => rw [ofStopped taken, ofStopped lowerTaken]
        | none =>
          have twice : (i.record.toList.map lowered).map lowered = i.record.toList.map lowered := by
            rw [List.map_map]
            exact List.map_congr_left fun t _ => loweredLowered t
          rw [ofTakenIn taken, ofTakenIn lowerTaken, ← alike.yard, recordLowered taken lowerTaken]
          cases evaluatePostfix s.digits (some s.maxExponent) i.yard.output.toList with
          | error f => rfl
          | ok v =>
            simp only
            cases v.common with
            | error signal => rfl
            | ok formatted => simp only [Except.map, told, twice]

theorem letterCase (s : Settings) {text other : String} (same : lower text = lower other) :
    (Report.of s text).map told = (Report.of s other).map told := by
  rw [toldLower s text, toldLower s other, same]

theorem letterCaseWords : lower "Twenty ONE plus X 1e5" = lower "tWENTY one PLUS x 1E5" ∧
    (Report.of .usual "Twenty ONE plus X 1e5").map told =
      (Report.of .usual "tWENTY one PLUS x 1E5").map told := by
  have same : lower "Twenty ONE plus X 1e5" = lower "tWENTY one PLUS x 1E5" := by decide
  exact ⟨same, letterCase .usual same⟩

end Report
end Reckon

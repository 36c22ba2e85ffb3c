import Reckon.Proofs.Phrase.Running
import Reckon.Proofs.Phrase.Written
import Reckon.Proofs.Report.ReadBack
/-! A text that is one phrase. Its result is the number of the phrase as it stands: no operator is applied, so
that the precision of the expression has no part in it. -/
namespace Reckon
open Phrase Decimal
variable {ws : List NumberWord} {ts : List Token} {text : String}

theorem Phrase.streamSpoken (words : List.Forall₂ NumberWord.SpeltBy ws ts) (nonempty : ws ≠ []) :
    (stream #[] ts).map Item.token = [⟨.number, (number ws).text⟩] := by
  have streamed := streamWords words #[] []
  rw [List.append_nil] at streamed
  rw [streamed]
  simp [stream, closing, nonempty, Item.token]

theorem Phrase.orderSpoken (rule : Rule) (words : List.Forall₂ NumberWord.SpeltBy ws ts) (nonempty : ws ≠ []) :
    Yard.order rule ((stream #[] ts).map Item.token) = .ok [.operand (number ws)] := by
  rw [streamSpoken words nonempty]
  exact Yard.orderNumber rule (numberReads ws)

/-- Whatever the settings, the words of a phrase with blanks between them come to the sum of what their pairs
contribute, rounded to the usual precision after each addition. This is the sum over the pairs if nothing is
lost on the way to it, as nothing is up to ten to the 28. -/
theorem Report.ofSpoken (s : Settings) (words : List.Forall₂ NumberWord.SpeltBy ws ts) (nonempty : ws ≠ [])
    (spaced : Spaced ts text.toList) :
    ∃ r, Report.of s text = .ok r ∧ r.result.rational = runningSum .usual 0 (addends ws) ∧
      (equal? r.result (.ofNat (pairSum ws)) = .ok true ↔
        runningSum .usual 0 (addends ws) = pairSum ws) ∧
      ((∀ part, part <+: addends ws → Representable .usual (part.sum : ℚ)) →
        equal? r.result (.ofNat (pairSum ws)) = .ok true) ∧
      (pairSum ws ≤ tenTo 28 → equal? r.result (.ofNat (pairSum ws)) = .ok true) := by
  obtain ⟨finite, value⟩ := numberRuns ws
  obtain ⟨r, made, _, result⟩ := (ofOrdered spaced (orderSpoken s.rule words nonempty)).1 (number ws) rfl finite
  have same : equal? r.result (.ofNat (pairSum ws)) = .ok true ↔
      runningSum .usual 0 (addends ws) = pairSum ws := by
    rw [result, equalRational finite rfl, value, rationalOfNat]
    simp
  refine ⟨r, made, result ▸ value, same, ?_, ?_⟩
  · intro held
    exact same.mpr (runsExactly held)
  · intro few
    exact same.mpr (runsExactly (heldOfFew few))

theorem Report.ofSpokenLong :
    ∃ r, Report.of { precision := 30 } "QUINTILLION billion ninety Nine" = .ok r ∧
      equal? r.result (.ofNat 1000000000000000000000000099) = .ok true := by
  let ts : List Token := [⟨.word, "QUINTILLION"⟩, ⟨.word, "billion"⟩, ⟨.word, "ninety"⟩, ⟨.word, "Nine"⟩]
  have words : List.Forall₂ NumberWord.SpeltBy [.quintillion, .billion, .ninety, .nine] ts :=
    .cons ⟨rfl, by decide⟩ (.cons ⟨rfl, by decide⟩ (.cons ⟨rfl, by decide⟩ (.cons ⟨rfl, by decide⟩ .nil)))
  have spaced : Spaced ts "QUINTILLION billion ninety Nine".toList := spacedJoined (by decide)
  obtain ⟨r, made, _, _, _, few⟩ := Report.ofSpoken { precision := 30 } words (by simp) spaced
  exact ⟨r, made, few (by decide)⟩

/- A precision of 50 would hold the sum of 37 digits, and the expression is evaluated in it, but the last one
has been rounded off before. -/

theorem Report.spokenBeyond : digitCount (pairSum [.quintillion, .quintillion, .one, .one]) = 37 ∧
    ∃ r, Report.of { precision := 50 } "quintillion quintillion one one" = .ok r ∧
      equal? r.result (.ofNat (pairSum [.quintillion, .quintillion, .one, .one])) = .ok false := by
  have made : Report.of { precision := 50 } "quintillion quintillion one one" = .ok
      ⟨"quintillion quintillion one one", .finite false 1000000000000000000000000000 9,
        "1000000000000000000000000000000000000", ["1.000000000000000000000000000E+36"],
        [⟨.number, "1.000000000000000000000000000E+36"⟩]⟩ := by decide +kernel
  exact ⟨by decide +kernel, _, made, by decide +kernel⟩

end Reckon

import Reckon.Phrase
import Reckon.Proofs.Decimal.Ceiling
import Reckon.Proofs.Decimal.Reading
/-! The number of a phrase. However long the phrase, its number is whole and at most ten to the 64, so
that no signal stops the folding. -/
namespace Reckon.Phrase
open Decimal

theorem numberAtMost (w : NumberWord) : AtMost 18 w.number :=
  ⟨w.value, 0, rfl, by simpa [tenTo] using w.valueLe, fun _ => Nat.zero_le _⟩

theorem leadAtMost {sum : Decimal} (small : AtMost 64 sum) (w : NumberWord) :
    ∃ s f, lead sum w = .ok (s, f) ∧ AtMost 64 s ∧ AtMost 18 f := by
  by_cases ty : w.endsInTy = true
  · obtain ⟨s, added, within⟩ := addAtMost (p := .usual) (m := 36) (by decide) small
      (numberAtMost w) (Nat.add_le_add_left (tenToLe (by decide)) _)
    have oneSmall : AtMost 18 one := ⟨1, 0, rfl, by decide, by decide⟩
    exact ⟨s, one, by simp only [lead, ty, if_true, added]; rfl, within, oneSmall⟩
  · exact ⟨sum, w.number, by simp only [lead, ty]; rfl, small, numberAtMost w⟩

theorem foldFromAtMost : ∀ (ws : List NumberWord) {sum : Decimal}, AtMost 64 sum →
    ∃ d, foldFrom sum ws = .ok d ∧ AtMost 64 d
  | [], sum, small => ⟨sum, rfl, small⟩
  | [w], sum, small => by
    obtain ⟨s, f, led, sumSmall, factorSmall⟩ := leadAtMost small w
    obtain ⟨d, added, within⟩ := addAtMost (p := .usual) (m := 36) (by decide) sumSmall
      factorSmall (Nat.add_le_add_left (tenToLe (by decide)) _)
    exact ⟨d, by simp only [foldFrom, led, bind, Except.bind, added], within⟩
  | v :: w :: ws, sum, small => by
    obtain ⟨s, f, led, sumSmall, factorSmall⟩ := leadAtMost small v
    obtain ⟨product, multiplied, productSmall⟩ := mulAtMost (p := .usual) (m := 8) (by decide)
      factorSmall (numberAtMost w) (by decide)
    obtain ⟨next, added, nextSmall⟩ := addAtMost (p := .usual) (m := 36) (by decide) sumSmall
      productSmall (Nat.le_refl _)
    obtain ⟨d, folded, within⟩ := foldFromAtMost ws nextSmall
    exact ⟨d, by simp only [foldFrom, led, bind, Except.bind, multiplied, added, folded], within⟩

theorem foldAtMost (ws : List NumberWord) : ∃ d, fold ws = .ok d ∧ AtMost 64 d :=
  foldFromAtMost ws ⟨0, 0, rfl, by simp, by decide⟩

def number (ws : List NumberWord) : Decimal :=
  match fold ws with
  | .ok d => d
  | .error _ => zero

theorem foldNumber (ws : List NumberWord) : fold ws = .ok (number ws) := by
  obtain ⟨d, folded, _⟩ := foldAtMost ws
  simp only [number, folded]

theorem numberForm (ws : List NumberWord) :
    ∃ c e : Nat, number ws = .finite false c e ∧ e + digitCount c ≤ 1000000 := by
  obtain ⟨d, folded, small⟩ := foldAtMost ws
  obtain ⟨c, e, rfl, place⟩ := small.place (by decide)
  exact ⟨c, e, by simp only [number, folded], place⟩

theorem numberReads (ws : List NumberWord) : Yard.readLiteral (number ws).text = .ok (number ws) := by
  obtain ⟨c, e, form, place⟩ := numberForm ws
  rw [form]
  exact Yard.readLiteralText false (.inr (by unfold highestPlace; omega))

end Reckon.Phrase

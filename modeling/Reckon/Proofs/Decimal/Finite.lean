import Reckon.Decimal.Notation
import Reckon.Decimal.Numeral
import Reckon.Postfix.Power
import Reckon.Proofs.Outcome
/-! Finite numbers. -/
namespace Reckon.Decimal
variable {d : Decimal}

theorem finiteForm (finite : d.isFinite = true) : ∃ s c e, d = .finite s c e := by
  cases d with
  | finite s c e => exact ⟨s, c, e, rfl⟩
  | infinite s => cases finite
  | nan s q n => cases finite

theorem oneFinite : one.isFinite = true := rfl

theorem oppositeFinite (finite : d.isFinite = true) : (opposite d).isFinite = true := by
  obtain ⟨s, c, e, rfl⟩ := finiteForm finite
  rfl

def Unsigned (d : Decimal) : Prop :=
  ∃ c e, d = .finite false c e ∧ (e ≤ 0 ∨ e + digitCount c ≤ highestPlace + 1)

theorem Unsigned.finite (unsigned : d.Unsigned) : d.isFinite = true := by
  obtain ⟨c, e, rfl, _⟩ := unsigned
  rfl

theorem commonFinite (finite : d.isFinite = true) : ∃ s, common d = .ok s := by
  obtain ⟨s, c, e, rfl⟩ := finiteForm finite
  simp only [common, equal?, zero, ofNat, bind, Except.bind]
  split
  · exact ⟨_, rfl⟩
  · exact ⟨_, rfl⟩

end Reckon.Decimal

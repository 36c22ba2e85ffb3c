import Reckon.Proofs.Decimal.Nearest
import Reckon.Proofs.Outcome
/-! What a rounded number looks like, digit by digit: it has no more digits than the precision, none of
them below the smallest place, and its first one is in range. -/
namespace Reckon.Decimal
variable {p : Precision} {d : Decimal} {x : ℚ}

inductive Held (p : Precision) : Decimal → Prop where
  | finite {s : Bool} {c : ℕ} {e : ℤ} (few : c < tenTo p.digits) (above : tiny p ≤ e)
      (below : c ≠ 0 → e + digitCount c - 1 ≤ largestExponent) : Held p (.finite s c e)

theorem Held.isFinite (held : d.Held p) : d.isFinite = true := by
  cases held
  rfl

theorem Held.representable (held : d.Held p) : Representable p |d.rational| := by
  cases held with
  | @finite s c e few above below => exact ⟨c, e, absScaled s c e, few, above⟩

theorem Held.within (held : d.Held p) : |d.rational| < ceiling := by
  cases held with
  | @finite s c e few above below =>
    have ranged : inRange s c e = .ok (.finite s c e) :=
      if_neg fun out => not_lt.mpr (below out.1) out.2
    rw [rational, absScaled]
    obtain ⟨_, overflow⟩ | ⟨small, _⟩ := inRangeCases s c e
    · cases ranged.symm.trans overflow
    · exact small

theorem inRangeHeld {s : Bool} {c : ℕ} {e : ℤ} (few : c < tenTo p.digits) (above : tiny p ≤ e)
    (ranged : inRange s c e = .ok d) : d.Held p := by
  unfold inRange at ranged
  split at ranged
  · cases ranged
  · rename_i within
    cases ranged
    exact .finite few above fun nonzero => not_lt.mp fun beyond => within ⟨nonzero, beyond⟩

theorem roundHeld {s : Bool} {c : ℕ} {e : ℤ} (rounded : round p s c e = .ok d) : d.Held p := by
  by_cases vanishes : c = 0
  · subst vanishes
    rw [roundZero] at rounded
    cases rounded
    have negative := tinyNegative p
    have room : tiny p ≤ largestExponent := negative.le.trans (by decide)
    exact .finite (tenToPos _) (le_min (le_max_right ..) room) (fun nonzero => absurd rfl nonzero)
  · have place : tiny p ≤ lastKept p c e := by
      unfold lastKept
      omega
    have most := keptFew (p := p) c e
    simp only [round, if_neg vanishes] at rounded
    split at rounded
    · have tens := tenToPos p.digits
      exact inRangeHeld (by omega) (by omega) rounded
    · rename_i short
      exact inRangeHeld ((digitCountLe p.pos).mp (not_lt.mp short)) place rounded

theorem Rounding.held (rounding : Rounding p x (.ok d)) : d.Held p := by
  obtain ⟨s, c, e, rounded, _⟩ := rounding
  exact roundHeld rounded.symm

theorem unitHeld (p : Precision) (s : Bool) : Held p (.finite s 1 0) :=
  .finite (Nat.one_lt_pow p.pos.ne' (by norm_num)) (tinyNegative p).le (fun _ => by decide)

theorem signalOk {α : Type} {outcome : Except Signal α} {a : α} (found : orFault outcome = .ok a) :
    outcome = .ok a := by
  cases outcome with
  | error signal => cases found
  | ok b =>
    cases found
    rfl

theorem multiplyDownHeld {base result remaining : Decimal} {rounds : ℕ} (finite : base.isFinite = true)
    (held : result.Held p) (found : multiplyDown p base rounds result remaining = .ok d) : d.Held p := by
  induction rounds generalizing result remaining with
  | zero => cases found
  | succ rounds ih =>
    obtain ⟨more, _, found⟩ := bindOk found
    cases more with
    | false =>
      cases found
      exact held
    | true =>
      obtain ⟨product, multiplied, found⟩ := bindOk found
      obtain ⟨rest, _, found⟩ := bindOk found
      have rounding := mulRounding (p := p) held.isFinite finite
      rw [signalOk multiplied] at rounding
      exact ih rounding.held found

end Reckon.Decimal

import Mathlib.Data.List.Infix
import Reckon.Proofs.Phrase.PairSum
/-! The number of a phrase by its additions. A pair of words is multiplied out without loss; only the sum so
far is rounded, and to the usual precision, whatever precision the expression is evaluated in. -/
namespace Reckon
open Decimal

def NumberWord.addends (w : NumberWord) (n : ℕ) : List ℕ := if w.endsInTy then [w.value, n] else [w.value * n]

namespace Decimal

def runningSum (p : Precision) : ℚ → List ℕ → ℚ := List.foldl fun x n => nearest p (x + n)

variable {p : Precision} {x : ℚ}

theorem runningAppend (p : Precision) (x : ℚ) (ms ns : List ℕ) :
    runningSum p x (ms ++ ns) = runningSum p (runningSum p x ms) ns := List.foldl_append

theorem runningExact {n : ℕ} {ns : List ℕ}
    (held : ∀ part, part <+: ns → Representable p ((n + part.sum : ℕ) : ℚ)) :
    runningSum p n ns = ((n + ns.sum : ℕ) : ℚ) := by
  induction ns generalizing n with
  | nil => rfl
  | cons m ns ih =>
    have first : Representable p ((n + m : ℕ) : ℚ) := by simpa using held [m] ⟨ns, rfl⟩
    have step : nearest p ((n + m : ℕ) : ℚ) = ((n + m : ℕ) : ℚ) :=
      nearestRepresentable (by rwa [abs_of_nonneg (Nat.cast_nonneg' _)])
    have later : ∀ part, part <+: ns → Representable p ((n + m + part.sum : ℕ) : ℚ) := by
      intro part before
      have whole := held (m :: part) ((List.prefix_cons_inj m).mpr before)
      rwa [List.sum_cons, ← add_assoc] at whole
    calc runningSum p n (m :: ns)
      _ = runningSum p ((n + m : ℕ) : ℚ) ns := by rw [runningSum, List.foldl_cons, ← Nat.cast_add, step]
      _ = ((n + m + ns.sum : ℕ) : ℚ) := ih later
      _ = ((n + (m :: ns).sum : ℕ) : ℚ) := by rw [List.sum_cons, add_assoc]

theorem wholeRepresentable {n : ℕ} (few : n ≤ tenTo p.digits) : Representable p (n : ℚ) := by
  simpa using representableUnits (q := 0) few (tinyNegative p).le

theorem prefixSum {part ns : List ℕ} (before : part <+: ns) : part.sum ≤ ns.sum := by
  obtain ⟨rest, rfl⟩ := before
  rw [List.sum_append]
  exact Nat.le_add_right ..

end Decimal

namespace Phrase

def addends : List NumberWord → List ℕ
  | [] => []
  | [w] => w.addends 1
  | v :: w :: ws => v.addends w.value ++ addends ws

theorem sumPaired (w : NumberWord) (n : ℕ) : (w.addends n).sum = w.pairedWith n := by
  unfold NumberWord.addends NumberWord.pairedWith
  split <;> simp

theorem sumAddends : ∀ ws : List NumberWord, (addends ws).sum = pairSum ws
  | [] => rfl
  | [w] => sumPaired w 1
  | v :: w :: ws => by rw [addends, pairSum, List.sum_append, sumPaired, sumAddends ws]

def Short (n : ℕ) : Prop := ∃ a b, n = a * tenTo b ∧ a < 100

theorem shortWord (w : NumberWord) : Short w.value := by
  cases w with
  | hundred => exact ⟨1, 2, rfl, by decide⟩
  | thousand => exact ⟨1, 3, rfl, by decide⟩
  | million => exact ⟨1, 6, rfl, by decide⟩
  | billion => exact ⟨1, 9, rfl, by decide⟩
  | trillion => exact ⟨1, 12, rfl, by decide⟩
  | quadrillion => exact ⟨1, 15, rfl, by decide⟩
  | quintillion => exact ⟨1, 18, rfl, by decide⟩
  | _ => exact ⟨_, 0, (Nat.mul_one _).symm, by decide⟩

theorem shortOne : Short 1 := ⟨1, 0, rfl, by decide⟩

theorem Short.product {m n : ℕ} (left : Short m) (right : Short n) :
    Representable .usual ((m * n : ℕ) : ℚ) := by
  obtain ⟨a, b, rfl, few⟩ := left
  obtain ⟨c, d, rfl, few'⟩ := right
  have small : a * c < tenTo Precision.usual.digits := calc a * c
    _ < 100 * 100 := Nat.mul_lt_mul'' few few'
    _ ≤ tenTo Precision.usual.digits := by decide
  refine ⟨a * c, (b + d : ℕ), ?_, small, (tinyNegative _).le.trans (Int.natCast_nonneg _)⟩
  rw [← tenToCast, ← Nat.cast_mul, tenToAdd]
  congr 1
  ring

variable {sum d : Decimal}

theorem addRuns {a b : Decimal} (left : a.isFinite = true) {n : ℕ} (right : b.isFinite = true)
    (value : b.rational = n) (added : add .usual a b = .ok d) :
    d.isFinite = true ∧ d.rational = runningSum .usual a.rational [n] := by
  have rounding := addRounding (p := .usual) left right
  rw [added, value] at rounding
  exact ⟨rounding.ok.1, rounding.ok.2.1⟩

theorem leadRuns {s f : Decimal} (finite : sum.isFinite = true) {w : NumberWord}
    (led : lead sum w = .ok (s, f)) : s.isFinite = true ∧
      ∃ ns m, s.rational = runningSum .usual sum.rational ns ∧ f = .ofNat m ∧ Short m ∧
        ∀ n, w.addends n = ns ++ [m * n] := by
  unfold lead at led
  cases ty : w.endsInTy with
  | true =>
    simp only [ty, if_true] at led
    obtain ⟨total, added, led⟩ := bindOk led
    cases led
    obtain ⟨totalFinite, runs⟩ := addRuns finite rfl (rationalOfNat w.value) added
    exact ⟨totalFinite, [w.value], 1, runs, rfl, shortOne, by simp [NumberWord.addends, ty]⟩
  | false =>
    simp only [ty] at led
    cases led
    exact ⟨finite, [], w.value, rfl, rfl, shortWord w, by simp [NumberWord.addends, ty]⟩

theorem mulShort {m n : ℕ} {product : Decimal} (left : Short m) (right : Short n)
    (multiplied : mul .usual (.ofNat m) (.ofNat n) = .ok product) :
    product.isFinite = true ∧ product.rational = ((m * n : ℕ) : ℚ) := by
  have rounding := mulRounding (p := .usual) (a := .ofNat m) (b := .ofNat n) rfl rfl
  rw [multiplied, rationalOfNat, rationalOfNat, ← Nat.cast_mul] at rounding
  obtain ⟨finite, value, _⟩ := rounding.ok
  refine ⟨finite, value.trans (nearestRepresentable ?_)⟩
  rw [abs_of_nonneg (Nat.cast_nonneg' _)]
  exact left.product right

theorem foldFromRuns : ∀ (ws : List NumberWord) {sum : Decimal}, sum.isFinite = true →
    foldFrom sum ws = .ok d →
    d.isFinite = true ∧ d.rational = runningSum .usual sum.rational (addends ws)
  | [], sum, whole, folded => by
    cases folded
    exact ⟨whole, rfl⟩
  | [w], sum, whole, folded => by
    obtain ⟨⟨s, f⟩, led, added⟩ := bindOk folded
    obtain ⟨between, ns, m, runs, rfl, _, split⟩ := leadRuns whole led
    have last := addRuns between rfl (rationalOfNat m) added
    rwa [addends, split, mul_one, runningAppend, ← runs]
  | v :: w :: ws, sum, whole, folded => by
    obtain ⟨⟨s, f⟩, led, pairing⟩ := bindOk folded
    obtain ⟨between, ns, m, runs, rfl, short, split⟩ := leadRuns whole led
    obtain ⟨product, multiplied, adding⟩ := bindOk pairing
    obtain ⟨next, added, others⟩ := bindOk adding
    obtain ⟨productFinite, exact⟩ := mulShort short (shortWord w) multiplied
    obtain ⟨nextFinite, sums⟩ := addRuns between productFinite exact added
    have all := foldFromRuns ws nextFinite others
    rwa [addends, split, runningAppend, runningAppend, ← runs, ← sums]

theorem numberRuns (ws : List NumberWord) : (number ws).isFinite = true ∧
    (number ws).rational = runningSum .usual 0 (addends ws) := by
  have all := foldFromRuns ws rfl (foldNumber ws)
  rwa [rationalZero] at all

theorem runsExactly {ws : List NumberWord}
    (held : ∀ part, part <+: addends ws → Representable .usual (part.sum : ℚ)) :
    runningSum .usual 0 (addends ws) = pairSum ws := by
  have fromZero : ∀ part, part <+: addends ws → Representable .usual ((0 + part.sum : ℕ) : ℚ) := by
    simpa using held
  have exact := runningExact fromZero
  rwa [Nat.cast_zero, Nat.zero_add, sumAddends] at exact

theorem heldOfFew {ws : List NumberWord} (few : pairSum ws ≤ tenTo Precision.usual.digits)
    (part : List ℕ) (before : part <+: addends ws) : Representable .usual (part.sum : ℚ) := by
  have bound := prefixSum before
  rw [sumAddends] at bound
  exact wholeRepresentable (bound.trans few)

end Phrase
end Reckon

import Reckon.Proofs.Decimal.Spacing
/-! What taking one from a count comes to. Up to ten to the precision every count is exact; above it, a
count stays as it is, once it has been rounded to what the precision can hold. -/
namespace Reckon.Decimal
variable {p : Precision} {x y : ℚ}

theorem representableCount {n : ℕ} (few : n ≤ tenTo p.digits) : Representable p n := by
  have held := representableUnits (q := 0) few (tinyNegative p).le
  rwa [zpow_zero, mul_one] at held

theorem nearestCount {n : ℕ} (few : n ≤ tenTo p.digits) : nearest p n = n :=
  nearestRepresentable (by rw [Nat.abs_cast]; exact representableCount few)

theorem lastPlaceTens (p : Precision) : lastPlace p (tenTo p.digits) = 1 := by
  have large : (1 : ℚ) ≤ tenTo p.digits := by exact_mod_cast tenToPos p.digits
  have leading : leadingPlace (tenTo p.digits) = p.digits := by
    apply leadingIs
    · rw [Nat.abs_cast, tenToCast]
    · rw [Nat.abs_cast, tenToCast, tenAdd]
      exact lt_mul_of_one_lt_right (tenPos _) (by norm_num)
  rw [lastPlaceLarge large, leading, sub_self, zero_add]

theorem gapOfTen (held : Representable p x) (heldToo : Representable p y) (above : tenTo p.digits < y)
    (below : x < y) : x + 10 ≤ y := by
  have tens : (0 : ℚ) < tenTo p.digits := by exact_mod_cast tenToPos p.digits
  rcases le_or_gt x (tenTo p.digits) with low | high
  · have gap := representableGap (representableCount le_rfl) heldToo tens above
    rw [lastPlaceTens, zpow_one] at gap
    linarith
  · have gap := representableGap held heldToo (tens.trans high) below
    have place := lastPlaceMono (p := p) tens high.le
    rw [lastPlaceTens] at place
    have ten := tenMono place
    rw [zpow_one] at ten
    linarith

theorem nearestStays (held : Representable p x) (above : tenTo p.digits < x) : nearest p (x - 1) = x := by
  have large : (1 : ℚ) ≤ tenTo p.digits := by exact_mod_cast tenToPos p.digits
  have nonneg : 0 ≤ x - 1 := by linarith
  have least := nearestLeast nonneg held
  rw [sub_sub_cancel_left, abs_neg, abs_one, abs_le] at least
  by_contra apart
  rcases lt_or_gt_of_ne apart with below | beyond
  · have gap := gapOfTen (nearestHeld nonneg) held above below
    linarith
  · have gap := gapOfTen held (nearestHeld nonneg) (above.trans beyond) beyond
    linarith

/- One less than a count of more digits is at most ten to the precision exactly if it is nearer to it than
to the next number, or if it lies in the middle and the even one of the two is the lower. -/

theorem nearestWholeHalf (n : ℕ) : nearestWhole (n + 1 / 2) = (n + n % 2 : ℕ) := by
  apply nearestWholeEq
  have distance : |(n : ℚ) + 1 / 2 - ((n + n % 2 : ℕ) : ℤ)| = 1 / 2 := by
    rw [Int.cast_natCast, Nat.cast_add, add_sub_add_left_eq_sub]
    rcases Nat.mod_two_eq_zero_or_one n with even | odd
    · rw [even, Nat.cast_zero, sub_zero]
      exact abs_of_pos (by norm_num)
    · rw [odd, Nat.cast_one]
      norm_num [abs_of_neg]
  exact ⟨distance.le, fun _ => by omega⟩

theorem nearestMiddle (p : Precision) :
    (tenTo p.digits : ℚ) < nearest p (tenTo p.digits + 5) ↔ p.digits = 1 := by
  obtain ⟨k, digits⟩ := Nat.exists_eq_succ_of_ne_zero p.pos.ne'
  have tens : (tenTo p.digits : ℚ) = tenTo k * 10 := by
    rw [digits]
    exact_mod_cast tenToSucc k
  have large : (1 : ℚ) ≤ tenTo k := by exact_mod_cast tenToPos k
  have leading : leadingPlace (tenTo p.digits + 5) = p.digits := by
    have size : |(tenTo p.digits : ℚ) + 5| = tenTo p.digits + 5 := abs_of_pos (by linarith)
    apply leadingIs
    · rw [size, ← tenToCast]
      linarith
    · rw [size, tenAdd, ← tenToCast, zpow_one]
      linarith
  have place : lastPlace p (tenTo p.digits + 5) = 1 := by
    rw [lastPlaceLarge (by linarith), leading, sub_self, zero_add]
  have half : ((tenTo p.digits : ℚ) + 5) / 10 ^ (1 : ℤ) = tenTo k + 1 / 2 := by
    rw [tens, zpow_one]
    ring
  have value : nearest p (tenTo p.digits + 5) = tenTo p.digits + (tenTo k % 2 : ℕ) * 10 := by
    unfold nearest
    rw [place, half, nearestWholeHalf, tens, Int.cast_natCast, Nat.cast_add, zpow_one, add_mul]
  rw [value, lt_add_iff_pos_right]
  cases k with
  | zero => simp [digits, tenTo]
  | succ j =>
    have even : tenTo (j + 1) % 2 = 0 := by
      rw [tenToSucc]
      omega
    simp [digits, even]

theorem countPasses (p : Precision) (n : ℕ) :
    (tenTo p.digits : ℚ) < nearest p (n - 1) ↔ tenTo p.digits + 6 < n ∨ p.digits = 1 ∧ n = 16 := by
  rcases Nat.eq_zero_or_pos n with rfl | pos
  · have below : nearest p (-1) = -1 := by
      rw [nearestNeg, ← Nat.cast_one, nearestCount (tenToPos _)]
    have low : (-1 : ℚ) ≤ tenTo p.digits := (by norm_num : (-1 : ℚ) ≤ 0).trans (Nat.cast_nonneg' _)
    rw [Nat.cast_zero, zero_sub, below]
    simp [low]
  have atLeastOne : (1 : ℚ) ≤ n := by exact_mod_cast pos
  have nonneg : (0 : ℚ) ≤ n - 1 := by linarith
  have tens : (0 : ℚ) < tenTo p.digits := by exact_mod_cast tenToPos p.digits
  have held : Representable p (tenTo p.digits) := representableCount le_rfl
  -- The numbers above ten to the precision are ten apart, with the middle at the count that decides.
  rcases lt_trichotomy n (tenTo p.digits + 6) with below | rfl | above
  · have low : (n : ℚ) < tenTo p.digits + 6 := by exact_mod_cast below
    have stays : ¬ (tenTo p.digits : ℚ) < nearest p (n - 1) := by
      intro passes
      have gap := gapOfTen held (nearestHeld nonneg) passes passes
      have half := closerAbove passes (nearestLeast nonneg held)
      linarith
    have single : ¬ (p.digits = 1 ∧ n = 16) := by
      rintro ⟨digits, rfl⟩
      simp [digits, tenTo] at below
    simp [stays, single, below.le]
  · have middle : ((tenTo p.digits + 6 : ℕ) : ℚ) - 1 = tenTo p.digits + 5 := by
      push_cast
      ring
    rw [middle, nearestMiddle]
    constructor
    · intro digits
      exact .inr ⟨digits, by rw [digits]; rfl⟩
    · rintro (less | ⟨digits, _⟩)
      · exact absurd less (lt_irrefl _)
      · exact digits
  · have high : (tenTo p.digits : ℚ) + 6 < n := by exact_mod_cast above
    have passes : (tenTo p.digits : ℚ) < nearest p (n - 1) := by
      by_contra stays
      have next := representableNext held tens
      rw [lastPlaceTens, zpow_one] at next
      have half := closerBelow (by linarith) (nearestLeast nonneg next)
      linarith
    simp [passes, above]

end Reckon.Decimal

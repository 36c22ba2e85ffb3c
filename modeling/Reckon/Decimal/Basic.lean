import Reckon.Text.DecimalDigit
/-! Decimal numbers. A finite number keeps its sign, its coefficient and its exponent, so that 1.50
and 1.5 are equal in value and differ in writing. Exponents of numbers as such are unlimited. -/
namespace Reckon

inductive Decimal where
  | finite (negative : Bool) (coefficient : Nat) (exponent : Int)
  | infinite (negative : Bool)
  | nan (negative signaling : Bool) (payload : Nat)
  deriving DecidableEq, Repr, Inhabited

namespace Decimal

def ofNat (n : Nat) : Decimal := .finite false n 0

def ofInt (n : Int) : Decimal := .finite (n < 0) n.natAbs 0

def zero : Decimal := ofNat 0
def one : Decimal := ofNat 1

def isFinite : Decimal → Bool
  | .finite .. => true
  | _ => false

def tenTo (n : Nat) : Nat := Nat.pow 10 n

theorem tenToSucc (n : Nat) : tenTo (n + 1) = tenTo n * 10 := rfl

theorem tenToPos (n : Nat) : 0 < tenTo n := Nat.pow_pos (by decide)

theorem tenToLe {m n : Nat} (h : m ≤ n) : tenTo m ≤ tenTo n := Nat.pow_le_pow_right (by decide) h

theorem tenToAdd (m n : Nat) : tenTo (m + n) = tenTo m * tenTo n := Nat.pow_add ..

/- The count of digits is searched downwards from an estimate by the binary logarithm. As two to the
13301 is just below ten to the 4004, the estimate is never too low and hardly ever too high. -/

def shrinkCount (n : Nat) : Nat → Nat
  | 0 => 1
  | 1 => 1
  | d + 2 => if n < tenTo (d + 1) then shrinkCount n (d + 1) else d + 2

def countEstimate (n : Nat) : Nat := ((n.log2 + 1) * 4004 + 13300) / 13301

def digitCount (n : Nat) : Nat := shrinkCount n (countEstimate n)

theorem countEstimatePos (n : Nat) : 0 < countEstimate n := by
  unfold countEstimate
  omega

theorem powersOfTwo (k : Nat) : Nat.pow 2 (k * 13301) ≤ tenTo (k * 4004) := by
  have two : 2 ^ (k * 13301) = (2 * (2 ^ 100) ^ 133) ^ k := by
    rw [show k * 13301 = k + 100 * (133 * k) by omega, Nat.mul_pow, Nat.pow_add, Nat.pow_mul 2 100,
      Nat.pow_mul (2 ^ 100) 133]
  have ten : 10 ^ (k * 4004) = ((10 ^ 44) ^ 91) ^ k := by
    rw [show k * 4004 = 44 * (91 * k) by omega, Nat.pow_mul 10 44, Nat.pow_mul (10 ^ 44) 91]
  show 2 ^ (k * 13301) ≤ 10 ^ (k * 4004)
  rw [two, ten]
  exact Nat.pow_le_pow_left (by decide +kernel) k

theorem countEstimateRoom (n : Nat) : n < tenTo (countEstimate n) := by
  have binary : n < 2 ^ (n.log2 + 1) := Nat.lt_log2_self
  have wide : (n.log2 + 1) * 4004 ≤ countEstimate n * 13301 := by
    unfold countEstimate
    omega
  have powers : 2 ^ ((n.log2 + 1) * 13301) ≤ 10 ^ (countEstimate n * 13301) :=
    Nat.le_trans (powersOfTwo (n.log2 + 1)) (tenToLe wide)
  generalize exact : 13301 = m at powers
  rw [Nat.pow_mul, Nat.pow_mul 10] at powers
  exact Nat.lt_of_lt_of_le binary ((Nat.pow_le_pow_iff_left (by omega)).mp powers)

theorem shrinkCountPos (n d : Nat) : 0 < shrinkCount n d := by
  fun_induction shrinkCount n d <;> omega

theorem shrinkCountLe {n d k : Nat} (room : n < tenTo d) (pos : 0 < d) (hk : 0 < k) :
    shrinkCount n d ≤ k ↔ n < tenTo k := by
  fun_induction shrinkCount n d with
  | case1 => omega
  | case2 => exact ⟨fun h => Nat.lt_of_lt_of_le room (tenToLe h), fun _ => hk⟩
  | case3 d h ih => exact ih h (by omega)
  | case4 d h =>
    constructor
    · intro le
      exact Nat.lt_of_lt_of_le room (tenToLe le)
    · intro lt
      apply Decidable.byContradiction
      intro gt
      exact h (Nat.lt_of_lt_of_le lt (tenToLe (by omega)))

theorem digitCountPos (n : Nat) : 0 < digitCount n := shrinkCountPos ..

theorem digitCountLe {n k : Nat} (hk : 0 < k) : digitCount n ≤ k ↔ n < tenTo k :=
  shrinkCountLe (countEstimateRoom n) (countEstimatePos n) hk

theorem ltTenToDigitCount (n : Nat) : n < tenTo (digitCount n) :=
  (digitCountLe (digitCountPos n)).mp (Nat.le_refl _)

theorem tenToDigitCountLe {n : Nat} (nonzero : n ≠ 0) : tenTo (digitCount n - 1) ≤ n := by
  have pos := digitCountPos n
  by_cases single : digitCount n = 1
  · rw [single]
    exact Nat.pos_of_ne_zero nonzero
  · apply Nat.le_of_not_lt
    intro fewer
    have short := (digitCountLe (k := digitCount n - 1) (by omega)).mpr fewer
    omega

theorem digitCountWritten (n : Nat) : digitCount n = (Text.writeDigits n).length := by
  have long : 0 < (Text.writeDigits n).length := Nat.length_toDigits_pos
  apply Nat.le_antisymm
  · exact (digitCountLe long).mpr ((Nat.length_toDigits_le_iff (by decide) long).mp (Nat.le_refl _))
  · exact (Nat.length_toDigits_le_iff (by decide) (digitCountPos n)).mpr (ltTenToDigitCount n)

end Decimal
end Reckon

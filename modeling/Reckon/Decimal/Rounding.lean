import Reckon.Decimal.Basic
/-! Rounding of an exact product, sum or quotient to the precision, ties to even. A result too small
for its digits gives digits up and may become zero; one too large is signalled, never replaced. -/
namespace Reckon

structure Precision where
  digits : Nat
  pos : 0 < digits
  deriving DecidableEq, Repr

namespace Precision

def usual : Precision := ⟨28, by decide⟩

def limit : Int := 999999999999999999

def ofInt? (n : Int) : Option Precision :=
  if h : 1 ≤ n ∧ n ≤ limit then some ⟨n.toNat, by omega⟩ else none

end Precision

namespace Decimal

inductive Signal where
  | overflow
  | invalidOperation
  | divisionByZero
  deriving DecidableEq, Repr

def largestExponent : Int := 999999
def smallestExponent : Int := -999999

def tiny (p : Precision) : Int := smallestExponent - p.digits + 1

def halfEven (n d : Nat) : Nat :=
  if 2 * (n % d) < d then n / d
  else if d < 2 * (n % d) then n / d + 1
  else n / d + n / d % 2

theorem halfEvenOne (n : Nat) : halfEven n 1 = n := by simp [halfEven, Nat.mod_one]

theorem halfEvenNear (n : Nat) {d : Nat} (h : 0 < d) :
    2 * (halfEven n d * d) ≤ 2 * n + d ∧ 2 * n ≤ 2 * (halfEven n d * d) + d := by
  have split := Nat.div_add_mod n d
  have low := Nat.mod_lt n h
  rw [Nat.mul_comm] at split
  have up : (n / d + 1) * d = n / d * d + d := Nat.succ_mul ..
  unfold halfEven
  split
  · omega
  · split
    · rw [up]; omega
    · rcases Nat.mod_two_eq_zero_or_one (n / d) with even | odd
      · rw [even]; simp only [Nat.add_zero]; omega
      · rw [odd, up]; omega

def lastKept (p : Precision) (coefficient : Nat) (exponent : Int) : Int :=
  max (max exponent (tiny p)) (exponent + digitCount coefficient - p.digits)

def inRange (negative : Bool) (coefficient : Nat) (exponent : Int) : Except Signal Decimal :=
  if coefficient ≠ 0 ∧ largestExponent < exponent + digitCount coefficient - 1 then .error .overflow
  else .ok (.finite negative coefficient exponent)

/-- The exact value, rounded once. A zero keeps its exponent as far as the range goes; a carry into
one digit more moves the last digit kept. -/
def round (p : Precision) (negative : Bool) (coefficient : Nat) (exponent : Int) :
    Except Signal Decimal :=
  if coefficient = 0 then
    .ok (.finite negative 0 (min (max exponent (tiny p)) largestExponent))
  else
    let last := lastKept p coefficient exponent
    let kept := halfEven coefficient (tenTo (last - exponent).toNat)
    if p.digits < digitCount kept then inRange negative (kept / 10) (last + 1)
    else inRange negative kept last

theorem roundZero (p : Precision) (negative : Bool) (exponent : Int) :
    round p negative 0 exponent =
      .ok (.finite negative 0 (min (max exponent (tiny p)) largestExponent)) := by
  simp [round]

end Decimal
end Reckon

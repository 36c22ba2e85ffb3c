import Reckon.Refusal
/-! Powers by repeated multiplication. The exponent is counted down in the same rounded arithmetic as
the products, so at a low precision the count can differ from the exponent, or never end. -/
namespace Reckon.Decimal

def multiplyDown (p : Precision) (base : Decimal) : (rounds : Nat) → (result remaining : Decimal) →
    Except Fault Decimal
  | 0, _, _ => .error .endless
  | n + 1, result, remaining => do
    if ← orFault (less? zero remaining) then
      let product ← orFault (mul p result base)
      let rest ← orFault (sub p remaining one)
      multiplyDown p base n product rest
    else return result

/-- Enough whenever the multiplication ends. An exponent with more digits than the precision is, after one
round, at most ten to the precision, or it no longer changes; then only an overflow ends the rounds, and
it does so before the product has run through all the numbers of that many digits. -/
def enoughRounds (p : Precision) (exponent : Decimal) : Nat :=
  match exponent.toInt? with
  | some n =>
    if digitCount n.natAbs ≤ p.digits then n.natAbs + 1 else tenTo (p.digits + 7)
  | none => tenTo (p.digits + 7)

def minusOne : Decimal := opposite one

def minusOneTo (exponent : Decimal) : Except Fault Decimal :=
  match exponent.toInt? with
  | some n => .ok (if n % 2 = 0 then one else minusOne)
  | none => .error .infiniteWhole

def isExponent (d : Decimal) : Except Signal Bool := do
  if ← less? d zero then return false
  return d.isWhole

def isZeroOrOne (d : Decimal) : Except Signal Bool := do
  if ← equal? d zero then return true
  equal? d one

def aboveLimit (base exponent : Decimal) (most : Int) : Fault :=
  if Text.isTooLong most then .numberTooLong else .refusal (.exponentAbove base exponent most)

def checkLimit (limit : Option Int) (base exponent : Decimal) : Except Fault Unit :=
  match limit with
  | none => .ok ()
  | some most => do
    if ← orFault (less? (ofInt most) exponent) then
      throw (aboveLimit base exponent most)

def power (p : Precision) (limit : Option Int) (base exponent : Decimal) : Except Fault Decimal := do
  if !(← orFault (isExponent exponent)) then
    throw (.refusal (.exponentNotWhole base exponent))
  if ← orFault (equal? exponent zero) then return one
  if ← orFault (isZeroOrOne base) then return ← orFault (plus p base)
  if ← orFault (equal? base minusOne) then return ← minusOneTo exponent
  checkLimit limit base exponent
  multiplyDown p base (enoughRounds p exponent) one exponent

end Reckon.Decimal

import Reckon.Decimal.Rounding
/-! Sum, difference, product and quotient. Each is taken exactly and rounded once; a quotient is cut
one digit past the precision and marked when something was cut off, which no rounding can miss. -/
namespace Reckon.Decimal

def cutPayload (p : Precision) (n : Nat) : Nat :=
  if digitCount n ≤ p.digits then n else n % tenTo p.digits

def propagate (p : Precision) : Decimal → Decimal → Except Signal Decimal
  | .nan _ true _, _ => .error .invalidOperation
  | _, .nan _ true _ => .error .invalidOperation
  | .nan negative false payload, _ => .ok (.nan negative false (cutPayload p payload))
  | _, .nan negative false payload => .ok (.nan negative false (cutPayload p payload))
  | _, _ => .error .invalidOperation

def units (negative : Bool) (coefficient : Nat) (exponent unit : Int) : Int :=
  let n := coefficient * tenTo (exponent - unit).toNat
  if negative then -(n : Int) else n

def add (p : Precision) : Decimal → Decimal → Except Signal Decimal
  | .finite s c e, .finite t d f =>
    let unit := min e f
    let sum := units s c e unit + units t d f unit
    round p (if sum = 0 then s && t else sum < 0) sum.natAbs unit
  | .infinite s, .infinite t => if s = t then .ok (.infinite s) else .error .invalidOperation
  | .infinite s, .finite .. => .ok (.infinite s)
  | .finite .., .infinite t => .ok (.infinite t)
  | a, b => propagate p a b

def opposite : Decimal → Decimal
  | .finite s c e => .finite (!s) c e
  | .infinite s => .infinite (!s)
  | .nan s q n => .nan s q n

def sub (p : Precision) (a b : Decimal) : Except Signal Decimal := add p a (opposite b)

def mul (p : Precision) : Decimal → Decimal → Except Signal Decimal
  | .finite s c e, .finite t d f => round p (s != t) (c * d) (e + f)
  | .infinite s, .infinite t => .ok (.infinite (s != t))
  | .infinite s, .finite t d _ =>
    if d = 0 then .error .invalidOperation else .ok (.infinite (s != t))
  | .finite s c _, .infinite t =>
    if c = 0 then .error .invalidOperation else .ok (.infinite (s != t))
  | a, b => propagate p a b

def dropZeros : (count coefficient : Nat) → (exponent : Int) → Nat × Int
  | 0, c, e => (c, e)
  | n + 1, c, e => if c % 10 = 0 then dropZeros n (c / 10) (e + 1) else (c, e)

/-- `c / d` at the exponent `ideal`. An exact quotient comes as close to that exponent as its digits
allow; any other is cut and gets a last digit 1, which stands for all that was cut off. -/
def quotient (p : Precision) (negative : Bool) (c d : Nat) (ideal : Int) : Except Signal Decimal :=
  let shift : Int := digitCount d - digitCount c + p.digits + 1
  let n := c * tenTo shift.toNat
  let m := d * tenTo (-shift).toNat
  if n % m = 0 then
    let exact := dropZeros shift.toNat (n / m) (ideal - shift)
    round p negative exact.1 exact.2
  else round p negative (n / m * 10 + 1) (ideal - shift - 1)

def div (p : Precision) : Decimal → Decimal → Except Signal Decimal
  | .finite s c e, .finite t d f =>
    if d = 0 then .error (if c = 0 then .invalidOperation else .divisionByZero)
    else quotient p (s != t) c d (e - f)
  | .infinite _, .infinite _ => .error .invalidOperation
  | .infinite s, .finite t _ _ => .ok (.infinite (s != t))
  | .finite s _ _, .infinite t => .ok (.finite (s != t) 0 (tiny p))
  | a, b => propagate p a b

def plus (p : Precision) : Decimal → Except Signal Decimal
  | .finite s c e => round p (s && c != 0) c e
  | .infinite s => .ok (.infinite s)
  | a => propagate p a a

end Reckon.Decimal

import Reckon.Decimal.Arithmetic
/-! Comparison by exact value. What is not a number is unequal to everything and has no order. -/
namespace Reckon.Decimal

def difference (s : Bool) (c : Nat) (e : Int) (t : Bool) (d : Nat) (f : Int) : Int :=
  units s c e (min e f) - units t d f (min e f)

def equal? : Decimal → Decimal → Except Signal Bool
  | .nan _ true _, _ => .error .invalidOperation
  | _, .nan _ true _ => .error .invalidOperation
  | .nan .., _ => .ok false
  | _, .nan .. => .ok false
  | .finite s c e, .finite t d f => .ok (difference s c e t d f == 0)
  | .infinite s, .infinite t => .ok (s == t)
  | .infinite _, .finite .. => .ok false
  | .finite .., .infinite _ => .ok false

def less? : Decimal → Decimal → Except Signal Bool
  | .nan .., _ => .error .invalidOperation
  | _, .nan .. => .error .invalidOperation
  | .finite s c e, .finite t d f => .ok (difference s c e t d f < 0)
  | .infinite s, .infinite t => .ok (s && !t)
  | .infinite s, .finite .. => .ok s
  | .finite .., .infinite t => .ok !t

def isWhole : Decimal → Bool
  | .finite _ c e => c % tenTo (-e).toNat == 0
  | .infinite _ => true
  | .nan .. => false

def toInt? : Decimal → Option Int
  | .finite s c e =>
    let n := c * tenTo e.toNat / tenTo (-e).toNat
    some (if s then -(n : Int) else n)
  | _ => none

end Reckon.Decimal

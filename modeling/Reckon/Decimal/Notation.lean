import Reckon.Decimal.Comparison
/-! Writing a decimal number: with a power of ten where the digits alone would not show the
exponent, or always in full; and the one form that all numbers of equal value share. -/
namespace Reckon.Decimal
open Text

def signText (negative : Bool) : List Char := if negative then ['-'] else []

def pointAt (digits : List Char) (place : Int) : List Char :=
  if place ≤ 0 then '0' :: '.' :: List.replicate (-place).toNat '0' ++ digits
  else if digits.length ≤ place.toNat then
    digits ++ List.replicate (place.toNat - digits.length) '0'
  else digits.take place.toNat ++ '.' :: digits.drop place.toNat

def powerOfTen (e : Int) : List Char :=
  if e = 0 then [] else 'E' :: (if e < 0 then '-' else '+') :: writeDigits e.natAbs

def finiteText (c : Nat) (e : Int) : List Char :=
  let digits := writeDigits c
  let left := e + digits.length
  let place := if e ≤ 0 ∧ -6 < left then left else 1
  pointAt digits place ++ powerOfTen (left - place)

def specialText : Decimal → List Char
  | .finite .. => []
  | .infinite _ => "Infinity".toList
  | .nan _ signaling payload =>
    (if signaling then ['s'] else []) ++ "NaN".toList ++ (if payload = 0 then [] else writeDigits payload)

def isNegative : Decimal → Bool
  | .finite s .. => s
  | .infinite s => s
  | .nan s .. => s

def text : Decimal → String
  | .finite s c e => String.ofList (signText s ++ finiteText c e)
  | d => String.ofList (signText d.isNegative ++ specialText d)

def fullDigits (c : Nat) (e : Int) : List Char :=
  let digits := writeDigits c
  if 0 < e then digits ++ List.replicate e.toNat '0' else pointAt digits (e + digits.length)

def fullText : Decimal → List Char
  | .finite s c e => signText s ++ fullDigits c e
  | d => signText d.isNegative ++ specialText d

def dropFractionZeros (s : List Char) : List Char :=
  if '.' ∈ s then ((s.reverse.dropWhile (· == '0')).dropWhile (· == '.')).reverse else s

def common (d : Decimal) : Except Signal String := do
  if ← equal? d zero then return "0"
  return String.ofList (dropFractionZeros (fullText d))

end Reckon.Decimal

import Reckon.Decimal.Basic
import Reckon.Text.Blank
/-! Reading a decimal number. Blanks around the numeral and underscores anywhere in it are passed
over, digits of every script count as their values, and nothing is rounded. -/
namespace Reckon.Decimal
open Text

def plainChar? (c : Char) : Option Char :=
  if c.toNat < 128 then some c else (digitValue? c).map Nat.digitChar

def splitSign : List Char → Bool × List Char
  | '-' :: s => (true, s)
  | '+' :: s => (false, s)
  | s => (false, s)

def wholeDigits? (s : List Char) : Option Nat :=
  if s ≠ [] ∧ s.all Char.isDigit then some (readDigits s) else none

def exponentPart? : List Char → Option Int
  | [] => some 0
  | c :: s =>
    if c = 'e' ∨ c = 'E' then
      let (negative, digits) := splitSign s
      (wholeDigits? digits).map (fun n => if negative then -(n : Int) else n)
    else none

def fractionPart : List Char → List Char × List Char
  | '.' :: s => (s.takeWhile Char.isDigit, s.dropWhile Char.isDigit)
  | s => ([], s)

/-- The highest place that the first digit may have, if a power of ten is written. The lowest one is left
out, so that every number of a numeral without a power of ten can be read from its writing. -/
def highestPlace : Int := 999999999999999999

def placed? (negative : Bool) (coefficient : Nat) (exponent : Int) (written : Bool) : Option Decimal :=
  if written ∧ highestPlace < exponent + digitCount coefficient - 1 then none
  else some (.finite negative coefficient exponent)

def finiteNumeral? (negative : Bool) (s : List Char) : Option Decimal :=
  let whole := s.takeWhile Char.isDigit
  let (fraction, rest) := fractionPart (s.dropWhile Char.isDigit)
  if whole ++ fraction = [] then none
  else (exponentPart? rest).bind fun e =>
    placed? negative (readDigits (whole ++ fraction)) (e - fraction.length) (rest != [])

def afterHead? : (head s : List Char) → Option (List Char)
  | [], s => some s
  | _ :: _, [] => none
  | h :: hs, c :: s => if c.toLower = h then afterHead? hs s else none

def payload? (s : List Char) : Option Nat := if s = [] then some 0 else wholeDigits? s

def specialNumeral? (negative : Bool) (s : List Char) : Option Decimal :=
  match afterHead? ['i', 'n', 'f'] s with
  | some rest =>
    if rest = [] ∨ afterHead? ['i', 'n', 'i', 't', 'y'] rest = some [] then some (.infinite negative)
    else none
  | none =>
    match afterHead? ['n', 'a', 'n'] s with
    | some rest => (payload? rest).map (.nan negative false)
    | none =>
      match afterHead? ['s', 'n', 'a', 'n'] s with
      | some rest => (payload? rest).map (.nan negative true)
      | none => none

def ofNumeral? (s : String) : Option Decimal := do
  let plain ← ((trim s.toList).filter (· ≠ '_')).mapM plainChar?
  let (negative, body) := splitSign plain
  match specialNumeral? negative body with
  | some d => some d
  | none => finiteNumeral? negative body

end Reckon.Decimal

import Reckon.Decimal.Basic
/-! The words for numbers. -/
namespace Reckon

inductive NumberWord where
  | zero | one | two | three | four | five | six | seven | eight | nine
  | ten | eleven | twelve | thirteen | fourteen | fifteen | sixteen | seventeen | eighteen | nineteen
  | twenty | thirty | forty | fourty | fifty | sixty | seventy | eighty | ninety
  | hundred | thousand | million | billion | trillion | quadrillion | quintillion
  deriving DecidableEq, Repr

namespace NumberWord

def all : List NumberWord :=
  [zero, one, two, three, four, five, six, seven, eight, nine,
   ten, eleven, twelve, thirteen, fourteen, fifteen, sixteen, seventeen, eighteen, nineteen,
   twenty, thirty, forty, fourty, fifty, sixty, seventy, eighty, ninety,
   hundred, thousand, million, billion, trillion, quadrillion, quintillion]

def spelling : NumberWord → String
  | zero => "zero" | one => "one" | two => "two" | three => "three" | four => "four"
  | five => "five" | six => "six" | seven => "seven" | eight => "eight" | nine => "nine"
  | ten => "ten" | eleven => "eleven" | twelve => "twelve" | thirteen => "thirteen"
  | fourteen => "fourteen" | fifteen => "fifteen" | sixteen => "sixteen"
  | seventeen => "seventeen" | eighteen => "eighteen" | nineteen => "nineteen"
  | twenty => "twenty" | thirty => "thirty" | forty => "forty" | fourty => "fourty"
  | fifty => "fifty" | sixty => "sixty" | seventy => "seventy" | eighty => "eighty"
  | ninety => "ninety"
  | hundred => "hundred" | thousand => "thousand" | million => "million" | billion => "billion"
  | trillion => "trillion" | quadrillion => "quadrillion" | quintillion => "quintillion"

def ofSpelling? (s : String) : Option NumberWord := all.find? (fun w => w.spelling = s)

theorem ofSpellingSpelling (w : NumberWord) : ofSpelling? w.spelling = some w := by
  cases w <;> decide

def ofSpellings : List String → Except String (List NumberWord)
  | [] => .ok []
  | s :: rest =>
    match ofSpelling? s with
    | none => .error s
    | some w => (ofSpellings rest).map (w :: ·)

def value : NumberWord → Nat
  | zero => 0 | one => 1 | two => 2 | three => 3 | four => 4
  | five => 5 | six => 6 | seven => 7 | eight => 8 | nine => 9
  | ten => 10 | eleven => 11 | twelve => 12 | thirteen => 13 | fourteen => 14
  | fifteen => 15 | sixteen => 16 | seventeen => 17 | eighteen => 18 | nineteen => 19
  | twenty => 20 | thirty => 30 | forty => 40 | fourty => 40 | fifty => 50
  | sixty => 60 | seventy => 70 | eighty => 80 | ninety => 90
  | hundred => 100 | thousand => 1000 | million => 1000000 | billion => 1000000000
  | trillion => 1000000000000 | quadrillion => 1000000000000000
  | quintillion => 1000000000000000000

theorem valueLe (w : NumberWord) : w.value ≤ 1000000000000000000 := by cases w <;> decide

def number (w : NumberWord) : Decimal := .ofNat w.value

def endsInTy (w : NumberWord) : Bool := ['t', 'y'].isSuffixOf w.spelling.toList

end NumberWord
end Reckon

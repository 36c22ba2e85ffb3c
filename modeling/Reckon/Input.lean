import Reckon.Text.Blank
import Reckon.Text.DecimalDigit
import Reckon.Token
/-! Values handed in from outside, and how leniently each kind of field reads them. What text is a whole
number or a flag, `integer?` and `flag?`, is laid down by pydantic and not by the calculator; its cap of
4300 characters on a whole number is left out. -/
namespace Reckon

inductive Input where
  | null
  | flag (b : Bool)
  | whole (n : Int)
  | fraction
  | text (s : String)
  | compound
  deriving DecidableEq, Repr

inductive Complaint where
  | missing
  | notText
  | tooShort
  | tooLong (most : Nat)
  | notInteger
  | unreadableInteger
  | fractional
  | below (least : Int)
  | above (most : Int)
  | notFlag
  | unreadableFlag
  | noLevel
  | noKind
  | frozen
  deriving DecidableEq, Repr

namespace Complaint

def name : Complaint → String
  | missing => "missing"
  | notText => "string_type"
  | tooShort => "string_too_short"
  | tooLong _ => "string_too_long"
  | notInteger => "int_type"
  | unreadableInteger => "int_parsing"
  | fractional => "int_from_float"
  | below _ => "greater_than_equal"
  | above _ => "less_than_equal"
  | notFlag => "bool_type"
  | unreadableFlag => "bool_parsing"
  | noLevel => "literal_error"
  | noKind => "enum"
  | frozen => "frozen_instance"

def message : Complaint → String
  | missing => "Field required"
  | notText => "Input should be a valid string"
  | tooShort => "String should have at least 1 character"
  | tooLong most => "String should have at most " ++ Text.natText most ++ " characters"
  | notInteger => "Input should be a valid integer"
  | unreadableInteger =>
    "Input should be a valid integer, unable to parse string as an integer"
  | fractional => "Input should be a valid integer, got a number with a fractional part"
  | below least => "Input should be greater than or equal to " ++ Text.intText least
  | above most => "Input should be less than or equal to " ++ Text.intText most
  | notFlag => "Input should be a valid boolean"
  | unreadableFlag => "Input should be a valid boolean, unable to interpret input"
  | noLevel => "Input should be 'DEBUG', 'INFO', 'WARNING', 'ERROR' or 'CRITICAL'"
  | noKind => "Input should be 'NUMBER', 'OPERATOR', 'OPEN_PAREN', 'CLOSE_PAREN' or 'WORD'"
  | frozen => "Instance is frozen"

end Complaint

structure Issue where
  field : String
  complaint : Complaint
  deriving DecidableEq, Repr

abbrev Fields := String → Option Input

namespace Input
open Text

def groupedDigits? : (afterDigit : Bool) → List Char → Option (List Char)
  | afterDigit, [] => if afterDigit then some [] else none
  | afterDigit, c :: s =>
    if c.isDigit then (groupedDigits? true s).map (c :: ·)
    else if c = '_' ∧ afterDigit then groupedDigits? false s
    else none

def isZeroFraction (s : List Char) : Bool :=
  match s with
  | [] => true
  | c :: zeros => c == '.' && zeros != [] && zeros.all (· == '0')

def magnitude? (s : List Char) : Option Nat :=
  if isZeroFraction (s.dropWhile (· != '.')) then
    (groupedDigits? false (s.takeWhile (· != '.'))).map readDigits
  else none

def isMargin (c : Char) : Bool := isBlank c && !(28 ≤ c.toNat && c.toNat ≤ 31)

def integer? (s : String) : Option Int :=
  match trimBy isMargin s.toList with
  | '-' :: digits => (magnitude? digits).map (fun n => -(n : Int))
  | '+' :: digits => (magnitude? digits).map Int.ofNat
  | digits => (magnitude? digits).map Int.ofNat

def readInteger : Input → Except Complaint Int
  | flag b => .ok (if b then 1 else 0)
  | whole n => .ok n
  | fraction => .error .fractional
  | text s => match integer? s with
    | some n => .ok n
    | none => .error .unreadableInteger
  | null | compound => .error .notInteger

def falseWords : List String := ["0", "off", "f", "false", "n", "no"]
def trueWords : List String := ["1", "on", "t", "true", "y", "yes"]

def flag? (s : String) : Option Bool :=
  let word := String.ofList (s.toList.map Char.toLower)
  if word ∈ falseWords then some false
  else if word ∈ trueWords then some true
  else none

def readFlag : Input → Except Complaint Bool
  | flag b => .ok b
  | whole n =>
    if n = 0 then .ok false else if n = 1 then .ok true else .error .unreadableFlag
  | text s => match flag? s with
    | some b => .ok b
    | none => .error .unreadableFlag
  | fraction | null | compound => .error .notFlag

def readText : Input → Except Complaint String
  | text s => .ok s
  | _ => .error .notText

def readKind : Input → Except Complaint Kind
  | text s => match Kind.ofName? s with
    | some k => .ok k
    | none => .error .noKind
  | _ => .error .noKind

end Input

def Fields.read {α : Type} (fields : Fields) (name : String) (absent : Except Complaint α)
    (reader : Input → Except Complaint α) : Except Issue α :=
  match (match fields name with | none => absent | some input => reader input) with
  | .ok a => .ok a
  | .error complaint => .error ⟨name, complaint⟩

def issuesOf {α : Type} : Except Issue α → List Issue
  | .ok _ => []
  | .error issue => [issue]

namespace Token

def ofFields (fields : Fields) : Except (List Issue) Token :=
  let kind := fields.read "kind" (.error .missing) Input.readKind
  let lexeme := fields.read "lexeme" (.error .missing) Input.readText
  match kind, lexeme with
  | .ok k, .ok l => .ok ⟨k, l⟩
  | _, _ => .error (issuesOf kind ++ issuesOf lexeme)

def assign (_ : Token) (field : String) : Issue := ⟨field, .frozen⟩

end Token
end Reckon

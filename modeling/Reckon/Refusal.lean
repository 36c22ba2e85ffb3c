import Reckon.Decimal.Notation
import Reckon.Text.Quoted
/-! Why an expression has no value. A refusal is a cause with what it concerns; its category, its
code, its wording and its details are all read off the cause. -/
namespace Reckon
open Text

inductive Refusal where
  | unrecognized (character : Char) (position : Nat)
  | badLiteral (lexeme : String)
  | unmatchedClose (postfixSoFar : List String)
  | unclosedOpen (count : Nat)
  | unrankedOperator (symbol : String)
  | unhandledOperator (symbol : String)
  | divisionByZero (dividend divisor : Decimal)
  | missingOperands (symbol : String) (found : Nat)
  | unreduced (remaining : List Decimal)
  | exponentNotWhole (base exponent : Decimal)
  | exponentAbove (base exponent : Decimal) (limit : Int)
  | outOfRange (symbol : String) (left right : Decimal)
  deriving DecidableEq, Repr

inductive Category where
  | invalidInput
  | unbalancedParentheses
  | unknownOperator
  | divisionByZero
  | malformedExpression
  | invalidExponent
  | arithmeticOverflow
  deriving DecidableEq, Repr

def Category.code : Category → String
  | invalidInput => "INVALID_INPUT"
  | unbalancedParentheses => "UNBALANCED_PARENTHESES"
  | unknownOperator => "UNKNOWN_OPERATOR"
  | divisionByZero => "DIVISION_BY_ZERO"
  | malformedExpression => "MALFORMED_EXPRESSION"
  | invalidExponent => "INVALID_EXPONENT"
  | arithmeticOverflow => "ARITHMETIC_OVERFLOW"

inductive Detail where
  | text (s : String)
  | number (n : Int)
  | texts (ss : List String)
  deriving DecidableEq, Repr

namespace Refusal

def category : Refusal → Category
  | unrecognized .. | badLiteral .. => .invalidInput
  | unmatchedClose .. | unclosedOpen .. => .unbalancedParentheses
  | unrankedOperator .. | unhandledOperator .. => .unknownOperator
  | divisionByZero .. => .divisionByZero
  | missingOperands .. | unreduced .. => .malformedExpression
  | exponentNotWhole .. | exponentAbove .. => .invalidExponent
  | outOfRange .. => .arithmeticOverflow

def code (r : Refusal) : String := r.category.code

def message : Refusal → String
  | unrecognized c n =>
    "Invalid input: unrecognized character " ++ quoted c.toString ++ " at position " ++ natText n
  | badLiteral lexeme => "Invalid number literal: " ++ quoted lexeme
  | unmatchedClose _ => "Unbalanced parentheses: ')' without matching '('"
  | unclosedOpen _ => "Unbalanced parentheses: '(' was never closed"
  | unrankedOperator symbol => "Unknown precedence for operator: " ++ quoted symbol
  | unhandledOperator symbol => "Unhandled operator: " ++ quoted symbol
  | divisionByZero dividend divisor =>
    "Division by zero: " ++ dividend.text ++ " / " ++ divisor.text
  | missingOperands symbol found =>
    "Operator " ++ quoted symbol ++ " needs two operands, found " ++ natText found
  | unreduced remaining =>
    "Expression reduced to " ++ natText remaining.length ++ " values instead of one"
  | exponentNotWhole _ exponent =>
    "Exponent must be a non-negative whole number, got " ++ exponent.text
  | exponentAbove _ exponent limit =>
    "Exponent " ++ exponent.text ++ " exceeds the limit of " ++ intText limit
  | outOfRange symbol .. => "Result of " ++ quoted symbol ++ " is out of range"

def details : Refusal → List (String × Detail)
  | unrecognized c n => [("character", .text c.toString), ("position", .number n)]
  | badLiteral lexeme => [("lexeme", .text lexeme)]
  | unmatchedClose postfixSoFar => [("postfix_so_far", .texts postfixSoFar)]
  | unclosedOpen count => [("unclosed", .number count)]
  | unrankedOperator symbol | unhandledOperator symbol => [("operator", .text symbol)]
  | divisionByZero dividend _ => [("dividend", .text dividend.text)]
  | missingOperands symbol found => [("operator", .text symbol), ("operands", .number found)]
  | unreduced remaining => [("remaining", .texts (remaining.map Decimal.text))]
  | exponentNotWhole base exponent =>
    [("base", .text base.text), ("exponent", .text exponent.text)]
  | exponentAbove base exponent limit =>
    [("base", .text base.text), ("exponent", .text exponent.text), ("max_exponent", .number limit)]
  | outOfRange symbol left right =>
    [("operator", .text symbol), ("left", .text left.text), ("right", .text right.text)]

end Refusal

/-- All that can stop the work: a refusal, or a fault that no refusal covers. -/
inductive Fault where
  | refusal (r : Refusal)
  | signal (s : Decimal.Signal)
  | infiniteWhole
  | endless
  | numberTooLong
  | unknownKind (name : String)
  deriving DecidableEq, Repr

def orFault {α : Type} : Except Decimal.Signal α → Except Fault α
  | .ok a => .ok a
  | .error s => .error (.signal s)

end Reckon

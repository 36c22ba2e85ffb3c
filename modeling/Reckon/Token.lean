/-! Tokens: a kind and the text it was read from or stands for. -/
namespace Reckon

inductive Kind where
  | number
  | operator
  | openParen
  | closeParen
  | word
  deriving DecidableEq, Repr

namespace Kind

def name : Kind → String
  | number => "NUMBER"
  | operator => "OPERATOR"
  | openParen => "OPEN_PAREN"
  | closeParen => "CLOSE_PAREN"
  | word => "WORD"

def all : List Kind := [number, operator, openParen, closeParen, word]

def ofName? (s : String) : Option Kind := all.find? (fun k => k.name = s)

end Kind

structure Token where
  kind : Kind
  lexeme : String
  deriving DecidableEq, Repr

end Reckon

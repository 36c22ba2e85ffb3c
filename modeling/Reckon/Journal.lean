/-! The journal: what is noted of a run, how grave it is, and which part noted it. -/
namespace Reckon

inductive Level where
  | debug
  | info
  | warning
  | error
  | critical
  deriving DecidableEq, Repr

namespace Level

def all : List Level := [debug, info, warning, error, critical]

def name : Level → String
  | debug => "DEBUG"
  | info => "INFO"
  | warning => "WARNING"
  | error => "ERROR"
  | critical => "CRITICAL"

def ofName? (s : String) : Option Level := all.find? (fun l => l.name = s)

theorem ofNameName (l : Level) : ofName? l.name = some l := by cases l <;> decide

def rank : Level → Nat
  | debug => 10
  | info => 20
  | warning => 30
  | error => 40
  | critical => 50

end Level

inductive Source where
  | phrases
  | calculation
  deriving DecidableEq, Repr

def Source.name : Source → String
  | phrases => "wordcalc.word_to_number"
  | calculation => "wordcalc.pipeline"

structure Entry where
  level : Level
  source : Source
  message : String
  deriving DecidableEq, Repr

def Entry.line (e : Entry) : String := e.level.name ++ " " ++ e.source.name ++ ": " ++ e.message

abbrev Journal := Array Entry

def Journal.atLeast (level : Level) (j : Journal) : List Entry :=
  j.toList.filter (fun e => level.rank ≤ e.level.rank)

end Reckon

import Reckon.Intake
import Reckon.Postfix.Evaluation
/-! A session: one scan and one intake, driven step by step. A step that fails leaves behind what it
has done, and the session goes on. -/
namespace Reckon

inductive Entrance where
  | phrase
  | record
  | yard
  deriving DecidableEq, Repr

inductive Command where
  | scan (gate : Entrance)
  | push (gate : Entrance) (kind lexeme : String)
  | closePhrase
  | finish
  | evaluate
  deriving DecidableEq, Repr

inductive Answer where
  | nothing
  | postfixSequence (elements : List Element)
  | number (value : Decimal)
  deriving DecidableEq, Repr

structure Session where
  cursor : Cursor
  intake : Intake
  deriving DecidableEq, Repr

namespace Session

def start (rule : Rule) (text : String) : Session := ⟨.ofText text, .empty .debug rule⟩

def entrance : Entrance → Intake → Token → Intake × Option Fault
  | .phrase => Intake.receive
  | .record => Intake.receiveRecord
  | .yard => Intake.receiveYard

/-- A token of no kind: it ends a phrase, cannot be recorded, and means nothing to the yard. -/
def pushUnknown (i : Intake) (kind : String) : Entrance → Intake × Option Fault
  | .yard => (i, none)
  | .record => (i, some (.unknownKind kind))
  | .phrase =>
    match i.closePhrase with
    | (i, none) => (i, some (.unknownKind kind))
    | refused => refused

def answer : Option Fault → Except Fault Answer
  | none => .ok .nothing
  | some fault => .error fault

def step (s : Session) : Command → Session × Except Fault Answer
  | .scan gate =>
    let scanned := s.cursor.scan (entrance gate) s.intake
    (⟨scanned.cursor, scanned.receiver⟩, answer (scanned.halt.map Halt.fault))
  | .push gate kind lexeme =>
    let (i, fault) := match Kind.ofName? kind with
      | some k => entrance gate s.intake ⟨k, lexeme⟩
      | none => pushUnknown s.intake kind gate
    (⟨s.cursor, i⟩, answer fault)
  | .closePhrase =>
    let (i, fault) := s.intake.closePhrase
    (⟨s.cursor, i⟩, answer fault)
  | .finish =>
    match s.intake.finishYard with
    | (i, none) => (⟨s.cursor, i⟩, .ok (.postfixSequence i.yard.output.toList))
    | (i, some fault) => (⟨s.cursor, i⟩, .error fault)
  | .evaluate =>
    (s, (evaluatePostfix .usual (some usualExponentLimit) s.intake.yard.output.toList).map .number)

def run (s : Session) : List Command → List (Except Fault Answer × Session)
  | [] => []
  | c :: cs =>
    let (s, outcome) := s.step c
    (outcome, s) :: s.run cs

end Session
end Reckon

import Reckon.Intake
import Reckon.Settings
/-! The value of an expression, with everything on the way to it. -/
namespace Reckon

structure Report where
  expression : String
  result : Decimal
  formatted : String
  postfixTexts : List String
  tokens : List Token
  deriving DecidableEq, Repr

namespace Report

def takeIn (s : Settings) (text : String) : Intake × Option Fault :=
  let scanned := (Cursor.ofText text).scan Intake.receive (.empty s.tokenLevel s.rule)
  match scanned.halt with
  | some halt => (scanned.receiver, some halt.fault)
  | none =>
    match scanned.receiver.closePhrase with
    | (i, none) => i.finishYard
    | refused => refused

def failureEntry (text : String) (r : Refusal) : Entry :=
  ⟨.warning, .calculation,
    "Evaluation of " ++ Text.quoted text ++ " failed [" ++ r.code ++ "]: " ++ r.message⟩

def failed (text : String) (journal : Journal) : Fault → Except Fault Report × Journal
  | .refusal r => (.error (.refusal r), journal.push (failureEntry text r))
  | f => (.error f, journal)

def run (s : Settings) (text : String) : Except Fault Report × Journal :=
  match takeIn s text with
  | (i, some fault) => failed text i.journal fault
  | (i, none) =>
    let elements := i.yard.output.toList
    let journal := i.journal.push ⟨.debug, .calculation,
      "Postfix for " ++ Text.quoted text ++ ": " ++ Text.bracketed (elements.map Element.shown)⟩
    match evaluatePostfix s.digits (some s.maxExponent) elements with
    | .error fault => failed text journal fault
    | .ok result =>
      match result.common with
      | .error signal => (.error (.signal signal), journal)
      | .ok formatted =>
        (.ok ⟨text, result, formatted, elements.map Element.text, i.record.toList⟩, journal)

def of (s : Settings) (text : String) : Except Fault Report := (run s text).1

end Report
end Reckon

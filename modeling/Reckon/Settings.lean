import Reckon.Input
import Reckon.Journal
import Reckon.Postfix.Yard
import Reckon.Postfix.Evaluation
/-! The settings of a calculator, from fields or from environment variables. -/
namespace Reckon

structure Settings where
  textbookPrecedence : Bool := false
  precision : Nat := 28
  maxExponent : Nat := usualExponentLimit
  logLevel : Level := .warning
  debugTokens : Bool := false
  precisionRange : 1 ≤ precision ∧ precision ≤ 1000 := by decide
  deriving DecidableEq, Repr

namespace Settings

def usual : Settings := {}

def fieldNames : List String :=
  ["textbook_precedence", "precision", "max_exponent", "log_level", "debug_tokens"]

def rule (s : Settings) : Rule := if s.textbookPrecedence then .textbook else .chained

def digits (s : Settings) : Precision := ⟨s.precision, s.precisionRange.1⟩

def tokenLevel (s : Settings) : Level := if s.debugTokens then .info else .debug

def readPrecision (input : Input) : Except Complaint { n : Nat // 1 ≤ n ∧ n ≤ 1000 } :=
  match input.readInteger with
  | .error c => .error c
  | .ok n =>
    if n < 1 then .error (.below 1)
    else if h : 1 ≤ n.toNat ∧ n.toNat ≤ 1000 then .ok ⟨n.toNat, h⟩
    else .error (.above 1000)

def readExponentLimit (input : Input) : Except Complaint Nat :=
  match input.readInteger with
  | .error c => .error c
  | .ok n => if n < 0 then .error (.below 0) else .ok n.toNat

def readLevel : Input → Except Complaint Level
  | .text s => match Level.ofName? s with
    | some l => .ok l
    | none => .error .noLevel
  | _ => .error .noLevel

def ofFields (fields : Fields) : Except (List Issue) Settings :=
  let textbook := fields.read "textbook_precedence" (.ok usual.textbookPrecedence) Input.readFlag
  let precision := fields.read "precision" (.ok ⟨usual.precision, usual.precisionRange⟩) readPrecision
  let limit := fields.read "max_exponent" (.ok usual.maxExponent) readExponentLimit
  let level := fields.read "log_level" (.ok usual.logLevel) readLevel
  let debug := fields.read "debug_tokens" (.ok usual.debugTokens) Input.readFlag
  match textbook, precision, limit, level, debug with
  | .ok t, .ok ⟨p, range⟩, .ok m, .ok l, .ok d => .ok ⟨t, p, m, l, d, range⟩
  | _, _, _, _, _ =>
    .error (issuesOf textbook ++ issuesOf precision ++ issuesOf limit ++ issuesOf level ++
      issuesOf debug)

/- Outside ASCII, the only letter with a capital that a level's name has is the i without a dot. -/

def capital (c : Char) : Char := if c.toNat = 0x131 then 'I' else c.toUpper

def capitals (s : List Char) : List Char := s.map capital

def variableName (field : String) : String :=
  "WORDCALC_" ++ String.ofList (capitals field.toList)

def environmentFields (environment : String → Option String) : Fields := fun field =>
  match environment (variableName field) with
  | none => none
  | some value =>
    let trimmed := Text.trim value.toList
    if trimmed = [] then none
    else some (.text (String.ofList (if field = "log_level" then capitals trimmed else trimmed)))

def ofEnvironment (environment : String → Option String) : Except (List Issue) Settings :=
  ofFields (environmentFields environment)

end Settings
end Reckon

import Reckon.Report
/-! The calculator as a service: evaluation of an expression or of an uploaded file, and a health
check. Without settings the service is not up. -/
namespace Reckon

structure Service where
  settings? : Option Settings

namespace Service

def version : String := "1.0.0"

def largestFile : Int := 65536

def longestExpression : Nat := 10000

inductive Request where
  | health
  | evaluate (body : Fields)
  | file (content : ByteArray) (declaredSize : Option Int)

inductive Response where
  | healthy (version : String)
  | evaluated (expression result : String) (postfixTexts : List String)

inductive Failure where
  | notUp
  | fileTooLarge
  | fileNotText
  | fileEmpty
  | refused (r : Refusal)
  | body (issues : List Issue)
  | fault (f : Fault)

namespace Failure

def status? : Failure → Option Nat
  | notUp => some 503
  | fileTooLarge => some 413
  | fileNotText => some 400
  | fileEmpty | refused _ => some 422
  | body _ | fault _ => none

def detail? : Failure → Option String
  | notUp => some "Pipeline not initialised"
  | fileTooLarge => some "File too large (max 64 KB)"
  | fileNotText => some "File must be UTF-8 encoded text"
  | fileEmpty => some "File is empty"
  | refused _ | body _ | fault _ => none

end Failure

def readExpression (input : Input) : Except Complaint String :=
  match input.readText with
  | .error c => .error c
  | .ok s =>
    if s.length < 1 then .error .tooShort
    else if longestExpression < s.length then .error (.tooLong longestExpression)
    else .ok s

def up (service : Service) : Except Failure Settings :=
  match service.settings? with
  | some s => .ok s
  | none => .error .notUp

def evaluate (service : Service) (expression : String) : Except Failure Response := do
  let s ← service.up
  match Report.of s expression with
  | .ok report => return .evaluated report.expression report.formatted report.postfixTexts
  | .error (.refusal r) => throw (.refused r)
  | .error fault => throw (.fault fault)

def evaluateFile (service : Service) (content : ByteArray) (declaredSize : Option Int) :
    Except Failure Response :=
  if declaredSize.any (largestFile < ·) then .error .fileTooLarge
  else
    match String.fromUTF8? content with
    | none => .error .fileNotText
    | some expression =>
      if Text.isBlankText expression.toList then .error .fileEmpty
      else service.evaluate expression

def answer (service : Service) : Request → Except Failure Response
  | .health => do
    let _ ← service.up
    return .healthy version
  | .evaluate body =>
    match body.read "expression" (.error .missing) readExpression with
    | .error issue => .error (.body [issue])
    | .ok expression => service.evaluate expression
  | .file content declaredSize => service.evaluateFile content declaredSize

def answersDown (requests : List Request) : List (Except Failure Response) :=
  requests.map (Service.answer ⟨none⟩)

def answersUp (environment : String → Option String) (requests : List Request) :
    Except (List Issue) (List (Except Failure Response)) := do
  let s ← Settings.ofEnvironment environment
  return requests.map (Service.answer ⟨some s⟩) ++ [Service.answer ⟨none⟩ .health]

end Service
end Reckon

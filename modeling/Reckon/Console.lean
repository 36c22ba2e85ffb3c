import Reckon.Report
/-! The calculator at a console: one expression, from the arguments or from a prompt. -/
namespace Reckon

inductive Console.Failure where
  | settings (issues : List Issue)
  | noLine
  | fault (f : Fault)

def Console.Failure.message : Console.Failure → String
  | settings issues =>
    String.join (issues.map (fun i => i.field ++ ": " ++ i.complaint.message ++ "\n"))
  | noLine => "There is no expression\n"
  | fault _ => "The expression cannot be evaluated\n"

structure Console where
  exit : Except Console.Failure Nat
  output : String
  errors : String

namespace Console

def prompt : String := "input: "

def expressionOf? (arguments : List String) : Option String :=
  if arguments.isEmpty then none else some (" ".intercalate arguments)

def firstLine? (input : String) : Option String :=
  if input.isEmpty then none
  else some (String.ofList (input.toList.takeWhile (· != '\n')))

def journalText (s : Settings) (journal : Journal) : String :=
  String.join ((journal.atLeast s.logLevel).map (fun e => e.line ++ "\n"))

def refusalText (r : Refusal) : String :=
  "\x1b[91m\x1b[1mError [" ++ r.code ++ "]\x1b[0m: " ++ r.message ++ "\n"

def evaluate (s : Settings) (expression : String) : Console :=
  let (outcome, journal) := Report.run s expression
  let notes := journalText s journal
  match outcome with
  | .ok report => ⟨.ok 0, "Eval: " ++ report.formatted ++ "\n", notes⟩
  | .error (.refusal r) => ⟨.ok 1, "", notes ++ refusalText r⟩
  | .error fault => ⟨.error (.fault fault), "", notes⟩

def answerText (arguments : List String) (c : Console) : String :=
  if (expressionOf? arguments).isSome then c.output
  else String.ofList (c.output.toList.drop prompt.length)

def run (environment : String → Option String) (arguments : List String) (input : String) :
    Console :=
  match Settings.ofEnvironment environment with
  | .error issues => ⟨.error (.settings issues), "", ""⟩
  | .ok s =>
    match expressionOf? arguments with
    | some expression => evaluate s expression
    | none =>
      match firstLine? input with
      | none => ⟨.error .noLine, prompt, ""⟩
      | some line =>
        let answered := evaluate s line
        { answered with output := prompt ++ answered.output }

end Console
end Reckon

import Reckon.Console
import Reckon.Proofs.Report.Faults
import Reckon.Service
/-! One expression at the console, in a request and in an uploaded file. Each way has guards of its own, and none
of them stops an expression that is neither blank nor too long. -/
namespace Reckon

theorem Text.decodeEncoded (text : String) : String.fromUTF8? text.toUTF8 = some text := by
  simp only [String.fromUTF8?, String.toUTF8_eq_toByteArray, dif_pos text.isValidUTF8]
  rfl

theorem Text.bytesAtMost (text : String) : text.utf8ByteSize ≤ 4 * text.length := by
  induction text using String.push_induction with
  | empty => simp
  | push text c ih =>
    have four := c.utf8Size_le_four
    rw [String.utf8ByteSize_push, String.length_push]
    omega

namespace Report
variable {s : Settings} {text : String} {r : Report}

theorem ofExpression (made : Report.of s text = .ok r) : r.expression = text := by
  obtain ⟨i, taken, evaluated, common, _⟩ := ofOk made
  rw [ofTakenIn taken, evaluated] at made
  simp only [common] at made
  exact congrArg expression (Except.ok.inj made).symm

theorem okOrRefused (ends : PowersEnd s text) (short : Text.isTooLong s.maxExponent = false) :
    (∃ r, Report.of s text = .ok r) ∨ ∃ refusal, Report.of s text = .error (.refusal refusal) := by
  obtain (⟨r, made, _⟩ | refused) | endless | untold := comesTo s text
  · exact .inl ⟨r, made⟩
  · exact .inr refused
  · exact absurd endless ends
  · exact absurd untold (toldShort short text)

end Report

variable {s : Settings} {environment : String → Option String} {text : String} {r : Report}
  {refusal : Refusal}

namespace Console

theorem runArgument (valid : Settings.ofEnvironment environment = .ok s) (text input : String) :
    run environment [text] input = evaluate s text := by
  simp only [run, valid, expressionOf?, List.isEmpty_cons, Bool.false_eq_true, if_false,
    String.intercalate_singleton]

theorem evaluateReport (made : Report.of s text = .ok r) :
    evaluate s text = ⟨.ok 0, "Eval: " ++ r.formatted ++ "\n", journalText s (Report.run s text).2⟩ := by
  unfold Report.of at made
  simp only [evaluate, made]

theorem evaluateRefused (refused : Report.of s text = .error (.refusal refusal)) :
    evaluate s text = ⟨.ok 1, "", journalText s (Report.run s text).2 ++ refusalText refusal⟩ := by
  unfold Report.of at refused
  simp only [evaluate, refused]

end Console

namespace Service

theorem evaluateReport (made : Report.of s text = .ok r) :
    evaluate ⟨some s⟩ text = .ok (.evaluated text r.formatted r.postfixTexts) := by
  have expression := Report.ofExpression made
  simp only [evaluate, up, bind, Except.bind, made, expression]
  rfl

theorem evaluateRefused (refused : Report.of s text = .error (.refusal refusal)) :
    evaluate ⟨some s⟩ text = .error (.refused refusal) := by
  simp only [evaluate, up, bind, Except.bind, refused]
  rfl

theorem readExpressionText (present : text ≠ "") (short : text.length ≤ longestExpression) :
    readExpression (.text text) = .ok text := by
  have notEmpty : ¬ text.length < 1 := by
    simpa [Nat.lt_one_iff] using present
  simp only [readExpression, Input.readText, if_neg notEmpty, if_neg (not_lt.mpr short)]

theorem answerRequest {service : Service} {body : Fields} (expression : body "expression" = some (.text text))
    (present : text ≠ "") (short : text.length ≤ longestExpression) :
    service.answer (.evaluate body) = service.evaluate text := by
  simp only [answer, Fields.read, expression, readExpressionText present short]

theorem answerFile {service : Service} {declared : Option ℤ} (written : Text.isBlankText text.toList = false)
    (short : text.length ≤ longestExpression) (size : ∀ n ∈ declared, n = text.toUTF8.size) :
    service.answer (.file text.toUTF8 declared) = service.evaluate text := by
  have bytes : text.toUTF8.size ≤ 4 * text.length := Text.bytesAtMost text
  have small : declared.any (largestFile < ·) = false := by
    cases declared with
    | none => rfl
    | some n =>
      obtain rfl := size n rfl
      unfold longestExpression at short
      rw [Option.any_some, decide_eq_false_iff_not, largestFile]
      omega
  simp only [answer, evaluateFile, small, Text.decodeEncoded, written, Bool.false_eq_true, if_false]

inductive Agrees (text : String) (console : Console) : Except Failure Response → Prop where
  | evaluated (result : String) (postfixTexts : List String) (exit : console.exit = .ok 0)
      (output : console.output = "Eval: " ++ result ++ "\n") :
      Agrees text console (.ok (.evaluated text result postfixTexts))
  | refused (refusal : Refusal) (notes : String) (exit : console.exit = .ok 1)
      (line : console.errors = notes ++
        ("\x1b[91m\x1b[1mError [" ++ refusal.code ++ "]\x1b[0m: " ++ refusal.message ++ "\n"))
      (status : (Failure.refused refusal).status? = some 422) :
      Agrees text console (.error (.refused refusal))

theorem evaluateAgrees (ends : Report.PowersEnd s text) (told : Text.isTooLong s.maxExponent = false) :
    Agrees text (Console.evaluate s text) (evaluate ⟨some s⟩ text) := by
  obtain ⟨r, made⟩ | ⟨refusal, refused⟩ := Report.okOrRefused ends told
  · rw [Console.evaluateReport made, evaluateReport made]
    exact .evaluated _ _ rfl rfl
  · rw [Console.evaluateRefused refused, evaluateRefused refused]
    exact .refused refusal (Console.journalText s (Report.run s text).2) rfl rfl rfl

/-- In an environment with valid settings, a text that is neither blank nor too long gets one answer from the
service, whether it stands in a request or is the content of a file, and the console agrees with it. No limit is
read from an environment that is too long to be told. -/
theorem consoleAgrees (valid : Settings.ofEnvironment environment = .ok s)
    (told : Text.isTooLong s.maxExponent = false) {body : Fields} {declared : Option ℤ}
    (written : Text.isBlankText text.toList = false) (short : text.length ≤ longestExpression)
    (ends : Report.PowersEnd s text) (expression : body "expression" = some (.text text))
    (size : ∀ n ∈ declared, n = text.toUTF8.size) (input : String) :
    ∃ answer, answersUp environment [.evaluate body, .file text.toUTF8 declared] =
        .ok [answer, answer, .error .notUp] ∧
      Agrees text (Console.run environment [text] input) answer := by
  have present : text ≠ "" := by
    rintro rfl
    cases written
  refine ⟨evaluate ⟨some s⟩ text, ?_, ?_⟩
  · simp only [answersUp, valid, bind, Except.bind, List.map_cons, List.map_nil,
      answerRequest expression present short, answerFile written short size]
    rfl
  · rw [Console.runArgument valid]
    exact evaluateAgrees ends told

theorem consoleAgreesSpoken :
    ∃ answer, answersUp (fun _ => none)
        [.evaluate (fun _ => some (.text "two\u00a0hundred plus 3")),
          .file "two\u00a0hundred plus 3".toUTF8 (some 19)] = .ok [answer, answer, .error .notUp] ∧
      Agrees "two\u00a0hundred plus 3" (Console.run (fun _ => none) ["two\u00a0hundred plus 3"] "") answer := by
  have valid : Settings.ofEnvironment (fun _ => none) = .ok .usual := by decide +kernel
  have ends : Report.PowersEnd .usual "two\u00a0hundred plus 3" := Report.powersEnd (by decide +kernel)
  exact consoleAgrees valid (by decide +kernel) (by decide +kernel) (by decide +kernel) ends rfl
    (by decide +kernel) ""

end Service
end Reckon

import Reckon.Proofs.Report.Munched
import Reckon.Proofs.Report.Recorded
import Reckon.Proofs.Token.Blanked
/-! Words in neither dictionary make no difference. A text and the same text with blanks in place of these
words are taken in in step, and only the words of the two records differ. -/
namespace Reckon
open Token

def withoutWords (ts : List Token) : List Token := ts.filter fun t => t.kind ≠ .word

theorem withoutWordsAppend (ts us : List Token) :
    withoutWords (ts ++ us) = withoutWords ts ++ withoutWords us := List.filter_append ..

namespace Intake

structure Alike (i j : Intake) : Prop where
  phrase : i.phrase = j.phrase
  yard : i.yard = j.yard
  record : withoutWords i.record.toList = withoutWords j.record.toList

theorem Alike.refl (i : Intake) : Alike i i := ⟨rfl, rfl, rfl⟩

theorem Alike.trans {i j k : Intake} (first : Alike i j) (second : Alike j k) : Alike i k :=
  ⟨first.phrase.trans second.phrase, first.yard.trans second.yard, first.record.trans second.record⟩

theorem Alike.withPhrase {i j : Intake} (alike : Alike i j) (phrase : Phrase) :
    Alike { i with phrase := phrase } { j with phrase := phrase } :=
  ⟨rfl, alike.yard, alike.record⟩

inductive InStep : Intake × Option Fault → Intake × Option Fault → Prop where
  | mk {i j : Intake} {fault : Option Fault} (alike : Alike i j) : InStep (i, fault) (j, fault)

theorem InStep.andThen {x y : Intake × Option Fault} {f g : Intake → Intake × Option Fault} :
    InStep x y → (∀ {i j : Intake}, Alike i j → InStep (f i) (g j)) →
      InStep (match x with | (i, none) => f i | refused => refused)
        (match y with | (j, none) => g j | refused => refused) := by
  intro step next
  cases step with
  | @mk i j fault alike =>
    cases fault with
    | none => exact next alike
    | some f => exact .mk alike

variable {i j : Intake}

theorem receiveItemInStep (alike : Alike i j) (item : Phrase.Item) :
    InStep (i.receiveItem item) (j.receiveItem item) := by
  obtain ⟨yard, phrase, outcome⟩ := i.receiveItemYard item
  obtain ⟨yard', phrase', outcome'⟩ := j.receiveItemYard item
  have record := i.receiveItemRecord item
  have record' := j.receiveItemRecord item
  cases received : i.receiveItem item with
  | mk k fault =>
    cases received' : j.receiveItem item with
    | mk k' fault' =>
      simp only [received, received'] at yard yard' phrase phrase' outcome outcome' record record'
      rw [← alike.yard] at yard' outcome'
      obtain rfl := outcome.trans outcome'.symm
      refine .mk ⟨by rw [phrase, phrase', alike.phrase], by rw [yard, yard'], ?_⟩
      rw [record, record', Array.toList_push, Array.toList_push, withoutWordsAppend, withoutWordsAppend,
        alike.record]

theorem receiveItemsInStep (alike : Alike i j) (items : List Phrase.Item) :
    InStep (i.receiveItems items) (j.receiveItems items) := by
  induction items generalizing i j with
  | nil => exact .mk alike
  | cons item items ih =>
    exact (receiveItemInStep alike item).andThen fun between => ih between

theorem receiveInStep (alike : Alike i j) (t : Token) : InStep (i.receive t) (j.receive t) := by
  obtain ⟨phrase, items, taken⟩ : ∃ phrase items, i.phrase.take t = .ok (phrase, items) :=
    ⟨_, _, Phrase.takePart i.phrase t⟩
  rw [receiveTake taken, receiveTake (alike.phrase ▸ taken)]
  exact receiveItemsInStep (alike.withPhrase phrase) items

theorem closeInStep (alike : Alike i j) : InStep i.closePhrase j.closePhrase := by
  rw [closeItems, closeItems, alike.phrase]
  exact receiveItemsInStep (alike.withPhrase #[]) j.phrase.closing

theorem finishInStep (alike : Alike i j) : InStep i.finishYard j.finishYard := by
  unfold finishYard
  rw [alike.yard]
  exact .mk ⟨alike.phrase, rfl, alike.record⟩

theorem receiveUnknown (i : Intake) {t : Token} (unknown : t.known = false) :
    ∃ k, i.receive t = (k, none) ∧ Alike k i := by
  rw [knownPart] at unknown
  cases part : t.part with
  | barrier u => simp [part] at unknown
  | number w => simp [part] at unknown
  | unknown lexeme =>
    have took : i.phrase.take t = .ok (i.phrase, [.unknown lexeme]) := by rw [Phrase.takePart, part]
    obtain ⟨yard, phrase, outcome⟩ := i.receiveItemsYard [.unknown lexeme]
    rw [receiveTake took]
    cases taken : i.receiveItems [.unknown lexeme] with
    | mk k fault =>
      rw [taken] at yard phrase outcome
      obtain rfl : fault = none := outcome
      refine ⟨k, rfl, phrase, yard, ?_⟩
      rw [(receiveItemsTaken taken).1, withoutWordsAppend]
      exact List.append_nil _

theorem feedInStep (alike : Alike i j) (ts : List Token) :
    InStep (feed receive i ts) (feed receive j (ts.filter known)) := by
  induction ts generalizing i j with
  | nil => exact .mk alike
  | cons t ts ih =>
    cases known : t.known with
    | false =>
      obtain ⟨k, taken, same⟩ := i.receiveUnknown known
      rw [feedTaken taken, List.filter_cons_of_neg (by simp [known])]
      exact ih (same.trans alike)
    | true =>
      have step := receiveInStep alike t
      rw [List.filter_cons_of_pos known]
      unfold feed
      generalize i.receive t = x at step
      generalize j.receive t = y at step
      cases step with
      | @mk _ _ fault between =>
        cases fault with
        | none => exact ih between
        | some f => exact .mk between

end Intake

def blanked (text : String) : String := String.ofList (blankUnknown text.toList)

namespace Report
open Intake

theorem restInStep {i j : Intake} (alike : Alike i j) (position : Nat) {rest rest' : List Char}
    (head : rest'.head? = rest.head?) : InStep (takeRest i position rest) (takeRest j position rest') := by
  cases rest with
  | cons a after =>
    obtain ⟨after', rfl⟩ := List.head?_eq_some_iff.mp head
    exact .mk alike
  | nil =>
    obtain rfl : rest' = [] := List.head?_eq_none_iff.mp head
    exact (closeInStep alike).andThen finishInStep

theorem takeInInStep (s : Settings) (text : String) : InStep (takeIn s text) (takeIn s (blanked text)) := by
  obtain ⟨before, rest, whole, readable, stops⟩ := readableCut text.toList
  obtain ⟨before', rest', cut, readable', tokens, length, head⟩ := blankedCut readable stops
  have whole' : (blanked text).toList = before' ++ rest' := by
    rw [blanked, String.toList_ofList, whole, cut]
  have fed := feedInStep (Alike.refl (.empty s.tokenLevel s.rule)) (munch before)
  rw [takeInText whole readable stops, takeInText whole' readable' (head ▸ stops), tokens, length]
  exact fed.andThen fun alike => restInStep alike before.length head

structure Same (r q : Report) : Prop where
  result : r.result = q.result
  formatted : r.formatted = q.formatted
  postfixTexts : r.postfixTexts = q.postfixTexts
  tokens : withoutWords r.tokens = withoutWords q.tokens

/-- With blanks in place of its unknown words a text has the same report, but for these words, or the same
fault, with all that it tells. -/
theorem unknownTransparent (s : Settings) (text : String) :
    (∃ r q, Report.of s text = .ok r ∧ Report.of s (blanked text) = .ok q ∧ Same r q) ∨
      ∃ f, Report.of s text = .error f ∧ Report.of s (blanked text) = .error f := by
  have step := takeInInStep s text
  cases taken : takeIn s text with
  | mk i fault =>
    cases taken' : takeIn s (blanked text) with
    | mk j fault' =>
      rw [taken, taken'] at step
      cases step with
      | mk alike =>
        cases fault with
        | some f => exact .inr ⟨f, ofStopped taken, ofStopped taken'⟩
        | none =>
          rw [ofTakenIn taken, ofTakenIn taken', ← alike.yard]
          cases evaluatePostfix s.digits (some s.maxExponent) i.yard.output.toList with
          | error f => exact .inr ⟨f, rfl, rfl⟩
          | ok v =>
            simp only
            cases v.common with
            | error signal => exact .inr ⟨_, rfl, rfl⟩
            | ok formatted => exact .inl ⟨_, _, rfl, rfl, rfl, rfl, rfl, alike.record⟩

example : blanked "2abc3 plus two and HUNDREDS" = "2   3 plus two             " := by decide

end Report
end Reckon

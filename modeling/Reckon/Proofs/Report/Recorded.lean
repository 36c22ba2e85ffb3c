import Reckon.Proofs.Decimal.Literal
import Reckon.Proofs.Decimal.Finite
import Reckon.Proofs.Intake
import Reckon.Proofs.Text.Letters
import Reckon.Proofs.Token.Delivered
import Reckon.Proofs.Yard.Tally
/-! What a report records: the yard has taken exactly the tokens of the record, in their order, and all
numbers among them are finite and without a sign. If something stops the intake it is a refusal. -/
namespace Reckon

namespace Token
open Decimal

theorem digitOrPoint {c : Char} (digit : CharClass.ofChar c = .digit) : c.isDigit = true ∨ c = '.' := by
  unfold CharClass.ofChar at digit
  split at digit
  · cases digit
  split at digit
  · cases digit
  split at digit
  · rename_i either
    simpa using either
  repeat' split at digit
  all_goals cases digit

theorem classOfDigit {c : Char} (digit : c.isDigit = true ∨ c = '.') : CharClass.ofChar c = .digit := by
  have blank := plainNotBlank (digit.imp_right .inl)
  have low := beginLow digit
  have noLetter : c.isAlpha = false := by
    rw [Bool.eq_false_iff]
    intro letter
    have range := Text.letterRange.mp letter
    omega
  simp [CharClass.ofChar, blank, noLetter, digit]

def ReadsUnsigned (t : Token) : Prop :=
  t.kind = .number → ∀ d, Yard.readLiteral t.lexeme = .ok d → d.Unsigned

theorem Fits.readsUnsigned {t : Token} (fits : t.Fits) : t.ReadsUnsigned := by
  intro kind d reads
  have digits : ∀ c ∈ t.lexeme.toList, c.isDigit = true ∨ c = '.' := by
    intro c member
    have own := fits.own c member
    rw [kind] at own
    exact digitOrPoint own
  obtain ⟨numeral, other⟩ := ofNumeralRow digits fits.nonempty
  rw [String.ofList_toList] at numeral other
  unfold Yard.readLiteral at reads
  by_cases row : IsNumeral t.lexeme.toList
  · rw [numeral row] at reads
    cases reads
    exact ⟨_, _, rfl, .inl (by omega)⟩
  · rw [other row] at reads
    cases reads

end Token

namespace Phrase

theorem closingReadsUnsigned (p : Phrase) : ∀ item ∈ p.closing, item.token.ReadsUnsigned := by
  intro item member
  cases memClosing member
  intro _ d reads
  obtain ⟨c, e, form, place⟩ := numberForm p.toList
  cases (numberReads p.toList).symm.trans reads
  exact ⟨c, e, form, .inr (by unfold Decimal.highestPlace; omega)⟩

theorem takeReadsUnsigned {p q : Phrase} {t : Token} {items : List Item} (fits : t.Fits)
    (taken : p.take t = .ok (q, items)) : ∀ item ∈ items, item.token.ReadsUnsigned := by
  rw [takePart] at taken
  intro item member
  cases part : t.part with
  | number w =>
    simp only [part] at taken
    cases taken
    cases member
  | unknown lexeme =>
    simp only [part] at taken
    cases taken
    cases List.mem_singleton.mp member
    intro kind
    cases kind
  | barrier u =>
    simp only [part] at taken
    cases taken
    rcases List.mem_append.mp member with closed | passed
    · exact closingReadsUnsigned p item closed
    · cases List.mem_singleton.mp passed
      obtain ⟨_, rfl⟩ | ⟨o, rfl⟩ := Token.ofBarrier part
      · exact fits.readsUnsigned
      · intro kind
        cases kind

end Phrase

namespace Intake

theorem receiveItemRecord (i : Intake) (item : Phrase.Item) :
    (i.receiveItem item).1.record = i.record.push item.token := by
  unfold receiveItem receiveRecord receiveYard note
  cases remark? item <;> rfl

theorem receiveItemsTaken {i j : Intake} {items : List Phrase.Item}
    (taken : i.receiveItems items = (j, none)) :
    j.record.toList = i.record.toList ++ items.map Phrase.Item.token ∧
      feed Yard.receive i.yard (items.map Phrase.Item.token) = (j.yard, none) := by
  constructor
  · induction items generalizing i with
    | nil =>
      cases taken
      simp
    | cons item items ih =>
      unfold receiveItems at taken
      split at taken
      · rename_i between first
        have recorded := receiveItemRecord i item
        simp only [first] at recorded
        rw [ih taken, recorded]
        simp
      · rename_i refused
        exact absurd taken (refused j)
  · obtain ⟨yard, _, outcome⟩ := i.receiveItemsYard items
    rw [taken] at yard outcome
    exact Prod.ext yard.symm (Option.map_eq_none_iff.mp outcome.symm)

theorem receiveItemsRefused {i j : Intake} {items : List Phrase.Item} {f : Fault}
    (refused : i.receiveItems items = (j, some f)) : ∃ r, f = .refusal r := by
  obtain ⟨_, _, outcome⟩ := i.receiveItemsYard items
  rw [refused] at outcome
  obtain ⟨r, _, same⟩ := Option.map_eq_some_iff.mp outcome.symm
  exact ⟨r, same.symm⟩

structure Recorded (rule : Rule) (i : Intake) : Prop where
  yard : feed Yard.receive (.empty rule) i.record.toList = (i.yard, none)
  unsigned : ∀ t ∈ i.record.toList, t.ReadsUnsigned

variable {rule : Rule} {i j : Intake} {t : Token} {f : Fault}

theorem Recorded.withPhrase (recorded : i.Recorded rule) (phrase : Phrase) :
    Recorded rule { i with phrase := phrase } :=
  ⟨recorded.yard, recorded.unsigned⟩

theorem itemsRecorded {items : List Phrase.Item} (recorded : i.Recorded rule)
    (unsigned : ∀ item ∈ items, item.token.ReadsUnsigned) (taken : i.receiveItems items = (j, none)) :
    j.Recorded rule := by
  obtain ⟨record, fed⟩ := receiveItemsTaken taken
  constructor
  · rw [record, feedAppend recorded.yard, fed]
  · intro t member
    rw [record] at member
    rcases List.mem_append.mp member with before | new
    · exact recorded.unsigned t before
    · obtain ⟨item, inside, rfl⟩ := List.mem_map.mp new
      exact unsigned item inside

theorem receiveRecorded (recorded : i.Recorded rule) (fits : t.Fits)
    (taken : i.receive t = (j, none)) : j.Recorded rule := by
  unfold receive at taken
  split at taken
  · cases taken
  · rename_i phrase items took
    exact itemsRecorded (recorded.withPhrase phrase) (Phrase.takeReadsUnsigned fits took) taken

theorem receiveRefused (refused : i.receive t = (j, some f)) : ∃ r, f = .refusal r := by
  unfold receive at refused
  rw [Phrase.takePart] at refused
  exact receiveItemsRefused refused

theorem closeRecorded (recorded : i.Recorded rule) (closed : i.closePhrase = (j, none)) :
    j.Recorded rule := by
  rw [closeItems] at closed
  exact itemsRecorded (recorded.withPhrase #[]) (Phrase.closingReadsUnsigned i.phrase) closed

theorem closeRefused (refused : i.closePhrase = (j, some f)) : ∃ r, f = .refusal r := by
  rw [closeItems] at refused
  exact receiveItemsRefused refused

theorem emptyRecorded (level : Level) (rule : Rule) : (empty level rule).Recorded rule :=
  ⟨rfl, fun _ member => nomatch member⟩

end Intake

namespace Report
variable {s : Settings} {text : String} {i : Intake} {f : Fault}

theorem scanRecorded (s : Settings) (text : String) :
    Cursor.Ends (Intake.Recorded s.rule) (fun f => ∃ r, f = .refusal r)
      ((Cursor.ofText text).scan Intake.receive (.empty s.tokenLevel s.rule)) :=
  Cursor.scanEnds (fun _ _ _ fits recorded taken => Intake.receiveRecorded recorded fits taken)
    (fun _ _ _ _ _ _ refused => Intake.receiveRefused refused)
    (Cursor.heldOutside (.inl rfl) ..) (Intake.emptyRecorded ..)

theorem takeInRecorded (taken : takeIn s text = (i, none)) :
    Yard.order s.rule i.record.toList = .ok i.yard.output.toList ∧
      ∀ t ∈ i.record.toList, t.ReadsUnsigned := by
  have ends := scanRecorded s text
  unfold takeIn at taken
  unfold Cursor.Ends at ends
  simp only at taken
  split at taken
  · cases taken
  · rename_i halted
    rw [halted] at ends
    split at taken
    · rename_i j closed
      have recorded := Intake.closeRecorded ends closed
      unfold Intake.finishYard at taken
      cases finished : j.yard.finish with
      | mk y reason =>
        simp only [finished] at taken
        cases reason with
        | some r => cases taken
        | none =>
          cases taken
          exact ⟨Yard.orderFinished recorded.yard finished, recorded.unsigned⟩
    · rename_i refused
      exact absurd taken (refused i)

theorem takeInRefused (stopped : takeIn s text = (i, some f)) : ∃ r, f = .refusal r := by
  have ends := scanRecorded s text
  unfold takeIn at stopped
  unfold Cursor.Ends at ends
  simp only at stopped
  split at stopped
  · rename_i halt halted
    rw [halted] at ends
    cases stopped
    cases halt with
    | unrecognized c n => exact ⟨_, rfl⟩
    | refused reason => exact ends
  · split at stopped
    · rename_i j closed
      unfold Intake.finishYard at stopped
      cases finished : j.yard.finish with
      | mk y reason =>
        simp only [finished] at stopped
        cases reason with
        | some r =>
          cases stopped
          exact ⟨r, rfl⟩
        | none => cases stopped
    · exact Intake.closeRefused stopped

theorem ofOk {r : Report} (made : Report.of s text = .ok r) :
    ∃ i, takeIn s text = (i, none) ∧
      evaluatePostfix s.digits (some s.maxExponent) i.yard.output.toList = .ok r.result ∧
      r.result.common = .ok r.formatted ∧ r.postfixTexts = i.yard.output.toList.map Element.text ∧
      r.tokens = i.record.toList := by
  unfold Report.of run at made
  split at made
  · rename_i j fault taken
    obtain ⟨refusal, rfl⟩ := takeInRefused taken
    cases made
  · rename_i j taken
    simp only at made
    split at made
    · rename_i fault failing
      cases fault <;> cases made
    · rename_i result evaluated
      split at made
      · cases made
      · rename_i formatted common
        cases made
        exact ⟨j, taken, evaluated, common, rfl, rfl⟩

theorem ofRecorded {r : Report} (made : Report.of s text = .ok r) :
    ∃ elements, Yard.order s.rule r.tokens = .ok elements ∧
      r.postfixTexts = elements.map Element.text ∧
      evaluatePostfix s.digits (some s.maxExponent) elements = .ok r.result := by
  obtain ⟨i, taken, evaluated, _, texts, record⟩ := ofOk made
  rw [record]
  exact ⟨_, (takeInRecorded taken).1, texts, evaluated⟩

end Report
end Reckon

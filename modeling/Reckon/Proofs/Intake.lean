import Reckon.Proofs.Phrase.Stream
import Reckon.Proofs.Token.Spaced
import Reckon.Proofs.Yard.Group
import Reckon.Report
/-! An intake against its parts: what its phrase makes of the tokens goes to the record and to the yard,
and the yard alone decides whether the expression is taken. -/
namespace Reckon

namespace Phrase

theorem orderKnown (rule : Rule) (ts : List Token) :
    Yard.order rule ((stream #[] ts).map Item.token) =
      Yard.order rule ((stream #[] (ts.filter Token.known)).map Item.token) := by
  have senses : ∀ items : List Item, (items.map Item.token).filterMap Token.sense? =
      ((items.filter (fun i => !isUnknown i)).map Item.token).filterMap Token.sense? := by
    intro items
    rw [List.filterMap_map, List.filterMap_map, List.filterMap_filter]
    congr 1
    funext i
    cases i <;> rfl
  rw [Yard.orderSense, senses, streamKnown, ← Yard.orderSense]

end Phrase

namespace Intake

theorem receiveRecordYard (i : Intake) (t : Token) :
    (i.receiveRecord t).1.yard = (i.yard.receive t).1 ∧ (i.receiveRecord t).1.phrase = i.phrase ∧
      (i.receiveRecord t).2 = (i.yard.receive t).2.map .refusal := by
  unfold receiveRecord receiveYard note
  exact ⟨rfl, rfl, rfl⟩

theorem receiveItemYard (i : Intake) (item : Phrase.Item) :
    (i.receiveItem item).1.yard = (i.yard.receive item.token).1 ∧
      (i.receiveItem item).1.phrase = i.phrase ∧
      (i.receiveItem item).2 = (i.yard.receive item.token).2.map .refusal := by
  unfold receiveItem
  cases remark? item with
  | none => exact i.receiveRecordYard item.token
  | some e => exact (i.note e).receiveRecordYard item.token

theorem receiveItemsYard (i : Intake) (items : List Phrase.Item) :
    (i.receiveItems items).1.yard = (feed Yard.receive i.yard (items.map Phrase.Item.token)).1 ∧
      (i.receiveItems items).1.phrase = i.phrase ∧
      (i.receiveItems items).2 =
        (feed Yard.receive i.yard (items.map Phrase.Item.token)).2.map .refusal := by
  induction items generalizing i with
  | nil => exact ⟨rfl, rfl, rfl⟩
  | cons item items ih =>
    obtain ⟨yard, phrase, outcome⟩ := i.receiveItemYard item
    cases answer : i.yard.receive item.token with
    | mk y reason =>
      rw [answer] at yard outcome
      cases received : i.receiveItem item with
      | mk j fault =>
        rw [received] at yard phrase outcome
        cases reason with
        | some r =>
          obtain rfl : fault = some (.refusal r) := outcome
          rw [List.map_cons, feedRefused answer]
          simp only [receiveItems, received]
          exact ⟨yard, phrase, rfl⟩
        | none =>
          obtain rfl : fault = none := outcome
          obtain ⟨yards, phrases, outcomes⟩ := ih j
          obtain rfl : j.yard = y := yard
          rw [List.map_cons, feedTaken answer]
          simp only [receiveItems, received]
          exact ⟨yards, phrases.trans phrase, outcomes⟩

theorem receiveTake {i : Intake} {t : Token} {phrase : Phrase} {items : List Phrase.Item}
    (taken : i.phrase.take t = .ok (phrase, items)) :
    i.receive t = Intake.receiveItems { i with phrase := phrase } items := by
  simp only [receive, taken]

theorem closeItems (i : Intake) :
    i.closePhrase = Intake.receiveItems { i with phrase := #[] } i.phrase.closing := by
  simp only [closePhrase, Phrase.closeClosing]

def takeAll (i : Intake) (ts : List Token) : Intake × Option Fault :=
  match feed receive i ts with
  | (j, none) => j.closePhrase
  | refused => refused

theorem takeAllTaken {i j : Intake} {t : Token} {ts : List Token} (taken : i.receive t = (j, none)) :
    i.takeAll (t :: ts) = j.takeAll ts := by
  simp only [takeAll, feedTaken taken]

theorem takeAllRefused {i j : Intake} {t : Token} {ts : List Token} {fault : Fault}
    (refused : i.receive t = (j, some fault)) : i.takeAll (t :: ts) = (j, some fault) := by
  simp only [takeAll, feedRefused refused]

theorem takeAllYard (i : Intake) (ts : List Token) :
    (i.takeAll ts).1.yard =
        (feed Yard.receive i.yard ((Phrase.stream i.phrase ts).map Phrase.Item.token)).1 ∧
      (i.takeAll ts).2 =
        (feed Yard.receive i.yard ((Phrase.stream i.phrase ts).map Phrase.Item.token)).2.map .refusal := by
  induction ts generalizing i with
  | nil =>
    obtain ⟨yard, _, outcome⟩ := receiveItemsYard { i with phrase := #[] } i.phrase.closing
    rw [← closeItems] at yard outcome
    exact ⟨yard, outcome⟩
  | cons t ts ih =>
    obtain ⟨phrase, items, taken, streamed⟩ := Phrase.streamTake i.phrase t ts
    obtain ⟨yard, kept, outcome⟩ := receiveItemsYard { i with phrase := phrase } items
    rw [← receiveTake taken] at yard kept outcome
    rw [streamed, List.map_append]
    cases answer : i.receive t with
    | mk j fault =>
      cases passed : feed Yard.receive i.yard (items.map Phrase.Item.token) with
      | mk y reason =>
        rw [answer, passed] at yard outcome
        rw [answer] at kept
        cases reason with
        | some r =>
          obtain rfl : fault = some (.refusal r) := outcome
          rw [takeAllRefused answer, feedAppendRefused passed]
          exact ⟨yard, rfl⟩
        | none =>
          obtain rfl : fault = none := outcome
          obtain rfl : j.yard = y := yard
          obtain rfl : j.phrase = phrase := kept
          rw [takeAllTaken answer, feedAppend passed]
          exact ih j

end Intake
end Reckon

import Reckon.Journal
import Reckon.Phrase
import Reckon.Postfix.Yard
import Reckon.Token.Scan
/-! The way of a token: through the phrase that may hold it back, into the record, into the yard.
What a stage has done stays done when a later one refuses. -/
namespace Reckon

structure Intake where
  tokenLevel : Level
  phrase : Phrase
  record : Array Token
  yard : Yard
  journal : Journal
  deriving DecidableEq, Repr

namespace Intake

def empty (tokenLevel : Level) (rule : Rule) : Intake := ⟨tokenLevel, #[], #[], .empty rule, #[]⟩

def note (i : Intake) (e : Entry) : Intake := { i with journal := i.journal.push e }

def receiveYard (i : Intake) (t : Token) : Intake × Option Fault :=
  let (yard, refused) := i.yard.receive t
  ({ i with yard := yard }, refused.map .refusal)

def receiveRecord (i : Intake) (t : Token) : Intake × Option Fault :=
  let noted := i.note
    ⟨i.tokenLevel, .calculation, "received token: " ++ t.kind.name ++ ", " ++ t.lexeme⟩
  { noted with record := noted.record.push t }.receiveYard t

def remark? : Phrase.Item → Option Entry
  | .folded words value =>
    some ⟨.debug, .phrases, "Consolidated " ++
      Text.bracketed (words.map (fun w => Text.quoted w.spelling)) ++ " into " ++ value.text⟩
  | .unknown lexeme =>
    some ⟨.debug, .phrases, "Ignoring unrecognized word " ++ Text.quoted lexeme⟩
  | .passed _ => none

def receiveItem (i : Intake) (item : Phrase.Item) : Intake × Option Fault :=
  match remark? item with
  | none => i.receiveRecord item.token
  | some e => (i.note e).receiveRecord item.token

def receiveItems (i : Intake) : List Phrase.Item → Intake × Option Fault
  | [] => (i, none)
  | item :: items =>
    match i.receiveItem item with
    | (i, none) => i.receiveItems items
    | refused => refused

def receive (i : Intake) (t : Token) : Intake × Option Fault :=
  match i.phrase.take t with
  | .error s => (i, some (.signal s))
  | .ok (phrase, items) => { i with phrase := phrase }.receiveItems items

def closePhrase (i : Intake) : Intake × Option Fault :=
  match i.phrase.close with
  | .error s => (i, some (.signal s))
  | .ok items => { i with phrase := #[] }.receiveItems items

def finishYard (i : Intake) : Intake × Option Fault :=
  let (yard, refused) := i.yard.finish
  ({ i with yard := yard }, refused.map .refusal)

end Intake

def Halt.fault : Halt Fault → Fault
  | unrecognized c n => .refusal (.unrecognized c n)
  | refused f => f

end Reckon

import Mathlib.Control.Monad.Basic
import Reckon.Proofs.Report.Recorded
import Reckon.Proofs.Session.Calls
import Reckon.Proofs.Yard.Ledger
/-! The number words of a session: those that are held back and those that have gone into a number. -/
namespace Reckon

namespace Yard

def operands (y : Yard) : List Decimal := y.output.toList.filterMap Element.operand?

end Yard

def Token.operand? (t : Token) : Option Decimal :=
  if t.kind = .number then (Yard.readLiteral t.lexeme).toOption else none

namespace Yard

theorem receiveOperands (y : Yard) (t : Token) :
    (y.receive t).1.operands = y.operands ++ t.operand?.toList := by
  cases answer : y.receive t with
  | mk z refused =>
    cases refused with
    | none =>
      cases takenCases answer with
      | number kind reads => simp [operands, Token.operand?, kind, reads, Element.operand?, Except.toOption]
      | opening kind => simp [operands, Token.operand?, kind]
      | closing kind => simp [operands, signsNoOperands, Token.operand?, kind]
      | operator kind known ground => simp [operands, signsNoOperands, Token.operand?, kind]
      | word kind => simp [Token.operand?, kind]
    | some r =>
      cases refusedCases answer with
      | literal kind reads => simp [Token.operand?, kind, reads, Except.toOption]
      | closing kind => simp [operands, signsNoOperands, Token.operand?, kind]
      | operator kind unknown => simp [Token.operand?, kind]

theorem finishOperands (y : Yard) : y.finish.1.operands = y.operands := by
  cases answer : y.finish with
  | mk z refused =>
    cases refused with
    | none =>
      obtain ⟨os, _, rfl⟩ := finishTaken answer
      simp [operands, signsNoOperands]
    | some r =>
      obtain ⟨os, below, _, rfl, _⟩ := finishRefused answer
      simp [operands, signsNoOperands]

end Yard

namespace Phrase

theorem foldedReads {words : List NumberWord} {value : Decimal} (folded : fold words = .ok value) :
    Yard.readLiteral value.text = .ok value := by
  cases (foldNumber words).symm.trans folded
  exact numberReads words

end Phrase

namespace Intake

theorem receiveItemsSingle (i : Intake) (item : Phrase.Item) : i.receiveItems [item] = i.receiveItem item := by
  unfold receiveItems
  cases i.receiveItem item with
  | mk j fault => cases fault <;> rfl

theorem receiveItemsThen {i j : Intake} {items : List Phrase.Item} (taken : i.receiveItems items = (j, none))
    (more : List Phrase.Item) : i.receiveItems (items ++ more) = j.receiveItems more := by
  induction items generalizing i with
  | nil =>
    cases taken
    rfl
  | cons item items ih =>
    unfold receiveItems at taken
    split at taken
    · rename_i between first
      rw [List.cons_append, receiveItems, first]
      exact ih taken
    · rename_i refused
      exact absurd taken (refused j)

end Intake

namespace Session
open Phrase

inductive Sent where
  | recorded (item : Item)
  | straight (t : Token)
  deriving DecidableEq, Repr

namespace Sent

def words : Sent → List NumberWord
  | .recorded (.folded words _) => words
  | _ => []

def record? : Sent → Option Token
  | .recorded item => some item.token
  | .straight _ => none

def operand? : Sent → Option Decimal
  | .recorded (.folded _ value) => some value
  | .recorded item => item.token.operand?
  | .straight t => t.operand?

end Sent

namespace Call

def word? : Call → Option NumberWord
  | .enter .phrase t =>
    match t.part with
    | .number w => some w
    | _ => none
  | _ => none

def sends? : Call → Option Sent
  | .enter .phrase t =>
    match t.part with
    | .barrier u => some (.recorded (.passed u))
    | .unknown lexeme => some (.recorded (.unknown lexeme))
    | .number _ => none
  | .enter .record t => some (.recorded (.passed t))
  | .enter .yard t => some (.straight t)
  | _ => none

end Call

structure Booked (sent : List Sent) (i : Intake) : Prop where
  record : i.record.toList = sent.filterMap Sent.record?
  operands : i.yard.operands = sent.filterMap Sent.operand?

/- The books of an intake after some calls. The words that came are those of the numbers sent and those still
held back, in their order, and apart from these numbers only what the calls send was sent. -/

structure Accounted (calls : List Call) (sent : List Sent) (i : Intake) : Prop where
  words : calls.filterMap Call.word? = sent.flatMap Sent.words ++ i.phrase.toList
  others : sent.filter (·.words.isEmpty) = calls.filterMap Call.sends?
  folded : ∀ words value, .recorded (.folded words value) ∈ sent → words ≠ [] ∧ fold words = .ok value
  booked : Booked sent i

variable {calls : List Call} {sent : List Sent} {i : Intake} {c : Call} {t : Token}

theorem filterMapSingle {α β : Type} (f : α → Option β) (x : α) : [x].filterMap f = (f x).toList := by
  cases found : f x <;> simp [found]

theorem Booked.item (booked : Booked sent i) (item : Item)
    (folded : ∀ words value, item = .folded words value → fold words = .ok value) :
    Booked (sent ++ [.recorded item]) (i.receiveItem item).1 := by
  have operand : Sent.operand? (.recorded item) = item.token.operand? := by
    cases item with
    | folded words value =>
      have reads := foldedReads (folded words value rfl)
      simp [Sent.operand?, Item.token, Token.operand?, reads, Except.toOption]
    | _ => rfl
  constructor
  · simp [Intake.receiveItemRecord, booked.record, Sent.record?]
  · rw [(i.receiveItemYard item).1, Yard.receiveOperands, booked.operands, ← operand, List.filterMap_append,
      filterMapSingle]

theorem Booked.straight (booked : Booked sent i) (t : Token) :
    Booked (sent ++ [.straight t]) (i.receiveYard t).1 := by
  constructor
  · rw [List.filterMap_append, filterMapSingle, ← booked.record]
    exact (List.append_nil _).symm
  · rw [List.filterMap_append, filterMapSingle, ← booked.operands]
    exact Yard.receiveOperands i.yard t

theorem accountedEmpty (level : Level) (rule : Rule) : Accounted [] [] (.empty level rule) :=
  ⟨rfl, rfl, by simp, rfl, rfl⟩

theorem Accounted.called (accounted : Accounted calls sent i) (noWord : c.word? = none)
    (nothing : c.sends? = none) : Accounted (calls ++ [c]) sent i := by
  obtain ⟨words, others, folded, booked⟩ := accounted
  exact ⟨by simpa [noWord] using words, by simpa [nothing] using others, folded, booked⟩

theorem Call.sendsPlain {x : Sent} (sends : c.sends? = some x) :
    c.word? = none ∧ x.words = [] ∧ ∀ words value, x ≠ .recorded (.folded words value) := by
  cases c with
  | enter gate t =>
    cases gate with
    | phrase =>
      cases part : t.part <;> simp only [sends?, part, Option.some.injEq, reduceCtorEq] at sends <;>
        subst sends <;> simp [word?, part, Sent.words]
    | record | yard =>
      cases sends
      simp [word?, Sent.words]
  | enterUnknown | closePhrase | finish => cases sends

theorem Accounted.sends {j : Intake} {x : Sent} (accounted : Accounted calls sent i) (sends : c.sends? = some x)
    (phrase : j.phrase = i.phrase) (booked : Booked (sent ++ [x]) j) :
    Accounted (calls ++ [c]) (sent ++ [x]) j := by
  obtain ⟨words, others, folded, _⟩ := accounted
  obtain ⟨noWord, wordless, plain⟩ := Call.sendsPlain sends
  refine ⟨?_, ?_, ?_, booked⟩
  · simp [noWord, wordless, words, phrase]
  · simp [sends, wordless, others]
  · intro words value member
    rcases List.mem_append.mp member with before | here
    · exact folded words value before
    · exact absurd (List.mem_singleton.mp here).symm (plain words value)

theorem foldedTaken (i : Intake) {words : List NumberWord} {value : Decimal} (folded : fold words = .ok value) :
    (i.receiveItem (.folded words value)).2 = none := by
  have outcome := (i.receiveItemYard (.folded words value)).2.2
  rwa [Item.token, Yard.receiveNumber _ _ (foldedReads folded)] at outcome

theorem Accounted.closes (accounted : Accounted calls sent i) :
    ∃ j, Intake.receiveItems { i with phrase := #[] } i.phrase.closing = (j, none) ∧ j.phrase = #[] ∧
      Accounted calls (sent ++ i.phrase.closing.map .recorded) j := by
  obtain ⟨words, others, folded, booked⟩ := accounted
  have emptied : Booked sent { i with phrase := #[] } := ⟨booked.record, booked.operands⟩
  by_cases empty : i.phrase = #[]
  · have nothing : i.phrase.closing = [] := by simp [Phrase.closing, empty]
    rw [nothing, List.map_nil, List.append_nil]
    refine ⟨_, rfl, rfl, ?_, others, folded, emptied⟩
    simpa [empty] using words
  · have single : i.phrase.closing = [.folded i.phrase.toList (number i.phrase.toList)] := by
      simp [Phrase.closing, empty]
    have present : i.phrase.toList ≠ [] := by simpa using empty
    have valued := foldNumber i.phrase.toList
    have booked := emptied.item (.folded i.phrase.toList (number i.phrase.toList))
      fun words value same => by
        cases same
        exact valued
    have kept := (Intake.receiveItemYard { i with phrase := #[] }
      (.folded i.phrase.toList (number i.phrase.toList))).2.1
    rw [single, Intake.receiveItemsSingle]
    refine ⟨_, Prod.ext rfl (foldedTaken _ valued), kept, ?_, ?_, ?_, booked⟩
    · simp [words, kept, Sent.words]
    · simpa [Sent.words, empty] using others
    · intro words value member
      rcases List.mem_append.mp member with before | here
      · exact folded words value before
      · cases List.mem_singleton.mp here
        exact ⟨present, valued⟩

theorem Accounted.enters (accounted : Accounted calls sent i) (t : Token) :
    ∃ more, Accounted (calls ++ [.enter .phrase t]) (sent ++ more) (i.receive t).1 := by
  have takes := takePart i.phrase t
  cases part : t.part with
  | barrier u =>
    -- The phrase ends first, so that its number is sent before the barrier.
    obtain ⟨j, closed, _, accounts⟩ := accounted.closes
    have passes : Call.sends? (.enter .phrase t) = some (.recorded (.passed u)) := by simp [Call.sends?, part]
    have booked := accounts.booked.item (.passed u) (by simp)
    rw [part] at takes
    rw [Intake.receiveTake takes, Intake.receiveItemsThen closed, Intake.receiveItemsSingle]
    refine ⟨i.phrase.closing.map .recorded ++ [.recorded (.passed u)], ?_⟩
    rw [← List.append_assoc]
    exact accounts.sends passes (j.receiveItemYard (.passed u)).2.1 booked
  | number w =>
    obtain ⟨words, others, folded, booked⟩ := accounted
    have word : Call.word? (.enter .phrase t) = some w := by simp [Call.word?, part]
    have passes : Call.sends? (.enter .phrase t) = none := by simp [Call.sends?, part]
    rw [part] at takes
    rw [Intake.receiveTake takes]
    refine ⟨[], ?_⟩
    rw [List.append_nil]
    refine ⟨?_, by simpa [passes] using others, folded, booked.record, booked.operands⟩
    simp [word, words, Intake.receiveItems]
  | unknown lexeme =>
    have passes : Call.sends? (.enter .phrase t) = some (.recorded (.unknown lexeme)) := by
      simp [Call.sends?, part]
    have booked := accounted.booked.item (.unknown lexeme) (by simp)
    rw [part] at takes
    rw [Intake.receiveTake takes, Intake.receiveItemsSingle]
    exact ⟨_, accounted.sends passes (i.receiveItemYard (.unknown lexeme)).2.1 booked⟩

theorem Accounted.perform (accounted : Accounted calls sent i) (c : Call) :
    ∃ more, Accounted (calls ++ [c]) (sent ++ more) (perform i c).1 := by
  obtain ⟨j, closed, _, accounts⟩ := accounted.closes
  cases c with
  | enter gate t =>
    cases gate with
    | phrase => exact accounted.enters t
    | record =>
      have booked := accounted.booked.item (.passed t) (by simp)
      exact ⟨_, accounted.sends rfl rfl booked⟩
    | yard => exact ⟨_, accounted.sends rfl rfl (accounted.booked.straight t)⟩
  | enterUnknown gate kind =>
    cases gate with
    | phrase =>
      have same : (Session.perform i (.enterUnknown .phrase kind)).1 = j := by
        simp only [Session.perform, pushUnknown, Intake.closeItems, closed]
      exact ⟨_, same ▸ accounts.called rfl rfl⟩
    | record | yard =>
      refine ⟨[], ?_⟩
      rw [List.append_nil]
      exact accounted.called rfl rfl
  | closePhrase =>
    have same : (Session.perform i .closePhrase).1 = j := by
      simp only [Session.perform, Intake.closeItems, closed]
    exact ⟨_, same ▸ accounts.called rfl rfl⟩
  | finish =>
    obtain ⟨words, others, folded, booked⟩ := accounted.called (c := .finish) rfl rfl
    have operands := (Yard.finishOperands i.yard).trans booked.operands
    refine ⟨[], ?_⟩
    rw [List.append_nil]
    exact ⟨words, others, folded, booked.record, operands⟩

theorem Accounted.performAll (accounted : Accounted calls sent i) (more : List Call) :
    ∃ sent, Accounted (calls ++ more) sent (performAll i more) := by
  induction more generalizing calls sent i with
  | nil => exact ⟨sent, by rwa [List.append_nil]⟩
  | cons c more ih =>
    obtain ⟨_, next⟩ := accounted.perform c
    obtain ⟨last, accounts⟩ := ih next
    rw [List.append_assoc] at accounts
    exact ⟨last, accounts⟩

theorem spellingKey (w : NumberWord) :
    NumberWord.ofSpelling? w.spelling = some w ∧ lower w.spelling = w.spelling := by
  refine ⟨NumberWord.ofSpellingSpelling w, ?_⟩
  cases w <;> decide

/-- After every command of a session, and after every call on the way, whatever has been refused before, each
number word that the phrase was given is held back, or it has gone into one number, which was recorded once and
went out of the yard once. What is held back are words of the dictionary, and the phrase can be ended, which is
never refused and leaves nothing held back. -/
theorem wordsKept {rule : Rule} {text : String} {commands : List Command} {n : Nat} {outcome : Except Fault Answer}
    {s : Session} (reached : ((start rule text).run commands)[n]? = some (outcome, s)) :
    let calls := (start rule text).history (commands.take (n + 1))
    s.intake = Session.performAll (.empty .debug rule) calls ∧
      ∀ before, before <+: calls →
        let i := Session.performAll (.empty .debug rule) before
        (∃ sent, Accounted before sent i) ∧
          (∀ w ∈ i.phrase, NumberWord.ofSpelling? w.spelling = some w ∧ lower w.spelling = w.spelling) ∧
          ∃ after, i.closePhrase = (after, none) ∧ after.phrase = #[] := by
  refine ⟨runHistory reached, fun before _ => ?_⟩
  obtain ⟨sent, accounts⟩ := (accountedEmpty .debug rule).performAll before
  obtain ⟨after, closed, empty, _⟩ := accounts.closes
  exact ⟨⟨sent, accounts⟩, fun w _ => spellingKey w, after, (Intake.closeItems _).trans closed, empty⟩

theorem wordsKeptRefused :
    let s := ((start .chained "two 1.2.3").step (.scan .phrase)).1
    let again := s.step (.scan .phrase)
    again.2 = .error (.refusal (.badLiteral "1.2.3")) ∧
      again.1.intake.record = #[⟨.number, "2"⟩, ⟨.number, "1.2.3"⟩, ⟨.number, "1.2.3"⟩] ∧
      ∃ sent, Accounted [.enter .phrase ⟨.word, "two"⟩, .enter .phrase ⟨.number, "1.2.3"⟩,
        .enter .phrase ⟨.number, "1.2.3"⟩] sent again.1.intake := by
  have reached : ((start .chained "two 1.2.3").run [.scan .phrase, .scan .phrase])[1]? = some (_, _) := rfl
  have calls : (start .chained "two 1.2.3").history [.scan .phrase, .scan .phrase] =
      [.enter .phrase ⟨.word, "two"⟩, .enter .phrase ⟨.number, "1.2.3"⟩, .enter .phrase ⟨.number, "1.2.3"⟩] := by
    decide +kernel
  obtain ⟨made, moments⟩ := wordsKept reached
  obtain ⟨accounted, _⟩ := moments _ List.prefix_rfl
  refine ⟨by decide +kernel, by decide +kernel, ?_⟩
  rw [← made] at accounted
  exact calls ▸ accounted

end Session
end Reckon

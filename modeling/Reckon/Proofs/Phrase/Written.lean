import Mathlib.Data.List.Forall2
import Reckon.Proofs.Decimal.Reading
import Reckon.Proofs.Phrase.Stream
import Reckon.Proofs.Yard.Textbook
/-! Arrangements written in tokens: numbers in digits or in words, operators by symbol or by word. What
the phrases make of the tokens is the arrangement again, with one number for each leaf. -/
namespace Reckon

inductive Leaf where
  | numeral (n : Decimal.Numeral)
  | phrase (first : NumberWord) (more : List NumberWord)

namespace Leaf

def read : Leaf → Except Fault Decimal
  | numeral n => (Yard.readLiteral n.lexeme).mapError .refusal
  | phrase first more => orFault (Phrase.fold (first :: more))

def value : Leaf → Decimal
  | numeral n =>
    match Yard.readLiteral n.lexeme with
    | .ok d => d
    | .error _ => .zero
  | phrase first more => Phrase.number (first :: more)

theorem readValue (l : Leaf) : l.read = .ok l.value := by
  cases l with
  | numeral n =>
    obtain ⟨c, e, reads⟩ := Yard.readLiteralNumeral n
    simp only [read, value, reads]
    rfl
  | phrase first more =>
    rw [read, Phrase.foldNumber]
    rfl

theorem valueForm (l : Leaf) : ∃ c e, l.value = .finite false c e := by
  cases l with
  | numeral n =>
    obtain ⟨c, e, reads⟩ := Yard.readLiteralNumeral n
    exact ⟨c, e, by simp only [value, reads]⟩
  | phrase first more =>
    obtain ⟨c, e, form, _⟩ := Phrase.numberForm (first :: more)
    exact ⟨c, e, form⟩

def lexeme : Leaf → String
  | numeral n => n.lexeme
  | phrase first more => (Phrase.number (first :: more)).text

def literal (l : Leaf) : Literal where
  lexeme := l.lexeme
  value := l.value
  reads := by
    cases l with
    | numeral n =>
      obtain ⟨c, e, reads⟩ := Yard.readLiteralNumeral n
      simp only [lexeme, value, reads]
    | phrase first more => exact Phrase.numberReads (first :: more)

end Leaf

def NumberWord.SpeltBy (w : NumberWord) (t : Token) : Prop :=
  t.kind = .word ∧ Phrase.lower t.lexeme = w.spelling

def Operator.SpeltBy (o : Operator) (t : Token) : Prop :=
  t.kind = .word ∧ (Phrase.lower t.lexeme, o) ∈ Operator.words

namespace Piece

inductive Written : Piece Leaf → List Token → Prop where
  | numeral (n : Decimal.Numeral) : Written (.leaf (.numeral n)) [⟨.number, n.lexeme⟩]
  | phrase {first : NumberWord} {more : List NumberWord} {ts : List Token}
      (words : List.Forall₂ NumberWord.SpeltBy (first :: more) ts) :
      Written (.leaf (.phrase first more)) ts
  | symbol (o : Operator) : Written (.operator o) [⟨.operator, o.symbol⟩]
  | word {o : Operator} {t : Token} (spelt : o.SpeltBy t) : Written (.operator o) [t]
  | opening : Written .opening [⟨.openParen, "("⟩]
  | closing : Written .closing [⟨.closeParen, ")"⟩]

inductive RowWritten : List (Piece Leaf) → List Token → Prop where
  | done : RowWritten [] []
  | next {piece : Piece Leaf} {pieces : List (Piece Leaf)} {ts us : List Token}
      (first : Written piece ts) (more : RowWritten pieces us) : RowWritten (piece :: pieces) (ts ++ us)

theorem rowAppend {before after : List (Piece Leaf)} {ts : List Token}
    (written : RowWritten (before ++ after) ts) :
    ∃ us vs, ts = us ++ vs ∧ RowWritten before us ∧ RowWritten after vs := by
  induction before generalizing ts with
  | nil => exact ⟨[], ts, rfl, .done, written⟩
  | cons piece before ih =>
    cases written with
    | next first more =>
      obtain ⟨us, vs, rfl, inBefore, inAfter⟩ := ih more
      exact ⟨_, vs, (List.append_assoc ..).symm, .next first inBefore, inAfter⟩

theorem rowSingle {piece : Piece Leaf} {ts : List Token} (written : RowWritten [piece] ts) :
    Written piece ts := by
  cases written with
  | next first more =>
    cases more
    rw [List.append_nil]
    exact first

end Piece

namespace Phrase

theorem spellingNoOperator (w : NumberWord) : Operator.ofWord? w.spelling = none := by
  cases w <;> rfl

theorem numberPart {w : NumberWord} {t : Token} (spelt : w.SpeltBy t) : t.part = .number w := by
  obtain ⟨word, same⟩ := spelt
  simp only [Token.part, word, ne_eq, not_true_eq_false, if_false, same, spellingNoOperator,
    NumberWord.ofSpellingSpelling]

theorem operatorPart {o : Operator} {t : Token} (spelt : o.SpeltBy t) :
    t.part = .barrier ⟨.operator, o.symbol⟩ := by
  obtain ⟨word, listed⟩ := spelt
  have found : ∀ entry ∈ Operator.words, Operator.ofWord? entry.1 = some entry.2 := by decide
  have known : Operator.ofWord? (lower t.lexeme) = some o := found _ listed
  simp only [Token.part, word, ne_eq, not_true_eq_false, if_false, known]

theorem writtenOperator {o : Operator} {ts : List Token} (written : Piece.Written (.operator o) ts) :
    ∃ t, ts = [t] ∧ t.part = .barrier ⟨.operator, o.symbol⟩ := by
  cases written with
  | symbol => exact ⟨_, rfl, rfl⟩
  | word spelt => exact ⟨_, rfl, operatorPart spelt⟩

def Stops (ts : List Token) : Prop := ∀ t ∈ ts.head?, ∃ u, t.part = .barrier u

theorem stopsNil : Stops [] := by
  intro t atHead
  cases atHead

theorem stopsBarrier {t u : Token} (part : t.part = .barrier u) (ts : List Token) : Stops (t :: ts) := by
  intro first atHead
  cases atHead
  exact ⟨u, part⟩

theorem streamBarrier {t u : Token} (part : t.part = .barrier u) (p : Phrase) (ts : List Token) :
    stream p (t :: ts) = p.closing ++ .passed u :: stream #[] ts := by
  simp only [stream, part]

theorem streamStops {ts : List Token} (stops : Stops ts) (p : Phrase) :
    stream p ts = p.closing ++ stream #[] ts := by
  cases ts with
  | nil => exact (List.append_nil _).symm
  | cons t ts =>
    obtain ⟨u, part⟩ := stops t rfl
    simp only [stream, part]
    rfl

theorem streamWords {ws : List NumberWord} {ts : List Token}
    (words : List.Forall₂ NumberWord.SpeltBy ws ts) (p : Phrase) (rest : List Token) :
    stream p (ts ++ rest) = stream (p ++ ws.toArray) rest := by
  induction words generalizing p with
  | nil => simp
  | cons spelt words ih =>
    simp only [List.cons_append, stream, numberPart spelt, ih]
    congr 1
    simp

end Phrase

open Piece Phrase

theorem Tree.Arranged.streamWritten {level : Nat} {t : Tree Leaf} {pieces : List (Piece Leaf)}
    (arranged : Arranged level t pieces) {ts rest : List Token} (written : RowWritten pieces ts)
    (stops : Stops rest) :
    ∃ items, stream #[] (ts ++ rest) = items ++ stream #[] rest ∧
      items.map Item.token = (pieces.map (Piece.map Leaf.literal)).map Piece.token := by
  induction arranged generalizing ts rest with
  | leaf level l =>
    cases rowSingle written with
    | numeral n => exact ⟨[.passed ⟨.number, n.lexeme⟩], rfl, rfl⟩
    | @phrase first more ts words =>
      refine ⟨[.folded (first :: more) (number (first :: more))], ?_, rfl⟩
      rw [streamWords words, streamStops stops]
      simp [Phrase.closing]
  | @node level o left right before after binds atLeft atRight ihLeft ihRight =>
    obtain ⟨us, _, rfl, inBefore, following⟩ := rowAppend written
    cases following with
    | @next _ _ _ vs sign inAfter =>
      obtain ⟨t, rfl, part⟩ := writtenOperator sign
      -- The sign is a barrier, so that a last leaf in words does not go on into what follows.
      obtain ⟨items, streamed, tokens⟩ := ihLeft inBefore (stopsBarrier part (vs ++ rest))
      obtain ⟨items', streamed', tokens'⟩ := ihRight inAfter stops
      refine ⟨items ++ .passed ⟨.operator, o.symbol⟩ :: items', ?_, ?_⟩
      · rw [List.append_assoc, List.append_assoc, List.singleton_append, streamed,
          streamBarrier part, streamed']
        simp [Phrase.closing]
      · rw [List.map_append, List.map_cons, tokens, tokens']
        simp [Piece.map, Piece.token, Item.token]
  | @group t inside level within ih =>
    cases written with
    | next opened more =>
      cases opened
      obtain ⟨us, _, rfl, inInside, last⟩ := rowAppend more
      have closed := rowSingle last
      cases closed
      have close : Token.part ⟨.closeParen, ")"⟩ = .barrier ⟨.closeParen, ")"⟩ := rfl
      have opening : Token.part ⟨.openParen, "("⟩ = .barrier ⟨.openParen, "("⟩ := rfl
      obtain ⟨items, streamed, tokens⟩ := ih inInside (stopsBarrier close rest)
      refine ⟨.passed ⟨.openParen, "("⟩ :: (items ++ [.passed ⟨.closeParen, ")"⟩]), ?_, ?_⟩
      · rw [List.singleton_append, List.cons_append, streamBarrier opening, List.append_assoc,
          List.singleton_append, streamed, streamBarrier close]
        simp [Phrase.closing]
      · rw [List.map_cons, List.map_append, tokens]
        simp [Piece.map, Piece.token, Item.token]

end Reckon

import Reckon.NumberWord
import Reckon.Operator
import Reckon.Token
import Reckon.Decimal.Notation
/-! Number phrases. Words for numbers are held back until something other than a word, or a word for an
operator, ends the phrase; it then goes on as one number. A word in neither dictionary does not end it. -/
namespace Reckon

abbrev Phrase := Array NumberWord

namespace Phrase
open Decimal

def lead (sum : Decimal) (w : NumberWord) : Except Signal (Decimal × Decimal) := do
  if w.endsInTy then return (← add .usual sum w.number, one)
  return (sum, w.number)

def foldFrom : Decimal → List NumberWord → Except Signal Decimal
  | sum, [] => return sum
  | sum, [w] => do
    let (sum, factor) ← lead sum w
    add .usual sum factor
  | sum, v :: w :: ws => do
    let (sum, factor) ← lead sum v
    let product ← mul .usual factor w.number
    foldFrom (← add .usual sum product) ws

def fold (ws : List NumberWord) : Except Signal Decimal := foldFrom zero ws

inductive Item where
  | folded (words : List NumberWord) (value : Decimal)
  | unknown (lexeme : String)
  | passed (token : Token)
  deriving DecidableEq, Repr

def Item.token : Item → Token
  | folded _ value => ⟨.number, value.text⟩
  | unknown lexeme => ⟨.word, lexeme⟩
  | passed token => token

def close (p : Phrase) : Except Signal (List Item) := do
  if p.isEmpty then return []
  return [.folded p.toList (← fold p.toList)]

/- No word in either dictionary holds a letter outside ASCII, nor one that is the lower case of such
a letter, so that lowering the ASCII letters decides membership. -/

def lower (s : String) : String := String.ofList (s.toList.map Char.toLower)

def take (p : Phrase) (t : Token) : Except Signal (Phrase × List Item) := do
  if t.kind ≠ .word then return (#[], (← p.close) ++ [.passed t])
  match Operator.ofWord? (lower t.lexeme) with
  | some o => return (#[], (← p.close) ++ [.passed ⟨.operator, o.symbol⟩])
  | none =>
    match NumberWord.ofSpelling? (lower t.lexeme) with
    | some w => return (p.push w, [])
    | none => return (p, [.unknown t.lexeme])

end Phrase

structure Folding where
  phrase : Phrase
  passed : Array Token
  deriving DecidableEq, Repr

namespace Folding

def empty : Folding := ⟨#[], #[]⟩

def passOn (f : Folding) (phrase : Phrase) (items : List Phrase.Item) : Folding :=
  ⟨phrase, f.passed ++ (items.map Phrase.Item.token).toArray⟩

def receive (f : Folding) (t : Token) : Folding × Option Decimal.Signal :=
  match f.phrase.take t with
  | .ok (phrase, items) => (f.passOn phrase items, none)
  | .error s => (f, some s)

def finish (f : Folding) : Folding × Option Decimal.Signal :=
  match f.phrase.close with
  | .ok items => (f.passOn #[] items, none)
  | .error s => (f, some s)

end Folding
end Reckon

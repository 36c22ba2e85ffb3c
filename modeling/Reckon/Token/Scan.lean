import Reckon.Token
import Reckon.Text.Blank
/-! Reading tokens off a text, one character class at a time. A cursor stands between the characters
already taken into the token at hand and the rest of the text. Whoever receives the tokens may
refuse one: the scan then stops on a cursor from which it can be taken up again. -/
namespace Reckon

inductive CharClass where
  | blank
  | digit
  | letter
  | operator
  | openParen
  | closeParen
  | endOfText
  | unrecognized
  deriving DecidableEq, Repr

namespace CharClass

def ofChar (c : Char) : CharClass :=
  if Text.isBlank c then blank
  else if c.isAlpha then letter
  else if c.isDigit || c = '.' then digit
  else if c = '(' then openParen
  else if c = ')' then closeParen
  else if c ∈ ['+', '-', '*', '/', '^'] then operator
  else unrecognized

def ofText : List Char → CharClass
  | [] => unrecognized
  | [c] => ofChar c
  | s => if s.all Text.isBlank then blank else if s.all Char.isAlpha then letter else unrecognized

def ofNext : List Char → CharClass
  | [] => endOfText
  | c :: _ => ofChar c

theorem ofCharNotEnd (c : Char) : ofChar c ≠ endOfText := by
  unfold ofChar
  repeat' split
  all_goals decide

end CharClass

inductive Mode where
  | between
  | number
  | operator
  | word
  | finished
  deriving DecidableEq, Repr

inductive Action where
  | discard
  | mark
  | advance
  | single (kind : Kind)
  | emit (kind : Kind)
  | stop
  | fail
  deriving DecidableEq, Repr

def fromBetween : CharClass → Action × Mode
  | .blank => (.discard, .between)
  | .digit => (.mark, .number)
  | .letter => (.mark, .word)
  | .operator => (.mark, .operator)
  | .openParen => (.single .openParen, .between)
  | .closeParen => (.single .closeParen, .between)
  | .endOfText => (.stop, .finished)
  | .unrecognized => (.fail, .finished)

def fromRun (mode : Mode) (own : CharClass) (kind : Kind) (next : CharClass) : Action × Mode :=
  if next = own then (.advance, mode)
  else if next = .endOfText then (.emit kind, .finished)
  else (.emit kind, .between)

def transition : Mode → CharClass → Action × Mode
  | .between, next => fromBetween next
  | .number, next => fromRun .number .digit .number next
  | .operator, next => fromRun .operator .operator .operator next
  | .word, next => fromRun .word .letter .word next
  | .finished, _ => (.stop, .finished)

/-- `start` characters are done with, `pending` holds those since then, last first. -/
structure Cursor where
  mode : Mode
  start : Nat
  pending : List Char
  rest : List Char
  deriving DecidableEq, Repr

inductive Step where
  | finished (c : Cursor)
  | moved (c : Cursor)
  | delivers (t : Token) (refused accepted : Cursor)
  | unrecognized (c : Char) (position : Nat)
  deriving DecidableEq, Repr

namespace Cursor

def ofText (s : String) : Cursor := ⟨.between, 0, [], s.toList⟩

def position (c : Cursor) : Nat := c.start + c.pending.length

def lexeme (c : Cursor) : String := String.ofList c.pending.reverse

def step (c : Cursor) : Step :=
  match transition c.mode (CharClass.ofNext c.rest), c.rest with
  | (.stop, next), _ => .finished { c with mode := next }
  | (.mark, next), rest => .moved ⟨next, c.position, [], rest⟩
  | (.emit kind, next), rest => .delivers ⟨kind, c.lexeme⟩ c ⟨next, c.position, [], rest⟩
  | (.discard, next), _ :: rest => .moved ⟨next, c.position + 1, [], rest⟩
  | (.advance, next), a :: rest => .moved ⟨next, c.start, a :: c.pending, rest⟩
  | (.single kind, next), a :: rest =>
    let taken : Cursor := ⟨c.mode, c.start, a :: c.pending, rest⟩
    .delivers ⟨kind, taken.lexeme⟩ taken ⟨next, taken.position, [], rest⟩
  | (.fail, _), a :: _ => .unrecognized a c.position
  | _, [] => .finished c

/- Each step takes a character or moves on to a mode in which the same character will be taken. -/

def modeWeight : Mode → CharClass → Nat
  | .between, _ => 1
  | .number, next => if next = .digit then 0 else 2
  | .operator, next => if next = .operator then 0 else 2
  | .word, next => if next = .letter then 0 else 2
  | .finished, _ => 0

def weight (c : Cursor) : Nat := 3 * c.rest.length + modeWeight c.mode (CharClass.ofNext c.rest)

theorem modeWeightLe (m : Mode) (next : CharClass) : modeWeight m next ≤ 2 := by
  unfold modeWeight
  split <;> (try split) <;> decide

theorem stepMoved {c c' : Cursor} (h : c.step = .moved c') : c'.weight < c.weight := by
  obtain ⟨mode, start, pending, rest⟩ := c
  cases rest with
  | nil => cases mode <;> simp [step, transition, fromBetween, fromRun, CharClass.ofNext] at h
  | cons a rest =>
    have room := modeWeightLe c'.mode (CharClass.ofNext c'.rest)
    have real := CharClass.ofCharNotEnd a
    cases mode <;> cases kind : CharClass.ofChar a <;>
      simp [step, CharClass.ofNext, transition, fromBetween, fromRun, kind] at h real <;>
      (subst h; simp_all [weight, modeWeight, CharClass.ofNext] <;> omega)

theorem stepDelivers {c refused accepted : Cursor} {t : Token}
    (h : c.step = .delivers t refused accepted) : accepted.weight < c.weight := by
  obtain ⟨mode, start, pending, rest⟩ := c
  cases rest with
  | nil =>
    cases mode <;> simp [step, transition, fromBetween, fromRun, CharClass.ofNext] at h <;>
      (obtain ⟨_, _, rfl⟩ := h; simp [weight, modeWeight, CharClass.ofNext])
  | cons a rest =>
    have room := modeWeightLe accepted.mode (CharClass.ofNext accepted.rest)
    have real := CharClass.ofCharNotEnd a
    cases mode <;> cases kind : CharClass.ofChar a <;>
      simp [step, CharClass.ofNext, transition, fromBetween, fromRun, kind] at h real <;>
      (obtain ⟨_, _, rfl⟩ := h; simp_all [weight, modeWeight, CharClass.ofNext])

end Cursor

inductive Halt (ε : Type) where
  | unrecognized (c : Char) (position : Nat)
  | refused (reason : ε)
  deriving DecidableEq, Repr

structure Scanned (σ ε : Type) where
  cursor : Cursor
  receiver : σ
  halt : Option (Halt ε)
  deriving DecidableEq, Repr

def Cursor.scan {σ ε : Type} (receive : σ → Token → σ × Option ε) (c : Cursor) (s : σ) :
    Scanned σ ε :=
  match _taken : c.step with
  | .finished c' => ⟨c', s, none⟩
  | .moved c' => c'.scan receive s
  | .delivers t refused accepted =>
    match receive s t with
    | (s', some reason) => ⟨refused, s', some (.refused reason)⟩
    | (s', none) => accepted.scan receive s'
  | .unrecognized a n => ⟨c, s, some (.unrecognized a n)⟩
termination_by c.weight
decreasing_by
  · exact Cursor.stepMoved _taken
  · exact Cursor.stepDelivers _taken

def collect {ε : Type} (tokens : Array Token) (t : Token) : Array Token × Option ε :=
  (tokens.push t, none)

end Reckon

import Reckon.Proofs.Token.Feed
import Reckon.Token.Scan
/-! Tokens by the class of their characters, texts in which blanks stand between them, and the steps of a
cursor before, within and behind a token. -/
namespace Reckon
open Text

namespace Kind

def own : Kind → CharClass
  | number => .digit
  | operator => .operator
  | openParen => .openParen
  | closeParen => .closeParen
  | word => .letter

def runs : Kind → Bool
  | number | operator | word => true
  | openParen | closeParen => false

def mode : Kind → Mode
  | number => .number
  | operator => .operator
  | word => .word
  | openParen | closeParen => .between

end Kind

structure Token.Fits (t : Token) : Prop where
  nonempty : t.lexeme.toList ≠ []
  own : ∀ c ∈ t.lexeme.toList, CharClass.ofChar c = t.kind.own
  single : t.kind.runs = false → t.lexeme.toList.length = 1

theorem Token.fitsSingle {k : Kind} {c : Char} (own : CharClass.ofChar c = k.own) :
    Fits ⟨k, String.ofList [c]⟩ := ⟨by simp, by simpa using own, by simp⟩

instance (t : Token) : Decidable t.Fits :=
  decidable_of_iff (t.lexeme.toList ≠ [] ∧
      t.lexeme.toList.all (fun c => CharClass.ofChar c = t.kind.own) = true ∧
      (t.kind.runs = false → t.lexeme.toList.length = 1))
    ⟨fun ⟨nonempty, own, single⟩ =>
        ⟨nonempty, fun c member => by simpa using List.all_eq_true.mp own c member, single⟩,
      fun ⟨nonempty, own, single⟩ =>
        ⟨nonempty, List.all_eq_true.mpr fun c member => by simpa using own c member, single⟩⟩

inductive Spaced : List Token → List Char → Prop where
  | done {gap : List Char} (blank : ∀ c ∈ gap, isBlank c = true) : Spaced [] gap
  | next {gap rest : List Char} {t : Token} {ts : List Token} (blank : ∀ c ∈ gap, isBlank c = true)
      (fits : t.Fits) (apart : ∀ c ∈ rest.head?, isBlank c = true) (more : Spaced ts rest) :
      Spaced (t :: ts) (gap ++ (t.lexeme.toList ++ rest))

theorem classOfBlank {c : Char} (blank : isBlank c = true) : CharClass.ofChar c = .blank := by
  simp only [CharClass.ofChar, blank, if_true]

theorem spacedBlanks {ts : List Token} {text blanks : List Char} (spaced : Spaced ts text)
    (blank : ∀ c ∈ blanks, isBlank c = true) : Spaced ts (blanks ++ text) := by
  have longer : ∀ gap : List Char, (∀ d ∈ gap, isBlank d = true) → ∀ d ∈ blanks ++ gap, isBlank d = true := by
    intro gap all d member
    rcases List.mem_append.mp member with here | inside
    · exact blank d here
    · exact all d inside
  cases spaced with
  | done all => exact .done (longer _ all)
  | next all fits apart more =>
    rw [← List.append_assoc]
    exact .next (longer _ all) fits apart more

def woven (gap : Nat → List Char) : List Token → List Char
  | [] => []
  | [t] => t.lexeme.toList
  | t :: u :: ts => t.lexeme.toList ++ (gap 0 ++ woven (fun n => gap (n + 1)) (u :: ts))

theorem spacedWoven {gap : Nat → List Char} (wide : ∀ n, gap n ≠ [])
    (blank : ∀ n, ∀ c ∈ gap n, isBlank c = true) {ts : List Token} (fits : ∀ t ∈ ts, t.Fits) :
    Spaced ts (woven gap ts) := by
  have noGap : ∀ c ∈ ([] : List Char), isBlank c = true := fun c member => nomatch member
  induction ts generalizing gap with
  | nil => exact .done noGap
  | cons t ts ih =>
    have here := fits t List.mem_cons_self
    cases ts with
    | nil =>
      have single : Spaced [t] ([] ++ (t.lexeme.toList ++ [])) :=
        .next noGap here (fun c atHead => nomatch atHead) (.done noGap)
      rwa [List.nil_append, List.append_nil] at single
    | cons u ts =>
      have more := ih (fun n => wide (n + 1)) (fun n => blank (n + 1)) fun v member =>
        fits v (List.mem_cons_of_mem _ member)
      refine .next noGap here ?_ (spacedBlanks more (blank 0))
      intro c atHead
      rw [List.head?_append, Option.or_of_isSome (by simp [wide 0])] at atHead
      exact blank 0 c (List.mem_of_head? atHead)

def joined : List Token → List Char
  | [] => []
  | [t] => t.lexeme.toList
  | t :: u :: ts => t.lexeme.toList ++ ' ' :: joined (u :: ts)

theorem joinedWoven (ts : List Token) : joined ts = woven (fun _ => [' ']) ts := by
  induction ts with
  | nil => rfl
  | cons t ts ih =>
    cases ts with
    | nil => rfl
    | cons u ts => simp [joined, woven, ih]

theorem spacedJoined {ts : List Token} (fits : ∀ t ∈ ts, t.Fits) : Spaced ts (joined ts) := by
  rw [joinedWoven]
  exact spacedWoven (fun _ => List.cons_ne_nil _ _) (fun _ => List.forall_mem_singleton.mpr (by decide)) fits

namespace Cursor

section
variable {σ ε : Type} {receive : σ → Token → σ × Option ε} {c c' refused accepted : Cursor} {s s' : σ}
  {t : Token}

theorem scanMoved (moved : c.step = .moved c') : c.scan receive s = c'.scan receive s := by
  rw [scan]
  split <;> simp_all

theorem scanFinished (finished : c.step = .finished c') : c.scan receive s = ⟨c', s, none⟩ := by
  rw [scan]
  split <;> simp_all

theorem scanUnrecognized {a : Char} {n : Nat} (unknown : c.step = .unrecognized a n) :
    c.scan receive s = ⟨c, s, some (.unrecognized a n)⟩ := by
  rw [scan]
  split <;> simp_all

theorem scanTaken (delivers : c.step = .delivers t refused accepted) (taken : receive s t = (s', none)) :
    c.scan receive s = accepted.scan receive s' := by
  rw [scan]
  split <;> simp_all

theorem scanRefused {reason : ε} (delivers : c.step = .delivers t refused accepted)
    (stopped : receive s t = (s', some reason)) :
    c.scan receive s = ⟨refused, s', some (.refused reason)⟩ := by
  rw [scan]
  split <;> simp_all

end

section
variable {start : Nat} {pending rest : List Char} {c : Char} {k : Kind}

theorem stepBlank (blank : isBlank c = true) :
    step ⟨.between, start, [], c :: rest⟩ = .moved ⟨.between, start + 1, [], rest⟩ := by
  simp [step, transition, CharClass.ofNext, classOfBlank blank, fromBetween, position]

theorem stepSingle (single : k.runs = false) (own : CharClass.ofChar c = k.own) :
    step ⟨.between, start, [], c :: rest⟩ =
      .delivers ⟨k, String.ofList [c]⟩ ⟨.between, start, [c], rest⟩
        ⟨.between, start + 1, [], rest⟩ := by
  cases k <;> simp [Kind.runs] at single <;>
    simp [step, transition, CharClass.ofNext, own, Kind.own, fromBetween, lexeme, position]

theorem stepStart (runs : k.runs = true) (own : CharClass.ofChar c = k.own) :
    step ⟨.between, start, [], c :: rest⟩ = .moved ⟨k.mode, start, [], c :: rest⟩ := by
  cases k <;> simp [Kind.runs] at runs <;>
    simp [step, transition, CharClass.ofNext, own, Kind.own, Kind.mode, fromBetween, position]

theorem transitionRun (runs : k.runs = true) (next : CharClass) :
    transition k.mode next = fromRun k.mode k.own k next := by
  cases k <;> simp [Kind.runs] at runs <;> rfl

theorem stepOn (runs : k.runs = true) (own : CharClass.ofChar c = k.own) :
    step ⟨k.mode, start, pending, c :: rest⟩ = .moved ⟨k.mode, start, c :: pending, rest⟩ := by
  simp [step, transitionRun runs, CharClass.ofNext, own, fromRun]

def modeAfter (rest : List Char) : Mode := if rest = [] then .finished else .between

theorem stepEnd (runs : k.runs = true) (other : CharClass.ofNext rest ≠ k.own) :
    step ⟨k.mode, start, pending, rest⟩ =
      .delivers ⟨k, String.ofList pending.reverse⟩ ⟨k.mode, start, pending, rest⟩
        ⟨modeAfter rest, start + pending.length, [], rest⟩ := by
  cases rest with
  | nil =>
    have notOwn : CharClass.endOfText ≠ k.own := by cases k <;> decide
    simp [step, transitionRun runs, CharClass.ofNext, fromRun, notOwn, lexeme, position, modeAfter]
  | cons c rest =>
    have real := CharClass.ofCharNotEnd c
    simp only [CharClass.ofNext] at other
    simp [step, transitionRun runs, CharClass.ofNext, fromRun, other, real, lexeme, position, modeAfter]

end

def Ready (c : Cursor) : Prop := c.pending = [] ∧ (c.mode = .between ∨ c.mode = modeAfter c.rest)

theorem readyBetween {c : Cursor} (ready : c.Ready) (more : c.rest ≠ []) :
    c = ⟨.between, c.start, [], c.rest⟩ := by
  obtain ⟨mode, start, pending, rest⟩ := c
  obtain ⟨noPending, between⟩ := ready
  simp only [modeAfter, if_neg more, or_self] at noPending between ⊢
  rw [noPending, between]

end Cursor
end Reckon

import Reckon.Proofs.Tree.Arranged
import Reckon.Proofs.Yard.Rules
/-! The textbook rule puts every arrangement of a tree into the postorder of this tree. -/
namespace Reckon
open Yard

def Piece.token : Piece Literal → Token
  | leaf n => ⟨.number, n.lexeme⟩
  | operator o => ⟨.operator, o.symbol⟩
  | opening => ⟨.openParen, "("⟩
  | closing => ⟨.closeParen, ")"⟩

namespace Yard

def Bears (level : Nat) (os : List Operator) : Prop :=
  ∀ top ∈ os.head?, ∀ o : Operator, level ≤ o.precedence → yields top o = false

theorem bearsNone (level : Nat) : Bears level [] := by
  intro top atTop
  cases atTop

theorem bearsRight (o : Operator) (os : List Operator) : Bears o.rightLevel (o :: os) := by
  intro top atTop incoming above
  cases atTop
  cases o <;> cases incoming <;> first | rfl | exact absurd above (by decide)

theorem yieldsLeft {top o : Operator} (above : o.leftLevel ≤ top.precedence) : yields top o = true := by
  cases o <;> cases top <;> first | rfl | exact absurd above (by decide)

theorem levelLe (o : Operator) : o.precedence ≤ o.leftLevel ∧ o.precedence ≤ o.rightLevel := by
  cases o <;> decide

theorem textbookLeaving {o : Operator} {ms os : List Operator}
    (above : ∀ m ∈ ms, o.leftLevel ≤ m.precedence) (stays : ∀ top ∈ os.head?, yields top o = false) :
    leaving .textbook o (ms ++ os) = ms ∧ staying .textbook o (ms ++ os) = os := by
  have out : ∀ m ∈ ms, yields m o = true := fun m member => yieldsLeft (above m member)
  simp only [leaving, staying, List.takeWhile_append_of_pos out, List.dropWhile_append_of_pos out]
  cases os with
  | nil => simp
  | cons top os => simp [stays top rfl]

end Yard

namespace Tree

theorem Arranged.feedTextbook {level : Nat} {t : Tree Literal} {pieces : List (Piece Literal)}
    (arranged : Arranged level t pieces) {base : List Slot} (ground : Ground base)
    {os : List Operator} (bears : Bears level os) (out : Array Element) :
    ∃ ms words, feed receive ⟨.textbook, pending os ++ base, out⟩ (pieces.map Piece.token) =
        (⟨.textbook, pending (ms ++ os) ++ base, out ++ words.toArray⟩, none) ∧
      (∀ m ∈ ms, level ≤ m.precedence) ∧ words ++ signs ms = (t.map Literal.value).postorder := by
  induction arranged generalizing base os out with
  | leaf level n =>
    refine ⟨[], [.operand n.value], ?_, by simp, rfl⟩
    rw [List.map_singleton, Piece.token, feedTaken (receiveNumber n.lexeme n.value n.reads _)]
    simp [feed]
  | @node level o left right before after binds atLeft atRight ihLeft ihRight =>
    obtain ⟨lower, lower'⟩ := levelLe o
    have bearsLeft : Bears o.leftLevel os := fun top atTop incoming above =>
      bears top atTop incoming (by omega)
    obtain ⟨ms, words, fed, above, order⟩ := ihLeft ground bearsLeft out
    -- The operator sends out exactly what its left operand left waiting.
    obtain ⟨gone, kept⟩ := textbookLeaving above fun top atTop => bears top atTop o binds
    obtain ⟨ms', words', fed', above', order'⟩ := ihRight ground (bearsRight o os)
      (out ++ words.toArray ++ (signs ms).toArray)
    refine ⟨ms' ++ [o], words ++ signs ms ++ words', ?_, ?_, ?_⟩
    · rw [List.map_append, List.map_cons, Piece.token, feedAppend fed,
        feedTaken (receiveWaiting ground ..), gone, kept, fed']
      simp
    · intro m member
      rcases List.mem_append.mp member with inRight | here
      · have bound := above' m inRight
        omega
      · cases List.mem_singleton.mp here
        exact binds
    · rw [map, postorder, ← order, ← order', signsAppend]
      simp [signs]
  | @group t inside level within ih =>
    obtain ⟨ms, words, fed, _, order⟩ := ih (groundOpening (pending os ++ base)) (bearsNone 0) out
    refine ⟨[], words ++ signs ms, ?_, by simp, by simpa [signs] using order⟩
    rw [pendingNil, List.append_nil] at fed
    rw [List.map_cons, List.map_append, List.map_singleton, Piece.token, feedTaken (receiveOpen ..),
      feedAppend fed, Piece.token, feedTaken (receiveClose ..)]
    simp [feed]

theorem Arranged.orderTextbook {t : Tree Literal} {pieces : List (Piece Literal)}
    (arranged : Arranged 0 t pieces) :
    order .textbook (pieces.map Piece.token) = .ok (t.map Literal.value).postorder := by
  obtain ⟨ms, words, fed, _, whole⟩ := arranged.feedTextbook groundNil (bearsNone 0) #[]
  rw [List.append_nil, List.append_nil] at fed
  rw [orderFinished fed (finishPending ..), ← whole]
  simp

theorem Arranged.unique {t u : Tree Literal} {pieces : List (Piece Literal)}
    (first : Arranged 0 t pieces) (second : Arranged 0 u pieces) :
    t.map Literal.value = u.map Literal.value := by
  have same := first.orderTextbook.symm.trans second.orderTextbook
  exact postorderInjective (Except.ok.inj same)

end Tree
end Reckon

import Reckon.Proofs.Phrase.Written
import Reckon.Proofs.Report.Munched
/-! Under the textbook rule the report on a text is the value of the expression tree that it renders. -/
namespace Reckon
open Phrase

namespace Tree

theorem leavesFinite (t : Tree Leaf) :
    ∀ d, .operand d ∈ (t.map Leaf.value).postorder → d.isFinite = true := by
  induction t with
  | leaf l =>
    intro d member
    obtain ⟨c, e, form⟩ := l.valueForm
    cases List.mem_singleton.mp member
    rw [form]
    rfl
  | node o left right ihLeft ihRight =>
    intro d member
    simp only [map, postorder, List.mem_append, List.mem_singleton, reduceCtorEq, or_false] at member
    rcases member with inLeft | inRight
    · exact ihLeft d inLeft
    · exact ihRight d inRight

def Rendered (t : Tree Leaf) (text : String) : Prop :=
  ∃ pieces ts, t.Arranged 0 pieces ∧ Piece.RowWritten pieces (ts.filter Token.known) ∧
    Spaced ts text.toList

theorem orderRendered {t : Tree Leaf} {pieces : List (Piece Leaf)} {ts : List Token}
    (arranged : t.Arranged 0 pieces) (written : Piece.RowWritten pieces (ts.filter Token.known)) :
    Yard.order .textbook ((stream #[] ts).map Item.token) = .ok (t.map Leaf.value).postorder := by
  obtain ⟨items, streamed, tokens⟩ := arranged.streamWritten written stopsNil
  have whole : stream #[] (ts.filter Token.known) = items := by
    simpa [stream, Phrase.closing] using streamed
  have literals := (arrangedMap Leaf.literal arranged).orderTextbook
  rw [mapMap] at literals
  rw [orderKnown, whole, tokens, literals]
  rfl

end Tree

/-- Whatever way an expression tree is written out, the textbook rule finds it: the report has its
postorder and its value, and if the tree has no value the fault of the tree is what comes of the text.
The leaves themselves can always be read. -/
theorem Report.ofRendered (s : Settings) (textbook : s.textbookPrecedence = true) (tree : Tree Leaf)
    (text : String) (rendered : tree.Rendered text) :
    ∃ t : Tree Decimal, tree.traverse Leaf.read = .ok t ∧
      (∀ v, t.value s.digits (some s.maxExponent) = .ok v →
        ∃ r, Report.of s text = .ok r ∧ r.postfixTexts = t.postorder.map Element.text ∧ r.result = v) ∧
      (∀ f, t.value s.digits (some s.maxExponent) = .error f → Report.of s text = .error f) := by
  obtain ⟨pieces, ts, arranged, written, spaced⟩ := rendered
  have rule : s.rule = .textbook := by
    rw [Settings.rule, textbook, if_pos rfl]
  have ordered := Tree.orderRendered arranged written
  rw [← rule] at ordered
  obtain ⟨reports, fails⟩ := Report.ofOrdered spaced ordered
  refine ⟨tree.map Leaf.value, Tree.traverseMap Leaf.readValue tree, ?_, ?_⟩
  · intro v valued
    exact reports v (by rw [Tree.evaluateTree, valued]) (Tree.valueFinite tree.leavesFinite valued)
  · intro f failing
    exact fails f (by rw [Tree.evaluateTree, failing])

theorem Report.ofRenderedWords :
    ∃ r, Report.of { textbookPrecedence := true } "one Hundred and three MINUS ( 4 )" = .ok r ∧
      r.postfixTexts = ["103", "4", "-"] ∧ r.result = .finite false 99 0 := by
  let n : Decimal.Numeral := ⟨"4", by decide, by decide, by decide⟩
  let phrase : Leaf := .phrase .one [.hundred, .three]
  let four : Leaf := .numeral n
  let tree : Tree Leaf := .node .minus (.leaf phrase) (.leaf four)
  let ts : List Token := [⟨.word, "one"⟩, ⟨.word, "Hundred"⟩, ⟨.word, "and"⟩, ⟨.word, "three"⟩,
    ⟨.word, "MINUS"⟩, ⟨.openParen, "("⟩, ⟨.number, "4"⟩, ⟨.closeParen, ")"⟩]
  have group : (Tree.leaf four).Arranged 1 (.opening :: ([.leaf four] ++ [.closing])) :=
    .group 1 (.leaf 0 four)
  have arranged : tree.Arranged 0 ([.leaf phrase] ++ .operator .minus :: _) :=
    .node (by decide) (.leaf 0 phrase) group
  have words : List.Forall₂ NumberWord.SpeltBy [.one, .hundred, .three]
      [⟨.word, "one"⟩, ⟨.word, "Hundred"⟩, ⟨.word, "three"⟩] :=
    .cons ⟨rfl, by decide⟩ (.cons ⟨rfl, by decide⟩ (.cons ⟨rfl, by decide⟩ .nil))
  have minus : Operator.minus.SpeltBy ⟨.word, "MINUS"⟩ := ⟨rfl, by decide⟩
  have known : ts.filter Token.known = [⟨.word, "one"⟩, ⟨.word, "Hundred"⟩, ⟨.word, "three"⟩,
    ⟨.word, "MINUS"⟩, ⟨.openParen, "("⟩, ⟨.number, "4"⟩, ⟨.closeParen, ")"⟩] := by decide
  have written : Piece.RowWritten [.leaf phrase, .operator .minus, .opening, .leaf four, .closing]
      (ts.filter Token.known) := by
    rw [known]
    exact .next (.phrase words) (.next (.word minus) (.next .opening (.next (.numeral n)
      (.next .closing .done))))
  have spaced : Spaced ts (joined ts) := spacedJoined (by decide)
  obtain ⟨t, read, reports, _⟩ := Report.ofRendered { textbookPrecedence := true } rfl tree
    "one Hundred and three MINUS ( 4 )" ⟨_, ts, arranged, written, spaced⟩
  have values : tree.traverse Leaf.read = .ok (.node .minus (.leaf (.ofNat 103)) (.leaf (.ofNat 4))) := by
    decide
  obtain rfl := Except.ok.inj (values.symm.trans read)
  obtain ⟨r, reported, order, result⟩ := reports (.finite false 99 0) (by decide)
  exact ⟨r, reported, order, result⟩

end Reckon

import Mathlib.Data.List.Forall2
import Reckon.Postfix.Evaluation
import Reckon.Proofs.Outcome
import Reckon.Proofs.Tree.Basic
/-! The value of an expression tree, and the stack evaluation of postfix sequences against it. -/
namespace Reckon

def Operator.outcome (p : Precision) (limit : Option Int) (o : Operator) (left right : Decimal) :
    Except Fault Decimal :=
  match o.apply p limit left right with
  | .error (.signal .overflow) | .error (.signal .invalidOperation) =>
    .error (.refusal (.outOfRange o.symbol left right))
  | outcome => outcome

theorem applySymbolSymbol (p : Precision) (limit : Option Int) (o : Operator) (left right : Decimal) :
    applySymbol p limit o.symbol left right = o.outcome p limit left right := by
  unfold applySymbol
  rw [Operator.ofSymbolSymbol]
  rfl

namespace Tree
variable {p : Precision} {limit : Option Int}

def value (p : Precision) (limit : Option Int) : Tree Decimal → Except Fault Decimal
  | leaf value => .ok value
  | node o left right => do
    let a ← left.value p limit
    let b ← right.value p limit
    o.outcome p limit a b

theorem valueOfNode {o : Operator} {left right : Tree Decimal} {v : Decimal}
    (h : (node o left right).value p limit = .ok v) :
    ∃ a b, left.value p limit = .ok a ∧ right.value p limit = .ok b ∧
      o.outcome p limit a b = .ok v := by
  obtain ⟨a, first, h⟩ := bindOk h
  obtain ⟨b, second, h⟩ := bindOk h
  exact ⟨a, b, first, second, h⟩

def subtrees : Tree Decimal → List (Tree Decimal)
  | leaf value => [leaf value]
  | node o left right => left.subtrees ++ right.subtrees ++ [node o left right]

def FailsFirst (p : Precision) (limit : Option Int) (t : Tree Decimal) (f : Fault) : Prop :=
  ∃ before o left right after a b, t.subtrees = before ++ node o left right :: after ∧
    (∀ u ∈ before, ∃ v, u.value p limit = .ok v) ∧
    left.value p limit = .ok a ∧ right.value p limit = .ok b ∧ o.outcome p limit a b = .error f

theorem valueOfSubtree {t : Tree Decimal} {v : Decimal} (h : t.value p limit = .ok v) :
    ∀ u ∈ t.subtrees, ∃ w, u.value p limit = .ok w := by
  induction t generalizing v with
  | leaf w =>
    intro u member
    cases List.mem_singleton.mp member
    exact ⟨v, h⟩
  | node o left right ihLeft ihRight =>
    obtain ⟨a, b, first, second, _⟩ := valueOfNode h
    intro u member
    simp only [subtrees, List.mem_append, List.mem_singleton] at member
    rcases member with (inLeft | inRight) | rfl
    · exact ihLeft first u inLeft
    · exact ihRight second u inRight
    · exact ⟨v, h⟩

theorem failsFirst {t : Tree Decimal} {f : Fault} (h : t.value p limit = .error f) :
    t.FailsFirst p limit f := by
  induction t with
  | leaf v => simp [value] at h
  | node o left right ihLeft ihRight =>
    -- In postorder the left subtrees come first, and a fault among them is that of the whole.
    cases first : left.value p limit with
    | error g =>
      have same : g = f := by simpa [value, bind, Except.bind, first] using h
      subst same
      obtain ⟨before, o', l, r, after, a, b, found, fine, failing⟩ := ihLeft first
      exact ⟨before, o', l, r, after ++ right.subtrees ++ [node o left right], a, b,
        by simp [subtrees, found], fine, failing⟩
    | ok a =>
      cases second : right.value p limit with
      | error g =>
        have same : g = f := by simpa [value, bind, Except.bind, first, second] using h
        subst same
        obtain ⟨before, o', l, r, after, a, b, found, fine, failing⟩ := ihRight second
        refine ⟨left.subtrees ++ before, o', l, r, after ++ [node o left right], a, b,
          by simp [subtrees, found], ?_, failing⟩
        intro u member
        rcases List.mem_append.mp member with inLeft | inRight
        · exact valueOfSubtree first u inLeft
        · exact fine u inRight
      | ok b =>
        refine ⟨left.subtrees ++ right.subtrees, o, left, right, [], a, b, rfl, ?_, first, second,
          by simpa [value, bind, Except.bind, first, second] using h⟩
        intro u member
        rcases List.mem_append.mp member with inLeft | inRight
        · exact valueOfSubtree first u inLeft
        · exact valueOfSubtree second u inRight

theorem evaluatePostorder (t : Tree Decimal) (stack : List Decimal) (rest : List Element) :
    (t.postorder ++ rest).foldlM (evaluateStep p limit) stack =
      (t.value p limit).bind (fun v => rest.foldlM (evaluateStep p limit) (v :: stack)) := by
  induction t generalizing stack rest with
  | leaf v => rfl
  | node o left right ihLeft ihRight =>
    simp only [postorder, List.append_assoc, ihLeft, ihRight, value, bind, Except.bind]
    cases left.value p limit with
    | error f => rfl
    | ok a =>
      cases right.value p limit with
      | error f => rfl
      | ok b =>
        simp only [List.cons_append, List.nil_append, List.foldlM_cons, evaluateStep,
          applySymbolSymbol]
        cases o.outcome p limit a b <;> rfl

theorem evaluateTree (t : Tree Decimal) : evaluatePostfix p limit t.postorder = t.value p limit := by
  have run : (t.postorder ++ []).foldlM (evaluateStep p limit) [] = _ := evaluatePostorder t [] []
  rw [List.append_nil] at run
  simp only [evaluatePostfix, run, bind, Except.bind]
  cases t.value p limit <;> rfl

/- Reading back: each operand on the stack is the value of a tree, and the postorders of these trees, the
lowest first, are the elements that have been read. -/

def Holds (p : Precision) (limit : Option Int) (trees : List (Tree Decimal))
    (stack : List Decimal) : Prop :=
  List.Forall₂ (fun t v => t.value p limit = .ok v) trees stack

def spread (trees : List (Tree Decimal)) : List Element := trees.reverse.flatMap postorder

theorem stepHolds {trees : List (Tree Decimal)} {stack after : List Decimal} {e : Element}
    (holds : Holds p limit trees stack) (step : evaluateStep p limit stack e = .ok after) :
    ∃ trees', Holds p limit trees' after ∧ spread trees' = spread trees ++ [e] := by
  cases e with
  | operand v =>
    simp only [evaluateStep, Except.ok.injEq] at step
    subst step
    exact ⟨leaf v :: trees, .cons rfl holds, by simp [spread, postorder]⟩
  | operator symbol =>
    cases holds with
    | nil => simp [evaluateStep] at step
    | @cons right b trees stack atRight holds =>
      cases holds with
      | nil => simp [evaluateStep] at step
      | @cons left a trees stack atLeft holds =>
        simp only [evaluateStep] at step
        cases known : Operator.ofSymbol? symbol with
        | none => simp [applySymbol, known, Except.map] at step
        | some o =>
          obtain rfl := Operator.symbolOfSymbol known
          rw [applySymbolSymbol] at step
          cases result : o.outcome p limit a b with
          | error f => simp [result, Except.map] at step
          | ok v =>
            simp only [result, Except.map, Except.ok.injEq] at step
            subst step
            refine ⟨node o left right :: trees, .cons ?_ holds, by simp [spread, postorder]⟩
            simp [value, bind, Except.bind, atLeft, atRight, result]

theorem runHolds {trees : List (Tree Decimal)} {stack after : List Decimal} {elements : List Element}
    (holds : Holds p limit trees stack)
    (run : elements.foldlM (evaluateStep p limit) stack = .ok after) :
    ∃ trees', Holds p limit trees' after ∧ spread trees' = spread trees ++ elements := by
  induction elements generalizing trees stack with
  | nil =>
    cases run
    exact ⟨trees, holds, by simp⟩
  | cons e elements ih =>
    rw [List.foldlM_cons] at run
    obtain ⟨between, step, run⟩ := bindOk run
    obtain ⟨trees₁, holds₁, spread₁⟩ := stepHolds holds step
    obtain ⟨trees₂, holds₂, spread₂⟩ := ih holds₁ run
    exact ⟨trees₂, holds₂, by simp [spread₂, spread₁]⟩

theorem treeOfEvaluated {elements : List Element} {v : Decimal}
    (h : evaluatePostfix p limit elements = .ok v) :
    ∃ t : Tree Decimal, t.postorder = elements ∧ t.value p limit = .ok v := by
  obtain ⟨stack, run, h⟩ := bindOk h
  have empty : Holds p limit [] [] := .nil
  obtain ⟨trees, holds, order⟩ := runHolds empty run
  cases holds with
  | nil => cases h
  | @cons t w trees stack atTop holds =>
    cases holds with
    | nil =>
      cases h
      exact ⟨t, by simpa [spread] using order, atTop⟩
    | cons => cases h

/-- A postfix sequence has a value exactly if it is the postorder of a tree, of one tree only, that has
this value. A tree without one gives the fault of its first failing node. A sequence with a value has
one operand more than operators. -/
theorem evaluationIsOfOneTree (p : Precision) (limit : Option Int) :
    (∀ elements v, evaluatePostfix p limit elements = .ok v ↔
      ∃ t : Tree Decimal, t.postorder = elements ∧ (∀ u : Tree Decimal, u.postorder = elements → u = t) ∧
        t.value p limit = .ok v) ∧
    (∀ (t : Tree Decimal) f, t.value p limit = .error f →
      evaluatePostfix p limit t.postorder = .error f ∧ t.FailsFirst p limit f) ∧
    (∀ elements v, evaluatePostfix p limit elements = .ok v →
      operandCount elements = operatorCount elements + 1) := by
  refine ⟨?_, ?_, ?_⟩
  · intro elements v
    constructor
    · intro h
      obtain ⟨t, rfl, valued⟩ := treeOfEvaluated h
      exact ⟨t, rfl, fun u same => postorderInjective same, valued⟩
    · rintro ⟨t, rfl, _, valued⟩
      rw [evaluateTree, valued]
  · intro t f failed
    exact ⟨by rw [evaluateTree, failed], failsFirst failed⟩
  · intro elements v h
    obtain ⟨t, rfl, _⟩ := treeOfEvaluated h
    exact operandsOfPostorder t

end Tree
end Reckon

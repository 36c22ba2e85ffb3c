import Mathlib.Data.List.SplitBy
import Reckon.Proofs.Yard.Rules
/-! What the chained rule makes of an infix expression. The operators of a group are cut into runs, each
as long as precedence does not fall. A run groups to the right, and all that stands before it is the
left operand of its first operator. -/
namespace Reckon

abbrev Link := Operator × Tree Decimal

def rises (a b : Link) : Bool := a.1.precedence ≤ b.1.precedence

def runs (links : List Link) : List (List Link) := links.splitBy rises

def groupRight : Tree Decimal → List Link → Tree Decimal
  | x, [] => x
  | x, (o, y) :: rest => .node o x (groupRight y rest)

def chained (first : Tree Decimal) (links : List Link) : Tree Decimal :=
  (runs links).foldl groupRight first

mutual

def Operand.chainedTree : Operand → Tree Decimal
  | .number n => .leaf n.value
  | .group first links => chained first.chainedTree links.chainedTrees

def Links.chainedTrees : Links → List Link
  | .done => []
  | .link o x rest => (o, x.chainedTree) :: rest.chainedTrees

end

def Chain.chainedTree (c : Chain) : Tree Decimal :=
  chained c.first.chainedTree c.links.chainedTrees

theorem groupRightPostorder (x : Tree Decimal) (run : List Link) :
    (groupRight x run).postorder = x.postorder ++ run.flatMap (fun link => link.2.postorder) ++
      Yard.signs (run.map Prod.fst).reverse := by
  induction run generalizing x with
  | nil => simp [groupRight, Yard.signs]
  | cons link run ih =>
    obtain ⟨o, y⟩ := link
    simp [groupRight, Tree.postorder, ih, Yard.signs]

abbrev Rising (run : List Link) : Prop := run.IsChain (fun a b => rises a b = true)

theorem foldRun (left : Tree Decimal) {run : List Link} (rising : Rising run) :
    (runs run).foldl groupRight left = groupRight left run := by
  cases run with
  | nil => rfl
  | cons link rest =>
    have single : runs (link :: rest) = [link :: rest] := List.splitBy_of_isChain (by simp) rising
    rw [single]
    rfl

theorem foldFall (left : Tree Decimal) {run : List Link} (rising : Rising run) (link : Link)
    (rest : List Link) (falls : ∀ last ∈ run.getLast?, rises last link = false) :
    (runs (run ++ link :: rest)).foldl groupRight left =
      (runs (link :: rest)).foldl groupRight (groupRight left run) := by
  have cut : runs (run ++ link :: rest) = runs run ++ runs (link :: rest) :=
    List.splitBy_append_cons rest falls
  rw [cut, List.foldl_append, foldRun left rising]

namespace Yard
variable {base : List Slot}

/- Within a group, before the next operator: `left` is all that stands before the current run, and the
operators of the run wait, though their right operands have gone out. -/

def awaiting (base : List Slot) (out : Array Element) (left : Tree Decimal) (run : List Link) : Yard :=
  ⟨.chained, pending (run.map Prod.fst).reverse ++ base,
    out ++ (left.postorder ++ run.flatMap (fun link => link.2.postorder)).toArray⟩

theorem awaitingGroup (base : List Slot) (out : Array Element) (left : Tree Decimal) (run : List Link) :
    (awaiting base out left run).output ++ (signs (run.map Prod.fst).reverse).toArray =
      out ++ (groupRight left run).postorder.toArray := by
  simp [awaiting, groupRightPostorder]

theorem receiveRise (ground : Ground base) {out : Array Element} {left : Tree Decimal}
    {run : List Link} {o : Operator} {y : Tree Decimal}
    (rise : ∀ last ∈ run.getLast?, rises last (o, y) = true) :
    receive (awaiting base out left run) ⟨.operator, o.symbol⟩ =
      (⟨.chained, .operator o :: (awaiting base out left run).stack,
        (awaiting base out left run).output⟩, none) := by
  have stays : Falls o (run.map Prod.fst).reverse = false := by
    rw [Bool.eq_false_iff, Ne, fallsIff]
    rintro ⟨top, atTop, fall⟩
    rw [List.head?_reverse, List.getLast?_map] at atTop
    obtain ⟨last, atLast, rfl⟩ := Option.map_eq_some_iff.mp atTop
    have low : last.1.precedence ≤ o.precedence := by simpa [rises] using rise last atLast
    omega
  rw [awaiting, receiveWaiting ground]
  simp [leaving, staying, stays, pending, signs]

theorem receiveFall (ground : Ground base) {out : Array Element} {left : Tree Decimal}
    {run : List Link} {last : Link} {o : Operator} {y : Tree Decimal} (atLast : last ∈ run.getLast?)
    (fall : rises last (o, y) = false) :
    receive (awaiting base out left run) ⟨.operator, o.symbol⟩ =
      (⟨.chained, .operator o :: base, out ++ (groupRight left run).postorder.toArray⟩, none) := by
  have goes : Falls o (run.map Prod.fst).reverse = true := by
    rw [fallsIff]
    refine ⟨last.1, ?_, by simpa [rises] using fall⟩
    rw [List.head?_reverse, List.getLast?_map]
    exact Option.map_eq_some_iff.mpr ⟨last, atLast, rfl⟩
  rw [← awaitingGroup base, awaiting, receiveWaiting ground]
  simp [leaving, staying, goes, pending]

theorem closeAwaiting (below : List Slot) (out : Array Element) (left : Tree Decimal)
    (run : List Link) :
    receive (awaiting (.opening :: below) out left run) ⟨.closeParen, ")"⟩ =
      (⟨.chained, below, out ++ (groupRight left run).postorder.toArray⟩, none) := by
  rw [← awaitingGroup (.opening :: below)]
  exact receiveClose ..

theorem finishAwaiting (out : Array Element) (left : Tree Decimal) (run : List Link) :
    (awaiting [] out left run).finish =
      (⟨.chained, [], out ++ (groupRight left run).postorder.toArray⟩, none) := by
  rw [← awaitingGroup [], ← finishPending]
  simp [awaiting]

end Yard

open Yard

mutual

theorem Operand.feedChained (x : Operand) (stack : List Slot) (out : Array Element) :
    feed receive ⟨.chained, stack, out⟩ x.tokens =
      (⟨.chained, stack, out ++ x.chainedTree.postorder.toArray⟩, none) := by
  cases x with
  | number n =>
    rw [Operand.tokens, feedTaken (receiveNumber n.lexeme n.value n.reads _)]
    simp [feed, Operand.chainedTree, Tree.postorder]
  | group first links =>
    have opened : receive ⟨.chained, stack, out⟩ ⟨.openParen, "("⟩ =
        (⟨.chained, .opening :: stack, out⟩, none) := rfl
    have started : feed receive ⟨.chained, .opening :: stack, out⟩ first.tokens =
        (awaiting (.opening :: stack) out first.chainedTree [], none) := by
      rw [first.feedChained]
      simp [awaiting, pending]
    have single : Rising [] := List.isChain_nil
    obtain ⟨left, run, linked, grouped⟩ :=
      links.feedChained (groundOpening stack) out first.chainedTree single
    rw [Operand.tokens, feedTaken opened, feedAppend started, feedAppend linked,
      feedTaken (closeAwaiting ..), grouped]
    rfl

theorem Links.feedChained (links : Links) {base : List Slot} (ground : Ground base)
    (out : Array Element) (left : Tree Decimal) {run : List Link} (rising : Rising run) :
    ∃ left' run', feed receive (awaiting base out left run) links.tokens =
        (awaiting base out left' run', none) ∧
      groupRight left' run' = (runs (run ++ links.chainedTrees)).foldl groupRight left := by
  cases links with
  | done =>
    refine ⟨left, run, rfl, ?_⟩
    rw [Links.chainedTrees, List.append_nil, foldRun left rising]
  | link o x rest =>
    -- The link carries the run on, or it falls below the last operator and sends the whole run out.
    by_cases rise : ∀ last ∈ run.getLast?, rises last (o, x.chainedTree) = true
    · have carried : Rising (run ++ [(o, x.chainedTree)]) := by
        refine List.isChain_append.mpr ⟨rising, List.isChain_singleton _, ?_⟩
        intro last atLast link atHead
        cases Option.mem_some.mp atHead
        exact rise last atLast
      obtain ⟨left', run', fed, grouped⟩ := rest.feedChained ground out left carried
      refine ⟨left', run', ?_, by rw [grouped, Links.chainedTrees, List.append_assoc]; rfl⟩
      rw [Links.tokens, feedTaken (receiveRise ground rise), feedAppend (x.feedChained ..), ← fed]
      simp [awaiting, pending]
    · obtain ⟨last, falls⟩ := not_forall.mp rise
      obtain ⟨atLast, fall⟩ := Classical.not_imp.mp falls
      rw [Bool.not_eq_true] at fall
      have falls : ∀ other ∈ run.getLast?, rises other (o, x.chainedTree) = false := by
        intro other atOther
        cases Option.some.inj (atLast.symm.trans atOther)
        exact fall
      have alone : Rising [(o, x.chainedTree)] := List.isChain_singleton _
      obtain ⟨left', run', fed, grouped⟩ := rest.feedChained ground out (groupRight left run) alone
      refine ⟨left', run', ?_, by rw [grouped, Links.chainedTrees, foldFall left rising _ _ falls]; rfl⟩
      rw [Links.tokens, feedTaken (receiveFall ground atLast fall), feedAppend (x.feedChained ..), ← fed]
      simp [awaiting, pending]

end

theorem Chain.orderChained (c : Chain) (ts : List Token) (spelt : c.Spelt ts) :
    Yard.order .chained ts = .ok c.chainedTree.postorder := by
  have started : feed receive (Yard.empty .chained) c.first.tokens =
      (awaiting [] #[] c.first.chainedTree [], none) := by
    rw [Yard.empty, c.first.feedChained]
    simp [awaiting, pending]
  have single : Rising [] := List.isChain_nil
  obtain ⟨left, run, linked, grouped⟩ := c.links.feedChained groundNil #[] c.first.chainedTree single
  have fed : feed receive (Yard.empty .chained) c.tokens = (awaiting [] #[] left run, none) := by
    rw [Chain.tokens, feedAppend started, linked]
  rw [orderSense, spelt, orderFinished fed (finishAwaiting ..), grouped, Chain.chainedTree]
  simp [chained]

/- The product takes all of the sum before it: 1 + 2 ^ 3 and * 4 is (1 + 2 ^ 3) * 4. -/

theorem Chain.orderChainedFalling :
    let ts : List Token := [⟨.number, "1"⟩, ⟨.operator, "+"⟩, ⟨.number, "2"⟩, ⟨.operator, "^"⟩,
      ⟨.number, "3"⟩, ⟨.word, "and"⟩, ⟨.operator, "*"⟩, ⟨.number, "4"⟩]
    ∃ c : Chain, c.Spelt ts ∧ Yard.order .chained ts = .ok [.operand (.ofNat 1), .operand (.ofNat 2),
      .operand (.ofNat 3), .operator "^", .operator "+", .operand (.ofNat 4), .operator "*"] := by
  intro ts
  let c : Chain := ⟨.number ⟨"1", .ofNat 1, rfl⟩, .link .plus (.number ⟨"2", .ofNat 2, rfl⟩)
    (.link .power (.number ⟨"3", .ofNat 3, rfl⟩)
      (.link .times (.number ⟨"4", .ofNat 4, rfl⟩) .done))⟩
  have spelt : c.Spelt ts := rfl
  exact ⟨c, spelt, Chain.orderChained c ts spelt⟩

end Reckon

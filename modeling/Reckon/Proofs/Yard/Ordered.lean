import Mathlib.Data.List.Chain
import Reckon.Proofs.Postfix.Known
import Reckon.Proofs.Yard.Agreement
import Reckon.Proofs.Yard.Texts
/-! The order in which operators wait. Each of them stands right above one that may wait below it, and so does
every operator of a group above all that wait below it there. -/
namespace Reckon

def Rule.Above : Rule → (upper lower : Operator) → Prop
  | .chained, upper, lower => lower.precedence ≤ upper.precedence
  | .textbook, upper, lower => lower.precedence < upper.precedence ∨ lower = .power ∧ upper = .power

theorem Rule.Above.trans {rule : Rule} {a b c : Operator} (upper : rule.Above a b) (lower : rule.Above b c) :
    rule.Above a c := by
  cases rule with
  | chained => exact Nat.le_trans lower upper
  | textbook =>
    obtain less | ⟨rfl, rfl⟩ := lower
    · obtain more | ⟨rfl, rfl⟩ := upper
      · exact .inl (less.trans more)
      · exact .inl less
    · exact upper

namespace Yard
variable {rule : Rule}

def SlotAbove (rule : Rule) : Slot → Slot → Prop
  | .operator upper, .operator lower => rule.Above upper lower
  | _, _ => True

theorem stayingBelow {o top : Operator} {os : List Operator} (atTop : top ∈ (staying rule o os).head?) :
    rule.Above o top := by
  cases rule with
  | chained =>
    simp only [staying] at atTop
    split at atTop
    · cases atTop
    · rename_i stays
      rw [fallsIff] at stays
      exact Nat.le_of_not_lt fun falls => stays ⟨top, atTop, falls⟩
  | textbook =>
    have stays := List.head?_dropWhile_not (yields · o) os
    rw [staying, Option.mem_def] at atTop
    rw [atTop] at stays
    have unyielding : ¬ yields top o = true := by simpa using stays
    rw [yieldsIff] at unyielding
    -- An operator of the same level stays only below a power, and then it is one.
    by_cases level : top.precedence = o.precedence
    · have power : o = .power := by
        by_contra other
        exact unyielding (.inr ⟨level, other⟩)
      subst power
      exact .inr ⟨precedencePower level.ge, rfl⟩
    · exact .inl (by omega)

theorem stayingSuffix (rule : Rule) (o : Operator) (os : List Operator) : staying rule o os <:+ os :=
  ⟨_, leavingStaying rule o os⟩

theorem pushedAbove {o : Operator} {os : List Operator} {base : List Slot} (ground : Ground base)
    (rising : (pending os ++ base).IsChain (SlotAbove rule)) :
    (pending (o :: staying rule o os) ++ base).IsChain (SlotAbove rule) := by
  obtain ⟨gone, split⟩ := stayingSuffix rule o os
  have kept : (pending (staying rule o os) ++ base).IsChain (SlotAbove rule) := by
    rw [← split, pending, List.map_append, List.append_assoc] at rising
    exact rising.right_of_append
  refine List.isChain_cons.mpr ⟨?_, kept⟩
  cases stays : staying rule o os with
  | nil =>
    obtain rfl | ⟨below, rfl⟩ := groundCases ground
    · exact nofun
    · simp [SlotAbove]
  | cons top rest =>
    have below : rule.Above o top := stayingBelow (by rw [stays]; rfl)
    simpa [pending, SlotAbove] using below

structure Ordered (rule : Rule) (y : Yard) : Prop where
  sameRule : y.rule = rule
  rising : y.stack.IsChain (SlotAbove rule)
  known : ∀ e ∈ y.output.toList, e.Known

variable {y z : Yard} {t : Token}

theorem orderedEmpty (rule : Rule) : Ordered rule (empty rule) :=
  ⟨rfl, .nil, (fun _ member => nomatch member)⟩

theorem signsKnown (os : List Operator) : ∀ e ∈ signs os, e.Known := by
  intro e member
  obtain ⟨o, _, rfl⟩ := List.mem_map.mp member
  exact ⟨o, rfl⟩

theorem Ordered.sendOut {own : Rule} {os : List Operator} {base : List Slot} {out : Array Element}
    (ordered : Ordered rule ⟨own, pending os ++ base, out⟩) :
    Ordered rule ⟨own, base, out ++ (signs os).toArray⟩ := by
  refine ⟨ordered.sameRule, ordered.rising.right_of_append, ?_⟩
  rw [Array.toList_append]
  exact List.forall_mem_append.mpr ⟨ordered.known, signsKnown os⟩

theorem Ordered.closed {own : Rule} {below : List Slot} {out : Array Element}
    (ordered : Ordered rule ⟨own, .opening :: below, out⟩) : Ordered rule ⟨own, below, out⟩ :=
  ⟨ordered.sameRule, ordered.rising.tail, ordered.known⟩

theorem Ordered.received (ordered : Ordered rule y) (takes : Takes y t z) : Ordered rule z := by
  cases takes with
  | number kind reads =>
    refine ⟨ordered.sameRule, ordered.rising, ?_⟩
    rw [Array.toList_push]
    exact List.forall_mem_append.mpr ⟨ordered.known, by simp [Element.Known]⟩
  | opening kind =>
    refine ⟨ordered.sameRule, List.isChain_cons.mpr ⟨?_, ordered.rising⟩, ordered.known⟩
    intro slot _
    trivial
  | closing kind => exact ordered.sendOut.closed
  | @operator own os base out t o kind found ground =>
    obtain rfl : own = rule := ordered.sameRule
    refine ⟨rfl, pushedAbove ground ordered.rising, ?_⟩
    rw [Array.toList_append]
    exact List.forall_mem_append.mpr ⟨ordered.known, signsKnown _⟩
  | word kind => exact ordered

theorem Ordered.refused {r : Refusal} (ordered : Ordered rule y) (refuses : Refuses y t r z) :
    Ordered rule z := by
  cases refuses with
  | literal kind reads => exact ordered
  | closing kind =>
    rw [← List.append_nil (pending _)] at ordered
    exact ordered.sendOut
  | operator kind unknown => exact ordered

theorem Ordered.call {c : Call} {refused : Option Refusal} (ordered : Ordered rule y)
    (answer : y.call c = (z, refused)) : Ordered rule z := by
  cases callCases answer with
  | received takes => exact ordered.received takes
  | refused refuses => exact ordered.refused refuses
  | finished =>
    rw [← List.append_nil (pending _)] at ordered
    exact ordered.sendOut
  | unfinished => exact ordered.sendOut.closed

theorem Ordered.calls (ordered : Ordered rule y) (cs : List Call) : Ordered rule (y.calls cs).1 := by
  induction cs generalizing y with
  | nil => exact ordered
  | cons c cs ih => exact ih (ordered.call (Prod.eta (y.call c)).symm)

theorem Ordered.group (ordered : Ordered rule y) {above below : List Slot} {os : List Operator}
    (cut : y.stack = above ++ (pending os ++ below)) : os.Pairwise rule.Above := by
  have rising := ordered.rising
  rw [cut] at rising
  have group := rising.right_of_append.left_of_append
  rw [pending, List.isChain_map] at group
  have : IsTrans Operator rule.Above := ⟨fun _ _ _ => Rule.Above.trans⟩
  exact List.isChain_iff_pairwise.mp group

theorem refusedUnknown {r : Refusal} (refuses : Refuses y t r z) (category : r.category = .unknownOperator) :
    r = .unrankedOperator t.lexeme ∧ z = y := by
  cases refuses with
  | literal kind reads =>
    unfold readLiteral at reads
    split at reads
    · cases reads
    · cases reads
      cases category
  | closing kind => cases category
  | operator kind unknown => exact ⟨rfl, rfl⟩

/-- Whatever a yard is called for, and whatever it refuses on the way, looking up what waits never fails: a yard
that keeps texts answers the same. On its stack are open parentheses and operators, and among the operators of one
group each may wait above all below it. A token refused for an unknown operator is that operator and has changed
nothing, and the evaluation of what has gone out is never refused for one. -/
theorem callsOrdered (rule : Rule) (cs : List Call) :
    let y := ((empty rule).calls cs).1
    (TextYard.empty rule).calls cs = (y.texts, ((empty rule).calls cs).2) ∧
      (∀ s ∈ y.texts.stack, s = "(" ∨ ∃ o, Operator.ofSymbol? s = some o) ∧
      (∀ above os below, y.stack = above ++ (pending os ++ below) → os.Pairwise rule.Above) ∧
      (∀ t z r, y.receive t = (z, some r) → r.category = .unknownOperator →
        r = .unrankedOperator t.lexeme ∧ z = y) ∧
      ∀ p limit r, evaluatePostfix p limit y.output.toList = .error (.refusal r) →
        r.category ≠ .unknownOperator := by
  intro y
  have ordered : Ordered rule y := (orderedEmpty rule).calls cs
  refine ⟨callsTexts (empty rule) cs, ?_, ?_, ?_, ?_⟩
  · intro s member
    obtain ⟨slot, _, rfl⟩ := List.mem_map.mp member
    cases slot with
    | opening => exact .inl rfl
    | operator o => exact .inr ⟨o, Operator.ofSymbolSymbol o⟩
  · intro above os below cut
    exact ordered.group cut
  · intro t z r refused category
    exact refusedUnknown (refusedCases refused) category
  · intro p limit r failed
    exact evaluateOfKnown ordered.known _ failed r rfl

example : (TextYard.empty .textbook).calls [.receive ⟨.operator, "^"⟩, .receive ⟨.operator, "^"⟩,
      .receive ⟨.operator, "+-"⟩, .receive ⟨.operator, "+"⟩] =
    (⟨.textbook, ["+"], #[.operator "^", .operator "^"]⟩,
      [(.receive ⟨.operator, "^"⟩, none), (.receive ⟨.operator, "^"⟩, none),
        (.receive ⟨.operator, "+-"⟩, some (.unrankedOperator "+-")), (.receive ⟨.operator, "+"⟩, none)]) := by
  decide

end Yard
end Reckon

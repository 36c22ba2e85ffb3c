import Mathlib.Data.List.Chain
import Mathlib.Data.List.TakeWhile
import Reckon.Proofs.Yard.Rules
/-! When the two rules give the same postfix order. As long as they have let the same operators go, the
yards are the same; once they have not, the next value comes out at different places. -/
namespace Reckon

structure LastRun (before run : List Operator) : Prop where
  rising : run.IsChain (fun a b => a.precedence ≤ b.precedence)
  fallen : ∀ b ∈ before.getLast?, ∀ a ∈ run.head?, a.precedence < b.precedence

def Harmless (first last o : Operator) : Prop :=
  last.precedence < o.precedence ∨ (last = .power ∧ o = .power) ∨
    (o.precedence < last.precedence ∧ o.precedence ≤ first.precedence)

def RulesAgree (os : List Operator) : Prop :=
  ∀ before run o after first last, os = before ++ run ++ o :: after → LastRun before run →
    run.head? = some first → run.getLast? = some last → Harmless first last o

theorem lastRunSuffix {before run middle run' : List Operator} (last : LastRun before run)
    (rest : LastRun (before ++ middle) run') (nonempty : run' ≠ []) (whole : run = middle ++ run') :
    run = run' := by
  obtain rfl | ⟨init, z, rfl⟩ := List.eq_nil_or_concat' middle
  · exact whole
  · obtain ⟨a, as, rfl⟩ := List.exists_cons_of_ne_nil nonempty
    have rise : z.precedence ≤ a.precedence := by
      have chain := last.rising
      rw [whole, List.isChain_append] at chain
      exact chain.2.2 z (by simp) a rfl
    have fall := rest.fallen z (by simp [← List.append_assoc]) a rfl
    omega

theorem lastRunUnique {before run before' run' : List Operator} (last : LastRun before run)
    (last' : LastRun before' run') (nonempty : run ≠ []) (nonempty' : run' ≠ [])
    (same : before ++ run = before' ++ run') : run = run' := by
  rcases List.append_eq_append_iff.mp same with ⟨middle, rfl, whole⟩ | ⟨middle, rfl, whole⟩
  · exact lastRunSuffix last last' nonempty' whole
  · exact (lastRunSuffix last' last nonempty whole).symm

theorem lastRunRise {before run : List Operator} {o : Operator} (last : LastRun before run)
    (begun : run = [] → before = []) (rise : ∀ top ∈ run.getLast?, top.precedence ≤ o.precedence) :
    LastRun before (run ++ [o]) := by
  constructor
  · refine List.isChain_append.mpr ⟨last.rising, List.isChain_singleton o, ?_⟩
    intro top atTop a atHead
    cases Option.mem_some.mp atHead
    exact rise top atTop
  · intro b atLast a atHead
    cases run with
    | nil => simp [begun rfl] at atLast
    | cons first rest => exact last.fallen b atLast a (by simpa using atHead)

theorem lastRunFall {before run : List Operator} {o top : Operator} (atTop : run.getLast? = some top)
    (fall : o.precedence < top.precedence) : LastRun (before ++ run) [o] := by
  refine ⟨List.isChain_singleton o, ?_⟩
  intro b atLast a atHead
  cases Option.mem_some.mp atHead
  rw [List.getLast?_append, atTop] at atLast
  cases Option.mem_some.mp atLast
  exact fall

theorem rulesAgreeNil : RulesAgree [] := by
  intro before run o after first last whole
  simp at whole

theorem rulesAgreeSnoc {before run : List Operator} {o : Operator} (last : LastRun before run)
    (begun : run = [] → before = []) (agree : RulesAgree (before ++ run))
    (harmless : ∀ first top, run.head? = some first → run.getLast? = some top → Harmless first top o) :
    RulesAgree (before ++ run ++ [o]) := by
  intro before' run' o' after first top whole last' atHead atLast
  obtain rfl | ⟨init, z, rfl⟩ := List.eq_nil_or_concat' after
  · obtain ⟨same, sign⟩ := List.append_inj' whole rfl
    cases sign
    have nonempty' : run' ≠ [] := by
      rintro rfl
      simp at atHead
    have nonempty : run ≠ [] := by
      intro empty
      rw [empty, begun empty] at same
      simp [nonempty'] at same
    rw [← lastRunUnique last last' nonempty nonempty' same] at atHead atLast
    exact harmless first top atHead atLast
  · have inner : before ++ run = before' ++ run' ++ o' :: init := by
      have cut : before ++ run ++ [o] = (before' ++ run' ++ o' :: init) ++ [z] := by simpa using whole
      exact (List.append_inj' cut rfl).1
    exact agree before' run' o' init first top inner last' atHead atLast

theorem eitherRule {α : Type} {f : Rule → α} (same : f .chained = f .textbook) (rule : Rule) :
    f rule = f .chained := by
  cases rule with
  | chained => rfl
  | textbook => exact same.symm

theorem precedencePower {o : Operator} (high : Operator.power.precedence ≤ o.precedence) :
    o = .power := by
  cases o <;> simp [Operator.precedence] at high ⊢

namespace Yard

theorem yieldsIff (top o : Operator) : yields top o = true ↔
    o.precedence < top.precedence ∨ (top.precedence = o.precedence ∧ o ≠ .power) := by
  simp [yields, Operator.groupsRight]

theorem leavingPrefix (rule : Rule) (o : Operator) (os : List Operator) : leaving rule o os <+: os :=
  ⟨_, leavingStaying rule o os⟩

theorem sameRise {o first top : Operator} {rest : List Operator} (rise : top.precedence < o.precedence) :
    leaving .chained o (top :: rest) = leaving .textbook o (top :: rest) ↔ Harmless first top o := by
  have keeps : yields top o = false := by
    rw [Bool.eq_false_iff, Ne, yieldsIff]
    omega
  have stays : Falls o (top :: rest) = false := by simp [Falls, Nat.le_of_lt rise]
  simp [leaving, stays, keeps, Harmless, rise]

theorem sameLevel {o first top : Operator} {rest : List Operator}
    (level : top.precedence = o.precedence) :
    leaving .chained o (top :: rest) = leaving .textbook o (top :: rest) ↔ Harmless first top o := by
  have stays : Falls o (top :: rest) = false := by simp [Falls, level]
  have even : Harmless first top o ↔ o = .power := by
    constructor
    · rintro (rise | ⟨_, power⟩ | ⟨fall, _⟩)
      · omega
      · exact power
      · omega
    · rintro rfl
      exact .inr (.inl ⟨precedencePower (by omega), rfl⟩)
  rw [even]
  by_cases power : o = .power
  · subst power
    have keeps : yields top .power = false := by
      rw [Bool.eq_false_iff, Ne, yieldsIff]
      simp [level]
    simp [leaving, stays, keeps]
  · have goes : yields top o = true := (yieldsIff top o).mpr (.inr ⟨level, power⟩)
    simp [leaving, stays, goes, power]

theorem sameFall {o first top : Operator} {rest : List Operator}
    (least : ∀ a ∈ top :: rest, first.precedence ≤ a.precedence) (member : first ∈ top :: rest)
    (fall : o.precedence < top.precedence) :
    leaving .chained o (top :: rest) = leaving .textbook o (top :: rest) ↔ Harmless first top o := by
  have goes : Falls o (top :: rest) = true := by simp [Falls, fall]
  have low : o ≠ .power := by
    rintro rfl
    have power := precedencePower (Nat.le_of_lt fall)
    simp [power] at fall
  have all : Harmless first top o ↔ ∀ a ∈ top :: rest, yields a o = true := by
    constructor
    · rintro (rise | ⟨_, power⟩ | ⟨_, reach⟩) a inside
      · omega
      · exact absurd power low
      · have above := least a inside
        rw [yieldsIff]
        by_cases equal : a.precedence = o.precedence
        · exact .inr ⟨equal, low⟩
        · exact .inl (by omega)
    · intro each
      have reach := (yieldsIff first o).mp (each first member)
      exact .inr (.inr ⟨fall, by omega⟩)
  rw [all, leaving, if_pos goes, leaving, eq_comm, List.takeWhile_eq_self_iff]

theorem leavingSame {o first top : Operator} {os : List Operator}
    (falling : os.IsChain (fun a b => b.precedence ≤ a.precedence)) (atTop : os.head? = some top)
    (atFirst : os.getLast? = some first) :
    leaving .chained o os = leaving .textbook o os ↔ Harmless first top o := by
  obtain ⟨rest, rfl⟩ := List.head?_eq_some_iff.mp atTop
  have least : ∀ a ∈ top :: rest, first.precedence ≤ a.precedence := by
    apply falling.backwards_induction
    · intro a b step above
      omega
    · intro nonempty
      rw [List.getLast_of_mem_getLast? atFirst]
  rcases Nat.lt_trichotomy top.precedence o.precedence with rise | level | fall
  · exact sameRise rise
  · exact sameLevel level
  · exact sameFall least (List.mem_of_getLast? atFirst) fall

end Yard

/- Two outputs that differ at a place which both have reached: nothing that follows makes them equal. -/

def Parted (a b : List Element) : Prop :=
  ∃ common x y restA restB, a = common ++ x :: restA ∧ b = common ++ y :: restB ∧ x ≠ y

theorem Parted.grows {a b : List Element} (parted : Parted a b) (c d : List Element) :
    Parted (a ++ c) (b ++ d) := by
  obtain ⟨common, x, y, restA, restB, rfl, rfl, differ⟩ := parted
  exact ⟨common, x, y, restA ++ c, restB ++ d, by simp, by simp, differ⟩

theorem Parted.ne {a b : List Element} (parted : Parted a b) : a ≠ b := by
  obtain ⟨common, x, y, restA, restB, rfl, rfl, differ⟩ := parted
  intro same
  exact differ (List.cons.inj (List.append_cancel_left same)).1

theorem Parted.symm {a b : List Element} (parted : Parted a b) : Parted b a := by
  obtain ⟨common, x, y, restA, restB, left, right, differ⟩ := parted
  exact ⟨common, y, x, restB, restA, right, left, differ.symm⟩

theorem partedByFewer (out : List Element) {few many os : List Operator} (fewer : few <+: os)
    (more : many <+: os) (short : few.length < many.length) (u v : Decimal) (c d : List Element) :
    Parted (out ++ (Yard.signs few ++ .operand u :: c)) (out ++ (Yard.signs many ++ .operand v :: d)) := by
  obtain ⟨extra, rfl⟩ := List.prefix_of_prefix_length_le fewer more (Nat.le_of_lt short)
  cases extra with
  | nil => simp at short
  | cons o others =>
    refine ⟨out ++ Yard.signs few, .operand u, .operator o.symbol, c,
      Yard.signs others ++ .operand v :: d, by simp, ?_, by simp⟩
    simp [Yard.signs]

theorem partedByLeaving (out : List Element) {fewer others os : List Operator} (first : fewer <+: os)
    (second : others <+: os) (differ : fewer ≠ others) (u v : Decimal) (c d : List Element) :
    Parted (out ++ (Yard.signs fewer ++ .operand u :: c))
      (out ++ (Yard.signs others ++ .operand v :: d)) := by
  rcases Nat.lt_trichotomy fewer.length others.length with short | level | long
  · exact partedByFewer out first second short u v c d
  · exact absurd ((List.prefix_of_prefix_length_le first second level.le).eq_of_length level) differ
  · exact (partedByFewer out second first long v u d c).symm

open Yard

def AllAgree (groups : List (List Operator)) : Prop := ∀ os ∈ groups, RulesAgree os

theorem allAgreeAppend (gs hs : List (List Operator)) :
    AllAgree (gs ++ hs) ↔ AllAgree gs ∧ AllAgree hs := by
  simp only [AllAgree, List.mem_append, or_imp, forall_and]

theorem allAgreeCons (os : List Operator) (gs : List (List Operator)) :
    AllAgree (os :: gs) ↔ RulesAgree os ∧ AllAgree gs := by
  simp only [AllAgree, List.mem_cons, or_imp, forall_and, forall_eq]

def Compared (agree : Prop) (outs : Rule → Array Element) : Prop :=
  (agree ∧ outs .chained = outs .textbook) ∨
    (¬ agree ∧ Parted (outs .chained).toList (outs .textbook).toList)

def closing (outs : Rule → Array Element) (ops : Rule → List Operator) (rule : Rule) : Array Element :=
  outs rule ++ (signs (ops rule)).toArray

def Operand.InStep (x : Operand) : Prop :=
  ∀ (stack : List Slot) (out : Array Element), ∃ outs : Rule → Array Element,
    (∀ rule, feed receive ⟨rule, stack, out⟩ x.tokens = (⟨rule, stack, outs rule⟩, none)) ∧
    Compared (AllAgree x.groups) outs

def Links.InStepAfter (links : Links) (base : List Slot) (before run : List Operator)
    (out : Array Element) : Prop :=
  ∃ (ops : Rule → List Operator) (outs : Rule → Array Element),
    (∀ rule, feed receive ⟨rule, pending run.reverse ++ base, out⟩ links.tokens =
      (⟨rule, pending (ops rule) ++ base, outs rule⟩, none)) ∧
    Compared (RulesAgree (before ++ run ++ links.operators) ∧ AllAgree links.groups)
      (closing outs ops)

def Links.InStep (links : Links) : Prop :=
  ∀ {base : List Slot} {before run : List Operator}, Ground base → LastRun before run →
    (run = [] → before = []) → RulesAgree (before ++ run) → ∀ out : Array Element,
    links.InStepAfter base before run out

theorem Links.staysParted (links : Links) {base : List Slot} (ground : Ground base)
    (ops : Rule → List Operator) (outs : Rule → Array Element)
    (parted : Parted (outs .chained).toList (outs .textbook).toList) :
    ∃ (ops' : Rule → List Operator) (outs' : Rule → Array Element),
      (∀ rule, feed receive ⟨rule, pending (ops rule) ++ base, outs rule⟩ links.tokens =
        (⟨rule, pending (ops' rule) ++ base, outs' rule⟩, none)) ∧
      Parted (closing outs' ops' .chained).toList (closing outs' ops' .textbook).toList := by
  choose ops' more fed using fun rule => links.feedAny rule ground (ops rule) (outs rule)
  refine ⟨ops', fun rule => outs rule ++ (more rule).toArray, fed, ?_⟩
  have grown := parted.grows (more .chained ++ signs (ops' .chained))
    (more .textbook ++ signs (ops' .textbook))
  simpa [closing] using grown

theorem groupInStep {first : Operand} {links : Links} (firstInStep : first.InStep)
    (linksInStep : links.InStep) {base : List Slot} (ground : Ground base) (out : Array Element) :
    ∃ (ops : Rule → List Operator) (outs : Rule → Array Element),
      (∀ rule, feed receive ⟨rule, base, out⟩ (first.tokens ++ links.tokens) =
        (⟨rule, pending (ops rule) ++ base, outs rule⟩, none)) ∧
      Compared (AllAgree (links.operators :: (first.groups ++ links.groups))) (closing outs ops) := by
  obtain ⟨starts, started, ⟨agree, same⟩ | ⟨disagree, parted⟩⟩ := firstInStep base out
  · have begin : LastRun [] [] := ⟨List.isChain_nil, by simp⟩
    obtain ⟨ops, outs, linked, compared⟩ :=
      linksInStep ground begin (fun _ => rfl) rulesAgreeNil (starts .chained)
    refine ⟨ops, outs, ?_, ?_⟩
    · intro rule
      rw [feedAppend (started rule), eitherRule same rule]
      exact linked rule
    · have whole : AllAgree (links.operators :: (first.groups ++ links.groups)) ↔
          RulesAgree ([] ++ [] ++ links.operators) ∧ AllAgree links.groups := by
        simp [allAgreeCons, allAgreeAppend, agree]
      rwa [Compared, whole]
  · obtain ⟨ops, outs, linked, still⟩ := links.staysParted ground (fun _ => []) starts parted
    refine ⟨ops, outs, ?_, .inr ⟨?_, still⟩⟩
    · intro rule
      rw [feedAppend (started rule)]
      exact linked rule
    · rw [allAgreeCons, allAgreeAppend]
      exact fun all => disagree all.2.1

theorem nextRun {before run : List Operator} {o : Operator} (last : LastRun before run)
    (begun : run = [] → before = [])
    (harmless : ∀ first top, run.head? = some first → run.getLast? = some top → Harmless first top o) :
    (∀ rule, leaving rule o run.reverse = leaving .chained o run.reverse) ∧
    ∃ before' run', before' ++ run' = before ++ run ++ [o] ∧ LastRun before' run' ∧ run' ≠ [] ∧
      ∀ rule, o :: staying rule o run.reverse = run'.reverse := by
  have equal : leaving .chained o run.reverse = leaving .textbook o run.reverse := by
    cases ends : run.getLast? with
    | none =>
      rw [List.getLast?_eq_none_iff.mp ends]
      rfl
    | some top =>
      obtain ⟨first, atFirst⟩ : ∃ first, run.head? = some first := by
        cases run with
        | nil => simp at ends
        | cons first rest => exact ⟨first, rfl⟩
      have falling := List.isChain_reverse.mpr last.rising
      exact (leavingSame falling (by simpa using ends) (by simpa using atFirst)).mpr
        (harmless first top atFirst ends)
  have same : ∀ rule, leaving rule o run.reverse = leaving .chained o run.reverse :=
    eitherRule (f := fun rule => leaving rule o run.reverse) equal
  have stay : ∀ rule, staying rule o run.reverse = staying .chained o run.reverse := by
    intro rule
    have whole := (leavingStaying rule o run.reverse).trans
      (leavingStaying .chained o run.reverse).symm
    rw [same rule] at whole
    exact List.append_cancel_left whole
  refine ⟨same, ?_⟩
  -- The operator carries the run on, or it is the first of the next one.
  cases falls : Falls o run.reverse with
  | false =>
    have rise : ∀ top ∈ run.getLast?, top.precedence ≤ o.precedence := by
      intro top atTop
      apply Nat.le_of_not_lt
      intro fall
      have goes := (fallsIff o run.reverse).mpr ⟨top, by simpa using atTop, fall⟩
      simp [falls] at goes
    refine ⟨before, run ++ [o], by simp, lastRunRise last begun rise, by simp, ?_⟩
    intro rule
    rw [stay rule]
    simp [staying, falls]
  | true =>
    obtain ⟨top, atTop, fall⟩ := (fallsIff o run.reverse).mp falls
    refine ⟨before ++ run, [o], rfl, lastRunFall (by simpa using atTop) fall, by simp, ?_⟩
    intro rule
    rw [stay rule]
    simp [staying, falls]

theorem partedByOperator {x : Operand} {base : List Slot} (ground : Ground base) {run : List Operator}
    {o first top : Operator} (rising : run.IsChain (fun a b => a.precedence ≤ b.precedence))
    (atFirst : run.head? = some first) (atTop : run.getLast? = some top)
    (harmful : ¬ Harmless first top o) (out : Array Element) :
    ∃ (ops : Rule → List Operator) (outs : Rule → Array Element),
      (∀ rule, feed receive ⟨rule, pending run.reverse ++ base, out⟩
          (⟨.operator, o.symbol⟩ :: x.tokens) =
        (⟨rule, pending (ops rule) ++ base, outs rule⟩, none)) ∧
      Parted (outs .chained).toList (outs .textbook).toList := by
  have differ : leaving .chained o run.reverse ≠ leaving .textbook o run.reverse := by
    intro same
    have falling := List.isChain_reverse.mpr rising
    exact harmful ((leavingSame falling (by simpa using atTop) (by simpa using atFirst)).mp same)
  choose value more fed using fun rule =>
    x.feedAny rule (pending (o :: staying rule o run.reverse) ++ base)
      (out ++ (signs (leaving rule o run.reverse)).toArray)
  refine ⟨fun rule => o :: staying rule o run.reverse,
    fun rule => out ++ (signs (leaving rule o run.reverse)).toArray ++
      (.operand (value rule) :: more rule).toArray, ?_, ?_⟩
  · intro rule
    rw [feedTaken (receiveWaiting ground ..)]
    exact fed rule
  · have parted := partedByLeaving out.toList (leavingPrefix .chained o run.reverse)
      (leavingPrefix .textbook o run.reverse) differ (value .chained) (value .textbook)
      (more .chained) (more .textbook)
    simpa using parted

theorem linkHarmless {o : Operator} {x : Operand} {rest : Links} (xInStep : x.InStep)
    (restInStep : rest.InStep) {base : List Slot} (ground : Ground base) {before run : List Operator}
    (last : LastRun before run) (begun : run = [] → before = []) (agree : RulesAgree (before ++ run))
    (harmless : ∀ first top, run.head? = some first → run.getLast? = some top → Harmless first top o)
    (out : Array Element) : (Links.link o x rest).InStepAfter base before run out := by
  obtain ⟨same, before', run', whole, last', nonempty, stay⟩ := nextRun last begun harmless
  have received : ∀ rule, receive ⟨rule, pending run.reverse ++ base, out⟩ ⟨.operator, o.symbol⟩ =
      (⟨rule, pending run'.reverse ++ base,
        out ++ (signs (leaving .chained o run.reverse)).toArray⟩, none) := by
    intro rule
    rw [receiveWaiting ground, stay rule, same rule]
  obtain ⟨starts, started, ⟨fine, equal⟩ | ⟨disagree, parted⟩⟩ :=
    xInStep (pending run'.reverse ++ base) (out ++ (signs (leaving .chained o run.reverse)).toArray)
  · have agree' : RulesAgree (before' ++ run') := by
      rw [whole]
      exact rulesAgreeSnoc last begun agree harmless
    obtain ⟨ops, outs, fed, compared⟩ := restInStep ground last'
      (fun empty => absurd empty nonempty) agree' (starts .chained)
    refine ⟨ops, outs, ?_, ?_⟩
    · intro rule
      rw [Links.tokens, feedTaken (received rule), feedAppend (started rule), eitherRule equal rule]
      exact fed rule
    · have groups : RulesAgree (before ++ run ++ (Links.link o x rest).operators) ∧
          AllAgree (Links.link o x rest).groups ↔
          RulesAgree (before' ++ run' ++ rest.operators) ∧ AllAgree rest.groups := by
        simp [whole, Links.operators, Links.groups, allAgreeAppend, fine]
      rwa [Compared, groups]
  · obtain ⟨ops, outs, fed, still⟩ := rest.staysParted ground (fun _ => run'.reverse) starts parted
    refine ⟨ops, outs, ?_, .inr ⟨?_, still⟩⟩
    · intro rule
      rw [Links.tokens, feedTaken (received rule), feedAppend (started rule)]
      exact fed rule
    · rw [Links.groups, allAgreeAppend]
      exact fun all => disagree all.2.1

theorem linkHarmful {o first top : Operator} (x : Operand) (rest : Links) {base : List Slot}
    (ground : Ground base) {before run : List Operator} (last : LastRun before run)
    (atFirst : run.head? = some first) (atTop : run.getLast? = some top)
    (harmful : ¬ Harmless first top o) (out : Array Element) :
    (Links.link o x rest).InStepAfter base before run out := by
  obtain ⟨starts, ends, started, parted⟩ :=
    partedByOperator (x := x) ground last.rising atFirst atTop harmful out
  obtain ⟨ops, outs, fed, still⟩ := rest.staysParted ground starts ends parted
  refine ⟨ops, outs, ?_, .inr ⟨?_, still⟩⟩
  · intro rule
    rw [Links.tokens, ← List.cons_append, feedAppend (started rule)]
    exact fed rule
  · rintro ⟨all, _⟩
    exact harmful (all before run o rest.operators first top rfl last atFirst atTop)

mutual

theorem Operand.inStep (x : Operand) : x.InStep := by
  intro stack out
  cases x with
  | number n =>
    refine ⟨fun _ => out.push (.operand n.value), ?_, .inl ⟨by simp [AllAgree, Operand.groups], rfl⟩⟩
    intro rule
    rw [Operand.tokens, feedTaken (receiveNumber n.lexeme n.value n.reads _)]
    rfl
  | group first links =>
    obtain ⟨ops, outs, fed, compared⟩ :=
      groupInStep first.inStep links.inStep (groundOpening stack) out
    refine ⟨closing outs ops, ?_, compared⟩
    intro rule
    rw [Operand.tokens, feedTaken (receiveOpen ..), ← List.append_assoc, feedAppend (fed rule),
      feedTaken (receiveClose ..)]
    rfl

theorem Links.inStep (links : Links) : links.InStep := by
  intro base before run ground last begun agree out
  cases links with
  | done =>
    refine ⟨fun _ => run.reverse, fun _ => out, fun _ => rfl, .inl ⟨?_, rfl⟩⟩
    simpa [Links.operators, Links.groups, AllAgree] using agree
  | link o x rest =>
    by_cases harmless : ∀ first top, run.head? = some first → run.getLast? = some top →
        Harmless first top o
    · exact linkHarmless x.inStep rest.inStep ground last begun agree harmless out
    · simp only [not_forall] at harmless
      obtain ⟨first, top, atFirst, atTop, harmful⟩ := harmless
      exact linkHarmful x rest ground last atFirst atTop harmful out

end

/-- For a well-formed infix expression either rule gives a postfix order, and they give the same one
exactly if in every group each operator after the first is harmless. -/
theorem Chain.ordersAgree (c : Chain) (ts : List Token) (spelt : c.Spelt ts) :
    ∃ chained textbook, Yard.order .chained ts = .ok chained ∧ Yard.order .textbook ts = .ok textbook ∧
      (chained = textbook ↔ ∀ os ∈ c.groups, RulesAgree os) := by
  obtain ⟨ops, outs, fed, compared⟩ := groupInStep c.first.inStep c.links.inStep groundNil #[]
  have ordered : ∀ rule, Yard.order rule ts = .ok (closing outs ops rule).toList := by
    intro rule
    rw [orderSense, spelt]
    have taken := fed rule
    rw [List.append_nil] at taken
    exact orderFinished taken (finishPending ..)
  refine ⟨_, _, ordered .chained, ordered .textbook, ?_⟩
  rcases compared with ⟨agree, same⟩ | ⟨disagree, parted⟩
  · exact ⟨fun _ => agree, fun _ => by rw [same]⟩
  · exact ⟨fun same => absurd same parted.ne, fun agree => absurd agree disagree⟩

theorem Chain.ordersPart :
    let ts : List Token := [⟨.number, "8"⟩, ⟨.operator, "-"⟩, ⟨.number, "3"⟩, ⟨.operator, "-"⟩,
      ⟨.number, "2"⟩]
    ∃ c : Chain, c.Spelt ts ∧ ¬ RulesAgree [.minus, .minus] ∧
      ∃ chained textbook, Yard.order .chained ts = .ok chained ∧
        Yard.order .textbook ts = .ok textbook ∧ chained ≠ textbook := by
  intro ts
  let c : Chain := ⟨.number ⟨"8", .ofNat 8, rfl⟩, .link .minus (.number ⟨"3", .ofNat 3, rfl⟩)
    (.link .minus (.number ⟨"2", .ofNat 2, rfl⟩) .done)⟩
  have spelt : c.Spelt ts := rfl
  have harmful : ¬ RulesAgree [.minus, .minus] := by
    intro agree
    have last : LastRun [] [.minus] := ⟨List.isChain_singleton _, by simp⟩
    have harmless := agree [] [.minus] .minus [] .minus .minus rfl last rfl rfl
    simp [Harmless] at harmless
  obtain ⟨chained, textbook, first, second, same⟩ := Chain.ordersAgree c ts spelt
  refine ⟨c, spelt, harmful, chained, textbook, first, second, ?_⟩
  intro equal
  exact harmful (same.mp equal _ List.mem_cons_self)

end Reckon

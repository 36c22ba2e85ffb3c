import Reckon.Proofs.Yard.Tally
/-! Everything that a yard is ever called for, refused or not, against what waits on its stack and what has
gone out. A refusal may come after some of the work has been done. -/
namespace Reckon

def Element.operand? : Element → Option Decimal
  | .operand value => some value
  | .operator _ => none

def Element.symbol? : Element → Option String
  | .operand _ => none
  | .operator symbol => some symbol

def Slot.symbol? : Slot → Option String
  | .opening => none
  | .operator o => some o.symbol

namespace Yard

inductive Call where
  | receive (t : Token)
  | finish
  deriving DecidableEq, Repr

def call (y : Yard) : Call → Yard × Option Refusal
  | .receive t => y.receive t
  | .finish => y.finish

def calls (y : Yard) : List Call → Yard × List (Call × Option Refusal)
  | [] => (y, [])
  | c :: cs =>
    let (between, refused) := y.call c
    let (last, answered) := between.calls cs
    (last, (c, refused) :: answered)

inductive Refuses : Yard → Token → Refusal → Yard → Prop where
  | literal {y : Yard} {t : Token} {r : Refusal} (kind : t.kind = .number)
      (reads : readLiteral t.lexeme = .error r) : Refuses y t r y
  | closing {rule : Rule} {os : List Operator} {out : Array Element} {t : Token}
      (kind : t.kind = .closeParen) :
      Refuses ⟨rule, pending os, out⟩ t
        (.unmatchedClose ((out ++ (signs os).toArray).toList.map Element.text))
        ⟨rule, [], out ++ (signs os).toArray⟩
  | operator {y : Yard} {t : Token} (kind : t.kind = .operator)
      (unknown : Operator.ofSymbol? t.lexeme = none) : Refuses y t (.unrankedOperator t.lexeme) y

theorem refusedCases {y z : Yard} {t : Token} {r : Refusal} (refused : y.receive t = (z, some r)) :
    Refuses y t r z := by
  obtain ⟨rule, stack, out⟩ := y
  unfold receive at refused
  cases kind : t.kind with
  | number =>
    simp only [kind] at refused
    split at refused
    · cases refused
    · rename_i reads
      cases refused
      exact .literal kind reads
  | openParen =>
    simp only [kind] at refused
    cases refused
  | closeParen =>
    simp only [kind, closeGroup] at refused
    obtain ⟨os, base, rfl, ground⟩ := stackCut stack
    rw [popGroupPending ground] at refused
    obtain rfl | ⟨below, rfl⟩ := groundCases ground
    · cases refused
      rw [List.append_nil]
      exact .closing kind
    · cases refused
  | operator =>
    simp only [kind, pushOperator] at refused
    split at refused
    · rename_i unknown
      cases refused
      exact .operator kind unknown
    · cases refused
  | word =>
    simp only [kind] at refused
    cases refused

theorem finishRefused {y z : Yard} {r : Refusal} (refused : y.finish = (z, some r)) :
    ∃ os below, y.stack = pending os ++ .opening :: below ∧
      z = ⟨y.rule, below, y.output ++ (signs os).toArray⟩ ∧ r = .unclosedOpen (opens below + 1) := by
  obtain ⟨rule, stack, out⟩ := y
  obtain ⟨os, base, rfl, ground⟩ := stackCut stack
  unfold finish at refused
  rw [popGroupPending ground] at refused
  obtain rfl | ⟨below, rfl⟩ := groundCases ground
  · cases refused
  · cases refused
    exact ⟨os, below, rfl, rfl, rfl⟩

inductive CallCase : Yard → Call → Option Refusal → Yard → Prop where
  | received {y z : Yard} {t : Token} (takes : Takes y t z) : CallCase y (.receive t) none z
  | refused {y z : Yard} {t : Token} {r : Refusal} (refuses : Refuses y t r z) : CallCase y (.receive t) (some r) z
  | finished {rule : Rule} {os : List Operator} {out : Array Element} :
      CallCase ⟨rule, pending os, out⟩ .finish none ⟨rule, [], out ++ (signs os).toArray⟩
  | unfinished {rule : Rule} {os : List Operator} {below : List Slot} {out : Array Element} :
      CallCase ⟨rule, pending os ++ .opening :: below, out⟩ .finish (some (.unclosedOpen (opens below + 1)))
        ⟨rule, below, out ++ (signs os).toArray⟩

theorem callCases {y z : Yard} {c : Call} {refused : Option Refusal} (answer : y.call c = (z, refused)) :
    CallCase y c refused z := by
  cases c with
  | receive t =>
    cases refused with
    | none => exact .received (takenCases answer)
    | some r => exact .refused (refusedCases answer)
  | finish =>
    obtain ⟨rule, stack, out⟩ := y
    cases refused with
    | none =>
      obtain ⟨os, whole, rfl⟩ := finishTaken answer
      obtain rfl : stack = pending os := whole
      exact .finished
    | some r =>
      obtain ⟨os, below, whole, rfl, rfl⟩ := finishRefused answer
      obtain rfl : stack = pending os ++ .opening :: below := whole
      exact .unfinished

def taken? : Call × Option Refusal → Option Token
  | (.receive t, none) => some t
  | _ => none

def opensGroup : Call × Option Refusal → Bool
  | (.receive t, _) => t.kind == .openParen
  | (.finish, _) => false

def endRefused : Call × Option Refusal → Bool
  | (.finish, some _) => true
  | _ => false

def taken (k : Kind) (done : List (Call × Option Refusal)) : List Token :=
  (done.filterMap taken?).filter (·.kind == k)

structure Balanced (done : List (Call × Option Refusal)) (y : Yard) : Prop where
  operands : (y.output.toList.filterMap Element.operand?).map .ok =
    (taken .number done).map (fun t => readLiteral t.lexeme)
  operators : (y.output.toList.filterMap Element.symbol? ++ y.stack.filterMap Slot.symbol?).Perm
    ((taken .operator done).map (·.lexeme))
  noOpening : .operator Slot.opening.text ∉ y.output.toList
  openings : (opens y.stack : Int) =
    done.countP opensGroup - (taken .closeParen done).length - done.countP endRefused

variable {done : List (Call × Option Refusal)} {y z : Yard} {t : Token}

theorem takenReceived (k : Kind) (done : List (Call × Option Refusal)) (t : Token) :
    taken k (done ++ [(.receive t, none)]) = taken k done ++ [t].filter (·.kind == k) := by
  simp [taken, taken?]

theorem takenOther {x : Call × Option Refusal} (untaken : taken? x = none) (k : Kind)
    (done : List (Call × Option Refusal)) : taken k (done ++ [x]) = taken k done := by
  simp [taken, untaken]

theorem Balanced.empty (rule : Rule) : Balanced [] (.empty rule) :=
  ⟨rfl, .nil, (fun member => nomatch member), rfl⟩

theorem signsNoOperands (os : List Operator) : (signs os).filterMap Element.operand? = [] := by
  rw [signs, List.filterMap_map]
  exact List.filterMap_eq_nil_iff.mpr fun o _ => rfl

theorem Balanced.sendOut {rule : Rule} {os : List Operator} {base : List Slot} {out : Array Element}
    (balanced : Balanced done ⟨rule, pending os ++ base, out⟩) :
    Balanced done ⟨rule, base, out ++ (signs os).toArray⟩ := by
  obtain ⟨operands, operators, noOpening, openings⟩ := balanced
  have asElements : (signs os).filterMap Element.symbol? = os.map Operator.symbol := by
    rw [signs, List.filterMap_map]
    exact congrFun List.filterMap_eq_map os
  have asSlots : (pending os).filterMap Slot.symbol? = os.map Operator.symbol := by
    rw [pending, List.filterMap_map]
    exact congrFun List.filterMap_eq_map os
  constructor
  · simpa [signsNoOperands] using operands
  · simpa [asElements, asSlots] using operators
  · intro member
    rw [Array.toList_append, List.mem_append] at member
    rcases member with before | sent
    · exact noOpening before
    · obtain ⟨o, _, same⟩ := List.mem_map.mp sent
      cases o <;> simp [Operator.symbol, Slot.text] at same
  · rwa [opensPending] at openings

theorem Balanced.unnoted {x : Call × Option Refusal} (balanced : Balanced done y)
    (unnoted : ∀ k, k ≠ .word → taken k (done ++ [x]) = taken k done) (noGroup : opensGroup x = false)
    (noEnd : endRefused x = false) : Balanced (done ++ [x]) y := by
  obtain ⟨operands, operators, noOpening, openings⟩ := balanced
  constructor
  · rwa [unnoted .number (by decide)]
  · rwa [unnoted .operator (by decide)]
  · exact noOpening
  · rw [unnoted .closeParen (by decide)]
    simpa [noGroup, noEnd] using openings

theorem Balanced.received (balanced : Balanced done y) (takes : Takes y t z) :
    Balanced (done ++ [(.receive t, none)]) z := by
  cases takes with
  | number kind reads =>
    obtain ⟨operands, operators, noOpening, openings⟩ := balanced
    constructor
    · simpa [takenReceived, Element.operand?, kind, reads] using operands
    · simpa [takenReceived, List.filterMap_cons, Element.symbol?, kind] using operators
    · simpa using noOpening
    · simpa [takenReceived, opensGroup, endRefused, kind] using openings
  | opening kind =>
    obtain ⟨operands, operators, noOpening, openings⟩ := balanced
    constructor
    · simpa [takenReceived, kind] using operands
    · simpa [takenReceived, List.filterMap_cons, Slot.symbol?, kind] using operators
    · exact noOpening
    · simp [takenReceived, opensGroup, endRefused, opens, kind] at openings ⊢
      omega
  | closing kind =>
    obtain ⟨operands, operators, noOpening, openings⟩ := balanced.sendOut
    constructor
    · simpa [takenReceived, kind] using operands
    · simpa [takenReceived, List.filterMap_cons, Slot.symbol?, kind] using operators
    · exact noOpening
    · simp [takenReceived, opensGroup, endRefused, opens, kind] at openings ⊢
      omega
  | @operator rule os base out t o kind known ground =>
    have parts : pending os = pending (leaving rule o os) ++ pending (staying rule o os) := by
      rw [pending, pending, pending, ← List.map_append, leavingStaying]
    rw [parts, List.append_assoc] at balanced
    obtain ⟨operands, operators, noOpening, openings⟩ := balanced.sendOut
    constructor
    · simpa [takenReceived, kind] using operands
    · -- What waits on top comes after all that has gone out and before all that waits below.
      have more := List.perm_middle.trans ((operators.cons t.lexeme).trans
        (List.perm_append_singleton t.lexeme _).symm)
      simpa [takenReceived, pending, List.filterMap_cons, Slot.symbol?, Operator.symbolOfSymbol known,
        kind] using more
    · exact noOpening
    · rw [opensPending] at openings ⊢
      simpa [takenReceived, opensGroup, endRefused, kind] using openings
  | word kind =>
    refine balanced.unnoted ?_ ?_ rfl
    · intro k other
      simpa [takenReceived, kind] using other.symm
    · simp [opensGroup, kind]

theorem Balanced.refused {r : Refusal} (balanced : Balanced done y) (refuses : Refuses y t r z) :
    Balanced (done ++ [(.receive t, some r)]) z := by
  have noGroup : opensGroup (.receive t, some r) = false := by
    cases refuses <;> simp_all [opensGroup]
  have unnoted : ∀ k, k ≠ .word → taken k (done ++ [(.receive t, some r)]) = taken k done :=
    fun k _ => takenOther rfl k done
  cases refuses with
  | literal kind reads => exact balanced.unnoted unnoted noGroup rfl
  | closing kind =>
    rw [← List.append_nil (pending _)] at balanced
    exact balanced.sendOut.unnoted unnoted noGroup rfl
  | operator kind unknown => exact balanced.unnoted unnoted noGroup rfl

theorem Balanced.finished {rule : Rule} {os : List Operator} {out : Array Element}
    (balanced : Balanced done ⟨rule, pending os, out⟩) :
    Balanced (done ++ [(.finish, none)]) ⟨rule, [], out ++ (signs os).toArray⟩ := by
  rw [← List.append_nil (pending os)] at balanced
  exact balanced.sendOut.unnoted (fun k _ => takenOther rfl k done) rfl rfl

theorem Balanced.unfinished {r : Refusal} {rule : Rule} {os : List Operator} {below : List Slot}
    {out : Array Element} (balanced : Balanced done ⟨rule, pending os ++ .opening :: below, out⟩) :
    Balanced (done ++ [(.finish, some r)]) ⟨rule, below, out ++ (signs os).toArray⟩ := by
  obtain ⟨operands, operators, noOpening, openings⟩ := balanced.sendOut
  constructor
  · rwa [takenOther rfl]
  · rw [takenOther rfl]
    simpa [List.filterMap_cons, Slot.symbol?] using operators
  · exact noOpening
  · rw [takenOther rfl]
    simp [opensGroup, endRefused, opens] at openings ⊢
    omega

theorem Balanced.call {c : Call} {refused : Option Refusal} (balanced : Balanced done y)
    (answer : y.call c = (z, refused)) : Balanced (done ++ [(c, refused)]) z := by
  cases callCases answer with
  | received takes => exact balanced.received takes
  | refused refuses => exact balanced.refused refuses
  | finished => exact balanced.finished
  | unfinished => exact balanced.unfinished

theorem Balanced.calls (balanced : Balanced done y) (cs : List Call) :
    Balanced (done ++ (y.calls cs).2) (y.calls cs).1 := by
  induction cs generalizing done y with
  | nil => simpa [Yard.calls] using balanced
  | cons c cs ih =>
    have more := ih (balanced.call (Prod.eta (y.call c)).symm)
    simpa [Yard.calls] using more

/-- Whatever a yard is called for, and whatever it refuses on the way, after the calls the operands that
have gone out are the numbers that were taken, in their order, and the operators that have gone out or
wait are the operators that were taken. No parenthesis goes out, and those on the stack are the groups
that were opened, less those closed and less the ends that were refused. -/
theorem callsBalanced (rule : Rule) (cs : List Call) :
    Balanced ((empty rule).calls cs).2 ((empty rule).calls cs).1 := by
  have balanced := (Balanced.empty rule).calls cs
  rwa [List.nil_append] at balanced

example : (empty .chained).calls [.receive ⟨.operator, "*"⟩, .receive ⟨.openParen, "("⟩,
      .receive ⟨.operator, "-"⟩, .finish, .receive ⟨.closeParen, ")"⟩] =
    (⟨.chained, [], #[.operator "-", .operator "*"]⟩,
      [(.receive ⟨.operator, "*"⟩, none), (.receive ⟨.openParen, "("⟩, none),
        (.receive ⟨.operator, "-"⟩, none), (.finish, some (.unclosedOpen 1)),
        (.receive ⟨.closeParen, ")"⟩, some (.unmatchedClose ["-", "*"]))]) := by
  decide

end Yard
end Reckon

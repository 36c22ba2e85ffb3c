import Reckon.Proofs.Yard.Tally
/-! A group in place of a number. Nothing that a yard takes within a group reaches below its parenthesis,
and what the yard does afterwards does not depend on what has gone out. -/
namespace Reckon.Yard
variable {rule : Rule} {y z : Yard} {t : Token} {ts : List Token} {elements : List Element}

def within (y : Yard) (below : List Slot) (front : Array Element) : Yard :=
  ⟨y.rule, y.stack ++ .opening :: below, front ++ y.output⟩

theorem groundWithin {base : List Slot} (ground : Ground base) (below : List Slot) :
    Ground (base ++ .opening :: below) := by
  obtain rfl | ⟨inner, rfl⟩ := groundCases ground
  · exact groundOpening below
  · exact groundOpening (inner ++ .opening :: below)

theorem takesWithin (taken : Takes y t z) (below : List Slot) (front : Array Element) :
    (y.within below front).receive t = (z.within below front, none) := by
  obtain ⟨kind, lexeme⟩ := t
  cases taken with
  | number same reads =>
    obtain rfl : kind = .number := same
    rw [receiveNumber _ _ reads]
    simp [within]
  | opening same =>
    obtain rfl : kind = .openParen := same
    rfl
  | @closing rule os inner out _ same =>
    obtain rfl : kind = .closeParen := same
    have closed := receiveClose rule os (inner ++ .opening :: below) (front ++ out) lexeme
    simpa [within] using closed
  | @operator rule os base out _ o same known ground =>
    obtain rfl : kind = .operator := same
    obtain rfl : o.symbol = lexeme := Operator.symbolOfSymbol known
    have waits := receiveWaiting (groundWithin ground below) rule o os (front ++ out)
    simpa [within] using waits
  | word same =>
    obtain rfl : kind = .word := same
    rfl

theorem feedWithin (fed : feed receive y ts = (z, none)) (below : List Slot) (front : Array Element) :
    feed receive (y.within below front) ts = (z.within below front, none) := by
  induction ts generalizing y with
  | nil =>
    cases fed
    rfl
  | cons t ts ih =>
    obtain ⟨between, first, rest⟩ := feedCons fed
    rw [feedTaken (takesWithin (takenCases first) below front), ih rest]

theorem feedRule (fed : feed receive y ts = (z, none)) : z.rule = y.rule := by
  induction ts generalizing y with
  | nil =>
    cases fed
    rfl
  | cons t ts ih =>
    obtain ⟨between, first, rest⟩ := feedCons fed
    have same : between.rule = y.rule := by cases takenCases first <;> rfl
    rw [ih rest, same]

def andThen (act next : Yard → Yard × Option Refusal) (y : Yard) : Yard × Option Refusal :=
  match act y with
  | (z, none) => next z
  | refused => refused

def convert (rule : Rule) (ts : List Token) : Yard × Option Refusal :=
  andThen (fun y => feed receive y ts) finish (empty rule)

theorem andThenTaken {act next : Yard → Yard × Option Refusal} (taken : andThen act next y = (z, none)) :
    ∃ between, act y = (between, none) ∧ next between = (z, none) := by
  unfold andThen at taken
  split at taken
  · rename_i between first
    exact ⟨between, first, taken⟩
  · rename_i refused
    exact absurd taken (refused z)

def group (opening closing : String) (ts : List Token) : List Token :=
  ⟨.openParen, opening⟩ :: (ts ++ [⟨.closeParen, closing⟩])

theorem feedGroup (converted : convert rule ts = (z, none)) (opening closing : String)
    (stack : List Slot) (out : Array Element) :
    feed receive ⟨rule, stack, out⟩ (group opening closing ts) =
      (⟨rule, stack, out ++ z.output⟩, none) := by
  obtain ⟨y, fed, finished⟩ := andThenTaken converted
  obtain ⟨os, waiting, rfl⟩ := finishTaken finished
  have inner := feedWithin fed stack out
  have begun : (⟨rule, .opening :: stack, out⟩ : Yard) = (empty rule).within stack out := by
    simp [within, empty]
  have same : y.rule = rule := feedRule fed
  have ended : y.within stack out = ⟨y.rule, pending os ++ .opening :: stack, out ++ y.output⟩ := by
    rw [within, waiting]
  rw [group, feedTaken (receiveOpen ..), begun, feedAppend inner, ended, feedTaken (receiveClose ..),
    same, Array.append_assoc]
  rfl

/- What a yard does depends on its stack alone, not on what has gone out: the stack that it leaves, what it
sends out, and the category of its refusal. -/

def Uniform (rule : Rule) (stack : List Slot) (act : Yard → Yard × Option Refusal) : Prop :=
  ∃ (left : List Slot) (sent : List Element) (category : Option Category), ∀ out, ∃ refused,
    act ⟨rule, stack, out⟩ = (⟨rule, left, out ++ sent.toArray⟩, refused) ∧
      refused.map Refusal.category = category

section
variable {stack : List Slot} {act next : Yard → Yard × Option Refusal}

theorem uniformTaken (left : List Slot) (sent : List Element)
    (taken : ∀ out, act ⟨rule, stack, out⟩ = (⟨rule, left, out ++ sent.toArray⟩, none)) :
    Uniform rule stack act := ⟨left, sent, none, fun out => ⟨none, taken out, rfl⟩⟩

theorem uniformRefused (left : List Slot) (sent : List Element) (reason : Array Element → Refusal)
    {category : Category}
    (refused : ∀ out, act ⟨rule, stack, out⟩ = (⟨rule, left, out ++ sent.toArray⟩, some (reason out)))
    (same : ∀ out, (reason out).category = category) : Uniform rule stack act :=
  ⟨left, sent, some category, fun out => ⟨some (reason out), refused out, congrArg some (same out)⟩⟩

theorem uniformThen (first : Uniform rule stack act) (second : ∀ between, Uniform rule between next) :
    Uniform rule stack (andThen act next) := by
  obtain ⟨between, sent, category, acts⟩ := first
  cases category with
  | some category =>
    refine ⟨between, sent, some category, fun out => ?_⟩
    obtain ⟨refused, done, same⟩ := acts out
    obtain ⟨r, rfl, _⟩ := Option.map_eq_some_iff.mp same
    exact ⟨some r, by simp only [andThen, done], same⟩
  | none =>
    obtain ⟨left, rest, category, later⟩ := second between
    refine ⟨left, sent ++ rest, category, fun out => ?_⟩
    obtain ⟨_, done, taken⟩ := acts out
    obtain rfl := Option.map_eq_none_iff.mp taken
    obtain ⟨refused, ended, same⟩ := later (out ++ sent.toArray)
    refine ⟨refused, ?_, same⟩
    simp only [andThen, done, ended]
    simp

end

theorem receiveUniform (rule : Rule) (stack : List Slot) (t : Token) :
    Uniform rule stack (fun y => y.receive t) := by
  obtain ⟨os, base, rfl, ground⟩ := stackCut stack
  obtain ⟨kind, lexeme⟩ := t
  cases kind with
  | number =>
    cases reads : readLiteral lexeme with
    | ok d =>
      refine uniformTaken (pending os ++ base) [.operand d] fun out => ?_
      simp [receive, reads]
    | error r =>
      refine uniformRefused (pending os ++ base) [] (fun _ => r)
        (fun out => ?_) fun _ => rfl
      simp [receive, reads]
  | openParen =>
    refine uniformTaken (.opening :: (pending os ++ base)) [] fun out => ?_
    simp [receive]
  | closeParen =>
    -- The details of this refusal tell what has gone out, its category does not.
    obtain rfl | ⟨below, rfl⟩ := groundCases ground
    · let reason (out : Array Element) : Refusal :=
        .unmatchedClose ((out ++ (signs os).toArray).toList.map Element.text)
      refine uniformRefused [] (signs os) reason (fun out => ?_) fun _ => rfl
      simp only [receive, closeGroup, popGroupPending groundNil]
      rfl
    · exact uniformTaken _ _ fun out => receiveClose rule os below out lexeme
  | operator =>
    cases known : Operator.ofSymbol? lexeme with
    | none =>
      refine uniformRefused (pending os ++ base) []
        (fun _ => .unrankedOperator lexeme) (fun out => ?_) fun _ => rfl
      simp [receive, pushOperator, known]
    | some o =>
      obtain rfl := Operator.symbolOfSymbol known
      exact uniformTaken _ _ fun out => receiveWaiting ground rule o os out
  | word =>
    refine uniformTaken (pending os ++ base) [] fun out => ?_
    simp [receive]

theorem feedThen (t : Token) (ts : List Token) :
    (fun y => feed receive y (t :: ts)) = andThen (fun y => y.receive t) (fun y => feed receive y ts) := by
  funext y
  cases answer : y.receive t with
  | mk z refused =>
    cases refused with
    | none => simp only [feedTaken answer, andThen, answer]
    | some r => simp only [feedRefused answer, andThen, answer]

theorem feedUniform (rule : Rule) (stack : List Slot) (ts : List Token) :
    Uniform rule stack (fun y => feed receive y ts) := by
  induction ts generalizing stack with
  | nil =>
    refine uniformTaken stack [] fun out => ?_
    simp [feed]
  | cons t ts ih =>
    rw [feedThen]
    exact uniformThen (receiveUniform rule stack t) fun between => ih between

theorem finishUniform (rule : Rule) (stack : List Slot) : Uniform rule stack finish := by
  obtain ⟨os, base, rfl, ground⟩ := stackCut stack
  obtain rfl | ⟨below, rfl⟩ := groundCases ground
  · rw [List.append_nil]
    exact uniformTaken _ _ fun out => finishPending rule os out
  · let reason : Refusal := .unclosedOpen (below.count .opening + 1)
    refine uniformRefused below (signs os) (fun _ => reason)
      (fun out => ?_) fun _ => rfl
    simp only [finish, popGroupPending (groundOpening below)]
    rfl

structure Alike (front elements : List Element) (value : Decimal) (first second : Yard × Option Refusal) :
    Prop where
  stack : first.1.stack = second.1.stack
  category : first.2.map Refusal.category = second.2.map Refusal.category
  output : ∃ rest, first.1.output.toList = front ++ elements ++ rest ∧
    second.1.output.toList = front ++ .operand value :: rest

theorem Uniform.alike {stack : List Slot} {act : Yard → Yard × Option Refusal}
    (uniform : Uniform rule stack act) (out elements : Array Element) (value : Decimal) :
    Alike out.toList elements.toList value (act ⟨rule, stack, out ++ elements⟩)
      (act ⟨rule, stack, out.push (.operand value)⟩) := by
  obtain ⟨left, sent, category, acts⟩ := uniform
  obtain ⟨refused, done, same⟩ := acts (out ++ elements)
  obtain ⟨refused', done', same'⟩ := acts (out.push (.operand value))
  rw [done, done']
  exact ⟨rfl, same.trans same'.symm, sent, by simp, by simp⟩

/-- Tokens that can be converted by themselves stand, in parentheses, for one number. What is refused
before them is refused either way. After them, as far as one likes, the stacks are the same, a refusal
comes at the same token or at the end and is of the same category, and what has gone out differs in that
their postfix order takes the place of the number. -/
theorem groupForNumber {rule : Rule} {ts : List Token} {z : Yard} (converted : convert rule ts = (z, none))
    (n : Literal) (opening closing : String) (before after : List Token) :
    (∀ y r, feed receive (empty rule) before = (y, some r) →
      convert rule (before ++ (group opening closing ts ++ after)) = (y, some r) ∧
        convert rule (before ++ ⟨.number, n.lexeme⟩ :: after) = (y, some r)) ∧
    ∀ y, feed receive (empty rule) before = (y, none) →
      (∀ part, part <+: after → Alike y.output.toList z.output.toList n.value
        (feed receive (empty rule) (before ++ (group opening closing ts ++ part)))
        (feed receive (empty rule) (before ++ ⟨.number, n.lexeme⟩ :: part))) ∧
      Alike y.output.toList z.output.toList n.value
        (convert rule (before ++ (group opening closing ts ++ after)))
        (convert rule (before ++ ⟨.number, n.lexeme⟩ :: after)) := by
  constructor
  · intro y r refused
    simp only [convert, andThen, feedAppendRefused refused, and_self]
  · intro y taken
    obtain ⟨same, stack, out⟩ := y
    obtain rfl : same = rule := feedRule taken
    have asGroup : ∀ part, feed receive (empty same) (before ++ (group opening closing ts ++ part)) =
        feed receive ⟨same, stack, out ++ z.output⟩ part := by
      intro part
      rw [feedAppend taken, feedAppend (feedGroup converted ..)]
    have asNumber : ∀ part, feed receive (empty same) (before ++ ⟨.number, n.lexeme⟩ :: part) =
        feed receive ⟨same, stack, out.push (.operand n.value)⟩ part := by
      intro part
      rw [feedAppend taken, feedTaken (receiveNumber _ _ n.reads _)]
    constructor
    · intro part _
      rw [asGroup, asNumber]
      exact (feedUniform same stack part).alike out z.output n.value
    · have whole := uniformThen (feedUniform same stack after) (finishUniform same)
      have alike := whole.alike out z.output n.value
      simp only [convert, andThen, asGroup, asNumber] at alike ⊢
      exact alike

theorem groupForNumberBeside :
    Alike [.operand (.ofNat 8)] [.operand (.ofNat 2), .operand (.ofNat 3), .operator "+"] (.ofNat 7)
      (convert .textbook [⟨.number, "8"⟩, ⟨.operator, "-"⟩, ⟨.openParen, "("⟩, ⟨.number, "2"⟩,
        ⟨.number, "3"⟩, ⟨.operator, "+"⟩, ⟨.closeParen, ")"⟩, ⟨.operator, "^"⟩, ⟨.number, "2"⟩])
      (convert .textbook [⟨.number, "8"⟩, ⟨.operator, "-"⟩, ⟨.number, "7"⟩, ⟨.operator, "^"⟩,
        ⟨.number, "2"⟩]) := by
  let seven : Literal := ⟨"7", .ofNat 7, rfl⟩
  let before : List Token := [⟨.number, "8"⟩, ⟨.operator, "-"⟩]
  have converted : convert .textbook [⟨.number, "2"⟩, ⟨.number, "3"⟩, ⟨.operator, "+"⟩] =
      (⟨.textbook, [], #[.operand (.ofNat 2), .operand (.ofNat 3), .operator "+"]⟩, none) := by decide
  have taken : feed receive (empty .textbook) before =
      (⟨.textbook, [.operator .minus], #[.operand (.ofNat 8)]⟩, none) := by decide
  obtain ⟨_, alike⟩ := groupForNumber converted seven "(" ")" before [⟨.operator, "^"⟩, ⟨.number, "2"⟩]
  exact (alike _ taken).2

end Reckon.Yard

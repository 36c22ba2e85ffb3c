import Mathlib.Data.List.Chain
import Reckon.Proofs.Chain
import Reckon.Proofs.Yard.Tally
/-! Well-formed infix expressions token by token. A list of tokens that a yard takes and that has a value
departs from them only by two operands that stand side by side. -/
namespace Reckon
open Token

inductive Place where
  | operandNext
  | operandDone
  deriving DecidableEq, Repr

def Formed : Place → Nat → List Token → Prop
  | .operandNext, _, [] => False
  | .operandDone, depth, [] => depth = 0
  | .operandNext, depth, t :: ts =>
    match t.kind with
    | .number => Formed .operandDone depth ts
    | .openParen => Formed .operandNext (depth + 1) ts
    | .operator | .closeParen | .word => False
  | .operandDone, depth, t :: ts =>
    match t.kind with
    | .operator => Formed .operandNext depth ts
    | .closeParen => 0 < depth ∧ Formed .operandDone (depth - 1) ts
    | .number | .openParen | .word => False

structure Token.Proper (t : Token) : Prop where
  sense : t.sense? = some t
  reads : t.kind = .number → ∃ d, Yard.readLiteral t.lexeme = .ok d
  known : t.kind = .operator → ∃ o, Operator.ofSymbol? t.lexeme = some o

theorem Token.Proper.opening {t : Token} (proper : t.Proper) (kind : t.kind = .openParen) :
    t = ⟨.openParen, "("⟩ := by
  have sense := proper.sense
  simp only [sense?, kind, Option.some.injEq] at sense
  exact sense.symm

theorem Token.Proper.closing {t : Token} (proper : t.Proper) (kind : t.kind = .closeParen) :
    t = ⟨.closeParen, ")"⟩ := by
  have sense := proper.sense
  simp only [sense?, kind, Option.some.injEq] at sense
  exact sense.symm

mutual

theorem operandAhead {depth : Nat} (ts : List Token) (proper : ∀ t ∈ ts, t.Proper)
    (formed : Formed .operandNext depth ts) :
    ∃ (x : Operand) (rest : List Token), ts = x.tokens ++ rest ∧ rest.length < ts.length ∧
      Formed .operandDone depth rest := by
  cases ts with
  | nil => exact formed.elim
  | cons t ts =>
    have first := proper t List.mem_cons_self
    have others : ∀ u ∈ ts, u.Proper := fun u member => proper u (List.mem_cons_of_mem _ member)
    cases kind : t.kind with
    | number =>
      obtain ⟨d, reads⟩ := first.reads kind
      refine ⟨.number ⟨t.lexeme, d, reads⟩, ts, ?_, by simp, by simpa [Formed, kind] using formed⟩
      rw [Operand.tokens, ← kind]
      rfl
    | openParen =>
      have inside : Formed .operandNext (depth + 1) ts := by simpa [Formed, kind] using formed
      obtain ⟨x, after, rfl, shorter, done⟩ := operandAhead ts others inside
      have remaining : ∀ u ∈ after, u.Proper := fun u member =>
        others u (List.mem_append_right _ member)
      obtain ⟨links, rest, rfl, ended⟩ := linksAhead after remaining done
      obtain ⟨rfl, closed⟩ | ⟨u, rest', rfl, closes, _, formed⟩ := ended
      · cases closed
      · have written := (remaining u (by simp)).closing closes
        refine ⟨.group x links, rest', ?_, by simp; omega, formed⟩
        rw [first.opening kind, written, Operand.tokens]
        simp
    | operator => simp [Formed, kind] at formed
    | closeParen => simp [Formed, kind] at formed
    | word => simp [Formed, kind] at formed
termination_by ts.length

theorem linksAhead {depth : Nat} (ts : List Token) (proper : ∀ t ∈ ts, t.Proper)
    (formed : Formed .operandDone depth ts) :
    ∃ (links : Links) (rest : List Token), ts = links.tokens ++ rest ∧
      ((rest = [] ∧ depth = 0) ∨ ∃ u rest', rest = u :: rest' ∧ u.kind = .closeParen ∧ 0 < depth ∧
        Formed .operandDone (depth - 1) rest') := by
  cases ts with
  | nil => exact ⟨.done, [], rfl, .inl ⟨rfl, formed⟩⟩
  | cons t ts =>
    have first := proper t List.mem_cons_self
    have others : ∀ u ∈ ts, u.Proper := fun u member => proper u (List.mem_cons_of_mem _ member)
    cases kind : t.kind with
    | operator =>
      obtain ⟨o, known⟩ := first.known kind
      have next : Formed .operandNext depth ts := by simpa [Formed, kind] using formed
      obtain ⟨x, after, rfl, shorter, done⟩ := operandAhead ts others next
      obtain ⟨links, rest, rfl, ended⟩ := linksAhead after
        (fun u member => others u (List.mem_append_right _ member)) done
      refine ⟨.link o x links, rest, ?_, ended⟩
      rw [Links.tokens, Operator.symbolOfSymbol known, ← kind]
      simp
    | closeParen =>
      obtain ⟨within, rest⟩ : 0 < depth ∧ Formed .operandDone (depth - 1) ts := by
        simpa [Formed, kind] using formed
      exact ⟨.done, t :: ts, rfl, .inr ⟨t, ts, rfl, kind, within, rest⟩⟩
    | number => simp [Formed, kind] at formed
    | openParen => simp [Formed, kind] at formed
    | word => simp [Formed, kind] at formed
termination_by ts.length

end

mutual

theorem Operand.formed {depth : Nat} {rest : List Token} (x : Operand)
    (done : Formed .operandDone depth rest) : Formed .operandNext depth (x.tokens ++ rest) := by
  cases x with
  | number n => simpa [Operand.tokens, Formed] using done
  | group first links =>
    have closed : Formed .operandDone (depth + 1) (⟨.closeParen, ")"⟩ :: rest) := by
      simpa [Formed] using done
    simpa [Operand.tokens, Formed] using first.formed (links.formed closed)

theorem Links.formed {depth : Nat} {rest : List Token} (links : Links)
    (done : Formed .operandDone depth rest) : Formed .operandDone depth (links.tokens ++ rest) := by
  cases links with
  | done => exact done
  | link o x others => simpa [Links.tokens, Formed] using x.formed (others.formed done)

end

theorem Chain.formed (c : Chain) : Formed .operandNext 0 c.tokens := by
  have ended : Formed .operandDone 0 [] := rfl
  have whole := c.first.formed (c.links.formed ended)
  rwa [List.append_nil] at whole

theorem chainAhead {ts : List Token} (proper : ∀ t ∈ ts, t.Proper) (formed : Formed .operandNext 0 ts) :
    ∃ c : Chain, c.tokens = ts := by
  obtain ⟨x, after, rfl, _, done⟩ := operandAhead ts proper formed
  obtain ⟨links, rest, rfl, ended⟩ := linksAhead after
    (fun u member => proper u (List.mem_append_right _ member)) done
  obtain ⟨rfl, _⟩ | ⟨_, _, _, _, within, _⟩ := ended
  · exact ⟨⟨x, links⟩, by simp [Chain.tokens]⟩
  · cases within

def Beside (a b : Token) : Prop :=
  (a.kind = .number ∨ a.kind = .closeParen) ∧ (b.kind = .number ∨ b.kind = .openParen)

instance (a b : Token) : Decidable (Beside a b) := by unfold Beside; infer_instance

def Apart (ts : List Token) : Prop := ts.IsChain (fun a b => ¬ Beside a b)

theorem formedApart {place : Place} {depth : Nat} {ts : List Token} (formed : Formed place depth ts) :
    Apart ts ∧ (place = .operandDone → ∀ t ∈ ts.head?, t.kind ≠ .number ∧ t.kind ≠ .openParen) := by
  induction ts generalizing place depth with
  | nil => exact ⟨List.isChain_nil, by simp⟩
  | cons t ts ih =>
    have afterOperand : ∀ inner, Formed .operandDone inner ts → Apart (t :: ts) := by
      intro inner done
      obtain ⟨apart, head⟩ := ih done
      refine List.isChain_cons.mpr ⟨?_, apart⟩
      rintro u atHead ⟨_, number | opening⟩
      · exact (head rfl u atHead).1 number
      · exact (head rfl u atHead).2 opening
    have afterOther : ¬ (t.kind = .number ∨ t.kind = .closeParen) → ∀ place inner,
        Formed place inner ts → Apart (t :: ts) := by
      intro neither place inner rest
      exact List.isChain_cons.mpr ⟨fun u _ beside => neither beside.1, (ih rest).1⟩
    cases place with
    | operandNext =>
      refine ⟨?_, by simp⟩
      cases kind : t.kind <;> simp only [Formed, kind] at formed
      case number => exact afterOperand depth formed
      case openParen => exact afterOther (by simp [kind]) .operandNext (depth + 1) formed
    | operandDone =>
      cases kind : t.kind <;> simp only [Formed, kind] at formed
      case operator => exact ⟨afterOther (by simp [kind]) .operandNext depth formed, by simp [kind]⟩
      case closeParen => exact ⟨afterOperand (depth - 1) formed.2, by simp [kind]⟩

/- How many more numbers than operators the tokens can hold from a place on. Where operands are apart
there is an operator between any two numbers, so that this is the most, and with as many as this
nothing can be out of place. -/

def Place.room : Place → Nat
  | operandNext => 1
  | operandDone => 0

theorem numbersCons (t : Token) (ts : List Token) :
    numbers (t :: ts) = numbers ts + if t.kind = .number then 1 else 0 := by
  simp [numbers, List.countP_cons]

theorem operatorsCons (t : Token) (ts : List Token) :
    operators (t :: ts) = operators ts + if t.kind = .operator then 1 else 0 := by
  simp [operators, List.countP_cons]

theorem formedOfCounts {ts : List Token} (apart : Apart ts) (noWord : ∀ t ∈ ts, t.kind ≠ .word)
    (place : Place) (depth : Nat)
    (head : place = .operandDone → ∀ t ∈ ts.head?, t.kind ≠ .number ∧ t.kind ≠ .openParen) :
    numbers ts ≤ operators ts + place.room ∧
      (numbers ts = operators ts + place.room → depthAfter? depth ts = some 0 →
        Formed place depth ts) := by
  induction ts generalizing place depth with
  | nil => cases place <;> simp [numbers, operators, Place.room, depthAfter?, Formed]
  | cons t ts ih =>
    obtain ⟨first, later⟩ := List.isChain_cons.mp apart
    have others : ∀ u ∈ ts, u.kind ≠ .word := fun u member => noWord u (List.mem_cons_of_mem _ member)
    have next : (t.kind = .number ∨ t.kind = .closeParen) →
        ∀ u ∈ ts.head?, u.kind ≠ .number ∧ u.kind ≠ .openParen := by
      intro ends u atHead
      exact ⟨fun number => first u atHead ⟨ends, .inl number⟩,
        fun opening => first u atHead ⟨ends, .inr opening⟩⟩
    have ahead := fun depth => ih later others .operandNext depth (by simp)
    have done := fun depth ends => ih later others .operandDone depth fun _ => next ends
    simp only [Place.room] at ahead done
    rw [numbersCons, operatorsCons]
    -- What a token adds to a count is made up for by the room of the place behind it.
    cases kind : t.kind with
    | word => exact absurd kind (noWord t List.mem_cons_self)
    | number =>
      cases place with
      | operandDone => exact absurd kind (head rfl t rfl).1
      | operandNext =>
        obtain ⟨most, formed⟩ := done depth (.inl kind)
        simp only [Place.room, depthAfter?, Formed, kind, if_true, reduceCtorEq, if_false]
        exact ⟨by omega, fun counts closed => formed (by omega) closed⟩
    | openParen =>
      cases place with
      | operandDone => exact absurd kind (head rfl t rfl).2
      | operandNext =>
        obtain ⟨most, formed⟩ := ahead (depth + 1)
        simp only [Place.room, depthAfter?, Formed, kind, reduceCtorEq, if_false]
        exact ⟨by omega, fun counts closed => formed (by omega) closed⟩
    | operator =>
      obtain ⟨most, formed⟩ := ahead depth
      cases place with
      | operandNext =>
        simp only [Place.room, if_true, reduceCtorEq, if_false]
        exact ⟨by omega, fun counts => by omega⟩
      | operandDone =>
        simp only [Place.room, depthAfter?, Formed, kind, if_true, reduceCtorEq, if_false]
        exact ⟨by omega, fun counts closed => formed (by omega) closed⟩
    | closeParen =>
      obtain ⟨most, formed⟩ := done (depth - 1) (.inr kind)
      cases place with
      | operandNext =>
        simp only [Place.room, reduceCtorEq, if_false]
        exact ⟨by omega, fun counts => by omega⟩
      | operandDone =>
        simp only [Place.room, depthAfter?, Formed, kind, reduceCtorEq, if_false]
        refine ⟨by omega, fun counts closed => ?_⟩
        split at closed
        · cases closed
        · exact ⟨by omega, formed (by omega) closed⟩

theorem Token.senseProper {t u : Token} (sense : t.sense? = some u) : u.sense? = some u := by
  cases kind : t.kind <;> simp only [sense?, kind, Option.some.injEq, reduceCtorEq] at sense <;>
    subst sense <;> simp [sense?, kind]

theorem Yard.feedProper {y z : Yard} {ts : List Token} (fed : feed receive y ts = (z, none)) :
    ∀ t ∈ ts, (t.kind = .number → ∃ d, readLiteral t.lexeme = .ok d) ∧
      (t.kind = .operator → ∃ o, Operator.ofSymbol? t.lexeme = some o) := by
  induction ts generalizing y with
  | nil => simp
  | cons t ts ih =>
    obtain ⟨between, taken, rest⟩ := feedCons fed
    intro u member
    rcases List.mem_cons.mp member with rfl | inside
    · cases takenCases taken with
      | number kind reads => exact ⟨fun _ => ⟨_, reads⟩, fun other => by simp [kind] at other⟩
      | operator kind known => exact ⟨fun other => by simp [kind] at other, fun _ => ⟨_, known⟩⟩
      | opening kind | closing kind | word kind => simp [kind]
    · exact ih rest u inside

theorem Yard.orderProper {rule : Rule} {ts : List Token} {elements : List Element}
    (ordered : order rule ts = .ok elements) : ∀ t ∈ ts.filterMap sense?, t.Proper := by
  rw [orderSense] at ordered
  obtain ⟨y, z, fed, _, _⟩ := orderOk ordered
  intro t member
  obtain ⟨reads, known⟩ := feedProper fed t member
  obtain ⟨u, _, sense⟩ := List.mem_filterMap.mp member
  exact ⟨senseProper sense, reads, known⟩

theorem speltApart {rule : Rule} {ts : List Token} {elements : List Element}
    (ordered : Yard.order rule ts = .ok elements)
    (counts : Tree.operandCount elements = Tree.operatorCount elements + 1) :
    (∃ c : Chain, c.Spelt ts) ↔ Apart (ts.filterMap sense?) := by
  have proper := Yard.orderProper ordered
  have sensed := ordered
  rw [Yard.orderSense] at sensed
  obtain ⟨depth, numbers, operators⟩ := Yard.orderTally sensed
  constructor
  · rintro ⟨c, spelt⟩
    rw [spelt]
    exact (formedApart c.formed).1
  · intro apart
    have noWord : ∀ t ∈ ts.filterMap sense?, t.kind ≠ .word := by
      intro t member word
      have sense := (proper t member).sense
      simp [sense?, word] at sense
    have formed := (formedOfCounts apart noWord .operandNext 0 (by simp)).2
    obtain ⟨c, same⟩ := chainAhead proper (formed (by simp only [Place.room]; omega) depth)
    exact ⟨c, same.symm⟩

end Reckon

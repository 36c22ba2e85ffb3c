import Mathlib.Data.List.Infix
import Reckon.Proofs.Yard.Ledger
/-! Parentheses that do not match. Whatever operators wait between them, the parentheses on the stack are
the groups that are open. -/
namespace Reckon
namespace Token

structure Sound (t : Token) : Prop where
  reads : t.kind = .number → (Decimal.ofNumeral? t.lexeme).isSome
  known : t.kind = .operator → (Operator.ofSymbol? t.lexeme).isSome

instance (t : Token) : Decidable t.Sound :=
  decidable_of_iff ((t.kind = .number → (Decimal.ofNumeral? t.lexeme).isSome) ∧
      (t.kind = .operator → (Operator.ofSymbol? t.lexeme).isSome))
    ⟨fun both => ⟨both.1, both.2⟩, fun sound => ⟨sound.reads, sound.known⟩⟩

def opened (ts : List Token) : Nat := ts.countP (·.kind == .openParen)

def closed (ts : List Token) : Nat := ts.countP (·.kind == .closeParen)

def Over (ts : List Token) : Prop := opened ts < closed ts

instance (ts : List Token) : Decidable (Over ts) := inferInstanceAs (Decidable (_ < _))

theorem openedCons (t : Token) (ts : List Token) : opened (t :: ts) = opened [t] + opened ts := by
  rw [opened, ← List.singleton_append, List.countP_append]
  rfl

theorem closedCons (t : Token) (ts : List Token) : closed (t :: ts) = closed [t] + closed ts := by
  rw [closed, ← List.singleton_append, List.countP_append]
  rfl

theorem overAppend (ts us : List Token) :
    Over (ts ++ us) ↔ opened ts + opened us < closed ts + closed us := by
  simp only [Over, opened, closed, List.countP_append]

theorem notOver {ts : List Token} (within : ¬ Over ts) : closed ts ≤ opened ts := Nat.le_of_not_lt within

end Token

namespace Yard
open Token

variable {rule : Rule} {y z : Yard} {t : Token} {ts : List Token}

theorem opensNone (os : List Operator) : opens (pending os) = 0 := by
  have pending := opensPending os []
  rwa [List.append_nil] at pending

theorem takesBalance (taken : Takes y t z) :
    opens z.stack + closed [t] = opens y.stack + opened [t] := by
  cases taken with
  | number kind reads => simp [opened, closed, kind]
  | opening kind => simp [opened, closed, opens, kind]
  | closing kind =>
    rw [opensPending]
    simp [opened, closed, opens, kind]
  | operator kind known ground => simp [opened, closed, opensPending, kind]
  | word kind => simp [opened, closed, kind]

theorem refusesSound {r : Refusal} (sound : t.Sound) (refused : Refuses y t r z) :
    t.kind = .closeParen ∧ opens y.stack = 0 ∧ r.category = .unbalancedParentheses := by
  cases refused with
  | literal kind reads =>
    obtain ⟨d, read⟩ := Option.isSome_iff_exists.mp (sound.reads kind)
    simp only [readLiteral, read, reduceCtorEq] at reads
  | closing kind => exact ⟨kind, opensNone _, rfl⟩
  | operator kind unknown =>
    obtain ⟨o, known⟩ := Option.isSome_iff_exists.mp (sound.known kind)
    rw [unknown] at known
    cases known

theorem receiveSound (sound : t.Sound) (y : Yard) :
    (∃ z, y.receive t = (z, none) ∧ opens z.stack + closed [t] = opens y.stack + opened [t]) ∨
      ((∃ z r, y.receive t = (z, some r) ∧ r.category = .unbalancedParentheses) ∧
        t.kind = .closeParen ∧ opens y.stack = 0) := by
  cases answer : y.receive t with
  | mk z refused =>
    cases refused with
    | none => exact .inl ⟨z, rfl, takesBalance (takenCases answer)⟩
    | some r =>
      obtain ⟨kind, ground, category⟩ := refusesSound sound (refusedCases answer)
      exact .inr ⟨⟨z, r, rfl, category⟩, kind, ground⟩

theorem feedSound (sound : ∀ t ∈ ts, t.Sound) (y : Yard)
    (within : ∀ part, part <+: ts → closed part ≤ opens y.stack + opened part) :
    ∃ z, feed receive y ts = (z, none) ∧ opens z.stack + closed ts = opens y.stack + opened ts := by
  induction ts generalizing y with
  | nil => exact ⟨y, rfl, rfl⟩
  | cons t ts ih =>
    have head := sound t List.mem_cons_self
    rcases receiveSound head y with ⟨between, taken, balance⟩ | ⟨_, kind, ground⟩
    · have later : ∀ part, part <+: ts → closed part ≤ opens between.stack + opened part := by
        intro part before
        have bound := within (t :: part) (List.prefix_cons_inj t |>.mpr before)
        rw [openedCons, closedCons] at bound
        omega
      obtain ⟨z, fed, total⟩ := ih (fun u inside => sound u (List.mem_cons_of_mem t inside)) between later
      refine ⟨z, (feedTaken taken).trans fed, ?_⟩
      rw [openedCons, closedCons]
      omega
    · have bound := within [t] ⟨ts, rfl⟩
      simp [opened, closed, kind, ground] at bound

theorem feedEmpty (rule : Rule) (sound : ∀ t ∈ ts, t.Sound) (within : ∀ part, part <+: ts → ¬ Over part) :
    ∃ y, feed receive (empty rule) ts = (y, none) ∧ opens y.stack + closed ts = opened ts := by
  have start : opens (empty rule).stack = 0 := rfl
  have bound : ∀ part, part <+: ts → closed part ≤ opens (empty rule).stack + opened part := by
    intro part first
    rw [start, Nat.zero_add]
    exact notOver (within part first)
  have balance := feedSound sound (empty rule) bound
  rwa [start, Nat.zero_add] at balance

theorem finishOpens (y : Yard) :
    (opens y.stack = 0 ∧ ∃ z, y.finish = (z, none) ∧ z.stack = []) ∨
      (0 < opens y.stack ∧ ∃ z, y.finish = (z, some (.unclosedOpen (opens y.stack)))) := by
  cases answer : y.finish with
  | mk z refused =>
    cases refused with
    | none =>
      obtain ⟨os, stack, rfl⟩ := finishTaken answer
      exact .inl ⟨stack ▸ opensNone os, _, rfl, rfl⟩
    | some r =>
      obtain ⟨os, below, stack, -, rfl⟩ := finishRefused answer
      have count : opens y.stack = opens below + 1 := by
        rw [stack, opensPending]
        simp [opens]
      rw [count]
      exact .inr ⟨Nat.succ_pos _, z, rfl⟩

/-- Under either rule, sound tokens are taken one after the other up to the first that closes more groups
than were opened, which is a closing parenthesis and is refused as unbalanced. If there is none, the end is
refused as unbalanced if more groups were opened than closed, and its details say how many more;
otherwise the end is made and leaves nothing on the stack. -/
theorem parenthesesExact (rule : Rule) (ts : List Token) (sound : ∀ t ∈ ts, t.Sound) :
    (∀ before t after, ts = before ++ t :: after → (∀ part, part <+: before → ¬ Over part) →
      ∃ y, feed receive (empty rule) before = (y, none) ∧
        if Over (before ++ [t]) then
          t.kind = .closeParen ∧ ∃ z r, y.receive t = (z, some r) ∧ r.category = .unbalancedParentheses
        else ∃ z, y.receive t = (z, none)) ∧
    ((∀ part, part <+: ts → ¬ Over part) →
      ∃ y, feed receive (empty rule) ts = (y, none) ∧
        if closed ts < opened ts then
          ∃ z r, y.finish = (z, some r) ∧ r.category = .unbalancedParentheses ∧
            r.details = [("unclosed", .number (opened ts - closed ts : Int))]
        else ∃ z, y.finish = (z, none) ∧ z.stack = []) := by
  constructor
  · rintro before t after rfl within
    have first : ∀ u ∈ before, u.Sound := fun u inside => sound u (List.mem_append_left _ inside)
    have last : t.Sound := sound t (List.mem_append_right _ List.mem_cons_self)
    obtain ⟨y, fed, balance⟩ := feedEmpty rule first within
    refine ⟨y, fed, ?_⟩
    rcases receiveSound last y with ⟨z, taken, step⟩ | ⟨refused, kind, ground⟩
    · rw [if_neg (by rw [overAppend]; omega)]
      exact ⟨z, taken⟩
    · have closes : opened [t] = 0 ∧ closed [t] = 1 := by simp [opened, closed, kind]
      rw [if_pos (by rw [overAppend]; omega)]
      exact ⟨kind, refused⟩
  · intro within
    obtain ⟨y, fed, balance⟩ := feedEmpty rule sound within
    refine ⟨y, fed, ?_⟩
    rcases finishOpens y with ⟨noOpens, z, finished, drained⟩ | ⟨pending, z, refused⟩
    · rw [if_neg (by omega)]
      exact ⟨z, finished, drained⟩
    · rw [if_pos (by omega)]
      refine ⟨z, _, refused, rfl, ?_⟩
      have count : (opens y.stack : Int) = opened ts - closed ts := by omega
      rw [Refusal.details, count]

theorem parenthesesExactTwice :
    let ts : List Token := [⟨.openParen, "("⟩, ⟨.number, "2"⟩, ⟨.operator, "^"⟩, ⟨.number, "3"⟩,
      ⟨.closeParen, ")"⟩, ⟨.operator, "-"⟩, ⟨.closeParen, ")"⟩, ⟨.openParen, "("⟩]
    (∀ t ∈ ts, t.Sound) ∧
      ∃ y, feed receive (empty .textbook) (ts.take 6) = (y, none) ∧
        ∃ z r, y.receive ⟨.closeParen, ")"⟩ = (z, some r) ∧ r.category = .unbalancedParentheses := by
  intro ts
  have sound : ∀ t ∈ ts, t.Sound := by decide
  have within : ∀ part, part <+: ts.take 6 → ¬ Over part := by
    intro part first
    have all : ∀ part ∈ (ts.take 6).inits, ¬ Over part := by decide
    exact all part ((List.mem_inits part _).mpr first)
  obtain ⟨y, fed, answer⟩ := (parenthesesExact .textbook ts sound).1 (ts.take 6) _ _ rfl within
  rw [if_pos (by decide)] at answer
  exact ⟨sound, y, fed, answer.2⟩

end Yard
end Reckon

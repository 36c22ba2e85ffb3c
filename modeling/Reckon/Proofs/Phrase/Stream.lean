import Reckon.Proofs.Phrase.Folding
/-! What a row of tokens comes to on its way through the phrases: barriers pass and end the phrase at
hand, number words are held back, and unknown words pass without ending anything. -/
namespace Reckon

inductive Part where
  | barrier (token : Token)
  | number (w : NumberWord)
  | unknown (lexeme : String)
  deriving DecidableEq, Repr

namespace Token

def part (t : Token) : Part :=
  if t.kind ≠ .word then .barrier t
  else match Operator.ofWord? (Phrase.lower t.lexeme) with
    | some o => .barrier ⟨.operator, o.symbol⟩
    | none =>
      match NumberWord.ofSpelling? (Phrase.lower t.lexeme) with
      | some w => .number w
      | none => .unknown t.lexeme

inductive PartOf (t : Token) : Part → Prop where
  | sign (kind : t.kind ≠ .word) : PartOf t (.barrier t)
  | operator {o : Operator} (kind : t.kind = .word)
      (found : Operator.ofWord? (Phrase.lower t.lexeme) = some o) :
      PartOf t (.barrier ⟨.operator, o.symbol⟩)
  | number {w : NumberWord} (kind : t.kind = .word)
      (noOperator : Operator.ofWord? (Phrase.lower t.lexeme) = none)
      (found : NumberWord.ofSpelling? (Phrase.lower t.lexeme) = some w) : PartOf t (.number w)
  | unknown (kind : t.kind = .word) (noOperator : Operator.ofWord? (Phrase.lower t.lexeme) = none)
      (noNumber : NumberWord.ofSpelling? (Phrase.lower t.lexeme) = none) : PartOf t (.unknown t.lexeme)

theorem partOf (t : Token) : PartOf t t.part := by
  unfold part
  split
  · rename_i kind
    exact .sign kind
  · rename_i kind
    rw [ne_eq, Decidable.not_not] at kind
    split
    · rename_i o found
      exact .operator kind found
    · rename_i noOperator
      split
      · rename_i w found
        exact .number kind noOperator found
      · rename_i noNumber
        exact .unknown kind noOperator noNumber

theorem ofBarrier {t u : Token} (part : t.part = .barrier u) :
    (t.kind ≠ .word ∧ u = t) ∨ ∃ o : Operator, u = ⟨.operator, o.symbol⟩ := by
  cases (part ▸ t.partOf : t.PartOf (.barrier u)) with
  | sign kind => exact .inl ⟨kind, rfl⟩
  | operator kind found => exact .inr ⟨_, rfl⟩

theorem ofUnknown {t : Token} {lexeme : String} (part : t.part = .unknown lexeme) :
    t = ⟨.word, lexeme⟩ ∧ Operator.ofWord? (Phrase.lower lexeme) = none ∧
      NumberWord.ofSpelling? (Phrase.lower lexeme) = none := by
  cases (part ▸ t.partOf : t.PartOf (.unknown lexeme)) with
  | unknown kind noOperator noNumber => exact ⟨by rw [← kind], noOperator, noNumber⟩

def known (t : Token) : Bool :=
  t.kind ≠ .word || (Operator.ofWord? (Phrase.lower t.lexeme)).isSome ||
    (NumberWord.ofSpelling? (Phrase.lower t.lexeme)).isSome

theorem knownPart (t : Token) : t.known = match t.part with
    | .unknown _ => false
    | _ => true := by
  have source := t.partOf
  unfold known
  generalize t.part = q at source
  cases source with
  | sign kind => simp [kind]
  | operator kind found => simp [found]
  | number kind noOperator found => simp [found]
  | unknown kind noOperator noNumber => simp [kind, noOperator, noNumber]

end Token

namespace Phrase

def closing (p : Phrase) : List Item := if p.isEmpty then [] else [.folded p.toList (number p.toList)]

theorem closeClosing (p : Phrase) : p.close = .ok p.closing := by
  unfold close closing
  split
  · rfl
  · rw [foldNumber]
    rfl

theorem memClosing {p : Phrase} {item : Item} (member : item ∈ p.closing) :
    item = .folded p.toList (number p.toList) := by
  unfold closing at member
  split at member
  · cases member
  · exact List.mem_singleton.mp member

theorem takePart (p : Phrase) (t : Token) : p.take t = .ok (match t.part with
    | .barrier u => (#[], p.closing ++ [.passed u])
    | .number w => (p.push w, [])
    | .unknown lexeme => (p, [.unknown lexeme])) := by
  unfold take Token.part
  rw [closeClosing]
  split
  · rfl
  · cases Operator.ofWord? (lower t.lexeme) with
    | some o => rfl
    | none => cases NumberWord.ofSpelling? (lower t.lexeme) <;> rfl

def stream (p : Phrase) : List Token → List Item
  | [] => p.closing
  | t :: ts =>
    match t.part with
    | .barrier u => p.closing ++ .passed u :: stream #[] ts
    | .number w => stream (p.push w) ts
    | .unknown lexeme => .unknown lexeme :: stream p ts

theorem streamTake (p : Phrase) (t : Token) (ts : List Token) :
    ∃ q items, p.take t = .ok (q, items) ∧ stream p (t :: ts) = items ++ stream q ts := by
  refine ⟨_, _, takePart p t, ?_⟩
  cases part : t.part <;> simp [stream, part]

theorem streamForeign {ts : List Token} (foreign : ∀ t ∈ ts, t.kind = .word →
    Operator.ofWord? (lower t.lexeme) = none ∧ NumberWord.ofSpelling? (lower t.lexeme) = none) :
    (stream #[] ts).map Item.token = ts := by
  induction ts with
  | nil => rfl
  | cons t ts ih =>
    obtain ⟨first, others⟩ := List.forall_mem_cons.mp foreign
    by_cases word : t.kind = .word
    · obtain ⟨noOperator, noNumber⟩ := first word
      have part : t.part = .unknown t.lexeme := by simp [Token.part, word, noOperator, noNumber]
      have verbatim : (⟨.word, t.lexeme⟩ : Token) = t := by rw [← word]
      simp only [stream, part, List.map_cons, ih others, Item.token, verbatim]
    · have part : t.part = .barrier t := if_pos word
      simp only [stream, part, List.map_append, List.map_cons, ih others]
      rfl

theorem streamNoWords {ts : List Token} (noWords : ∀ t ∈ ts, t.kind ≠ .word) :
    (stream #[] ts).map Item.token = ts :=
  streamForeign fun t member word => absurd word (noWords t member)

def isUnknown : Item → Bool
  | .unknown _ => true
  | _ => false

theorem closingKnown (p : Phrase) : p.closing.filter (fun i => !isUnknown i) = p.closing := by
  unfold closing
  split <;> rfl

theorem streamKnown (p : Phrase) (ts : List Token) :
    (stream p ts).filter (fun i => !isUnknown i) = stream p (ts.filter Token.known) := by
  induction ts generalizing p with
  | nil => exact closingKnown p
  | cons t ts ih =>
    cases part : t.part with
    | barrier u =>
      have known : t.known = true := by simp only [Token.knownPart, part]
      simp only [List.filter_cons_of_pos known, stream, part, List.filter_append, closingKnown, ← ih]
      rfl
    | number w =>
      have known : t.known = true := by simp only [Token.knownPart, part]
      simp only [List.filter_cons_of_pos known, stream, part, ih]
    | unknown lexeme =>
      have other : ¬ t.known = true := by
        simp only [Token.knownPart, part]
        decide
      simp only [List.filter_cons_of_neg other, stream, part, ← ih]
      rfl

end Phrase
end Reckon

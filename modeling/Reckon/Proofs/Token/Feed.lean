import Reckon.Postfix.Yard
/-! Handing a list of items to a receiver, up to the first that it refuses. -/
namespace Reckon

section
variable {σ τ ε : Type} {receive : σ → τ → σ × Option ε}

def feed (receive : σ → τ → σ × Option ε) : σ → List τ → σ × Option ε
  | s, [] => (s, none)
  | s, t :: ts =>
    match receive s t with
    | (s', none) => feed receive s' ts
    | refused => refused

theorem feedTaken {s s' : σ} {t : τ} {ts : List τ} (taken : receive s t = (s', none)) :
    feed receive s (t :: ts) = feed receive s' ts := by
  simp only [feed, taken]

theorem feedRefused {s s' : σ} {t : τ} {ts : List τ} {reason : ε}
    (refused : receive s t = (s', some reason)) :
    feed receive s (t :: ts) = (s', some reason) := by
  simp only [feed, refused]

theorem feedCons {s s' : σ} {t : τ} {ts : List τ} (taken : feed receive s (t :: ts) = (s', none)) :
    ∃ between, receive s t = (between, none) ∧ feed receive between ts = (s', none) := by
  unfold feed at taken
  split at taken
  · rename_i between first
    exact ⟨between, first, taken⟩
  · rename_i refused
    exact absurd taken (refused s')

theorem feedAppend {s s' : σ} {ts us : List τ} (taken : feed receive s ts = (s', none)) :
    feed receive s (ts ++ us) = feed receive s' us := by
  induction ts generalizing s with
  | nil =>
    cases taken
    rfl
  | cons t ts ih =>
    cases first : receive s t with
    | mk between reason =>
      cases reason with
      | none =>
        rw [feedTaken first] at taken
        rw [List.cons_append, feedTaken first, ih taken]
      | some reason =>
        rw [feedRefused first] at taken
        simp at taken

theorem feedAppendRefused {s s' : σ} {ts us : List τ} {reason : ε}
    (refused : feed receive s ts = (s', some reason)) :
    feed receive s (ts ++ us) = (s', some reason) := by
  induction ts generalizing s with
  | nil => cases refused
  | cons t ts ih =>
    cases first : receive s t with
    | mk between answer =>
      cases answer with
      | none =>
        rw [feedTaken first] at refused
        rw [List.cons_append, feedTaken first, ih refused]
      | some other =>
        rw [feedRefused first] at refused
        rw [List.cons_append, feedRefused first, refused]

end

namespace Token

def sense? (t : Token) : Option Token :=
  match t.kind with
  | .word => none
  | .openParen => some ⟨.openParen, "("⟩
  | .closeParen => some ⟨.closeParen, ")"⟩
  | .number | .operator => some t

end Token

namespace Yard

theorem receiveSenseless {t : Token} (y : Yard) (senseless : t.sense? = none) :
    y.receive t = (y, .none) := by
  cases kind : t.kind <;> simp [Token.sense?, kind] at senseless
  simp only [receive, kind]

theorem receiveSense {t u : Token} (y : Yard) (same : t.sense? = some u) :
    y.receive t = y.receive u := by
  cases kind : t.kind <;> simp [Token.sense?, kind] at same <;> subst same <;>
    simp only [receive, kind]

theorem feedSense (y : Yard) (ts : List Token) :
    feed receive y ts = feed receive y (ts.filterMap Token.sense?) := by
  induction ts generalizing y with
  | nil => rfl
  | cons t ts ih =>
    cases sense : t.sense? with
    | none => rw [feedTaken (receiveSenseless y sense), List.filterMap_cons_none sense, ih]
    | some u =>
      rw [List.filterMap_cons_some sense]
      simp only [feed, receiveSense y sense]
      split
      · exact ih _
      · rfl

def order (rule : Rule) (ts : List Token) : Except Refusal (List Element) :=
  match feed receive (empty rule) ts with
  | (_, some r) => .error r
  | (y, none) =>
    match y.finish with
    | (y, none) => .ok y.output.toList
    | (_, some r) => .error r

end Yard
end Reckon

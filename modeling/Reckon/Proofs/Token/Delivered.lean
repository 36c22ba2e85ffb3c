import Reckon.Proofs.Token.Spaced
/-! What a scan hands over, whatever the text: tokens whose characters are all of the class of their
kind. So a receiver need only be known on such tokens. -/
namespace Reckon.Cursor
open Text

/- Within a run a cursor holds characters of the run's class, or stands right before one of them;
outside a run it holds nothing. -/

structure Held (c : Cursor) : Prop where
  outside : c.mode = .between ∨ c.mode = .finished → c.pending = []
  within : ∀ k : Kind, k.runs = true → c.mode = k.mode →
    (∀ a ∈ c.pending, CharClass.ofChar a = k.own) ∧
      (c.pending = [] → CharClass.ofNext c.rest = k.own)

theorem modeCases (m : Mode) : m = .between ∨ m = .finished ∨ ∃ k : Kind, k.runs = true ∧ m = k.mode := by
  cases m with
  | between => exact .inl rfl
  | number => exact .inr (.inr ⟨.number, rfl, rfl⟩)
  | operator => exact .inr (.inr ⟨.operator, rfl, rfl⟩)
  | word => exact .inr (.inr ⟨.word, rfl, rfl⟩)
  | finished => exact .inr (.inl rfl)

theorem runMode {k : Kind} (runs : k.runs = true) : k.mode ≠ .between ∧ k.mode ≠ .finished := by
  cases k <;> simp [Kind.runs, Kind.mode] at runs ⊢

theorem runModeInjective {j k : Kind} (first : j.runs = true) (second : k.runs = true)
    (same : j.mode = k.mode) : j = k := by
  cases j <;> cases k <;> simp [Kind.runs, Kind.mode] at first second same ⊢

theorem heldOutside {m : Mode} (outside : m = .between ∨ m = .finished) (start : Nat)
    (rest : List Char) : Held ⟨m, start, [], rest⟩ := by
  refine ⟨fun _ => rfl, ?_⟩
  intro k runs same
  obtain ⟨between, finished⟩ := runMode runs
  rcases outside with rfl | rfl
  · exact absurd same.symm between
  · exact absurd same.symm finished

theorem heldWithin {k : Kind} (runs : k.runs = true) {start : Nat} {pending rest : List Char}
    (own : ∀ a ∈ pending, CharClass.ofChar a = k.own)
    (next : pending = [] → CharClass.ofNext rest = k.own) : Held ⟨k.mode, start, pending, rest⟩ := by
  constructor
  · obtain ⟨between, finished⟩ := runMode runs
    rintro (same | same)
    · exact absurd same between
    · exact absurd same finished
  · intro j others same
    obtain rfl := runModeInjective runs others same
    exact ⟨own, next⟩

theorem modeAfterOutside (rest : List Char) : modeAfter rest = .between ∨ modeAfter rest = .finished := by
  unfold modeAfter
  split
  · exact .inr rfl
  · exact .inl rfl

theorem heldAfter (rest : List Char) (start : Nat) : Held ⟨modeAfter rest, start, [], rest⟩ :=
  heldOutside (modeAfterOutside rest) start rest

theorem classCases (a : Char) : isBlank a = true ∨ (∃ k : Kind, CharClass.ofChar a = k.own) ∨
    CharClass.ofChar a = .unrecognized := by
  cases blank : isBlank a with
  | true => exact .inl rfl
  | false =>
    right
    unfold CharClass.ofChar
    rw [blank, if_neg Bool.false_ne_true]
    repeat' split
    · exact .inl ⟨.word, rfl⟩
    · exact .inl ⟨.number, rfl⟩
    · exact .inl ⟨.openParen, rfl⟩
    · exact .inl ⟨.closeParen, rfl⟩
    · exact .inl ⟨.operator, rfl⟩
    · exact .inr rfl

inductive Lawful (c : Cursor) : Prop where
  | finished (c' : Cursor) (step : c.step = .finished c')
  | moved (c' : Cursor) (step : c.step = .moved c') (held : c'.Held)
  | delivers (t : Token) (refused accepted : Cursor) (step : c.step = .delivers t refused accepted)
      (fits : t.Fits) (held : accepted.Held)
  | unrecognized (a : Char) (n : Nat) (step : c.step = .unrecognized a n)

theorem lawfulBetween (start : Nat) (rest : List Char) : Lawful ⟨.between, start, [], rest⟩ := by
  cases rest with
  | nil => exact .finished _ rfl
  | cons a rest =>
    rcases classCases a with blank | ⟨k, own⟩ | unknown
    · exact .moved _ (stepBlank blank) (heldOutside (.inl rfl) ..)
    · cases runs : k.runs with
      | true =>
        refine .moved _ (stepStart runs own) (heldWithin runs ?_ fun _ => own)
        intro b member
        cases member
      | false => exact .delivers _ _ _ (stepSingle runs own) (Token.fitsSingle own) (heldOutside (.inl rfl) ..)
    · refine .unrecognized a start ?_
      simp [step, transition, CharClass.ofNext, unknown, fromBetween, position]

theorem runFits {k : Kind} (runs : k.runs = true) {pending rest : List Char}
    (own : ∀ a ∈ pending, CharClass.ofChar a = k.own)
    (next : pending = [] → CharClass.ofNext rest = k.own) (other : CharClass.ofNext rest ≠ k.own) :
    Token.Fits ⟨k, String.ofList pending.reverse⟩ := by
  refine ⟨?_, ?_, ?_⟩
  · intro empty
    rw [String.toList_ofList, List.reverse_eq_nil_iff] at empty
    exact other (next empty)
  · intro a member
    rw [String.toList_ofList, List.mem_reverse] at member
    exact own a member
  · intro single
    exact absurd (single.symm.trans runs) Bool.false_ne_true

theorem lawfulRun {k : Kind} (runs : k.runs = true) {start : Nat} {pending rest : List Char}
    (own : ∀ a ∈ pending, CharClass.ofChar a = k.own)
    (next : pending = [] → CharClass.ofNext rest = k.own) : Lawful ⟨k.mode, start, pending, rest⟩ := by
  by_cases goesOn : CharClass.ofNext rest = k.own
  · cases rest with
    | nil => cases k <;> cases goesOn
    | cons a rest =>
      have first : CharClass.ofChar a = k.own := goesOn
      refine .moved _ (stepOn runs first) (heldWithin runs ?_ fun empty => nomatch empty)
      intro b member
      rcases List.mem_cons.mp member with rfl | inside
      · exact first
      · exact own b inside
  · exact .delivers _ _ _ (stepEnd runs goesOn) (runFits runs own next goesOn) (heldAfter ..)

theorem Held.lawful {c : Cursor} (held : c.Held) : Lawful c := by
  obtain ⟨mode, start, pending, rest⟩ := c
  rcases modeCases mode with rfl | rfl | ⟨k, runs, rfl⟩
  · obtain rfl : pending = [] := held.outside (.inl rfl)
    exact lawfulBetween start rest
  · exact .finished _ rfl
  · obtain ⟨own, next⟩ := held.within k runs rfl
    exact lawfulRun runs own next

section
variable {σ ε : Type} {receive : σ → Token → σ × Option ε} {P : σ → Prop} {Q : ε → Prop}

def Ends (P : σ → Prop) (Q : ε → Prop) (scanned : Scanned σ ε) : Prop :=
  match scanned.halt with
  | none => P scanned.receiver
  | some (.refused reason) => Q reason
  | some (.unrecognized ..) => True

theorem scanEnds (taken : ∀ s t s', t.Fits → P s → receive s t = (s', none) → P s')
    (refused : ∀ s t s' reason, t.Fits → P s → receive s t = (s', some reason) → Q reason)
    {c : Cursor} (held : c.Held) {s : σ} (start : P s) : Ends P Q (c.scan receive s) := by
  -- On the strides of the scan: a cursor that is held stays so, whatever the receiver does.
  induction c, s using Cursor.scan.induct receive with
  | case1 c s c' finished =>
    rw [scanFinished finished]
    exact start
  | case2 c s c' moved ih =>
    rw [scanMoved moved]
    cases held.lawful with
    | moved c'' step later =>
      cases moved.symm.trans step
      exact ih later start
    | _ => simp_all
  | case3 c s t back accepted delivers s' reason answer =>
    rw [scanRefused delivers answer]
    cases held.lawful with
    | delivers u _ _ step fits later =>
      cases delivers.symm.trans step
      exact refused s t s' reason fits start answer
    | _ => simp_all
  | case4 c s t back accepted delivers s' answer ih =>
    rw [scanTaken delivers answer]
    cases held.lawful with
    | delivers u _ _ step fits later =>
      cases delivers.symm.trans step
      exact ih later (taken s t s' fits start answer)
    | _ => simp_all
  | case5 c s a n unknown =>
    rw [scanUnrecognized unknown]
    trivial

end
end Reckon.Cursor

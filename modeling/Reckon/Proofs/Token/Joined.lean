import Reckon.Console
import Reckon.Proofs.Token.Munch
/-! Texts joined by a blank. A scan of the longer text is a scan of the first one and, if that comes to its end, a
scan of the second, as many characters further on. So tokens with blanks between them are read back. -/
namespace Reckon
open Text Token CharClass

def Halt.further {ε : Type} (n : Nat) : Halt ε → Halt ε
  | unrecognized c position => unrecognized c (n + position)
  | refused reason => refused reason

namespace Cursor

section
variable {σ ε : Type} (receive : σ → Token → σ × Option ε) (state : σ)

theorem toldFurther (n position : Nat) (rest : List Char) (fed : σ × Option ε) :
    toldBy (n + position) rest fed = (toldBy position rest fed).map id (Option.map (Halt.further n)) := by
  obtain ⟨s, answer⟩ := fed
  cases answer <;> cases rest <;> rfl

theorem scanJoinedUnknown {before after : List Char} {a : Char} {text longer : String}
    (whole : text.toList = before ++ a :: after) (readable : Readable before) (unknown : ofChar a = .unrecognized)
    {more : List Char} (further : longer.toList = text.toList ++ more) :
    ((ofText longer).scan receive state).told = ((ofText text).scan receive state).told ∧
      ((ofText text).scan receive state).halt ≠ none := by
  have stops (more : List Char) : ∀ b ∈ (a :: more).head?, ofChar b = .unrecognized := by
    intro b atHead
    cases Option.mem_some.mp atHead
    exact unknown
  have short := scanTold receive state whole readable (stops after)
  rw [whole, List.append_assoc, List.cons_append] at further
  refine ⟨(scanTold receive state further readable (stops _)).trans short.symm, ?_⟩
  show ((ofText text).scan receive state).told.2 ≠ none
  rw [short]
  cases answer : (feed receive state (munch before)).2 <;> simp [toldBy, answer]

theorem scanJoined {w : Char} (blank : isBlank w = true) (first second : String) :
    (((ofText first).scan receive state).halt = none →
      ((ofText (first ++ String.singleton w ++ second)).scan receive state).told =
        ((ofText second).scan receive ((ofText first).scan receive state).receiver).told.map id
          (Option.map (Halt.further (first.length + 1)))) ∧
      (((ofText first).scan receive state).halt ≠ none →
        ((ofText (first ++ String.singleton w ++ second)).scan receive state).told =
          ((ofText first).scan receive state).told) := by
  have further : (first ++ String.singleton w ++ second).toList = first.toList ++ w :: second.toList := by simp
  obtain ⟨before, rest, whole, readable, stops⟩ := readableCut first.toList
  cases rest with
  | cons a after =>
    obtain ⟨same, halts⟩ := scanJoinedUnknown receive state whole readable (stops a rfl) further
    exact ⟨fun unhalted => absurd unhalted halts, fun _ => same⟩
  | nil =>
    -- The blank ends whatever token the first text ends in, just as the end of that text does.
    obtain ⟨onward, last, whole', readable', stops'⟩ := readableCut second.toList
    have joined : (first ++ String.singleton w ++ second).toList = (before ++ w :: onward) ++ last := by
      rw [further, whole, whole', List.append_nil, List.append_assoc, List.cons_append]
    have length : (before ++ w :: onward).length = first.length + 1 + onward.length := by
      rw [← String.length_toList, whole, List.append_nil, List.length_append, List.length_cons, Nat.add_assoc,
        Nat.add_comm 1]
    have toldFirst := scanTold receive state whole readable endStops
    have toldJoined := scanTold receive state joined (readableParted blank readable readable') stops'
    rw [munchParted blank, length] at toldJoined
    cases fed : feed receive state (munch before) with
    | mk s answer =>
      cases answer with
      | none =>
        rw [feedAppend fed, toldFurther, ← scanTold _ _ whole' readable' stops'] at toldJoined
        rw [fed] at toldFirst
        obtain ⟨receiver, halt⟩ := Prod.mk.inj toldFirst
        rw [receiver]
        exact ⟨fun _ => toldJoined, fun halts => absurd halt halts⟩
      | some reason =>
        rw [feedAppendRefused fed] at toldJoined
        rw [fed] at toldFirst
        obtain ⟨-, halt⟩ := Prod.mk.inj toldFirst
        rw [halt]
        exact ⟨fun unhalted => (nomatch unhalted), fun _ => toldJoined.trans toldFirst.symm⟩

end

def lexed (text : String) : Scanned (Array Token) Refusal := (ofText text).scan collect #[]

theorem feedCollect (tokens : Array Token) (ts : List Token) :
    feed (collect (ε := Refusal)) tokens ts = (tokens ++ ts.toArray, none) := by
  induction ts generalizing tokens with
  | nil => simp [feed]
  | cons t ts ih =>
    have taken : collect (ε := Refusal) tokens t = (tokens.push t, none) := rfl
    rw [feedTaken taken, ih]
    simp

theorem toldCollect (tokens : Array Token) (text : String) :
    ((ofText text).scan collect tokens).told = (lexed text).told.map (tokens ++ ·) id := by
  obtain ⟨before, rest, whole, readable, stops⟩ := readableCut text.toList
  rw [lexed, scanTold _ _ whole readable stops, scanTold _ _ whole readable stops, feedCollect, feedCollect]
  simp [toldBy]

theorem lexedTold {text : String} {before rest : List Char} (whole : text.toList = before ++ rest)
    (readable : Readable before) (stops : ∀ a ∈ rest.head?, ofChar a = .unrecognized) :
    (lexed text).told = ((munch before).toArray, rest.head?.map (Halt.unrecognized · before.length)) := by
  rw [lexed, scanTold _ _ whole readable stops, feedCollect]
  simp [toldBy]

theorem lexedSpaced {ts : List Token} {text : String} (spaced : Spaced ts text.toList) :
    (lexed text).told = (ts.toArray, none) := by
  rw [lexedTold (List.append_nil _).symm spaced.readable endStops, spaced.munch]
  rfl

theorem lexedJoined :
    (∀ (w : Char) (first second : String), isBlank w = true →
      ((lexed first).halt = none →
        (lexed (first ++ String.singleton w ++ second)).receiver =
            (lexed first).receiver ++ (lexed second).receiver ∧
          (lexed (first ++ String.singleton w ++ second)).halt =
            (lexed second).halt.map (Halt.further (first.length + 1))) ∧
      ∀ halt, (lexed first).halt = some halt →
        (lexed (first ++ String.singleton w ++ second)).receiver = (lexed first).receiver ∧
          (lexed (first ++ String.singleton w ++ second)).halt = some halt) ∧
    ∀ ts : List Token, (∀ t ∈ ts, t.Fits) →
      (∀ gap : Nat → List Char, (∀ n, gap n ≠ []) → (∀ n, ∀ c ∈ gap n, isBlank c = true) →
        (lexed (String.ofList (woven gap ts))).receiver = ts.toArray ∧
          (lexed (String.ofList (woven gap ts))).halt = none) ∧
      (ts ≠ [] → ∃ text, Console.expressionOf? (ts.map (·.lexeme)) = some text ∧
        (lexed text).receiver = ts.toArray ∧ (lexed text).halt = none) := by
  constructor
  · intro w first second blank
    obtain ⟨onward, stopped⟩ := scanJoined (collect (ε := Refusal)) #[] blank first second
    constructor
    · intro ended
      have told := onward ended
      rw [toldCollect _ second] at told
      exact Prod.mk.inj told
    · intro halt halts
      rw [← halts]
      apply Prod.mk.inj
      apply stopped
      rw [← lexed, halts]
      exact Option.some_ne_none halt
  · intro ts fits
    constructor
    · intro gap wide blank
      have spaced : Spaced ts (String.ofList (woven gap ts)).toList := by
        rw [String.toList_ofList]
        exact spacedWoven wide blank fits
      exact Prod.mk.inj (lexedSpaced spaced)
    · intro present
      refine ⟨" ".intercalate (ts.map (·.lexeme)), ?_, ?_⟩
      · simp [Console.expressionOf?, present]
      · have spaced : Spaced ts (" ".intercalate (ts.map (·.lexeme))).toList := by
          rw [joinedIntercalate]
          exact spacedJoined fits
        exact Prod.mk.inj (lexedSpaced spaced)

theorem lexedJoinedHalted : (lexed "2\t+$").receiver = #[⟨.number, "2"⟩, ⟨.operator, "+"⟩] ∧
    (lexed "2\t+$").halt = some (.unrecognized '$' 3) ∧
    ∃ text, Console.expressionOf? ["2", "plus"] = some text ∧
      (lexed text).receiver = #[⟨.number, "2"⟩, ⟨.word, "plus"⟩] ∧ (lexed text).halt = none := by
  have first : (lexed "2").told = (#[⟨.number, "2"⟩], none) :=
    lexedTold (show "2".toList = ['2'] ++ [] by decide) (List.forall_mem_singleton.mpr (by decide)) endStops
  have unknown : ∀ a ∈ ['$'].head?, ofChar a = .unrecognized := by
    rintro _ ⟨⟩
    decide
  have second : (lexed "+$").told = (#[⟨.operator, "+"⟩], some (.unrecognized '$' 1)) :=
    lexedTold (show "+$".toList = ['+'] ++ ['$'] by decide) (List.forall_mem_singleton.mpr (by decide)) unknown
  obtain ⟨tokens, ended⟩ := Prod.mk.inj first
  obtain ⟨others, halts⟩ := Prod.mk.inj second
  obtain ⟨receiver, halt⟩ := (lexedJoined.1 '\t' "2" "+$" (by decide)).1 ended
  rw [tokens, others] at receiver
  rw [halts] at halt
  have fits : ∀ t ∈ [⟨.number, "2"⟩, ⟨.word, "plus"⟩], Token.Fits t := by decide
  exact ⟨receiver, halt, (lexedJoined.2 _ fits).2 (List.cons_ne_nil _ _)⟩

end Cursor
end Reckon

import Reckon.Proofs.Phrase.Stream
import Reckon.Proofs.Token.Feed
/-! What goes on of a row of tokens, by the segments between its barriers. The unknown words of a segment
overtake its number words, whose number goes on last, right before the barrier. -/
namespace Reckon

namespace Token

def isBarrier (t : Token) : Bool :=
  t.kind ≠ .word || (Operator.ofWord? (Phrase.lower t.lexeme)).isSome

def symbolic (t : Token) : Token :=
  match t.kind, Operator.ofWord? (Phrase.lower t.lexeme) with
  | .word, some o => ⟨.operator, o.symbol⟩
  | _, _ => t

def numberWord? (t : Token) : Option NumberWord := NumberWord.ofSpelling? (Phrase.lower t.lexeme)

theorem partBarrier {t : Token} (barrier : t.isBarrier = true) : t.part = .barrier t.symbolic := by
  unfold isBarrier at barrier
  unfold part symbolic
  cases kind : t.kind with
  | word =>
    cases known : Operator.ofWord? (Phrase.lower t.lexeme) with
    | some o => rfl
    | none => simp [kind, known] at barrier
  | _ => rfl

theorem partInside {t : Token} (inside : t.isBarrier = false) :
    (∃ w, t.numberWord? = some w ∧ t.part = .number w ∧ t.known = true) ∨
      t.numberWord? = none ∧ t.part = .unknown t.lexeme ∧ t.known = false ∧ t.kind = .word := by
  unfold isBarrier at inside
  simp only [Bool.or_eq_false_iff, decide_eq_false_iff_not, Decidable.not_not, Option.isSome_eq_false_iff,
    Option.isNone_iff_eq_none] at inside
  obtain ⟨word, noOperator⟩ := inside
  unfold part known numberWord?
  cases NumberWord.ofSpelling? (Phrase.lower t.lexeme) with
  | some w => exact .inl ⟨w, rfl, by simp [word, noOperator], by simp⟩
  | none => exact .inr ⟨rfl, by simp [word, noOperator], by simp [word, noOperator], word⟩

structure Segmented (ts : List Token) (parts : List (List Token × Token)) (last : List Token) : Prop where
  whole : parts.flatMap (fun part => part.1 ++ [part.2]) ++ last = ts
  inside : ∀ part ∈ parts, ∀ t ∈ part.1, t.isBarrier = false
  barrier : ∀ part ∈ parts, part.2.isBarrier = true
  after : ∀ t ∈ last, t.isBarrier = false

theorem segmentedSome (ts : List Token) : ∃ parts last, Segmented ts parts last := by
  induction ts with
  | nil => exact ⟨[], [], rfl, by simp, by simp, by simp⟩
  | cons t ts ih =>
    obtain ⟨parts, last, whole, inside, barrier, after⟩ := ih
    cases stops : t.isBarrier with
    | true =>
      refine ⟨([], t) :: parts, last, by simp [whole], ?_, ?_, after⟩
      · exact List.forall_mem_cons.mpr ⟨by simp, inside⟩
      · exact List.forall_mem_cons.mpr ⟨stops, barrier⟩
    | false =>
      cases parts with
      | nil => exact ⟨[], t :: last, by simpa using whole, inside, barrier,
          List.forall_mem_cons.mpr ⟨stops, after⟩⟩
      | cons part parts =>
        obtain ⟨first, others⟩ := List.forall_mem_cons.mp inside
        refine ⟨(t :: part.1, part.2) :: parts, last, by simpa using whole, ?_, ?_, after⟩
        · exact List.forall_mem_cons.mpr ⟨List.forall_mem_cons.mpr ⟨stops, first⟩, others⟩
        · exact List.forall_mem_cons.mpr (List.forall_mem_cons.mp barrier)

end Token

namespace Phrase
open Token

def numberTokens : List NumberWord → List Token
  | [] => []
  | w :: ws => [⟨.number, (number (w :: ws)).text⟩]

def segmentTokens (segment : List Token) : List Token :=
  segment.filter (fun t => !t.known) ++ numberTokens (segment.filterMap numberWord?)

theorem closingTokens (p : Phrase) : p.closing.map Item.token = numberTokens p.toList := by
  obtain ⟨words⟩ := p
  cases words <;> rfl

theorem streamSegment {segment : List Token} (inside : ∀ t ∈ segment, t.isBarrier = false) (p : Phrase)
    (rest : List Token) :
    (stream p (segment ++ rest)).map Item.token = segment.filter (fun t => !t.known) ++
      (stream (p ++ (segment.filterMap numberWord?).toArray) rest).map Item.token := by
  induction segment generalizing p with
  | nil => simp
  | cons t segment ih =>
    obtain ⟨here, others⟩ := List.forall_mem_cons.mp inside
    obtain ⟨w, word, part, known⟩ | ⟨noWord, part, unknown, kind⟩ := partInside here
    · rw [List.cons_append, List.filterMap_cons_some word]
      simp only [stream, part, List.filter_cons, known]
      rw [ih others]
      simp
    · have verbatim : (⟨.word, t.lexeme⟩ : Token) = t := by rw [← kind]
      rw [List.cons_append, List.filterMap_cons_none noWord]
      simp only [stream, part, List.filter_cons, unknown, List.map_cons, Item.token, verbatim]
      rw [ih others]
      rfl

theorem streamSegmented {ts last : List Token} {parts : List (List Token × Token)}
    (segmented : Segmented ts parts last) :
    (stream #[] ts).map Item.token =
      parts.flatMap (fun part => segmentTokens part.1 ++ [part.2.symbolic]) ++ segmentTokens last := by
  induction parts generalizing ts with
  | nil =>
    have streamed := streamSegment segmented.after #[] []
    rw [← segmented.whole]
    simpa [stream, closingTokens, segmentTokens] using streamed
  | cons part parts ih =>
    obtain ⟨inside, insides⟩ := List.forall_mem_cons.mp segmented.inside
    obtain ⟨barrier, barriers⟩ := List.forall_mem_cons.mp segmented.barrier
    have later := ih ⟨rfl, insides, barriers, segmented.after⟩
    have whole : ts = part.1 ++ part.2 :: (parts.flatMap (fun part => part.1 ++ [part.2]) ++ last) := by
      rw [← segmented.whole]
      simp
    rw [whole, streamSegment inside]
    simp only [stream, partBarrier barrier, List.map_append, List.map_cons, later, closingTokens]
    simp [segmentTokens, Item.token]

end Phrase

namespace Folding
open Token Phrase

theorem receivePassed (f : Folding) (t : Token) (ts : List Token) :
    ∃ g, f.receive t = (g, none) ∧
      g.passed.toList ++ (stream g.phrase ts).map Item.token =
        f.passed.toList ++ (stream f.phrase (t :: ts)).map Item.token := by
  obtain ⟨phrase, items, taken, streamed⟩ := streamTake f.phrase t ts
  refine ⟨f.passOn phrase items, by simp only [receive, taken], ?_⟩
  simp [passOn, streamed]

theorem feedPassed (f : Folding) (ts : List Token) :
    ∃ g, feed receive f ts = (g, none) ∧ g.finish =
      (⟨#[], (f.passed.toList ++ (stream f.phrase ts).map Item.token).toArray⟩, none) := by
  induction ts generalizing f with
  | nil =>
    refine ⟨f, rfl, ?_⟩
    simp only [finish, closeClosing]
    simp [passOn, stream]
  | cons t ts ih =>
    obtain ⟨between, taken, same⟩ := receivePassed f t ts
    obtain ⟨g, fed, finished⟩ := ih between
    exact ⟨g, (feedTaken taken).trans fed, same ▸ finished⟩

/-- A row of tokens has its segments, and whatever these are, a fresh folding that is fed the row and then
ends passes on of each segment the unknown words as they are, the number of the number words if there are
any, and the barrier. No signal stops it, and it holds nothing back. -/
theorem passesSegments (ts : List Token) :
    (∃ parts last, Segmented ts parts last) ∧ (∀ words, Phrase.fold words = .ok (Phrase.number words)) ∧
      ∀ parts last, Segmented ts parts last → ∃ f, feed receive empty ts = (f, none) ∧ f.finish =
        (⟨#[], (parts.flatMap (fun part => segmentTokens part.1 ++ [part.2.symbolic]) ++
          segmentTokens last).toArray⟩, none) := by
  refine ⟨segmentedSome ts, foldNumber, fun parts last segmented => ?_⟩
  obtain ⟨f, fed, finished⟩ := feedPassed empty ts
  rw [← streamSegmented segmented]
  exact ⟨f, fed, finished⟩

end Folding
end Reckon

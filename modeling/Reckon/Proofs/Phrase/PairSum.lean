import Reckon.Proofs.Decimal.Counting
import Reckon.Proofs.Phrase.Segments
/-! The number of a phrase in whole numbers. It is the sum over its pairs as long as the usual precision holds
this sum, and no phrase whose sum is larger comes to a number that it could hold. -/
namespace Reckon

def NumberWord.pairedWith (w : NumberWord) (n : ℕ) : ℕ := if w.endsInTy then w.value + n else w.value * n

namespace Phrase
open Decimal

def pairSum : List NumberWord → ℕ
  | [] => 0
  | [w] => w.pairedWith 1
  | v :: w :: ws => v.pairedWith w.value + pairSum ws

variable {n : ℕ} {sum d : Decimal}

theorem usualRoom : Precision.usual.digits ≤ 1000000 := by decide

theorem valueFew (w : NumberWord) : w.value < tenTo Precision.usual.digits := w.valueLe.trans_lt (by decide)

theorem leadCounts {s f : Decimal} (counts : Counts .usual n sum) {w : NumberWord}
    (led : lead sum w = .ok (s, f)) :
    ∃ k m, Counts .usual (n + k) s ∧ (f = .ofNat m ∧ m < tenTo Precision.usual.digits) ∧
      ∀ u, w.pairedWith u = k + m * u := by
  unfold lead at led
  cases ty : w.endsInTy with
  | true =>
    simp only [ty, if_true] at led
    obtain ⟨total, added, led⟩ := bindOk led
    cases led
    have more := addCounts usualRoom counts (.exact (valueFew w)) added
    exact ⟨w.value, 1, more, ⟨rfl, by decide⟩, by simp [NumberWord.pairedWith, ty]⟩
  | false =>
    simp only [ty] at led
    cases led
    exact ⟨0, w.value, counts, ⟨rfl, valueFew w⟩, by simp [NumberWord.pairedWith, ty]⟩

theorem foldFromCounts : ∀ (ws : List NumberWord) {n : ℕ} {sum : Decimal}, Counts .usual n sum →
    foldFrom sum ws = .ok d → Counts .usual (n + pairSum ws) d
  | [], n, sum, counts, folded => by
    cases folded
    exact counts
  | [w], n, sum, counts, folded => by
    obtain ⟨⟨s, f⟩, led, added⟩ := bindOk folded
    obtain ⟨k, m, first, ⟨rfl, few⟩, paired⟩ := leadCounts counts led
    have total := addCounts usualRoom first (.exact few) added
    rwa [pairSum, paired, mul_one, ← add_assoc]
  | v :: w :: ws, n, sum, counts, folded => by
    obtain ⟨⟨s, f⟩, led, pairing⟩ := bindOk folded
    obtain ⟨k, m, first, ⟨rfl, few⟩, paired⟩ := leadCounts counts led
    obtain ⟨product, multiplied, adding⟩ := bindOk pairing
    obtain ⟨next, added, others⟩ := bindOk adding
    have total := addCounts usualRoom first (mulCounts usualRoom multiplied) added
    have all := foldFromCounts ws total others
    rwa [pairSum, paired, ← add_assoc, ← add_assoc]

theorem numberCounts (ws : List NumberWord) : Counts .usual (pairSum ws) (number ws) := by
  have all := foldFromCounts ws (.exact (tenToPos _)) (foldNumber ws)
  rwa [zero_add] at all

theorem pairSumAppend : ∀ {xs : List NumberWord} (ys : List NumberWord), 2 ∣ xs.length →
    pairSum (xs ++ ys) = pairSum xs + pairSum ys
  | [], ys, _ => (zero_add (pairSum ys)).symm
  | [w], ys, even => absurd even (by simp)
  | v :: w :: ws, ys, even => by
    have rest : 2 ∣ ws.length := by simpa using even
    rw [List.cons_append, List.cons_append, pairSum, pairSum, pairSumAppend ys rest, add_assoc]

theorem numberAppend {xs : List NumberWord} (ys : List NumberWord) (even : 2 ∣ xs.length)
    (small : pairSum (xs ++ ys) < tenTo Precision.usual.digits) :
    add .usual (number xs) (number ys) = .ok (number (xs ++ ys)) ∧
      (number (xs ++ ys)).rational = (number xs).rational + (number ys).rational := by
  have sum := pairSumAppend ys even
  have first : pairSum xs < tenTo Precision.usual.digits := by omega
  have second : pairSum ys < tenTo Precision.usual.digits := by omega
  rw [(numberCounts (xs ++ ys)).ofFew small, (numberCounts xs).ofFew first, (numberCounts ys).ofFew second, sum]
  constructor
  · rw [addOfNat, roundCount usualRoom (sum ▸ small)]
  · rw [rationalOfNat, rationalOfNat, rationalOfNat, Nat.cast_add]

/-- However many words a phrase has, it comes to a whole number, of at most ten to the 64. As long as the sum over
its pairs has at most 28 digits, it comes to this sum, which is written in its digits alone; and wherever it is
cut between two of its pairs, it comes to the sum of both parts. -/
theorem foldsToSum (ws : List NumberWord) :
    ∃ d, fold ws = .ok d ∧ AtMost 64 d ∧
      (pairSum ws < tenTo 28 → d = .ofNat (pairSum ws) ∧ d.text = Text.natText (pairSum ws) ∧
        ∀ xs ys, ws = xs ++ ys → 2 ∣ xs.length → ∃ a b, fold xs = .ok a ∧ fold ys = .ok b ∧
          add .usual a b = .ok d ∧ d.rational = a.rational + b.rational) := by
  obtain ⟨d, folded, within⟩ := foldAtMost ws
  obtain rfl : d = number ws := Except.ok.inj (folded.symm.trans (foldNumber ws))
  refine ⟨number ws, folded, within, fun small => ?_⟩
  have sum := (numberCounts ws).ofFew small
  refine ⟨sum, by rw [sum, textOfNat], ?_⟩
  rintro xs ys rfl even
  exact ⟨number xs, number ys, foldNumber xs, foldNumber ys, numberAppend ys even small⟩

theorem foldsToSumCut :
    ∃ d a b, fold [.twenty, .one, .hundred, .six, .ninety] = .ok d ∧ fold [.twenty, .one] = .ok a ∧
      fold [.hundred, .six, .ninety] = .ok b ∧ add .usual a b = .ok d ∧ d.text = "712" := by
  obtain ⟨d, folded, _, exact⟩ := foldsToSum [.twenty, .one, .hundred, .six, .ninety]
  obtain ⟨_, text, cuts⟩ := exact (by decide)
  obtain ⟨a, b, first, second, sum, _⟩ := cuts [.twenty, .one] [.hundred, .six, .ninety] rfl (by decide)
  exact ⟨d, a, b, folded, first, second, sum, text.trans (by decide)⟩

def phrases (ts : List Token) : List (List NumberWord) :=
  (ts.splitOnP Token.isBarrier).map fun segment => segment.filterMap Token.numberWord?

theorem phrasesCons (t : Token) (ts : List Token) : phrases (t :: ts) = match t.part with
    | .barrier _ => [] :: phrases ts
    | .number w => (phrases ts).modifyHead (w :: ·)
    | .unknown _ => phrases ts := by
  unfold phrases
  rw [List.splitOnP_cons_eq_if_modifyHead]
  cases stops : t.isBarrier with
  | true => simp [Token.partBarrier stops]
  | false =>
    obtain ⟨segment, segments, cut⟩ :=
      List.exists_cons_of_ne_nil (List.splitOnP_ne_nil Token.isBarrier ts)
    obtain ⟨w, word, part, _⟩ | ⟨noWord, part, _⟩ := Token.partInside stops
    · simp [part, cut, word]
    · simp [part, cut, noWord]

theorem emptyHead (segments : List (List NumberWord)) :
    segments.modifyHead ((#[] : Phrase).toList ++ ·) = segments :=
  congrFun List.modifyHead_id segments

theorem streamPhrases {p : Phrase} {ts : List Token} {words : List NumberWord} {v : Decimal}
    (member : .folded words v ∈ stream p ts) :
    v = number words ∧ words ∈ (phrases ts).modifyHead (p.toList ++ ·) := by
  induction ts generalizing p with
  | nil =>
    cases memClosing member
    exact ⟨rfl, by simp [phrases]⟩
  | cons t ts ih =>
    rw [phrasesCons]
    cases part : t.part with
    | barrier u =>
      simp only [stream, part, List.mem_append, List.mem_cons, reduceCtorEq, false_or] at member
      rcases member with closed | later
      · cases memClosing closed
        exact ⟨rfl, by simp⟩
      · obtain ⟨value, listed⟩ := ih later
        rw [emptyHead] at listed
        exact ⟨value, by simp [listed]⟩
    | number w =>
      simp only [stream, part] at member
      obtain ⟨value, listed⟩ := ih member
      refine ⟨value, ?_⟩
      simp only [List.modifyHead_modifyHead]
      simpa [Function.comp_def] using listed
    | unknown lexeme =>
      simp only [stream, part, List.mem_cons, reduceCtorEq, false_or] at member
      exact ih member

def Modest (ts : List Token) : Prop :=
  ∀ words ∈ phrases ts, (fold words >>= fun d => less? d (.finite false 1 28)) = .ok true

instance (ts : List Token) : Decidable (Modest ts) := by
  unfold Modest
  infer_instance

theorem Modest.folded {ts : List Token} (modest : Modest ts) {words : List NumberWord} {v : Decimal}
    (member : .folded words v ∈ stream #[] ts) : v = .ofNat (pairSum words) := by
  obtain ⟨rfl, listed⟩ := streamPhrases member
  rw [emptyHead] at listed
  have counts := numberCounts words
  have below := modest words listed
  rw [foldNumber] at below
  have less : decide ((number words).rational < (finite false 1 28).rational) = true :=
    Except.ok.inj ((lessRational counts.isFinite rfl).symm.trans below)
  have limit : (finite false 1 28).rational = tenTo Precision.usual.digits := by
    show scaled false 1 28 = (tenTo 28 : ℚ)
    rw [tenToCast]
    simp [scaled]
  exact counts.ofSmall (limit ▸ of_decide_eq_true less)

end Phrase
end Reckon

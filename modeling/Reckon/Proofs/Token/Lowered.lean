import Reckon.Proofs.Phrase.Stream
import Reckon.Proofs.Text.Letters
import Reckon.Proofs.Token.Munch
/-! The case of letters. A letter has its class in either case and the dictionaries are asked in lower case,
so a text and the same text in lower case are cut into the same tokens, but for the letters of words. -/
namespace Reckon
open Text CharClass

namespace CharClass

theorem classOfLetter {c : Char} (letter : c.isAlpha = true) : ofChar c = .letter := by
  have range := letterRange.mp letter
  have notBlank : isBlank c = false := by
    simp only [isBlank, Bool.or_eq_false_iff, Bool.and_eq_false_iff, decide_eq_false_iff_not,
      beq_eq_false_iff_ne]
    omega
  simp [ofChar, notBlank, letter]

theorem lowerLetter {c : Char} (other : ofChar c ≠ .letter) : c.toLower = c := by
  apply lowerOther
  intro upper
  exact other (classOfLetter (letterRange.mpr (.inl upper)))

theorem classLower (c : Char) : ofChar c.toLower = ofChar c := by
  by_cases upper : 65 ≤ c.toNat ∧ c.toNat ≤ 90
  · have small : c.toLower.isAlpha = true := by
      rw [letterRange, lowerUpper upper]
      omega
    rw [classOfLetter small, classOfLetter (letterRange.mpr (.inl upper))]
  · rw [lowerOther upper]

theorem nextLower (text : List Char) : ofNext (text.map Char.toLower) = ofNext text := by
  cases text with
  | nil => rfl
  | cons c text => exact classLower c

end CharClass

namespace Phrase

theorem lowerToList (s : String) : (lower s).toList = s.toList.map Char.toLower := String.toList_ofList

theorem lowerLower (s : String) : lower (lower s) = lower s := by
  unfold lower
  rw [String.toList_ofList, List.map_map]
  congr 2
  funext c
  exact lowerTwice c

end Phrase

namespace Token
open Phrase

def lowered (t : Token) : Token := if t.kind = .word then ⟨.word, lower t.lexeme⟩ else t

theorem loweredKind (t : Token) : t.lowered.kind = t.kind := by
  unfold lowered
  split
  · rename_i word
    exact word.symm
  · rfl

theorem loweredWord (lexeme : String) : lowered ⟨.word, lexeme⟩ = ⟨.word, lower lexeme⟩ := if_pos rfl

theorem loweredOther {t : Token} (other : t.kind ≠ .word) : t.lowered = t := if_neg other

theorem loweredLowered (t : Token) : t.lowered.lowered = t.lowered := by
  by_cases word : t.kind = .word
  · have kept : t.lowered = ⟨.word, lower t.lexeme⟩ := if_pos word
    rw [kept, loweredWord, lowerLower]
  · rw [loweredOther word, loweredOther word]

theorem Fits.loweredLexeme {t : Token} (fits : t.Fits) :
    t.lowered.lexeme.toList = t.lexeme.toList.map Char.toLower := by
  by_cases word : t.kind = .word
  · rw [lowered, if_pos word, lowerToList]
  · have other : t.kind.own ≠ .letter := by cases kind : t.kind <;> simp [Kind.own, kind] at word ⊢
    have same : ∀ c ∈ t.lexeme.toList, c.toLower = c := fun c member =>
      lowerLetter (by rwa [fits.own c member])
    rw [loweredOther word, List.map_congr_left same, List.map_id']

theorem Fits.lowered {t : Token} (fits : t.Fits) : t.lowered.Fits := by
  constructor
  · simpa [fits.loweredLexeme] using fits.nonempty
  · intro c member
    rw [fits.loweredLexeme] at member
    obtain ⟨d, inside, rfl⟩ := List.mem_map.mp member
    rw [classLower, fits.own d inside, loweredKind]
  · simpa [fits.loweredLexeme, loweredKind] using fits.single

end Token
open Token

theorem Munched.lowered {text rest : List Char} {ts : List Token} (munched : Munched text ts rest)
    (whole : rest = []) : munch (text.map Char.toLower) = ts.map Token.lowered := by
  induction munched with
  | done stops =>
    subst whole
    rfl
  | @blank c text rest ts blank more ih =>
    have other : ofChar c ≠ .letter := by simp [classOfBlank blank]
    rw [List.map_cons, lowerLetter other, munchBlank blank, ih whole]
  | @token t text rest ts fits longest more ih =>
    have still : t.lowered.kind.runs = true → ofNext (text.map Char.toLower) ≠ t.lowered.kind.own := by
      rwa [nextLower, loweredKind]
    rw [List.map_append, ← fits.loweredLexeme, munchFits fits.lowered still, ih whole, List.map_cons]

theorem Token.readableLower {text : List Char} (readable : Readable text) :
    Readable (text.map Char.toLower) := by
  intro c member
  obtain ⟨d, inside, rfl⟩ := List.mem_map.mp member
  rw [classLower]
  exact readable d inside

def Part.lowered : Part → Part
  | .unknown lexeme => .unknown (Phrase.lower lexeme)
  | part => part

namespace Token
open Phrase

theorem partLowered (t : Token) : t.lowered.part = t.part.lowered := by
  by_cases word : t.kind = .word
  · obtain ⟨kind, lexeme⟩ := t
    obtain rfl : kind = .word := word
    rw [loweredWord]
    unfold part
    rw [lowerLower]
    cases Operator.ofWord? (lower lexeme) with
    | some o => rfl
    | none => cases NumberWord.ofSpelling? (lower lexeme) <;> rfl
  · have barrier : t.part = .barrier t := if_pos word
    rw [loweredOther word, barrier]
    rfl

theorem barrierLowered {t u : Token} (part : t.part = .barrier u) : u.lowered = u := by
  obtain ⟨sign, rfl⟩ | ⟨o, rfl⟩ := ofBarrier part
  · exact loweredOther sign
  · rfl

end Token

namespace Phrase

theorem closingLowered (p : Phrase) :
    (p.closing.map Item.token).map lowered = p.closing.map Item.token := by
  unfold closing
  split <;> rfl

theorem streamLowered (p : Phrase) (ts : List Token) :
    (stream p (ts.map lowered)).map Item.token = ((stream p ts).map Item.token).map lowered := by
  induction ts generalizing p with
  | nil => exact (closingLowered p).symm
  | cons t ts ih =>
    rw [List.map_cons, stream, stream, partLowered]
    cases part : t.part with
    | barrier u =>
      simp only [Part.lowered, List.map_append, List.map_cons, closingLowered, ih, Item.token,
        barrierLowered part]
    | number w => exact ih (p.push w)
    | unknown lexeme => simp only [Part.lowered, List.map_cons, ih, Item.token, loweredWord]

end Phrase
end Reckon

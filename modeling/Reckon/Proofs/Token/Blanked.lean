import Reckon.Proofs.Token.Munch
import Reckon.Proofs.Phrase.Stream
/-! A text with blanks in place of its unknown words. Every other token is munched off it as before, and every
other character stays in its place. -/
namespace Reckon
open Text CharClass

namespace Token

def letters (a b : Char) : Bool := ofChar a = .letter && ofChar b = .letter

def blankRow (row : List Char) : List Char :=
  if row.all (fun c => ofChar c = .letter) && !known ⟨.word, String.ofList row⟩ then
    List.replicate row.length ' '
  else row

def blankUnknown (text : List Char) : List Char := (text.splitBy letters).flatMap blankRow

theorem blankAppend {s t : List Char} (apart : ∀ a ∈ s.getLast?, ∀ b ∈ t.head?, letters a b = false) :
    blankUnknown (s ++ t) = blankUnknown s ++ blankUnknown t := by
  unfold blankUnknown
  rw [List.splitBy_append apart, List.flatMap_append]

theorem blankOther {c : Char} (other : ofChar c ≠ .letter) (text : List Char) :
    blankUnknown (c :: text) = c :: blankUnknown text := by
  have alone : blankUnknown [c] = [c] := by
    show [[c]].flatMap blankRow = [c]
    simp [blankRow, other]
  have cut : blankUnknown ([c] ++ text) = blankUnknown [c] ++ blankUnknown text := by
    apply blankAppend
    intro a atLast b _
    cases Option.mem_some.mp atLast
    simp [letters, other]
  rw [← List.singleton_append, cut, alone, List.singleton_append]

theorem blankOthers {row : List Char} (others : ∀ c ∈ row, ofChar c ≠ .letter) (text : List Char) :
    blankUnknown (row ++ text) = row ++ blankUnknown text := by
  induction row with
  | nil => rfl
  | cons c row ih =>
    obtain ⟨first, more⟩ := List.forall_mem_cons.mp others
    rw [List.cons_append, blankOther first, ih more, List.cons_append]

theorem blankLetters {row : List Char} (present : row ≠ []) (all : ∀ c ∈ row, ofChar c = .letter)
    {text : List Char} (longest : ofNext text ≠ .letter) :
    blankUnknown (row ++ text) = blankRow row ++ blankUnknown text := by
  have chain : row.IsChain (fun a b => letters a b = true) := by
    apply (List.pairwise_of_forall_mem_list _).isChain
    intro a first b second
    simp [letters, all a first, all b second]
  have alone : blankUnknown row = blankRow row := by
    unfold blankUnknown
    rw [List.splitBy_of_isChain present chain, List.flatMap_singleton]
  rw [blankAppend, alone]
  intro a _ b atHead
  obtain ⟨more, rfl⟩ := List.head?_eq_some_iff.mp atHead
  have other : ofChar b ≠ .letter := longest
  simp [letters, other]

theorem blankRowLength (row : List Char) : (blankRow row).length = row.length := by
  unfold blankRow
  split
  · exact List.length_replicate
  · rfl

theorem blankUnknownLength (text : List Char) : (blankUnknown text).length = text.length := by
  have rows : ∀ rows : List (List Char), (rows.flatMap blankRow).length = rows.flatten.length := by
    intro rows
    induction rows with
    | nil => rfl
    | cons row rows ih => simp [ih, blankRowLength]
  rw [blankUnknown, rows, List.flatten_splitBy]

theorem memBlankRow {row : List Char} {c : Char} (member : c ∈ blankRow row) : c = ' ' ∨ c ∈ row := by
  unfold blankRow at member
  split at member
  · exact .inl (List.eq_of_mem_replicate member)
  · exact .inr member

theorem memBlankUnknown {text : List Char} {c : Char} (member : c ∈ blankUnknown text) :
    c = ' ' ∨ c ∈ text := by
  obtain ⟨row, listed, inside⟩ := List.mem_flatMap.mp member
  refine (memBlankRow inside).imp_right fun inRow => ?_
  rw [← List.flatten_splitBy letters text]
  exact List.mem_flatten.mpr ⟨row, listed, inRow⟩

theorem blankNext (text : List Char) :
    ofNext (blankUnknown text) = ofNext text ∨ ofNext (blankUnknown text) = .blank := by
  cases cut : text.splitBy letters with
  | nil =>
    obtain rfl : text = [] := List.splitBy_eq_nil.mp cut
    exact .inl rfl
  | cons row rows =>
    have whole := List.flatten_splitBy letters text
    have present : row ≠ [] := by
      rintro rfl
      have member : [] ∈ text.splitBy letters := by simp [cut]
      exact List.nil_notMem_splitBy letters text member
    obtain ⟨c, row, rfl⟩ := List.exists_cons_of_ne_nil present
    rw [cut, List.flatten_cons, List.cons_append] at whole
    rw [blankUnknown, cut, List.flatMap_cons, ← whole]
    by_cases gone : (c :: row).all (fun a => ofChar a = .letter) && !known ⟨.word, String.ofList (c :: row)⟩
    · have space : ofChar ' ' = .blank := classOfBlank rfl
      rw [blankRow, if_pos gone]
      exact .inr space
    · rw [blankRow, if_neg gone]
      exact .inl rfl

theorem blankLongest {k : Kind} {text : List Char} (longest : ofNext text ≠ k.own) :
    ofNext (blankUnknown text) ≠ k.own := by
  rcases blankNext text with same | blank
  · rwa [same]
  · rw [blank]
    exact (ownNotBlank k).symm

theorem blankToken {t : Token} (fits : t.Fits) {text : List Char}
    (longest : t.kind.runs = true → ofNext text ≠ t.kind.own) :
    blankUnknown (t.lexeme.toList ++ text) =
      (if t.known then t.lexeme.toList else List.replicate t.lexeme.toList.length ' ') ++
        blankUnknown text := by
  by_cases word : t.kind = .word
  · rw [word] at longest
    have all : ∀ c ∈ t.lexeme.toList, ofChar c = .letter := fun c member =>
      (fits.own c member).trans (congrArg Kind.own word)
    have verbatim : (⟨.word, String.ofList t.lexeme.toList⟩ : Token) = t := by
      rw [String.ofList_toList, ← word]
    have row : blankRow t.lexeme.toList =
        if t.known then t.lexeme.toList else List.replicate t.lexeme.toList.length ' ' := by
      rw [blankRow, verbatim, List.all_eq_true.mpr fun c member => decide_eq_true (all c member)]
      cases t.known <;> rfl
    rw [blankLetters fits.nonempty all (longest rfl), row]
  · have known : t.known = true := by simp [known, word]
    have other : t.kind.own ≠ .letter := by
      cases kind : t.kind <;> simp [Kind.own, kind] at word ⊢
    rw [if_pos known, blankOthers]
    intro c member
    rwa [fits.own c member]

end Token
open Token

theorem Munched.blanked {text rest : List Char} {ts : List Token} (munched : Munched text ts rest)
    (whole : rest = []) : munch (blankUnknown text) = ts.filter known := by
  induction munched with
  | done stops =>
    subst whole
    rfl
  | @blank c text rest ts blank more ih =>
    have other : ofChar c ≠ .letter := by simp [classOfBlank blank]
    rw [blankOther other, munchBlank blank, ih whole]
  | @token t text rest ts fits longest more ih =>
    rw [blankToken fits longest]
    cases known : t.known with
    | true =>
      rw [if_pos rfl, munchFits fits fun runs => blankLongest (longest runs), ih whole,
        List.filter_cons_of_pos known]
    | false =>
      have blanks : ∀ c ∈ List.replicate t.lexeme.toList.length ' ', isBlank c = true :=
        fun c member => List.eq_of_mem_replicate member ▸ rfl
      rw [if_neg Bool.false_ne_true, munchBlanks blanks, ih whole, List.filter_cons_of_neg (by simp [known])]

theorem blankedCut {before rest : List Char} (readable : Readable before)
    (stops : ∀ a ∈ rest.head?, ofChar a = .unrecognized) :
    ∃ before' rest', blankUnknown (before ++ rest) = before' ++ rest' ∧ Readable before' ∧
      munch before' = (munch before).filter known ∧ before'.length = before.length ∧
      rest'.head? = rest.head? := by
  refine ⟨blankUnknown before, blankUnknown rest, ?_, ?_, (munchedWhole readable).blanked rfl,
    blankUnknownLength before, ?_⟩
  · apply blankAppend
    intro a _ b atHead
    simp [letters, stops b atHead]
  · intro c member
    rcases memBlankUnknown member with rfl | inside
    · exact blankReadable rfl
    · exact readable c inside
  · cases rest with
    | nil => rfl
    | cons a rest =>
      have other : ofChar a ≠ .letter := by simp [stops a rfl]
      rw [blankOther other]
      rfl

end Reckon

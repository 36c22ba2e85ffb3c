import Reckon.Decimal.Notation
import Reckon.Decimal.Numeral
import Reckon.Postfix.Yard
import Reckon.Proofs.Text.Letters
/-! Numerals in plain characters: digits, a point with digits after it, a power of ten. What is read of
them is what they say, and what is written of a finite number reads back as that number. -/
namespace Reckon.Decimal
open Text

def Plain (c : Char) : Prop := c.isDigit = true ∨ c = '.' ∨ c = 'E' ∨ c = '+' ∨ c = '-'

theorem digitRange {c : Char} (digit : c.isDigit = true) : 48 ≤ c.toNat ∧ c.toNat ≤ 57 := by
  simp only [Char.isDigit, Bool.and_eq_true, decide_eq_true_eq, UInt32.le_iff_toNat_le] at digit
  exact digit

theorem plainRange {c : Char} (plain : Plain c) :
    43 ≤ c.toNat ∧ c.toNat ≤ 57 ∨ c.toNat = 69 := by
  rcases plain with digit | rfl | rfl | rfl | rfl
  · have range := digitRange digit
    omega
  all_goals decide

theorem plainNotBlank {c : Char} (plain : Plain c) : isBlank c = false := by
  have range := plainRange plain
  simp only [isBlank, Bool.or_eq_false_iff, Bool.and_eq_false_iff, decide_eq_false_iff_not,
    beq_eq_false_iff_ne]
  omega

theorem plainNotUnderscore {c : Char} (plain : Plain c) : c ≠ '_' := by
  rintro rfl
  have range := plainRange plain
  revert range
  decide

theorem plainChars {s : List Char} (plain : ∀ c ∈ s, Plain c) : s.mapM plainChar? = some s := by
  induction s with
  | nil => rfl
  | cons c s ih =>
    have range := plainRange (plain c List.mem_cons_self)
    have low : c.toNat < 128 := by omega
    rw [List.mapM_cons, ih fun d member => plain d (List.mem_cons_of_mem _ member), plainChar?,
      if_pos low]
    rfl

def Begins (body : List Char) : Prop :=
  ∃ c rest, body = c :: rest ∧ (c.isDigit = true ∨ c = '.')

theorem rowBegins {row : List Char} (present : row ≠ []) (plain : ∀ c ∈ row, c.isDigit = true ∨ c = '.') :
    Begins row := by
  obtain ⟨c, rest, rfl⟩ := List.exists_cons_of_ne_nil present
  exact ⟨c, rest, rfl, plain c List.mem_cons_self⟩

theorem beginLow {c : Char} (begin : c.isDigit = true ∨ c = '.') : c.toNat ≤ 57 := by
  rcases begin with digit | rfl
  · exact (digitRange digit).2
  · decide

theorem beginLower {c : Char} (begin : c.isDigit = true ∨ c = '.') : c.toLower = c := by
  have low := beginLow begin
  apply lowerOther
  omega

theorem noSpecial {negative : Bool} {body : List Char} (begins : Begins body) :
    specialNumeral? negative body = none := by
  obtain ⟨c, rest, rfl, begin⟩ := begins
  have lower := beginLower begin
  have other : c ≠ 'i' ∧ c ≠ 'n' ∧ c ≠ 's' := by
    refine ⟨?_, ?_, ?_⟩ <;> (rintro rfl; revert begin; decide)
  simp [specialNumeral?, afterHead?, lower, other]

theorem splitSignBody (negative : Bool) {body : List Char} (begins : Begins body) :
    splitSign (signText negative ++ body) = (negative, body) := by
  obtain ⟨c, rest, rfl, begin⟩ := begins
  cases negative with
  | true => rfl
  | false =>
    have sign : c ≠ '-' ∧ c ≠ '+' := by
      refine ⟨?_, ?_⟩ <;> (rintro rfl; revert begin; decide)
    simp only [signText, splitSign]
    split <;> simp_all

theorem ofNumeralPlain (negative : Bool) {body : List Char} (plain : ∀ c ∈ body, Plain c)
    (begins : Begins body) :
    ofNumeral? (String.ofList (signText negative ++ body)) = finiteNumeral? negative body := by
  have whole : ∀ c ∈ signText negative ++ body, Plain c := by
    intro c member
    rcases List.mem_append.mp member with sign | inside
    · cases negative with
      | true =>
        cases List.mem_singleton.mp sign
        exact .inr (.inr (.inr (.inr rfl)))
      | false => simp [signText] at sign
    · exact plain c inside
  have kept : (signText negative ++ body).filter (· ≠ '_') = signText negative ++ body :=
    List.filter_eq_self.mpr fun c member => by simpa using plainNotUnderscore (whole c member)
  rw [ofNumeral?, String.toList_ofList, trim, trimNone fun c member => plainNotBlank (whole c member),
    kept, plainChars whole]
  simp [splitSignBody negative begins, noSpecial begins]

def pointed : Option (List Char) → List Char
  | none => []
  | some fraction => '.' :: fraction

theorem pointedSome {whole : List Char} {fraction : Option (List Char)} {c : Char}
    (member : c ∈ whole ++ pointed fraction) (digit : c.isDigit = true) : whole ++ fraction.getD [] ≠ [] := by
  intro empty
  obtain ⟨rfl, noFraction⟩ := List.append_eq_nil_iff.mp empty
  cases fraction with
  | none => simp [pointed] at member
  | some digits =>
    obtain rfl : digits = [] := noFraction
    cases List.mem_singleton.mp member
    exact absurd digit (by decide)

theorem digitsEnd {digits rest : List Char} (all : ∀ c ∈ digits, c.isDigit = true)
    (stop : ∀ c ∈ rest.head?, c.isDigit = false) :
    (digits ++ rest).takeWhile Char.isDigit = digits ∧
      (digits ++ rest).dropWhile Char.isDigit = rest := by
  rw [List.takeWhile_append_of_pos all, List.dropWhile_append_of_pos all]
  cases rest with
  | nil => simp
  | cons c rest => simp [stop c rfl]

theorem exponentStart {tail : List Char} {e : Int} (tells : exponentPart? tail = some e) :
    ∀ c ∈ tail.head?, c.isDigit = false ∧ c ≠ '.' := by
  intro c atHead
  obtain ⟨rest, rfl⟩ := List.head?_eq_some_iff.mp atHead
  simp only [exponentPart?] at tells
  split at tells
  · next mark => rcases mark with rfl | rfl <;> decide
  · simp at tells

theorem finiteNumeralPointed (negative : Bool) {whole tail : List Char} {fraction : Option (List Char)}
    {e : Int} (wholeDigits : ∀ c ∈ whole, c.isDigit = true)
    (fractionDigits : ∀ c ∈ fraction.getD [], c.isDigit = true)
    (present : whole ++ fraction.getD [] ≠ []) (tells : exponentPart? tail = some e)
    (low : tail = [] ∨ e - (fraction.getD []).length + digitCount (readDigits (whole ++ fraction.getD [])) ≤
      highestPlace + 1) :
    finiteNumeral? negative (whole ++ (pointed fraction ++ tail)) =
      some (.finite negative (readDigits (whole ++ fraction.getD []))
        (e - (fraction.getD []).length)) := by
  have start := exponentStart tells
  have stop : ∀ c ∈ (pointed fraction ++ tail).head?, c.isDigit = false := by
    intro c atHead
    cases fraction with
    | none => exact (start c atHead).1
    | some digits =>
      cases Option.mem_some.mp atHead
      decide
  have cut := digitsEnd wholeDigits stop
  have parts : fractionPart (pointed fraction ++ tail) = (fraction.getD [], tail) := by
    cases fraction with
    | none =>
      cases tail with
      | nil => rfl
      | cons c rest =>
        have point := (start c rfl).2
        simp only [pointed, List.nil_append, fractionPart]
        split
        · next same => simp_all
        · rfl
    | some digits =>
      have ends := digitsEnd fractionDigits fun c atHead => (start c atHead).1
      simpa [pointed, fractionPart] using ends
  have placed : ¬ ((tail != []) = true ∧ highestPlace <
      e - (fraction.getD []).length + digitCount (readDigits (whole ++ fraction.getD [])) - 1) := by
    rintro ⟨written, above⟩
    obtain rfl | low := low
    · cases written
    · omega
  simp only [finiteNumeral?, cut.1, cut.2, parts, if_neg present, tells, Option.bind_some, placed?, if_neg placed]

theorem zerosDigits (k : Nat) : ∀ c ∈ List.replicate k '0', c.isDigit = true := fun _ member =>
  List.eq_of_mem_replicate member ▸ rfl

theorem pointAtCut {digits : List Char} (all : ∀ c ∈ digits, c.isDigit = true) (present : digits ≠ [])
    {place : Int} (fits : place ≤ digits.length) :
    ∃ whole fraction, pointAt digits place = whole ++ pointed fraction ∧ whole ≠ [] ∧
      (∀ c ∈ whole, c.isDigit = true) ∧ (∀ c ∈ fraction.getD [], c.isDigit = true) ∧
      readDigits (whole ++ fraction.getD []) = readDigits digits ∧
      ((fraction.getD []).length : Int) = digits.length - place := by
  by_cases low : place ≤ 0
  · refine ⟨['0'], some (List.replicate (-place).toNat '0' ++ digits), by simp [pointAt, low, pointed],
      by simp, by simp, ?_, ?_, ?_⟩
    · exact List.forall_mem_append.mpr ⟨zerosDigits _, all⟩
    · simp [readDigits, Nat.ofDigitChars_cons, Nat.ofDigitChars_append,
        Nat.ofDigitChars_replicate_zero]
    · simp only [Option.getD_some, List.length_append, List.length_replicate]
      omega
  · by_cases long : digits.length ≤ place.toNat
    · have filled : place.toNat - digits.length = 0 := by omega
      refine ⟨digits, none, by simp [pointAt, low, long, pointed, filled], present, all, by simp,
        by simp, ?_⟩
      simp
      omega
    · refine ⟨digits.take place.toNat, some (digits.drop place.toNat),
        by simp [pointAt, low, long, pointed], ?_, fun c member => all c (List.mem_of_mem_take member),
        fun c member => all c (List.mem_of_mem_drop member), by simp, ?_⟩
      · intro empty
        have count := congrArg List.length empty
        simp only [List.length_take, List.length_nil] at count
        omega
      · simp only [Option.getD_some, List.length_drop]
        omega

theorem writtenPresent (n : Nat) : writeDigits n ≠ [] := by
  intro empty
  have long : 0 < (writeDigits n).length := Nat.length_toDigits_pos
  simp [empty] at long

theorem wholeDigitsWritten (n : Nat) : wholeDigits? (writeDigits n) = some n := by
  have all : (writeDigits n).all Char.isDigit = true :=
    List.all_eq_true.mpr fun c member => writtenDigits member
  rw [wholeDigits?, if_pos ⟨writtenPresent n, all⟩, readWritten]

theorem exponentPartNone : exponentPart? [] = some 0 := rfl

theorem exponentPartWritten (e : Int) : exponentPart? (powerOfTen e) = some e := by
  unfold powerOfTen
  by_cases vanishes : e = 0
  · rw [if_pos vanishes, vanishes]
    rfl
  · rw [if_neg vanishes]
    by_cases below : e < 0
    · have back : -(e.natAbs : Int) = e := by omega
      rw [if_pos below]
      simp only [exponentPart?, or_true, if_true, splitSign, wholeDigitsWritten]
      exact congrArg some back
    · have back : (e.natAbs : Int) = e := by omega
      rw [if_neg below]
      simp only [exponentPart?, or_true, if_true, splitSign, wholeDigitsWritten, Bool.false_eq_true,
        if_false]
      exact congrArg some back

theorem powerOfTenPlain (e : Int) : ∀ c ∈ powerOfTen e, Plain c := by
  intro c member
  unfold powerOfTen at member
  split at member
  · simp at member
  · rcases List.mem_cons.mp member with rfl | member
    · exact .inr (.inr (.inl rfl))
    · rcases List.mem_cons.mp member with rfl | digit
      · split
        · exact .inr (.inr (.inr (.inr rfl)))
        · exact .inr (.inr (.inr (.inl rfl)))
      · exact .inl (writtenDigits digit)

theorem pointedDigits {whole : List Char} {fraction : Option (List Char)}
    (wholeDigits : ∀ c ∈ whole, c.isDigit = true) (fractionDigits : ∀ c ∈ fraction.getD [], c.isDigit = true) :
    ∀ c ∈ whole ++ pointed fraction, c.isDigit = true ∨ c = '.' := by
  intro c member
  rcases List.mem_append.mp member with inWhole | inFraction
  · exact .inl (wholeDigits c inWhole)
  · cases fraction with
    | none => simp [pointed] at inFraction
    | some digits =>
      rcases List.mem_cons.mp inFraction with rfl | digit
      · exact .inr rfl
      · exact .inl (fractionDigits c digit)

theorem pointedPlain {whole tail : List Char} {fraction : Option (List Char)}
    (wholeDigits : ∀ c ∈ whole, c.isDigit = true) (fractionDigits : ∀ c ∈ fraction.getD [], c.isDigit = true)
    (tailPlain : ∀ c ∈ tail, Plain c) : ∀ c ∈ whole ++ (pointed fraction ++ tail), Plain c := by
  intro c member
  rw [← List.append_assoc] at member
  rcases List.mem_append.mp member with inNumber | inTail
  · exact (pointedDigits wholeDigits fractionDigits c inNumber).imp_right .inl
  · exact tailPlain c inTail

theorem pointedBegins {whole : List Char} {fraction : Option (List Char)}
    (wholeDigits : ∀ c ∈ whole, c.isDigit = true) (present : whole ++ fraction.getD [] ≠ [])
    (tail : List Char) : Begins (whole ++ (pointed fraction ++ tail)) := by
  cases whole with
  | cons c rest => exact ⟨c, _, rfl, .inl (wholeDigits c List.mem_cons_self)⟩
  | nil =>
    cases fraction with
    | none => exact absurd rfl present
    | some digits => exact ⟨'.', _, rfl, .inr rfl⟩

theorem ofNumeralPointed (negative : Bool) {whole tail : List Char} {fraction : Option (List Char)} {e : Int}
    (wholeDigits : ∀ c ∈ whole, c.isDigit = true) (fractionDigits : ∀ c ∈ fraction.getD [], c.isDigit = true)
    (tailPlain : ∀ c ∈ tail, Plain c) (present : whole ++ fraction.getD [] ≠ [])
    (tells : exponentPart? tail = some e)
    (low : tail = [] ∨ e - (fraction.getD []).length + digitCount (readDigits (whole ++ fraction.getD [])) ≤
      highestPlace + 1) :
    ofNumeral? (String.ofList (signText negative ++ (whole ++ (pointed fraction ++ tail)))) =
      some (.finite negative (readDigits (whole ++ fraction.getD [])) (e - (fraction.getD []).length)) := by
  rw [ofNumeralPlain negative (pointedPlain wholeDigits fractionDigits tailPlain)
    (pointedBegins wholeDigits present tail)]
  exact finiteNumeralPointed negative wholeDigits fractionDigits present tells low

theorem ofNumeralText (negative : Bool) {c : Nat} {e : Int} (low : e ≤ 0 ∨ e + digitCount c ≤ highestPlace + 1) :
    ofNumeral? (text (.finite negative c e)) = some (.finite negative c e) := by
  have digits : ∀ d ∈ writeDigits c, d.isDigit = true := fun d member => writtenDigits member
  have long : 0 < (writeDigits c).length := Nat.length_toDigits_pos
  let left := e + (writeDigits c).length
  let place := if e ≤ 0 ∧ -6 < left then left else 1
  have fits : place ≤ (writeDigits c).length := by
    simp only [place, left]
    split <;> omega
  obtain ⟨whole, fraction, cut, present, wholeDigits, fractionDigits, reads, count⟩ :=
    pointAtCut digits (writtenPresent c) fits
  have body : finiteText c e = whole ++ (pointed fraction ++ powerOfTen (left - place)) := by
    rw [← List.append_assoc, ← cut]
    rfl
  have exponent : left - place - ((fraction.getD []).length : Int) = e := by omega
  have tailLow : powerOfTen (left - place) = [] ∨ left - place - ((fraction.getD []).length : Int) +
      digitCount (readDigits (whole ++ fraction.getD [])) ≤ highestPlace + 1 := by
    rw [reads, readWritten, exponent]
    by_cases near : e ≤ 0 ∧ -6 < left
    · have same : left - place = 0 := by simp [place, near]
      exact .inl (same ▸ rfl)
    · have written := digitCountWritten c
      have high : (0 : Int) < highestPlace := by decide
      exact .inr (low.elim (fun below => by omega) id)
  rw [text, body, ofNumeralPointed negative wholeDigits fractionDigits (powerOfTenPlain _) (by simp [present])
    (exponentPartWritten (left - place)) tailLow, reads, readWritten, exponent]

example : ofNumeral? "10E+999999999999999999" = none := by decide +kernel

structure Numeral where
  lexeme : String
  plain : lexeme.toList.all (fun c => c.isDigit || c == '.') = true
  onePoint : lexeme.toList.count '.' ≤ 1
  hasDigit : lexeme.toList.any Char.isDigit = true

theorem Numeral.digitOrPoint (n : Numeral) : ∀ c ∈ n.lexeme.toList, c.isDigit = true ∨ c = '.' := by
  intro c member
  simpa using List.all_eq_true.mp n.plain c member

theorem cutAtPoint {s : List Char} (plain : ∀ c ∈ s, c.isDigit = true ∨ c = '.')
    (onePoint : s.count '.' ≤ 1) :
    ∃ whole fraction, s = whole ++ pointed fraction ∧ (∀ c ∈ whole, c.isDigit = true) ∧
      ∀ c ∈ fraction.getD [], c.isDigit = true := by
  induction s with
  | nil => exact ⟨[], none, rfl, by simp, by simp⟩
  | cons c s ih =>
    have others : ∀ d ∈ s, d.isDigit = true ∨ d = '.' := fun d member =>
      plain d (List.mem_cons_of_mem _ member)
    rcases plain c List.mem_cons_self with digit | rfl
    · have fewer : s.count '.' ≤ 1 := Nat.le_trans List.count_le_count_cons onePoint
      obtain ⟨whole, fraction, rfl, wholeDigits, fractionDigits⟩ := ih others fewer
      refine ⟨c :: whole, fraction, rfl, ?_, fractionDigits⟩
      intro d member
      rcases List.mem_cons.mp member with rfl | inside
      · exact digit
      · exact wholeDigits d inside
    · have noOther : '.' ∉ s := by
        rw [List.count_cons_self] at onePoint
        exact List.count_eq_zero.mp (by omega)
      refine ⟨[], some s, rfl, by simp, ?_⟩
      intro d member
      rcases others d member with digit | rfl
      · exact digit
      · exact absurd member noOther

theorem ofNumeralNumeral (n : Numeral) : ∃ c e, ofNumeral? n.lexeme = some (.finite false c e) := by
  obtain ⟨whole, fraction, cut, wholeDigits, fractionDigits⟩ := cutAtPoint n.digitOrPoint n.onePoint
  obtain ⟨d, inside, digit⟩ := List.any_eq_true.mp n.hasDigit
  have present := pointedSome (cut ▸ inside) digit
  have read := ofNumeralPointed false wholeDigits fractionDigits (by simp) present exponentPartNone (.inl rfl)
  rw [List.append_nil, ← cut] at read
  exact ⟨_, _, by simpa [signText] using read⟩

end Reckon.Decimal

namespace Reckon.Yard

theorem readLiteralNumeral (n : Decimal.Numeral) :
    ∃ c e, readLiteral n.lexeme = .ok (.finite false c e) := by
  obtain ⟨c, e, read⟩ := Decimal.ofNumeralNumeral n
  exact ⟨c, e, by simp only [readLiteral, read]⟩

theorem readLiteralText (negative : Bool) {c : Nat} {e : Int}
    (low : e ≤ 0 ∨ e + Decimal.digitCount c ≤ Decimal.highestPlace + 1) :
    readLiteral (Decimal.text (.finite negative c e)) = .ok (.finite negative c e) := by
  simp only [readLiteral, Decimal.ofNumeralText negative low]

end Reckon.Yard

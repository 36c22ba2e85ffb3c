import Reckon.Proofs.Decimal.Canonical
/-! Rows of digits and points: which of them are numerals, the numbers they are read as, and the common form of
these numbers, which is the numeral without its needless zeros. -/
namespace Reckon.Decimal
open Text
variable {s : List Char} {d : Decimal}

def beforePoint (s : List Char) : List Char := s.takeWhile (· != '.')

def behindPoint (s : List Char) : List Char := (s.dropWhile (· != '.')).tail

structure IsNumeral (s : List Char) : Prop where
  digit : ∃ c ∈ s, c.isDigit = true
  onePoint : s.count '.' ≤ 1

def numeralNumber (s : List Char) : Decimal :=
  .finite false (readDigits (beforePoint s ++ behindPoint s)) (-(behindPoint s).length)

theorem digitNotPoint {c : Char} (digit : c.isDigit = true) : (c != '.') = true := by
  rw [bne_iff_ne]
  rintro rfl
  cases digit

theorem partsOfPointed {whole : List Char} (wholeDigits : ∀ c ∈ whole, c.isDigit = true)
    (fraction : Option (List Char)) :
    beforePoint (whole ++ pointed fraction) = whole ∧
      behindPoint (whole ++ pointed fraction) = fraction.getD [] := by
  have noPoint : ∀ c ∈ whole, (c != '.') = true := fun c member => digitNotPoint (wholeDigits c member)
  rw [beforePoint, behindPoint, List.takeWhile_append_of_pos noPoint, List.dropWhile_append_of_pos noPoint]
  cases fraction with
  | none => simp [pointed]
  | some digits => simp [pointed]

theorem IsNumeral.cut (numeral : IsNumeral s) (plain : ∀ c ∈ s, c.isDigit = true ∨ c = '.') :
    ∃ fraction, s = beforePoint s ++ pointed fraction ∧ behindPoint s = fraction.getD [] ∧
      (∀ c ∈ beforePoint s, c.isDigit = true) ∧ ∀ c ∈ behindPoint s, c.isDigit = true := by
  obtain ⟨whole, fraction, cut, wholeDigits, fractionDigits⟩ := cutAtPoint plain numeral.onePoint
  obtain ⟨before, behind⟩ := partsOfPointed wholeDigits fraction
  rw [← cut] at before behind
  rw [before, behind]
  exact ⟨fraction, cut, rfl, wholeDigits, fractionDigits⟩

theorem IsNumeral.some (numeral : IsNumeral s) (plain : ∀ c ∈ s, c.isDigit = true ∨ c = '.') :
    beforePoint s ++ behindPoint s ≠ [] := by
  obtain ⟨fraction, cut, behind, _⟩ := numeral.cut plain
  obtain ⟨c, member, digit⟩ := numeral.digit
  rw [behind]
  exact pointedSome (cut ▸ member) digit

theorem pointedNumeral {whole : List Char} (fraction : Option (List Char))
    (wholeDigits : ∀ c ∈ whole, c.isDigit = true) (fractionDigits : ∀ c ∈ fraction.getD [], c.isDigit = true)
    (nonempty : whole ++ fraction.getD [] ≠ []) : IsNumeral (whole ++ pointed fraction) := by
  have noPoint (digits : List Char) (all : ∀ c ∈ digits, c.isDigit = true) : digits.count '.' = 0 :=
    List.count_eq_zero.mpr fun member => by cases all '.' member
  obtain ⟨c, member⟩ := List.exists_mem_of_ne_nil _ nonempty
  cases fraction with
  | none =>
    have member : c ∈ whole := by simpa using member
    exact ⟨⟨c, by simp [member], wholeDigits c member⟩, by simp [pointed, noPoint whole wholeDigits]⟩
  | some digits =>
    refine ⟨⟨c, ?_, ?_⟩, by simp [pointed, noPoint whole wholeDigits, noPoint digits fractionDigits]⟩
    · rcases List.mem_append.mp member with inWhole | inFraction
      · exact List.mem_append_left _ inWhole
      · exact List.mem_append_right _ (List.mem_cons_of_mem _ inFraction)
    · rcases List.mem_append.mp member with inWhole | inFraction
      · exact wholeDigits c inWhole
      · exact fractionDigits c inFraction

theorem behindDigits {rest : List Char} (plain : ∀ c ∈ rest, c.isDigit = true ∨ c = '.') :
    rest.dropWhile Char.isDigit = [] ∨ ∃ more, rest.dropWhile Char.isDigit = '.' :: more := by
  cases left : rest.dropWhile Char.isDigit with
  | nil => exact .inl rfl
  | cons c more =>
    have member : c ∈ rest := (List.dropWhile_suffix _).subset (left ▸ List.mem_cons_self)
    have noDigit := List.head?_dropWhile_not Char.isDigit rest
    rw [left] at noDigit
    rcases plain c member with digit | rfl
    · cases digit.symm.trans noDigit
    · exact .inr ⟨more, rfl⟩

theorem numeralOfFinite {negative : Bool} (plain : ∀ c ∈ s, c.isDigit = true ∨ c = '.')
    (found : finiteNumeral? negative s = some d) : IsNumeral s := by
  have digits (row : List Char) : ∀ c ∈ row.takeWhile Char.isDigit, c.isDigit = true := fun c =>
    List.mem_takeWhile_imp
  have cut := List.takeWhile_append_dropWhile (p := Char.isDigit) (l := s)
  unfold finiteNumeral? at found
  obtain nothing | ⟨more, point⟩ := behindDigits plain
  · rw [nothing] at cut found
    obtain ⟨nonempty, _⟩ := Option.ite_none_left_eq_some.mp found
    have numeral := pointedNumeral none (digits s) (by simp) nonempty
    rwa [pointed, cut] at numeral
  · rw [point] at cut found
    simp only [fractionPart] at found
    obtain ⟨nonempty, found⟩ := Option.ite_none_left_eq_some.mp found
    obtain ⟨e, tells, _⟩ := Option.bind_eq_some_iff.mp found
    have plainMore : ∀ c ∈ more, c.isDigit = true ∨ c = '.' := fun c member =>
      plain c (cut ▸ List.mem_append_right _ (List.mem_cons_of_mem _ member))
    have whole := List.takeWhile_append_dropWhile (p := Char.isDigit) (l := more)
    obtain nothing | ⟨others, another⟩ := behindDigits plainMore
    · have numeral := pointedNumeral (.some (more.takeWhile Char.isDigit)) (digits s) (digits more) nonempty
      rw [nothing, List.append_nil] at whole
      rwa [pointed, whole, cut] at numeral
    · rw [another] at tells
      cases tells

theorem ofNumeralRow (plain : ∀ c ∈ s, c.isDigit = true ∨ c = '.') (present : s ≠ []) :
    (IsNumeral s → ofNumeral? (String.ofList s) = some (numeralNumber s)) ∧
      (¬ IsNumeral s → ofNumeral? (String.ofList s) = none) := by
  constructor
  · intro numeral
    obtain ⟨fraction, cut, behind, wholeDigits, fractionDigits⟩ := numeral.cut plain
    have nonempty := numeral.some plain
    rw [behind] at fractionDigits nonempty
    have read := ofNumeralPointed false wholeDigits fractionDigits (by simp) nonempty exponentPartNone (.inl rfl)
    rw [List.append_nil, ← cut, ← behind, zero_sub] at read
    exact read
  · intro other
    have read : ofNumeral? (String.ofList s) = finiteNumeral? false s :=
      ofNumeralPlain false (fun c member => (plain c member).imp_right .inl) (rowBegins present plain)
    rw [read]
    cases found : finiteNumeral? false s with
    | none => rfl
    | some d => exact absurd (numeralOfFinite plain found) other

theorem leadingZeros (s : List Char) : ∃ n, s = List.replicate n '0' ++ s.dropWhile (· == '0') := by
  have zeros : s.takeWhile (· == '0') = List.replicate (s.takeWhile (· == '0')).length '0' :=
    List.eq_replicate_iff.mpr ⟨rfl, fun c member => by simpa using List.mem_takeWhile_imp member⟩
  exact ⟨_, by rw [← zeros, List.takeWhile_append_dropWhile]⟩

theorem leadingDropped (s : List Char) : (s.dropWhile (· == '0')).head? ≠ some '0' := by
  intro starts
  have other := List.head?_dropWhile_not (· == '0') s
  rw [starts] at other
  cases other

theorem trailingZeros (s : List Char) : ∃ n, s = s.rdropWhile (· == '0') ++ List.replicate n '0' := by
  obtain ⟨n, cut⟩ := leadingZeros s.reverse
  refine ⟨n, ?_⟩
  rw [List.rdropWhile, ← List.reverse_inj, List.reverse_append, List.reverse_reverse, List.reverse_replicate]
  exact cut

theorem readLeading (n : ℕ) (digits : List Char) :
    readDigits (List.replicate n '0' ++ digits) = readDigits digits := by
  simp [readDigits, Nat.ofDigitChars_append, Nat.ofDigitChars_replicate_zero]

theorem digitWritten {c : Char} (digit : c.isDigit = true) : ∃ k < 10, c = k.digitChar := by
  obtain ⟨low, high⟩ := digitRange digit
  have rows : ∀ k < 10, Char.ofNat (48 + k) = k.digitChar := by decide
  have place : 48 + (c.toNat - 48) = c.toNat := by omega
  have back := rows (c.toNat - 48) (by omega)
  rw [place, Char.ofNat_toNat] at back
  exact ⟨_, by omega, back⟩

theorem readLast (front : List Char) {k : ℕ} (small : k < 10) :
    readDigits (front ++ [k.digitChar]) = 10 * readDigits front + k := by
  rw [readDigits, Nat.ofDigitChars_append, Nat.ofDigitChars_cons_digitChar_of_lt_ten small]
  rfl

theorem writtenRead {digits : List Char} (all : ∀ c ∈ digits, c.isDigit = true) (present : digits ≠ [])
    (first : digits.head? ≠ some '0') : writeDigits (readDigits digits) = digits := by
  induction digits using List.reverseRecOn with
  | nil => exact absurd rfl present
  | append_singleton front c ih =>
    obtain ⟨k, small, rfl⟩ := digitWritten (all c (by simp))
    rw [readLast front small]
    rcases eq_or_ne front [] with rfl | more
    · have nothing : readDigits [] = 0 := rfl
      rw [nothing, mul_zero, zero_add]
      exact Nat.toDigits_of_lt_base small
    · rw [List.head?_append_of_ne_nil _ more] at first
      have back := ih (fun d member => all d (List.mem_append_left _ member)) more first
      have nonzero : readDigits front ≠ 0 := by
        intro vanishes
        rw [vanishes] at back
        exact first (back ▸ rfl)
      have joined := Nat.toDigits_append_toDigits (b := 10) (by decide) (Nat.pos_of_ne_zero nonzero) small
      rw [Nat.toDigits_of_lt_base small] at joined
      rw [writeDigits, ← joined]
      exact congrArg (· ++ [k.digitChar]) back

theorem readShortest {digits : List Char} (all : ∀ c ∈ digits, c.isDigit = true)
    (last : ∃ c, digits.getLast? = some c ∧ c ≠ '0') : ¬ 10 ∣ readDigits digits := by
  obtain ⟨c, atLast, other⟩ := last
  obtain ⟨front, rfl⟩ := List.getLast?_eq_some_iff.mp atLast
  obtain ⟨k, small, rfl⟩ := digitWritten (all c (by simp))
  have nonzero : k ≠ 0 := by
    rintro rfl
    exact other rfl
  rw [readLast front small]
  omega

theorem Positional.commonWhole (n : Positional) (whole : n.fraction = none) :
    common (.finite false (readDigits n.whole) 0) = .ok (String.ofList n.body) := by
  have body : n.body = n.whole := by simp [Positional.body, whole, pointed]
  rw [body]
  by_cases lone : n.whole = ['0']
  · rw [lone]
    exact commonZero rfl (scaledZero false 0)
  · have written := writtenRead n.wholeDigits n.wholePresent fun first => lone (n.wholeShort first)
    have nonzero : readDigits n.whole ≠ 0 := by
      intro vanishes
      rw [vanishes] at written
      exact lone written.symm
    rw [commonSome nonzero, dropFractionZerosWhole (fullTextWhole _ _ le_rfl), fullText, fullDigitsWhole _ le_rfl,
      written]
    simp [signText]

theorem pointAtInside {whole digits : List Char} (present : whole ≠ []) (more : digits ≠ []) :
    pointAt (whole ++ digits) whole.length = whole ++ '.' :: digits := by
  have somewhere := List.length_pos_of_ne_nil present
  have behind := List.length_pos_of_ne_nil more
  rw [pointAt, if_neg (by omega), if_neg (by simp; omega)]
  simp

theorem Positional.commonPointed (n : Positional) {digits : List Char} (fraction : n.fraction = some digits) :
    common (.finite false (readDigits (n.whole ++ digits)) (-digits.length)) = .ok (String.ofList n.body) := by
  have body : n.body = n.whole ++ '.' :: digits := by rw [Positional.body, fraction, pointed]
  obtain ⟨c, atLast, short⟩ := n.fractionShort digits fraction
  have more : digits ≠ [] := List.ne_nil_of_mem (List.mem_of_getLast? atLast)
  have behind := List.length_pos_of_ne_nil more
  have fractionDigits : ∀ d ∈ digits, d.isDigit = true := by simpa [fraction] using n.fractionDigits
  have all := List.forall_mem_append.mpr ⟨n.wholeDigits, fractionDigits⟩
  have last : ∃ d, (n.whole ++ digits).getLast? = some d ∧ d ≠ '0' :=
    ⟨c, by rw [List.getLast?_append_of_ne_nil _ more, atLast], short⟩
  rw [commonShortest (readShortest all last), fullDigitsFraction _ (by omega), body]
  by_cases lone : n.whole = ['0']
  · obtain ⟨k, cut⟩ := leadingZeros digits
    have left : digits.dropWhile (· == '0') ≠ [] := by
      intro nothing
      rw [nothing, List.append_nil] at cut
      exact short (List.eq_of_mem_replicate (cut ▸ List.mem_of_getLast? atLast))
    have leftDigits : ∀ d ∈ digits.dropWhile (· == '0'), d.isDigit = true := fun d member =>
      fractionDigits d ((List.dropWhile_suffix _).subset member)
    have reads : readDigits (['0'] ++ digits) = readDigits (digits.dropWhile (· == '0')) := by
      have zeros : ['0'] ++ digits = List.replicate (k + 1) '0' ++ digits.dropWhile (· == '0') :=
        congrArg (List.cons '0') cut
      rw [zeros, readLeading]
    have count := congrArg List.length cut
    rw [List.length_append, List.length_replicate] at count
    have place : -(digits.length : ℤ) + (digits.dropWhile (· == '0')).length = -k := by omega
    rw [lone, reads, writtenRead leftDigits left (leadingDropped digits), place, pointAt, if_pos (by omega)]
    simp [signText, ← cut]
  · have first : (n.whole ++ digits).head? ≠ some '0' := by
      rw [List.head?_append_of_ne_nil _ n.wholePresent]
      exact fun first => lone (n.wholeShort first)
    have place : -(digits.length : ℤ) + (n.whole ++ digits).length = n.whole.length := by
      rw [List.length_append]
      omega
    rw [writtenRead all (by simp [more]) first, place, pointAtInside n.wholePresent more]
    rfl

theorem Positional.common (n : Positional) (unsigned : n.negative = false) (finite : d.isFinite = true)
    (value : d.rational = n.size) : Decimal.common d = .ok n.text := by
  have text : n.text = String.ofList n.body := by rw [Positional.text, unsigned, signText]; rfl
  rw [text, commonOfRational (b := .finite false (readDigits (n.whole ++ n.fraction.getD []))
    (-(n.fraction.getD []).length)) finite rfl (value.trans n.sizeScaled.symm)]
  cases fraction : n.fraction with
  | none =>
    have whole := n.commonWhole fraction
    simpa using whole
  | some digits => exact n.commonPointed fraction

/- A numeral without its needless zeros: those before the first digit, of which one stays if no other digit is left
before the point, and those behind the last digit of the fraction, with the point if no digit is left behind it. -/

def shortWhole (whole : List Char) : List Char :=
  if whole.dropWhile (· == '0') = [] then ['0'] else whole.dropWhile (· == '0')

def shortFraction (fraction : List Char) : Option (List Char) :=
  if fraction.rdropWhile (· == '0') = [] then none else some (fraction.rdropWhile (· == '0'))

def tidied (s : List Char) : List Char := shortWhole (beforePoint s) ++ pointed (shortFraction (behindPoint s))

theorem readShortWhole (whole : List Char) : readDigits (shortWhole whole) = readDigits whole := by
  obtain ⟨n, cut⟩ := leadingZeros whole
  have same : readDigits whole = readDigits (whole.dropWhile (· == '0')) := by
    conv_lhs => rw [cut, readLeading]
  rw [same, shortWhole]
  split
  · rename_i nothing
    rw [nothing]
    rfl
  · rfl

theorem shortFractionGetD (fraction : List Char) :
    (shortFraction fraction).getD [] = fraction.rdropWhile (· == '0') := by
  unfold shortFraction
  split
  · rename_i nothing
    exact nothing.symm
  · rfl

theorem readShortFraction (fraction : List Char) :
    (readDigits ((shortFraction fraction).getD []) : ℚ) / 10 ^ ((shortFraction fraction).getD []).length =
      readDigits fraction / 10 ^ fraction.length := by
  obtain ⟨n, cut⟩ := trailingZeros fraction
  have read := readZeros (fraction.rdropWhile (· == '0')) n
  have count := congrArg List.length cut
  rw [← cut] at read
  rw [List.length_append, List.length_replicate] at count
  have tens : (tenTo n : ℚ) = 10 ^ n := tenToCast n
  rw [shortFractionGetD, read, count, pow_add, Nat.cast_mul, tens]
  field_simp

theorem shortWholeCases (whole : List Char) :
    shortWhole whole = ['0'] ∨
      whole.dropWhile (· == '0') ≠ [] ∧ shortWhole whole = whole.dropWhile (· == '0') := by
  unfold shortWhole
  split
  · exact .inl rfl
  · rename_i nonempty
    exact .inr ⟨nonempty, rfl⟩

theorem shortFractionLast {fraction digits : List Char} (found : digits ∈ shortFraction fraction) :
    ∃ last, digits.getLast? = some last ∧ last ≠ '0' := by
  unfold shortFraction at found
  split at found
  · cases found
  · rename_i nonempty
    cases found
    refine ⟨_, List.getLast?_eq_some_getLast nonempty, ?_⟩
    simpa using List.rdropWhile_last_not (· == '0') fraction nonempty

def Positional.ofParts (whole fraction : List Char) (wholeDigits : ∀ c ∈ whole, c.isDigit = true)
    (fractionDigits : ∀ c ∈ fraction, c.isDigit = true) : Positional where
  negative := false
  whole := shortWhole whole
  fraction := shortFraction fraction
  wholePresent := by
    obtain lone | ⟨nonempty, same⟩ := shortWholeCases whole
    · simp [lone]
    · rwa [same]
  wholeDigits := by
    obtain lone | ⟨_, same⟩ := shortWholeCases whole
    · simp [lone]
    · rw [same]
      exact fun c member => wholeDigits c ((List.dropWhile_suffix _).subset member)
  wholeShort := by
    obtain lone | ⟨_, same⟩ := shortWholeCases whole
    · exact fun _ => lone
    · rw [same]
      exact fun first => absurd first (leadingDropped whole)
  fractionDigits := by
    rw [shortFractionGetD]
    exact fun c member => fractionDigits c ((List.rdropWhile_prefix _ _).subset member)
  fractionShort := fun _ => shortFractionLast

theorem Positional.ofPartsSize {whole fraction : List Char} (wholeDigits : ∀ c ∈ whole, c.isDigit = true)
    (fractionDigits : ∀ c ∈ fraction, c.isDigit = true) :
    (ofParts whole fraction wholeDigits fractionDigits).size =
      readDigits whole + readDigits fraction / 10 ^ fraction.length := by
  rw [size, ofParts, readShortWhole, readShortFraction]

theorem numeralRational (s : List Char) : (numeralNumber s).rational =
    readDigits (beforePoint s) + readDigits (behindPoint s) / 10 ^ (behindPoint s).length :=
  scaledPointed (beforePoint s) (behindPoint s)

theorem commonNumeral (numeral : IsNumeral s) (plain : ∀ c ∈ s, c.isDigit = true ∨ c = '.') :
    common (numeralNumber s) = .ok (String.ofList (tidied s)) := by
  obtain ⟨_, _, _, wholeDigits, fractionDigits⟩ := numeral.cut plain
  have value := (numeralRational s).trans (Positional.ofPartsSize wholeDigits fractionDigits).symm
  exact (Positional.ofParts _ _ wholeDigits fractionDigits).common rfl rfl value

example : [".50", "000.", "120.0"].map (fun t => String.ofList (tidied t.toList)) = ["0.5", "0", "120"] := by
  decide

end Reckon.Decimal

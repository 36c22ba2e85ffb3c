import Mathlib.Data.List.DropRight
import Reckon.Proofs.Decimal.Exact
import Reckon.Proofs.Decimal.Reading
/-! The common form of numbers. It depends on the value alone, as a zero at the end of a coefficient does not
show in it, and what it spells reads back as that value. -/
namespace Reckon.Decimal
open Text
variable {s : Bool} {c : ℕ} {e : ℤ} {a b : Decimal}

theorem dropFractionZerosWhole {text : List Char} (whole : '.' ∉ text) : dropFractionZeros text = text :=
  if_neg whole

theorem dropFractionZerosShort {text : List Char} (last : ∀ c ∈ text.getLast?, c ≠ '0' ∧ c ≠ '.') :
    dropFractionZeros text = text := by
  have ends : ∀ present : text ≠ [], text.getLast present ≠ '0' ∧ text.getLast present ≠ '.' :=
    fun present => last _ (List.getLast?_eq_some_getLast present)
  have noZero : text.rdropWhile (· == '0') = text :=
    List.rdropWhile_eq_self_iff.mpr fun present => by simpa using (ends present).1
  have noPoint : text.rdropWhile (· == '.') = text :=
    List.rdropWhile_eq_self_iff.mpr fun present => by simpa using (ends present).2
  unfold List.rdropWhile at noZero noPoint
  rw [List.reverse_eq_iff] at noZero
  unfold dropFractionZeros
  rw [noZero, noPoint, ite_self]

theorem dropFractionZerosZero {text : List Char} (point : '.' ∈ text) :
    dropFractionZeros (text ++ ['0']) = dropFractionZeros text := by
  simp [dropFractionZeros, point]

theorem dropFractionZerosPoint {text : List Char} (whole : '.' ∉ text) :
    dropFractionZeros (text ++ ['.', '0']) = text := by
  have noPoint : text.rdropWhile (· == '.') = text := by
    apply List.rdropWhile_eq_self_iff.mpr
    intro present
    have other : text.getLast present ≠ '.' := fun same => whole (same ▸ List.getLast_mem present)
    simpa using other
  simpa [dropFractionZeros, List.rdropWhile] using noPoint

theorem pointAtEnd {digits : List Char} (present : digits ≠ []) : pointAt digits digits.length = digits := by
  have long := List.length_pos_of_ne_nil present
  rw [pointAt, if_neg (by omega), if_pos (by simp)]
  simp

theorem pointAtEndZero {digits : List Char} (present : digits ≠ []) :
    pointAt (digits ++ ['0']) digits.length = digits ++ ['.', '0'] := by
  have long := List.length_pos_of_ne_nil present
  rw [pointAt, if_neg (by omega), if_neg (by simp)]
  simp

theorem pointAtZero {digits : List Char} {place : ℤ} (inside : place < digits.length) :
    pointAt (digits ++ ['0']) place = pointAt digits place ++ ['0'] := by
  unfold pointAt
  by_cases low : place ≤ 0
  · simp [low]
  · have within : place.toNat < digits.length := by omega
    have fewer : ¬ digits.length ≤ place.toNat := not_le.mpr within
    have still : ¬ (digits ++ ['0']).length ≤ place.toNat := by
      simp
      omega
    rw [if_neg low, if_neg low, if_neg fewer, if_neg still, List.take_append_of_le_length within.le,
      List.drop_append_of_le_length within.le]
    simp

theorem pointAtPoint {digits : List Char} {place : ℤ} (inside : place < digits.length) :
    '.' ∈ pointAt digits place := by
  unfold pointAt
  by_cases low : place ≤ 0
  · simp [low]
  · have fewer : ¬ digits.length ≤ place.toNat := by omega
    simp [low, fewer]

theorem pointAtLast {digits : List Char} {place : ℤ} (present : digits ≠ []) (inside : place < digits.length) :
    (pointAt digits place).getLast? = digits.getLast? := by
  unfold pointAt
  by_cases low : place ≤ 0
  · rw [if_pos low, List.getLast?_append_of_ne_nil _ present]
  · have fewer : ¬ digits.length ≤ place.toNat := by omega
    have left : digits.drop place.toNat ≠ [] := by simpa using fewer
    rw [if_neg low, if_neg fewer, ← List.singleton_append, ← List.append_assoc,
      List.getLast?_append_of_ne_nil _ left, List.getLast?_drop, if_neg fewer]

theorem writtenNoPoint (n : ℕ) : '.' ∉ writeDigits n :=
  fun member => absurd (writtenDigits member) (by decide)

theorem writtenTens (nonzero : c ≠ 0) : writeDigits (c * 10) = writeDigits c ++ ['0'] := by
  have joined := Nat.toDigits_append_toDigits (b := 10) (n := c) (d := 0) (by decide)
    (Nat.pos_of_ne_zero nonzero) (by decide)
  rw [Nat.mul_comm]
  exact joined.symm

theorem fullDigitsWhole (c : ℕ) (above : 0 ≤ e) :
    fullDigits c e = writeDigits c ++ List.replicate e.toNat '0' := by
  unfold fullDigits
  rcases above.eq_or_lt with rfl | above
  · simpa using pointAtEnd (writtenPresent c)
  · rw [if_pos above]

theorem fullDigitsFraction (c : ℕ) (below : e < 0) :
    fullDigits c e = pointAt (writeDigits c) (e + (writeDigits c).length) := if_neg (by omega)

theorem fullTextWhole (s : Bool) (c : ℕ) (above : 0 ≤ e) : '.' ∉ fullText (.finite s c e) := by
  have sign : '.' ∉ signText s := by cases s <;> decide
  simp [fullText, fullDigitsWhole c above, sign, writtenNoPoint]

theorem dropFractionZerosTens (s : Bool) (nonzero : c ≠ 0) (e : ℤ) :
    dropFractionZeros (fullText (.finite s (c * 10) (e - 1))) =
      dropFractionZeros (fullText (.finite s c e)) := by
  have place : e - 1 + ((writeDigits c ++ ['0']).length : ℤ) = e + (writeDigits c).length := by
    simp
  rcases lt_trichotomy 0 e with above | rfl | below
  · obtain ⟨n, rfl⟩ : ∃ n : ℕ, e = n + 1 := ⟨(e - 1).toNat, by omega⟩
    rw [fullText, fullText, fullDigitsWhole _ (by omega), fullDigitsWhole _ above.le, writtenTens nonzero]
    simp [List.replicate_succ]
  · have whole := fullTextWhole s c (le_refl 0)
    have more : fullText (.finite s (c * 10) (0 - 1)) = fullText (.finite s c 0) ++ ['.', '0'] := by
      rw [fullText, fullText, fullDigitsFraction _ (by decide), fullDigitsWhole c (le_refl 0),
        writtenTens nonzero, place, zero_add, pointAtEndZero (writtenPresent c)]
      simp
    rw [more, dropFractionZerosPoint whole, dropFractionZerosWhole whole]
  · have inside : e + ((writeDigits c).length : ℤ) < (writeDigits c).length := by omega
    rw [fullText, fullText, fullDigitsFraction _ (by omega), fullDigitsFraction c below, writtenTens nonzero,
      place, pointAtZero inside, ← List.append_assoc]
    exact dropFractionZerosZero (List.mem_append_right _ (pointAtPoint inside))

theorem commonZero (finite : a.isFinite = true) (value : a.rational = 0) : common a = .ok "0" := by
  have question := equalRational (b := Decimal.zero) finite rfl
  rw [rationalZero, decide_eq_true value] at question
  simp only [common, question]
  rfl

theorem commonSome (nonzero : c ≠ 0) :
    common (.finite s c e) = .ok (String.ofList (dropFractionZeros (fullText (.finite s c e)))) := by
  have question := equalRational (a := .finite s c e) (b := Decimal.zero) rfl rfl
  have value : (finite s c e).rational ≠ 0 := scaledEqZero.not.mpr nonzero
  rw [rationalZero, decide_eq_false value] at question
  simp only [common, question]
  rfl

theorem commonTens (nonzero : c ≠ 0) (n : ℕ) :
    common (.finite s (c * tenTo n) e) = common (.finite s c (e + n)) := by
  induction n generalizing e with
  | zero => simp [tenTo]
  | succ n ih =>
    have more : c * tenTo n ≠ 0 := Nat.mul_ne_zero nonzero (tenToPos n).ne'
    have last : e = e + 1 - 1 := by omega
    rw [tenToSucc, ← Nat.mul_assoc, commonSome (Nat.mul_ne_zero more (by decide)), last,
      dropFractionZerosTens s more, ← commonSome more, ih]
    congr 2
    omega

theorem shortestNumber (finite : a.isFinite = true) (nonzero : a.rational ≠ 0) :
    ∃ s c e, ¬ 10 ∣ c ∧ a.rational = scaled s c e ∧ common a = common (.finite s c e) := by
  obtain ⟨s, c, e, rfl⟩ := finiteForm finite
  obtain ⟨c, n, last, rfl⟩ := shortestDigits fun vanishes => nonzero (scaledEqZero.mpr vanishes)
  have coefficient : c ≠ 0 := fun vanishes => last (vanishes ▸ dvd_zero 10)
  exact ⟨s, c, e + n, last, scaledTens s c n e, commonTens coefficient n⟩

theorem commonOfRational (left : a.isFinite = true) (right : b.isFinite = true)
    (same : a.rational = b.rational) : common a = common b := by
  by_cases vanishes : a.rational = 0
  · rw [commonZero left vanishes, commonZero right (same ▸ vanishes)]
  · obtain ⟨s, c, e, last, value, first⟩ := shortestNumber left vanishes
    obtain ⟨t, d, f, last', value', second⟩ := shortestNumber right (same ▸ vanishes)
    obtain ⟨rfl, rfl, rfl⟩ := shortestUnique last last' (value.symm.trans (same.trans value'))
    rw [first, second]

theorem readZeros (digits : List Char) (n : ℕ) :
    readDigits (digits ++ List.replicate n '0') = readDigits digits * tenTo n := by
  rw [readDigits, Nat.ofDigitChars_append, Nat.ofDigitChars_replicate_zero, Nat.mul_comm]
  rfl

theorem writtenLast (last : ¬ 10 ∣ c) : ∀ d ∈ (writeDigits c).getLast?, d ≠ '0' ∧ d ≠ '.' := by
  intro d atLast
  constructor
  · rintro rfl
    obtain ⟨front, cut⟩ := List.getLast?_eq_some_iff.mp atLast
    apply last
    rw [← readWritten c, cut]
    exact ⟨readDigits front, (readZeros front 1).trans (Nat.mul_comm ..)⟩
  · rintro rfl
    exact writtenNoPoint c (List.mem_of_getLast? atLast)

theorem commonShortest (last : ¬ 10 ∣ c) :
    common (.finite s c e) = .ok (String.ofList (signText s ++ fullDigits c e)) := by
  have nonzero : c ≠ 0 := fun vanishes => last (vanishes ▸ dvd_zero 10)
  have short : dropFractionZeros (fullText (.finite s c e)) = fullText (.finite s c e) := by
    rcases le_or_gt 0 e with above | below
    · exact dropFractionZerosWhole (fullTextWhole s c above)
    · have inside : e + ((writeDigits c).length : ℤ) < (writeDigits c).length := by omega
      have present : pointAt (writeDigits c) (e + (writeDigits c).length) ≠ [] :=
        List.ne_nil_of_mem (pointAtPoint inside)
      apply dropFractionZerosShort
      rw [fullText, fullDigitsFraction c below, List.getLast?_append_of_ne_nil _ present,
        pointAtLast (writtenPresent c) inside]
      exact writtenLast last
  rw [commonSome nonzero, short, fullText]

structure Spells (body : List Char) (x : ℚ) : Prop where
  present : body ≠ []
  plain : ∀ c ∈ body, c.isDigit = true ∨ c = '.'
  reads : ∃ d, ofNumeral? (String.ofList body) = some d ∧ d.isFinite = true ∧ d.rational = x

theorem spellsPointed {whole : List Char} {fraction : Option (List Char)} {x : ℚ} (present : whole ≠ [])
    (wholeDigits : ∀ c ∈ whole, c.isDigit = true) (fractionDigits : ∀ c ∈ fraction.getD [], c.isDigit = true)
    (value : scaled false (readDigits (whole ++ fraction.getD [])) (-((fraction.getD []).length : ℤ)) = x) :
    Spells (whole ++ pointed fraction) x := by
  have nonempty : whole ++ fraction.getD [] ≠ [] := by simp [present]
  have reads := ofNumeralPointed false wholeDigits fractionDigits (by simp) nonempty exponentPartNone (.inl rfl)
  rw [List.append_nil, zero_sub] at reads
  exact ⟨by simp [present], pointedDigits wholeDigits fractionDigits, _, reads, rfl, value⟩

theorem fullDigitsSpell (c : ℕ) (e : ℤ) : Spells (fullDigits c e) (scaled false c e) := by
  have digits : ∀ d ∈ writeDigits c, d.isDigit = true := fun d member => writtenDigits member
  rcases le_or_gt 0 e with above | below
  · have zeros := List.forall_mem_append.mpr ⟨digits, zerosDigits e.toNat⟩
    have spelt : Spells (writeDigits c ++ List.replicate e.toNat '0' ++ pointed none) (scaled false c e) := by
      refine spellsPointed (by simp [writtenPresent]) zeros (by simp) ?_
      simp only [Option.getD_none, List.append_nil, List.length_nil]
      rw [readZeros, readWritten, scaledTens]
      congr 1
      omega
    rw [fullDigitsWhole c above]
    simpa [pointed] using spelt
  · obtain ⟨whole, fraction, cut, present, wholeDigits, fractionDigits, reads, count⟩ :=
      pointAtCut digits (writtenPresent c) (show e + (writeDigits c).length ≤ (writeDigits c).length by omega)
    rw [fullDigitsFraction c below, cut]
    refine spellsPointed present wholeDigits fractionDigits ?_
    rw [reads, readWritten, count]
    congr 1
    omega

theorem commonSpells (finite : a.isFinite = true) :
    ∃ body, common a = .ok (String.ofList (signText (decide (a.rational < 0)) ++ body)) ∧
      Spells body |a.rational| := by
  by_cases vanishes : a.rational = 0
  · refine ⟨['0'], ?_, ?_⟩
    · rw [commonZero finite vanishes, vanishes]
      rfl
    · have spelt : Spells ['0'] (scaled false 0 0) := fullDigitsSpell 0 0
      rwa [scaledZero, ← abs_zero, ← vanishes] at spelt
  · obtain ⟨s, c, e, last, value, shortest⟩ := shortestNumber finite vanishes
    have nonzero : c ≠ 0 := fun vanishes => last (vanishes ▸ dvd_zero 10)
    have sign : decide (a.rational < 0) = s := by
      rw [Bool.eq_iff_iff, decide_eq_true_iff, value]
      exact scaledNegative nonzero
    refine ⟨fullDigits c e, ?_, ?_⟩
    · rw [shortest, commonShortest last, sign]
    · have size : |a.rational| = scaled false c e := by
        rw [value, absScaled]
        rfl
      exact size ▸ fullDigitsSpell c e

end Reckon.Decimal

import Reckon.Proofs.Decimal.Common
/-! The shape of the common form. No digit of it could be left out, and with its shape and its value it is the
one writing of that value. -/
namespace Reckon.Decimal
open Text
variable {s : Bool} {c : ℕ} {e : ℤ} {a b : Decimal}

theorem scaledPointed (whole fraction : List Char) :
    scaled false (readDigits (whole ++ fraction)) (-(fraction.length : ℤ)) =
      readDigits whole + readDigits fraction / 10 ^ fraction.length := by
  have joined : readDigits (whole ++ fraction) =
      10 ^ fraction.length * readDigits whole + readDigits fraction := by
    simp only [readDigits, Nat.ofDigitChars_append]
    exact Nat.ofDigitChars_eq_ofDigitChars_zero
  have unit : (10 : ℚ) ^ fraction.length ≠ 0 := pow_ne_zero _ (by norm_num)
  rw [joined, scaled, zpow_neg, zpow_natCast]
  push_cast
  field_simp

structure Positional where
  negative : Bool
  whole : List Char
  fraction : Option (List Char)
  wholePresent : whole ≠ []
  wholeDigits : ∀ d ∈ whole, d.isDigit = true
  wholeShort : whole.head? = some '0' → whole = ['0']
  fractionDigits : ∀ d ∈ fraction.getD [], d.isDigit = true
  fractionShort : ∀ digits ∈ fraction, ∃ last, digits.getLast? = some last ∧ last ≠ '0'

namespace Positional

def body (n : Positional) : List Char := n.whole ++ pointed n.fraction

def text (n : Positional) : String := String.ofList (signText n.negative ++ n.body)

def size (n : Positional) : ℚ :=
  readDigits n.whole + readDigits (n.fraction.getD []) / 10 ^ (n.fraction.getD []).length

def value (n : Positional) : ℚ := if n.negative then -n.size else n.size

def zero : Positional where
  negative := false
  whole := ['0']
  fraction := none
  wholePresent := by simp
  wholeDigits := by simp
  wholeShort := fun _ => rfl
  fractionDigits := by simp
  fractionShort := by simp

theorem zeroValue : zero.value = 0 := by
  have noDigits : readDigits [] = 0 := rfl
  have zeroDigit : readDigits ['0'] = 0 := rfl
  simp [value, size, zero, noDigits, zeroDigit]

theorem sizeScaled (n : Positional) :
    scaled false (readDigits (n.whole ++ n.fraction.getD [])) (-((n.fraction.getD []).length : ℤ)) = n.size :=
  scaledPointed n.whole (n.fraction.getD [])

theorem spells (n : Positional) : Spells n.body n.size :=
  spellsPointed n.wholePresent n.wholeDigits n.fractionDigits n.sizeScaled

end Positional

theorem Spells.unique {body : List Char} {x y : ℚ} (left : Spells body x) (right : Spells body y) : x = y := by
  obtain ⟨d, found, _, rfl⟩ := left.reads
  obtain ⟨_, found', _, rfl⟩ := right.reads
  cases found.symm.trans found'
  rfl

theorem Spells.begins {body : List Char} {x : ℚ} (spells : Spells body x) : Begins body :=
  rowBegins spells.present spells.plain

theorem Positional.valueOfText {n m : Positional} (same : n.text = m.text) : n.value = m.value := by
  have cut := congrArg splitSign (String.ofList_injective same)
  rw [splitSignBody _ n.spells.begins, splitSignBody _ m.spells.begins] at cut
  obtain ⟨sign, body⟩ := Prod.mk.inj cut
  have size : n.size = m.size := n.spells.unique (body ▸ m.spells)
  rw [value, value, sign, size]

theorem writtenFirst (n : ℕ) (nonzero : n ≠ 0) : (writeDigits n).head? ≠ some '0' := by
  induction n using Nat.strongRecOn with
  | ind n ih =>
    rcases Nat.lt_or_ge n 10 with small | large
    · have oneDigit : ∀ d < 10, d ≠ 0 → [Nat.digitChar d].head? ≠ some '0' := by decide
      rw [writeDigits, Nat.toDigits_of_lt_base small]
      exact oneDigit n small nonzero
    · have first := ih (n / 10) (by omega) (by omega)
      have cut : writeDigits n = writeDigits (n / 10) ++ [(n % 10).digitChar] :=
        Nat.toDigits_of_base_le (by decide) large
      rwa [cut, List.head?_append_of_ne_nil _ (writtenPresent _)]

theorem pointAtPositional (s : Bool) {digits : List Char} {place : ℤ} (all : ∀ d ∈ digits, d.isDigit = true)
    (present : digits ≠ []) (first : digits.head? ≠ some '0')
    (last : ∃ d, digits.getLast? = some d ∧ d ≠ '0') (inside : place < digits.length) :
    ∃ n : Positional, n.negative = s ∧ n.body = pointAt digits place := by
  rcases le_or_gt place 0 with low | high
  · have filled := List.forall_mem_append.mpr ⟨zerosDigits (-place).toNat, all⟩
    rw [pointAt, if_pos low]
    refine ⟨⟨s, ['0'], some _, by simp, by simp, fun _ => rfl, filled, ?_⟩, rfl, rfl⟩
    rintro _ ⟨⟩
    rwa [List.getLast?_append_of_ne_nil _ present]
  · have more : ¬ digits.length ≤ place.toNat := by omega
    rw [pointAt, if_neg (not_le.mpr high), if_neg more]
    refine ⟨⟨s, digits.take place.toNat, some (digits.drop place.toNat), ?_,
      fun d member => all d (List.mem_of_mem_take member), ?_,
      fun d member => all d (List.mem_of_mem_drop member), ?_⟩, rfl, rfl⟩
    · simp only [ne_eq, List.take_eq_nil_iff, present, or_false]
      omega
    · rw [List.head?_take, if_neg (by omega)]
      exact fun starts => absurd starts first
    · rintro _ ⟨⟩
      rwa [List.getLast?_drop, if_neg more]

theorem fullDigitsPositional (s : Bool) (e : ℤ) (last : ¬ 10 ∣ c) :
    ∃ n : Positional, n.negative = s ∧ n.body = fullDigits c e := by
  have nonzero : c ≠ 0 := fun vanishes => last (vanishes ▸ dvd_zero 10)
  have first := writtenFirst c nonzero
  have present := writtenPresent c
  have digits : ∀ d ∈ writeDigits c, d.isDigit = true := fun d member => writtenDigits member
  rcases le_or_gt 0 e with above | below
  · have filled := List.forall_mem_append.mpr ⟨digits, zerosDigits e.toNat⟩
    rw [fullDigitsWhole c above]
    refine ⟨⟨s, _, none, by simp [present], filled, ?_, by simp, by simp⟩, rfl, List.append_nil _⟩
    rw [List.head?_append_of_ne_nil _ present]
    exact fun starts => absurd starts first
  · have found := List.getLast?_eq_some_getLast present
    rw [fullDigitsFraction c below]
    exact pointAtPositional s digits present first ⟨_, found, (writtenLast last _ found).1⟩ (by omega)

theorem commonPositional (finite : a.isFinite = true) :
    ∃ n : Positional, common a = .ok n.text ∧ n.value = a.rational := by
  by_cases vanishes : a.rational = 0
  · exact ⟨Positional.zero, commonZero finite vanishes, Positional.zeroValue.trans vanishes.symm⟩
  · obtain ⟨s, c, e, last, value, shortest⟩ := shortestNumber finite vanishes
    obtain ⟨n, rfl, body⟩ := fullDigitsPositional s e last
    have size : n.size = scaled false c e := n.spells.unique (body ▸ fullDigitsSpell c e)
    refine ⟨n, ?_, ?_⟩
    · rw [shortest, commonShortest last, Positional.text, body]
    · rw [value, Positional.value, size]
      cases n.negative with
      | false => rfl
      | true => exact (scaledOpposite false c e).symm

theorem commonSame (left : a.isFinite = true) (right : b.isFinite = true) :
    common a = common b ↔ a.rational = b.rational := by
  refine ⟨fun same => ?_, commonOfRational left right⟩
  obtain ⟨n, first, value⟩ := commonPositional left
  obtain ⟨m, second, value'⟩ := commonPositional right
  have text : n.text = m.text := Except.ok.inj (first.symm.trans (same.trans second))
  rw [← value, ← value', Positional.valueOfText text]

theorem commonZeroOnly (finite : a.isFinite = true) : common a = .ok "0" ↔ a.rational = 0 := by
  rw [← commonZero (a := zero) rfl rationalZero, commonSame finite rfl, rationalZero]

/-- The common form of a number is a positional writing of its value without needless zeros, it is 0 for the
zeros only, and two numbers share it exactly when they are equal. -/
theorem commonCanonical (left : a.isFinite = true) (right : b.isFinite = true) :
    (∃ n : Positional, common a = .ok n.text ∧ n.value = a.rational) ∧
      (common a = .ok "0" ↔ a.rational = 0) ∧ (common a = common b ↔ a.rational = b.rational) :=
  ⟨commonPositional left, commonZeroOnly left, commonSame left right⟩

theorem commonCanonicalHundredths :
    common (.finite true 12300 (-4)) = common (.finite true 123 (-2)) := by
  obtain ⟨_, _, same⟩ := commonCanonical (a := .finite true 12300 (-4)) (b := .finite true 123 (-2)) rfl rfl
  apply same.mpr
  norm_num [rational, scaled]

end Reckon.Decimal

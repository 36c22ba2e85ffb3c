import Reckon.Phrase
import Reckon.Proofs.Decimal.Literal
import Reckon.Settings
/-! How the value of a setting is written, and that each way of writing it is read as that value: flags and levels in
letters of either case, whole numbers with any number of zeros before them. -/
namespace Reckon

namespace Text
theorem blankLower {c : Char} (blank : isBlank c = true) : c.toLower = c := by
  apply lowerOther
  intro upper
  simp only [isBlank, Bool.or_eq_true, Bool.and_eq_true, decide_eq_true_eq, beq_iff_eq] at blank
  omega

end Text

namespace Settings
open Text Phrase

inductive Value where
  | flag (b : Bool)
  | number (n : Nat)
  | level (l : Level)
  deriving DecidableEq, Repr

def flagName (b : Bool) : String := if b then "True" else "False"

def digitRow (zeros n : Nat) : List Char := List.replicate zeros '0' ++ writeDigits n

inductive Written : Value → String → Prop where
  | flag {b : Bool} {word : String} (letters : lower word = lower (flagName b)) : Written (.flag b) word
  | number (zeros n : Nat) : Written (.number n) (String.ofList (digitRow zeros n))
  | level {l : Level} {word : String} (letters : lower word = lower l.name) : Written (.level l) word

variable {zeros n : Nat} {l : Level} {word name : String}

theorem rowDigits : ∀ c ∈ digitRow zeros n, c.isDigit = true := by
  intro c member
  rcases List.mem_append.mp member with leading | digit
  · rw [List.eq_of_mem_replicate leading]
    rfl
  · exact writtenDigits digit

theorem rowPresent : digitRow zeros n ≠ [] := by simp [digitRow, Decimal.writtenPresent]

theorem letterOfSame (same : lower word = lower name) {c : Char} (member : c ∈ word.toList) :
    c.toLower ∈ (lower name).toList := by
  rw [← same, lower, String.toList_ofList]
  exact List.mem_map_of_mem member

theorem plainOfSame (same : lower word = lower name) (plain : (lower name).toList.any isBlank = false)
    (present : lower name ≠ "") : word.toList ≠ [] ∧ ∀ c ∈ word.toList, isBlank c = false := by
  constructor
  · intro empty
    apply present
    rw [← same, lower, empty]
    rfl
  · intro c member
    have among := letterOfSame same member
    have other := List.any_eq_false.mp plain c.toLower among
    by_contra blank
    have blank : isBlank c = true := by simpa using blank
    rw [blankLower blank] at other
    exact other blank

theorem Written.plain {v : Value} (written : Written v word) :
    word.toList ≠ [] ∧ ∀ c ∈ word.toList, isBlank c = false := by
  cases written with
  | @flag b _ letters => exact plainOfSame letters (by cases b <;> decide) (by cases b <;> decide)
  | @level l _ letters => exact plainOfSame letters (by cases l <;> decide) (by cases l <;> decide)
  | number zeros n =>
    rw [String.toList_ofList]
    exact ⟨rowPresent, fun c member => Decimal.plainNotBlank (.inl (rowDigits c member))⟩

theorem readFlagWritten {b : Bool} (same : lower word = lower (flagName b)) :
    Input.readFlag (.text word) = .ok b := by
  have known : Input.flag? word = some b := by
    unfold Input.flag?
    rw [← lower, same]
    cases b <;> decide
  simp only [Input.readFlag, known]

theorem groupedAfter {digits : List Char} (all : ∀ c ∈ digits, c.isDigit = true) :
    Input.groupedDigits? true digits = some digits := by
  induction digits with
  | nil => rfl
  | cons c digits ih =>
    obtain ⟨digit, rest⟩ := List.forall_mem_cons.mp all
    simp [Input.groupedDigits?, digit, ih rest]

theorem groupedRow {digits : List Char} (all : ∀ c ∈ digits, c.isDigit = true) (present : digits ≠ []) :
    Input.groupedDigits? false digits = some digits := by
  cases digits with
  | nil => exact absurd rfl present
  | cons c digits =>
    obtain ⟨digit, rest⟩ := List.forall_mem_cons.mp all
    simp [Input.groupedDigits?, digit, groupedAfter rest]

theorem magnitudeRow : Input.magnitude? (digitRow zeros n) = some n := by
  have noPoint : ∀ c ∈ digitRow zeros n, (c != '.') = true := fun c member =>
    Decimal.digitNotPoint (rowDigits c member)
  have nothing : (digitRow zeros n).dropWhile (· != '.') = [] := List.dropWhile_eq_nil_iff.mpr noPoint
  have whole : (digitRow zeros n).takeWhile (· != '.') = digitRow zeros n :=
    List.takeWhile_eq_self_iff.mpr noPoint
  have value : readDigits (digitRow zeros n) = n := by
    rw [digitRow, Decimal.readLeading, readWritten]
  rw [Input.magnitude?, nothing, whole, groupedRow rowDigits rowPresent]
  exact congrArg some value

theorem integerRow : Input.integer? (String.ofList (digitRow zeros n)) = some (n : Int) := by
  have plain : ∀ c ∈ digitRow zeros n, Input.isMargin c = false := by
    intro c member
    have noBlank := Decimal.plainNotBlank (.inl (rowDigits c member))
    simp [Input.isMargin, noBlank]
  unfold Input.integer?
  rw [String.toList_ofList, trimNone plain]
  split
  · rename_i digits signed
    cases rowDigits '-' (signed ▸ List.mem_cons_self)
  · rename_i digits signed
    cases rowDigits '+' (signed ▸ List.mem_cons_self)
  · rw [magnitudeRow]
    rfl

theorem readIntegerWritten : Input.readInteger (.text (String.ofList (digitRow zeros n))) = .ok (n : Int) := by
  simp only [Input.readInteger, integerRow]

theorem readPrecisionWritten (range : 1 ≤ n ∧ n ≤ 1000) :
    readPrecision (.text (String.ofList (digitRow zeros n))) = .ok ⟨n, range⟩ := by
  have enough : ¬ ((n : Int) < 1) := by omega
  simp only [readPrecision, readIntegerWritten, if_neg enough, Int.toNat_natCast, dif_pos range]

theorem readExponentLimitWritten :
    readExponentLimit (.text (String.ofList (digitRow zeros n))) = .ok n := by
  have enough : ¬ ((n : Int) < 0) := by omega
  simp only [readExponentLimit, readIntegerWritten, if_neg enough, Int.toNat_natCast]

theorem capitalLower {c : Char} (small : c.toNat < 128) : capital c.toLower = capital c := by
  have rows : ∀ k < 128, capital (Char.ofNat k).toLower = capital (Char.ofNat k) := by decide
  have row := rows c.toNat small
  rwa [Char.ofNat_toNat] at row

theorem smallOfLower {c : Char} (small : c.toLower.toNat < 128) : c.toNat < 128 := by
  by_cases upper : 65 ≤ c.toNat ∧ c.toNat ≤ 90
  · omega
  · rwa [lowerOther upper] at small

theorem capitalsOfSame (same : lower word = lower name)
    (small : (lower name).toList.all (fun c => c.toNat < 128) = true) :
    capitals word.toList = capitals (lower name).toList := by
  rw [← same, lower, String.toList_ofList, capitals, capitals, List.map_map]
  apply List.map_congr_left
  intro c member
  have among := List.all_eq_true.mp small c.toLower (letterOfSame same member)
  exact (capitalLower (smallOfLower (of_decide_eq_true among))).symm

theorem readLevelWritten (same : lower word = lower l.name) :
    readLevel (.text (String.ofList (capitals word.toList))) = .ok l := by
  have capital : String.ofList (capitals word.toList) = l.name := by
    rw [capitalsOfSame same (by cases l <;> decide)]
    cases l <;> decide
  simp only [readLevel, capital, Level.ofNameName]

end Settings
end Reckon

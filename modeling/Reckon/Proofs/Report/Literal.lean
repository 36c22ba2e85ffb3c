import Reckon.Proofs.Decimal.Literal
import Reckon.Proofs.Report.ReadBack
/-! Numerals as literals and as whole texts. A literal is read exactly, and a text that is one numeral has its
number as result, whatever the settings are: with a single operand nothing is ever rounded. -/
namespace Reckon
open Decimal Text
variable {t : String}

theorem Decimal.IsNumeral.spells {s : List Char} (numeral : IsNumeral s)
    (plain : ∀ c ∈ s, c.isDigit = true ∨ c = '.') (present : s ≠ []) : Spells s (numeralNumber s).rational :=
  ⟨present, plain, _, (ofNumeralRow plain present).1 numeral, rfl, rfl⟩

namespace Yard

theorem readLiteralRow (plain : ∀ c ∈ t.toList, c.isDigit = true ∨ c = '.') (present : t.toList ≠ []) :
    (IsNumeral t.toList → readLiteral t = .ok (numeralNumber t.toList)) ∧
      (¬ IsNumeral t.toList → readLiteral t = .error (.badLiteral t)) := by
  have row := ofNumeralRow plain present
  rw [String.ofList_toList] at row
  constructor
  · intro numeral
    simp only [readLiteral, row.1 numeral]
  · intro other
    simp only [readLiteral, row.2 other]

end Yard

namespace Report

theorem ofNumeral (s : Settings) (numeral : IsNumeral t.toList)
    (plain : ∀ c ∈ t.toList, c.isDigit = true ∨ c = '.') (present : t.toList ≠ []) :
    ∃ r, Report.of s t = .ok r ∧ r.result = numeralNumber t.toList ∧
      r.formatted = String.ofList (tidied t.toList) := by
  have spells := numeral.spells plain present
  have reads := (Yard.readLiteralRow plain present).1 numeral
  have munched := spells.munched
  rw [String.ofList_toList] at munched
  have noWords : ∀ u ∈ [(⟨.number, t⟩ : Token)], u.kind ≠ .word := by simp
  have ordered := Yard.orderNumber s.rule reads
  rw [← Phrase.streamNoWords noWords, ← munched] at ordered
  obtain ⟨r, made, _, result⟩ := (ofReadable spells.readable ordered).1 (numeralNumber t.toList) rfl rfl
  obtain ⟨_, _, _, formatted, _⟩ := ofOk made
  rw [result, commonNumeral numeral plain] at formatted
  exact ⟨r, made, result, (Except.ok.inj formatted).symm⟩

/-- A literal of digits and points is read exactly if it has a digit and not more than one point, and otherwise it is
refused by name. What is read is the exact number that the numeral denotes, with as many places as there are digits
behind the point. As a whole text it has that number as result under all settings, and the result is printed as the
numeral itself without its needless zeros. -/
theorem literalsExact (present : t.toList ≠ []) (plain : ∀ c ∈ t.toList, c.isDigit = true ∨ c = '.') :
    ((∃ d, Yard.readLiteral t = .ok d) ↔ IsNumeral t.toList) ∧
      (¬ IsNumeral t.toList → Yard.readLiteral t = .error (.badLiteral t)) ∧
      (IsNumeral t.toList → Yard.readLiteral t = .ok (numeralNumber t.toList) ∧
        (numeralNumber t.toList).rational = readDigits (beforePoint t.toList) +
          readDigits (behindPoint t.toList) / 10 ^ (behindPoint t.toList).length ∧
        ∀ s : Settings, ∃ r, Report.of s t = .ok r ∧ r.result = numeralNumber t.toList ∧
          r.formatted = String.ofList (tidied t.toList)) := by
  have row := Yard.readLiteralRow plain present
  refine ⟨⟨?_, fun numeral => ⟨_, row.1 numeral⟩⟩, row.2, fun numeral => ⟨row.1 numeral, numeralRational _,
    fun s => ofNumeral s numeral plain present⟩⟩
  rintro ⟨d, reads⟩
  by_contra other
  cases reads.symm.trans (row.2 other)

theorem literalsExactZeros :
    Yard.readLiteral "007.500" = .ok (.finite false 7500 (-3)) ∧
      ∃ r, Report.of .usual "007.500" = .ok r ∧ r.result = .finite false 7500 (-3) ∧ r.formatted = "7.5" := by
  have plain : ∀ c ∈ "007.500".toList, c.isDigit = true ∨ c = '.' := by simp
  have numeral : IsNumeral "007.500".toList := ⟨⟨'0', by decide⟩, by decide⟩
  obtain ⟨_, _, exact⟩ := literalsExact (by decide) plain
  obtain ⟨reads, _, made⟩ := exact numeral
  exact ⟨reads, made .usual⟩

end Report
end Reckon

import Reckon.Proofs.Report.Munched
import Reckon.Proofs.Report.Recorded
import Reckon.Proofs.Token.Joined
/-! What follows a fault. A scan that stops short of the end of its text stops in the same way if the text
goes on after a blank. -/
namespace Reckon
open Text Token CharClass

namespace Report
variable {s : Settings} {text : String}

def scanned (s : Settings) (text : String) : Scanned Intake Fault :=
  (Cursor.ofText text).scan Intake.receive (.empty s.tokenLevel s.rule)

theorem haltExtended {w : Char} (blank : isBlank w = true) (more : String) {halt : Halt Fault}
    (halted : (scanned s text).halt = some halt) :
    (scanned s (text ++ String.singleton w ++ more)).halt = some halt := by
  have same := (Cursor.scanJoined Intake.receive (.empty s.tokenLevel s.rule) blank text more).2 (by
    rw [← scanned, halted]
    exact Option.some_ne_none halt)
  exact (congrArg Prod.snd same).trans halted

theorem ofHalted {halt : Halt Fault} (halted : (scanned s text).halt = some halt) :
    ∃ r, halt.fault = .refusal r ∧ Report.of s text = .error (.refusal r) := by
  have stopped : takeIn s text = ((scanned s text).receiver, some halt.fault) := by
    unfold scanned at halted
    simp only [takeIn, halted, scanned]
  obtain ⟨r, fault⟩ := takeInRefused stopped
  exact ⟨r, fault, by rw [ofStopped stopped, fault]⟩

theorem haltKept (s : Settings) (text : String) {w : Char} (blank : isBlank w = true) (more : String)
    {halt : Halt Fault} (halted : (scanned s text).halt = some halt) :
    (scanned s (text ++ String.singleton w ++ more)).halt = some halt ∧
      ∃ r, halt.fault = .refusal r ∧ Report.of s text = .error (.refusal r) ∧
        Report.of s (text ++ String.singleton w ++ more) = .error (.refusal r) := by
  have still := haltExtended blank more halted
  obtain ⟨r, fault, first⟩ := ofHalted halted
  obtain ⟨q, fault', second⟩ := ofHalted still
  cases fault.symm.trans fault'
  exact ⟨still, r, fault, first, second⟩

theorem haltKeptAtEnd : isBlank '\t' = true ∧
    (scanned .usual "two + 1.2.3").halt = some (.refused (.refusal (.badLiteral "1.2.3"))) ∧
      ∃ r, Fault.refusal (.badLiteral "1.2.3") = .refusal r ∧
        Report.of .usual "two + 1.2.3" = .error (.refusal r) ∧
        Report.of .usual "two + 1.2.3\t) ? ((" = .error (.refusal r) := by
  have blank : isBlank '\t' = true := by decide
  have halted : (scanned .usual "two + 1.2.3").halt = some (.refused (.refusal (.badLiteral "1.2.3"))) := by
    decide +kernel
  exact ⟨blank, halted, (haltKept .usual "two + 1.2.3" blank ") ? ((" halted).2⟩

end Report
end Reckon

import Reckon.Proofs.Postfix.Faults
import Reckon.Proofs.Report.Recorded
import Reckon.Proofs.Report.Munched
import Reckon.Proofs.Tree.Exact
/-! Every text comes to a report or to a refusal, but for powers whose multiplication has no end or whose limit is
too long to be told. -/
namespace Reckon
open Decimal

namespace Yard
variable {y z : Yard} {t : Token} {ts : List Token}

def OutputUnsigned (y : Yard) : Prop := ∀ d, .operand d ∈ y.output.toList → d.Unsigned

theorem signsNoOperand (os : List Operator) (d : Decimal) : Element.operand d ∉ signs os := by
  intro member
  obtain ⟨o, _, same⟩ := List.mem_map.mp member
  cases same

theorem outputSigns {out : Array Element} {os : List Operator} {d : Decimal}
    (member : .operand d ∈ (out ++ (signs os).toArray).toList) : .operand d ∈ out.toList := by
  rw [Array.toList_append] at member
  exact (List.mem_append.mp member).resolve_right (signsNoOperand os d)

theorem takesUnsigned (taken : Takes y t z) (reads : t.ReadsUnsigned) (unsigned : y.OutputUnsigned) :
    z.OutputUnsigned := by
  cases taken with
  | number kind numeral =>
    intro e member
    rw [Array.toList_push, List.mem_append, List.mem_singleton] at member
    rcases member with before | same
    · exact unsigned e before
    · cases same
      exact reads kind _ numeral
  | opening kind => exact unsigned
  | closing kind => exact fun d member => unsigned d (outputSigns member)
  | operator kind known ground => exact fun d member => unsigned d (outputSigns member)
  | word kind => exact unsigned

theorem feedUnsigned (fed : feed receive y ts = (z, none)) (reads : ∀ t ∈ ts, t.ReadsUnsigned)
    (unsigned : y.OutputUnsigned) : z.OutputUnsigned := by
  induction ts generalizing y with
  | nil =>
    cases fed
    exact unsigned
  | cons t ts ih =>
    obtain ⟨between, taken, rest⟩ := feedCons fed
    obtain ⟨first, others⟩ := List.forall_mem_cons.mp reads
    exact ih rest others (takesUnsigned (takenCases taken) first unsigned)

theorem orderUnsigned {rule : Rule} {elements : List Element} (ordered : order rule ts = .ok elements)
    (reads : ∀ t ∈ ts, t.ReadsUnsigned) : ∀ d, .operand d ∈ elements → d.Unsigned := by
  obtain ⟨y, z, fed, finished, rfl⟩ := orderOk ordered
  obtain ⟨os, _, rfl⟩ := finishTaken finished
  have empty : (Yard.empty rule).OutputUnsigned := fun d member => nomatch member
  exact fun d member => feedUnsigned fed reads empty d (outputSigns member)

theorem orderFinite {rule : Rule} {elements : List Element} (ordered : order rule ts = .ok elements)
    (reads : ∀ t ∈ ts, t.ReadsUnsigned) : ∀ d, .operand d ∈ elements → d.isFinite = true :=
  fun d member => (orderUnsigned ordered reads d member).finite

end Yard

namespace Report
variable {s : Settings} {text : String}

def Meets (s : Settings) (text : String) (operands : Decimal → Decimal → Prop) : Prop :=
  ∃ i, takeIn s text = (i, none) ∧
    MeetsPower s.digits (some s.maxExponent) operands [] i.yard.output.toList

def PowersEnd (s : Settings) (text : String) : Prop :=
  ¬ Meets s text (Endless s.digits (some s.maxExponent))

def MeetsUntold (s : Settings) (text : String) : Prop := Meets s text (Untold (some s.maxExponent))

theorem powersEnd (ended : Report.of s text ≠ .error .endless) : PowersEnd s text := by
  rintro ⟨i, taken, meets⟩
  exact ended ((ofTaken taken).2 .endless (endlessEscapes meets))

theorem untoldFails (meets : MeetsUntold s text) : Report.of s text = .error .numberTooLong := by
  obtain ⟨i, taken, meets⟩ := meets
  exact (ofTaken taken).2 .numberTooLong (untoldEscapes meets)

def FiniteOrRefused (outcome : Except Fault Report) : Prop :=
  (∃ r, outcome = .ok r ∧ r.result.isFinite = true) ∨ ∃ refusal, outcome = .error (.refusal refusal)

theorem comesTo (s : Settings) (text : String) : FiniteOrRefused (Report.of s text) ∨
    Meets s text (Endless s.digits (some s.maxExponent)) ∨ MeetsUntold s text := by
  cases taken : takeIn s text with
  | mk i fault =>
    cases fault with
    | some fault =>
      obtain ⟨refusal, rfl⟩ := takeInRefused taken
      refine .inl (.inr ⟨refusal, ?_⟩)
      unfold Report.of run
      rw [taken]
      rfl
    | none =>
      obtain ⟨ordered, reads⟩ := takeInRecorded taken
      obtain ⟨reports, fails⟩ := ofTaken taken
      have finite := Yard.orderFinite ordered reads
      cases evaluated : evaluatePostfix s.digits (some s.maxExponent) i.yard.output.toList with
      | ok v =>
        obtain ⟨t, order, valued⟩ := Tree.treeOfEvaluated evaluated
        have valueFinite := Tree.valueFinite (order ▸ finite) valued
        obtain ⟨r, made, _, rfl⟩ := reports v evaluated valueFinite
        exact .inl (.inl ⟨r, made, valueFinite⟩)
      | error f =>
        obtain ⟨refusal, rfl⟩ | endless | untold := evaluateFault finite evaluated
        · exact .inl (.inr ⟨refusal, fails _ evaluated⟩)
        · exact .inr (.inl ⟨i, taken, endless⟩)
        · exact .inr (.inr ⟨i, taken, untold⟩)

/-- Whatever the text and the settings, if every multiplication of a power ends there is a report with a finite
result or a refusal, exactly if the evaluation gets to no power that a limit too long to be told would refuse. If it
gets to one, the number too long is the fault that leaves the run. -/
theorem finiteOrRefused (ends : PowersEnd s text) :
    (FiniteOrRefused (Report.of s text) ↔ ¬ MeetsUntold s text) ∧
      (MeetsUntold s text → Report.of s text = .error .numberTooLong) := by
  refine ⟨⟨fun settled meets => ?_, fun told => ?_⟩, untoldFails⟩
  · rw [untoldFails meets] at settled
    obtain ⟨r, made, _⟩ | ⟨refusal, refused⟩ := settled
    · cases made
    · cases refused
  · obtain settled | endless | untold := comesTo s text
    · exact settled
    · exact absurd endless ends
    · exact absurd untold told

theorem toldShort (short : Text.isTooLong s.maxExponent = false) (text : String) : ¬ MeetsUntold s text := by
  rintro ⟨i, _, before, after, base, exponent, below, _, _, untold⟩
  obtain ⟨most, limit, long, _⟩ := untold.above
  cases limit
  cases short.symm.trans long

theorem finiteOrRefusedTwice : FiniteOrRefused (Report.of .usual "2 ^ 3 ^ 4") := by
  have ended : Report.of .usual "2 ^ 3 ^ 4" ≠ .error .endless := by decide +kernel
  exact (finiteOrRefused (powersEnd ended)).1.mpr (toldShort (by decide +kernel) _)

theorem towerUntold {s : Settings} {most : ℕ} (settings : s = { Settings.usual with maxExponent := most })
    (long : tenTo Text.longestNumber ≤ most) (more : most < tenTo 6000) :
    Report.of s "2 ^ 10 ^ 6000" = .error .numberTooLong := by
  subst settings
  -- The limit is only asked by the evaluation, so the tokens are those under the usual settings.
  have same : takeIn { Settings.usual with maxExponent := most } "2 ^ 10 ^ 6000" =
      takeIn .usual "2 ^ 10 ^ 6000" := rfl
  have taken : (takeIn .usual "2 ^ 10 ^ 6000").2 = none := by decide +kernel
  have order : (takeIn .usual "2 ^ 10 ^ 6000").1.yard.output.toList =
      [.operand (ofNat 2), .operand (ofNat 10), .operand (ofNat 6000), .operator "^", .operator "^"] := by
    decide +kernel
  have few : 6000 ≤ tenTo 28 := by decide
  have limits : ∀ limit ∈ some (most : ℤ), ((6000 : ℕ) : ℤ) ≤ limit := by
    rintro _ ⟨⟩
    exact_mod_cast (few.trans (tenToLe (by decide))).trans long
  obtain ⟨d, found, finite, value⟩ := tenPower (p := .usual) (by decide) few (by decide) limits
  have proper : (ofNat 2).rational ≠ 0 ∧ (ofNat 2).rational ≠ 1 ∧ (ofNat 2).rational ≠ -1 := by
    rw [rationalOfNat]
    norm_num
  have untold := untoldAbove (rfl : (ofNat 2).isFinite = true) finite value (tenToPos _).ne' proper
    (Int.ofNat_lt.mpr more) ((isTooLongIff (n := most)).mpr long)
  have reached : [.operand (ofNat 2), .operand (ofNat 10), .operand (ofNat 6000), .operator "^"].foldlM
      (evaluateStep .usual (some (most : ℤ))) [] = .ok [d, ofNat 2] := by
    have result : applySymbol .usual (some (most : ℤ)) "^" (ofNat 10) (ofNat 6000) = .ok d :=
      (applySymbolSymbol ..).trans (Operator.outcomeOfOk (o := .power) found)
    simp only [List.foldlM_cons, List.foldlM_nil, evaluateStep, result, bind, Except.bind, Except.map, pure,
      Except.pure]
  exact untoldFails ⟨_, same.trans (Prod.ext rfl taken), _, [], _, _, [], order, reached, untold⟩

theorem neitherFiniteNorRefused :
    let s : Settings := { Settings.usual with maxExponent := tenTo 5000 }
    PowersEnd s "2 ^ 10 ^ 6000" ∧ ¬ FiniteOrRefused (Report.of s "2 ^ 10 ^ 6000") := by
  intro s
  have outcome := towerUntold (s := s) rfl (tenToLe (by decide)) (tenToLt (by decide))
  refine ⟨powersEnd (by rw [outcome]; nofun), ?_⟩
  rw [outcome]
  rintro (⟨r, made, _⟩ | ⟨refusal, refused⟩)
  · cases made
  · cases refused

end Report
end Reckon

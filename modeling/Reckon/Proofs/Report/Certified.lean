import Reckon.Proofs.Report.Faults
/-! A report against what it says of itself: its tokens, put in order once more, have its postfix sequence,
and that sequence, read back from its texts, has its result. -/
namespace Reckon
open Token

namespace Intake

theorem takeAllRecord {i j : Intake} {ts : List Token} (taken : i.takeAll ts = (j, none)) :
    j.record.toList = i.record.toList ++ (Phrase.stream i.phrase ts).map Phrase.Item.token := by
  induction ts generalizing i with
  | nil =>
    have closed : i.closePhrase = (j, none) := taken
    rw [closeItems] at closed
    exact (receiveItemsTaken closed).1
  | cons t ts ih =>
    obtain ⟨phrase, items, took, streamed⟩ := Phrase.streamTake i.phrase t ts
    cases answer : i.receive t with
    | mk between fault =>
      cases fault with
      | some fault =>
        rw [takeAllRefused answer] at taken
        cases taken
      | none =>
        rw [takeAllTaken answer] at taken
        rw [receiveTake took] at answer
        have phrases := (receiveItemsYard { i with phrase := phrase } items).2.1
        rw [answer] at phrases
        obtain rfl : between.phrase = phrase := phrases
        rw [ih taken, (receiveItemsTaken answer).1, streamed]
        simp

end Intake

namespace Phrase

inductive Source (ts : List Token) : Item → Prop where
  | folded (words : List NumberWord) : Source ts (.folded words (number words))
  | passed {t u : Token} (member : t ∈ ts) (part : t.part = .barrier u) : Source ts (.passed u)
  | unknown {t : Token} {lexeme : String} (member : t ∈ ts) (part : t.part = .unknown lexeme) :
      Source ts (.unknown lexeme)

theorem Source.later {t : Token} {ts : List Token} {item : Item} (source : Source ts item) :
    Source (t :: ts) item := by
  cases source with
  | folded words => exact .folded words
  | passed member part => exact .passed (List.mem_cons_of_mem t member) part
  | unknown member part => exact .unknown (List.mem_cons_of_mem t member) part

theorem streamSource {p : Phrase} {ts : List Token} {item : Item} (member : item ∈ stream p ts) :
    Source ts item := by
  induction ts generalizing p with
  | nil => exact memClosing member ▸ .folded p.toList
  | cons t ts ih =>
    cases part : t.part with
    | barrier u =>
      simp only [stream, part, List.mem_append, List.mem_cons] at member
      rcases member with closed | rfl | later
      · exact memClosing closed ▸ .folded p.toList
      · exact .passed List.mem_cons_self part
      · exact (ih later).later
    | number w =>
      simp only [stream, part] at member
      exact (ih member).later
    | unknown lexeme =>
      simp only [stream, part, List.mem_cons] at member
      rcases member with rfl | later
      · exact .unknown List.mem_cons_self part
      · exact (ih later).later

theorem Source.word {ts : List Token} {item : Item} (source : Source ts item)
    (word : item.token.kind = .word) : Operator.ofWord? (lower item.token.lexeme) = none ∧
      NumberWord.ofSpelling? (lower item.token.lexeme) = none := by
  cases source with
  | folded words => cases word
  | passed member part =>
    obtain ⟨sign, rfl⟩ | ⟨o, rfl⟩ := ofBarrier part
    · exact absurd word sign
    · cases word
  | unknown member part => exact (ofUnknown part).2

theorem passedForeign (p : Phrase) (ts : List Token) : ∀ t ∈ (stream p ts).map Item.token, t.kind = .word →
    Operator.ofWord? (lower t.lexeme) = none ∧ NumberWord.ofSpelling? (lower t.lexeme) = none := by
  intro t member word
  obtain ⟨item, passed, rfl⟩ := List.mem_map.mp member
  exact (streamSource passed).word word

end Phrase

namespace Report
variable {s : Settings} {text : String} {i : Intake} {r : Report}

theorem takeInStream (taken : takeIn s text = (i, none)) : Readable text.toList ∧
    i.record.toList = (Phrase.stream #[] (munch text.toList)).map Phrase.Item.token := by
  obtain ⟨before, rest, whole, readable, stops⟩ := readableCut text.toList
  cases rest with
  | cons a after =>
    rw [takeInText whole readable stops] at taken
    cases fed : feed Intake.receive (.empty s.tokenLevel s.rule) (munch before) with
    | mk j fault => cases fault <;> simp [fed, takeRest] at taken
  | nil =>
    rw [List.append_nil] at whole
    subst whole
    refine ⟨readable, ?_⟩
    rw [takeInReadable readable] at taken
    split at taken
    · rename_i j all
      have kept : j.finishYard.1.record = j.record := rfl
      rw [taken] at kept
      rw [kept]
      exact Intake.takeAllRecord all
    · rename_i refused
      exact absurd taken (refused i)

end Report

def Element.ofText (s : String) : Except Refusal Element :=
  if (Operator.ofSymbol? s).isSome then .ok (.operator s) else (Yard.readLiteral s).map .operand

theorem Element.ofTextOperator (o : Operator) : ofText (operator o.symbol).text = .ok (.operator o.symbol) := by
  simp [ofText, text, Operator.ofSymbolSymbol]

theorem Element.ofTextOperand {d : Decimal} (unsigned : d.Unsigned) :
    ofText (operand d).text = .ok (.operand d) := by
  obtain ⟨c, e, rfl, low⟩ := unsigned
  have reads := Yard.readLiteralText false low
  have noOperator : Operator.ofSymbol? (Decimal.finite false c e).text = none := by
    cases known : Operator.ofSymbol? (Decimal.finite false c e).text with
    | none => rfl
    | some o =>
      -- No symbol of an operator is read as a number.
      have symbol := Operator.symbolOfSymbol known
      rw [← symbol] at reads
      cases o <;> cases reads
  simp [ofText, text, noOperator, reads, Except.map]

theorem Tree.readTexts (t : Tree Decimal) (unsigned : ∀ d, .operand d ∈ t.postorder → d.Unsigned) :
    (t.postorder.map Element.text).mapM Element.ofText = .ok t.postorder := by
  induction t with
  | leaf d =>
    have read := Element.ofTextOperand (unsigned d (List.mem_singleton.mpr rfl))
    simp [postorder, read]
  | node o left right ihLeft ihRight =>
    have read := Element.ofTextOperator o
    have first := ihLeft fun d member => unsigned d (by simp [postorder, member])
    have second := ihRight fun d member => unsigned d (by simp [postorder, member])
    simp only [postorder, List.map_append, List.map_singleton, List.mapM_append, first, second,
      List.mapM_cons, List.mapM_nil, read]
    rfl

/- What a report says, checked from what it says: its tokens are put in order by its rule, the order is the
one that it shows, its texts are read back as that order, and the order has its result. No word of a
dictionary is left among its tokens. -/

structure Report.Certified (s : Settings) (r : Report) (elements : List Element) : Prop where
  order : Yard.order s.rule r.tokens = .ok elements
  shown : elements.map Element.text = r.postfixTexts
  readBack : r.postfixTexts.mapM Element.ofText = .ok elements
  value : evaluatePostfix s.digits (some s.maxExponent) elements = .ok r.result
  words : ∀ t ∈ r.tokens, t.kind = .word → Operator.ofWord? (Phrase.lower t.lexeme) = none ∧
    NumberWord.ofSpelling? (Phrase.lower t.lexeme) = none

theorem Report.certified {s : Settings} {text : String} {r : Report} (made : Report.of s text = .ok r) :
    ∃ elements, Certified s r elements := by
  obtain ⟨i, taken, evaluated, _, texts, tokens⟩ := ofOk made
  obtain ⟨ordered, reads⟩ := takeInRecorded taken
  have unsigned := Yard.orderUnsigned ordered reads
  obtain ⟨t, order, _⟩ := Tree.treeOfEvaluated evaluated
  refine ⟨i.yard.output.toList, tokens ▸ ordered, texts.symm, ?_, evaluated, ?_⟩
  · rw [texts, ← order]
    exact t.readTexts (order ▸ unsigned)
  · rw [tokens, (takeInStream taken).2]
    exact Phrase.passedForeign #[] (munch text.toList)

theorem Report.certifiedLarge : ∃ r elements,
    Report.of .usual "Quintillion and quintillion * 0.50" = .ok r ∧
      r.postfixTexts = ["1.000000000000000000000000000E+36", "0.50", "*"] ∧
      Certified .usual r elements := by
  let r : Report := ⟨"Quintillion and quintillion * 0.50", .finite false 5000000000000000000000000000 8,
    "500000000000000000000000000000000000", ["1.000000000000000000000000000E+36", "0.50", "*"],
    [⟨.word, "and"⟩, ⟨.number, "1.000000000000000000000000000E+36"⟩, ⟨.operator, "*"⟩,
      ⟨.number, "0.50"⟩]⟩
  have made : Report.of .usual "Quintillion and quintillion * 0.50" = .ok r := by decide +kernel
  obtain ⟨elements, certified⟩ := Report.certified made
  exact ⟨r, elements, made, rfl, certified⟩

end Reckon

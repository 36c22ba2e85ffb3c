import Reckon.Proofs.Token.Resumed
/-! What is delivered when scans are taken up again after refusals. A number, an operator or a word is delivered
once more as it was; a parenthesis has been passed, and is still held. -/
namespace Reckon

namespace Delivery

structure Carries (d e : Delivery) : Prop where
  refused : d.refused = true
  group : d.token.kind.runs = false
  adjacent : e.position = d.position + 1
  groupToo : e.token.kind.runs = false

structure FitsAfter (last : Option Delivery) (e : Delivery) : Prop where
  fits : e.token.Fits ↔ ∀ d ∈ last, ¬ d.Carries e
  carried : ∀ d ∈ last, d.Carries e →
    ∃ a, CharClass.ofChar a = e.token.kind.own ∧ e.token.lexeme.toList = d.token.lexeme.toList ++ [a]

def AllFitAfter : Option Delivery → List Delivery → Prop
  | _, [] => True
  | last, e :: es => FitsAfter last e ∧ AllFitAfter (some e) es

theorem AllFitAfter.iff {last : Option Delivery} {es : List Delivery} (all : AllFitAfter last es) :
    (∀ e ∈ es, e.token.Fits) ↔ (last.toList ++ es).IsChain fun d e => ¬ d.Carries e := by
  induction es generalizing last with
  | nil => cases last <;> simp
  | cons e es ih =>
    obtain ⟨first, others⟩ := all
    rw [List.forall_mem_cons, first.fits, ih others]
    cases last <;> simp

def held (place : Nat) (d : Delivery) : List Char :=
  if d.refused = true ∧ d.token.kind.runs = false ∧ d.position = place then d.token.lexeme.toList else []

theorem heldCarried {d e : Delivery} (carries : d.Carries e) {place : Nat} (behind : e.position = place + 1) :
    held place d = d.token.lexeme.toList := by
  have same : d.position = place := Nat.succ_injective (carries.adjacent.symm.trans behind)
  exact if_pos ⟨carries.refused, carries.group, same⟩

theorem heldNone {d e : Delivery} (groupToo : e.token.kind.runs = false) (not : ¬ d.Carries e) {place : Nat}
    (behind : e.position = place + 1) : held place d = [] := by
  refine if_neg ?_
  rintro ⟨refused, group, rfl⟩
  exact not ⟨refused, group, behind, groupToo⟩

end Delivery

open Delivery

namespace Cursor

/- A cursor and the last delivery made on the way to it. Between tokens it holds what of that delivery is still
held at its place; within one, characters of its class. -/

structure Tidy (last : Option Delivery) (c : Cursor) : Prop where
  behind : ∀ d ∈ last, d.position ≤ c.position
  present : ∀ d ∈ last, d.token.lexeme.toList ≠ []
  between : c.mode = .between → c.pending.reverse = last.elim [] (held c.position)
  within : ∀ k : Kind, k.runs = true → c.mode = k.mode →
    (∀ a ∈ c.pending, CharClass.ofChar a = k.own) ∧ (c.pending = [] → CharClass.ofNext c.rest = k.own)

variable {last : Option Delivery} {c d : Cursor} {k : Kind} {row : List Stride}

theorem Tidy.single (tidy : Tidy last c) {a : Char} (mode : c.mode = .between) (single : k.runs = false)
    (own : CharClass.ofChar a = k.own) (refused : Bool) :
    FitsAfter last ⟨⟨k, String.ofList (a :: c.pending).reverse⟩, c.position + 1, refused⟩ := by
  have lexeme := tidy.between mode
  have alone (empty : c.pending.reverse = []) :
      Token.Fits ⟨k, String.ofList (a :: c.pending).reverse⟩ := by
    rw [List.reverse_cons, empty]
    exact Token.fitsSingle own
  cases last with
  | none => exact ⟨by simpa using alone lexeme, by simp⟩
  | some d =>
    by_cases carries : d.Carries ⟨⟨k, String.ofList (a :: c.pending).reverse⟩, c.position + 1, refused⟩
    · rw [Option.elim_some, heldCarried carries rfl] at lexeme
      have whole : (String.ofList (a :: c.pending).reverse).toList = d.token.lexeme.toList ++ [a] := by
        rw [String.toList_ofList, List.reverse_cons, lexeme]
      constructor
      · refine iff_of_false (fun fits => ?_) (fun not => not d rfl carries)
        have length := fits.single single
        rw [whole, List.length_append, List.length_singleton, Nat.add_eq_right, List.length_eq_zero_iff] at length
        exact tidy.present d rfl length
      · rintro _ ⟨⟩ _
        exact ⟨a, own, whole⟩
    · rw [Option.elim_some, heldNone single carries rfl] at lexeme
      constructor
      · exact iff_of_true (alone lexeme) (by rintro _ ⟨⟩; exact carries)
      · rintro _ ⟨⟩ other
        exact absurd other carries

theorem Tidy.runFits (tidy : Tidy last c) (runs : k.runs = true) (mode : c.mode = k.mode)
    (other : CharClass.ofNext c.rest ≠ k.own) : Token.Fits ⟨k, c.lexeme⟩ := by
  obtain ⟨own, next⟩ := tidy.within k runs mode
  exact Cursor.runFits runs own next other

theorem Tidy.run (tidy : Tidy last c) (runs : k.runs = true) (mode : c.mode = k.mode)
    (other : CharClass.ofNext c.rest ≠ k.own) (n : ℕ) (refused : Bool) :
    FitsAfter last ⟨⟨k, c.lexeme⟩, n, refused⟩ := by
  have apart (d : Delivery) : ¬ d.Carries ⟨⟨k, c.lexeme⟩, n, refused⟩ := fun carries =>
    absurd (carries.groupToo.symm.trans runs) Bool.false_ne_true
  exact ⟨iff_of_true (tidy.runFits runs mode other) fun d _ => apart d,
    fun d _ carries => absurd carries (apart d)⟩

theorem tidyClear {m : Mode} (outside : m = .between ∨ m = .finished) {n : ℕ}
    (behind : ∀ d ∈ last, d.position ≤ n) (present : ∀ d ∈ last, d.token.lexeme.toList ≠ [])
    (nothingHeld : ∀ d ∈ last, held n d = []) (rest : List Char) : Tidy last ⟨m, n, [], rest⟩ := by
  refine ⟨behind, present, fun _ => ?_, fun j runs same => ?_⟩
  · cases last with
    | none => rfl
    | some d => exact (nothingHeld d rfl).symm
  · obtain ⟨between, finished⟩ := runMode runs
    rcases outside with rfl | rfl
    · exact absurd same.symm between
    · exact absurd same.symm finished

theorem tidyWithin (runs : k.runs = true) {start : ℕ} {pending rest : List Char}
    (behind : ∀ d ∈ last, d.position ≤ start + pending.length)
    (present : ∀ d ∈ last, d.token.lexeme.toList ≠ []) (own : ∀ a ∈ pending, CharClass.ofChar a = k.own)
    (next : pending = [] → CharClass.ofNext rest = k.own) : Tidy last ⟨k.mode, start, pending, rest⟩ := by
  refine ⟨behind, present, fun between => absurd between (runMode runs).1, fun j others same => ?_⟩
  obtain rfl := runModeInjective runs others same
  exact ⟨own, next⟩

theorem tidyTaken {m : Mode} (outside : m = .between ∨ m = .finished) {t : Token}
    (present : t.lexeme.toList ≠ []) (n : ℕ) (rest : List Char) :
    Tidy (some ⟨t, n, false⟩) ⟨m, n, [], rest⟩ := by
  refine tidyClear outside ?_ ?_ ?_ rest
  · rintro _ ⟨⟩
    exact le_rfl
  · rintro _ ⟨⟩
    exact present
  · rintro _ ⟨⟩
    exact if_neg fun left => Bool.false_ne_true left.1

theorem tidyKept {t : Token} (single : t.kind.runs = false) {a : Char} {start : ℕ} {pending : List Char}
    (lexeme : t.lexeme.toList = (a :: pending).reverse) (rest : List Char) :
    Tidy (some ⟨t, start + (pending.length + 1), true⟩) ⟨.between, start, a :: pending, rest⟩ := by
  refine ⟨?_, ?_, fun _ => ?_, fun j runs same => absurd same.symm (runMode runs).1⟩
  · rintro _ ⟨⟩
    exact le_rfl
  · rintro _ ⟨⟩
    simp [lexeme]
  · exact lexeme.symm.trans (if_pos ⟨rfl, single, rfl⟩).symm

theorem heldBehind {e : Delivery} {place : ℕ} (behind : e.position < place) : held place e = [] :=
  if_neg fun left => behind.ne left.2.2

theorem Tidy.stride {stride : Stride} (tidy : Tidy last c) (goes : stride ∈ strides c.step) :
    (∀ e ∈ stride.handed, FitsAfter last e) ∧ Tidy (stride.handed.or last) stride.cursor := by
  have nothing : ∀ e ∈ (none : Option Delivery), FitsAfter last e := fun e member => nomatch member
  have handed {e : Delivery} (fits : FitsAfter last e) : ∀ d ∈ some e, FitsAfter last d := by
    rintro _ ⟨⟩
    exact fits
  cases strideCase goes with
  | stop =>
    refine ⟨nothing, tidy.behind, tidy.present, ?_, fun j runs same => absurd same.symm (runMode runs).2⟩
    intro between
    cases between
  | blank a rest mode here =>
    have behind (e : Delivery) (member : e ∈ last) : e.position < c.position + 1 :=
      Nat.lt_succ_of_le (tidy.behind e member)
    exact ⟨nothing, tidyClear (.inl rfl) (fun e member => (behind e member).le) tidy.present
      (fun e member => heldBehind (behind e member)) rest⟩
  | begin k runs next =>
    exact ⟨nothing, tidyWithin runs tidy.behind tidy.present (by simp) fun _ => next⟩
  | on k a rest runs mode here own =>
    refine ⟨nothing, tidyWithin runs (fun e member => (tidy.behind e member).trans (Nat.le_succ _)) tidy.present ?_
      fun empty => nomatch empty⟩
    exact List.forall_mem_cons.mpr ⟨own, (tidy.within k runs mode).1⟩
  | single k a rest single mode here own =>
    exact ⟨handed (tidy.single mode single own false), tidyTaken (.inl rfl) (by simp) _ rest⟩
  -- The cursor has passed the parenthesis that was refused, and still holds it.
  | singleRefused k a rest single mode here own =>
    exact ⟨handed (tidy.single mode single own true), tidyKept single String.toList_ofList rest⟩
  | run k runs mode other =>
    exact ⟨handed (tidy.run runs mode other c.position false),
      tidyTaken (modeAfterOutside c.rest) (tidy.runFits runs mode other).nonempty _ c.rest⟩
  | runRefused k runs mode other =>
    refine ⟨handed (tidy.run runs mode other c.position true), ?_, ?_,
      fun between => absurd (mode.symm.trans between) (runMode runs).1, tidy.within⟩
    · rintro _ ⟨⟩
      exact le_rfl
    · rintro _ ⟨⟩
      exact (tidy.runFits runs mode other).nonempty

theorem Path.fits (path : Path c row d) (tidy : Tidy last c) : AllFitAfter last (deliveries row) := by
  induction path generalizing last with
  | done => trivial
  | @next c d stride more goes rest ih =>
    obtain ⟨fits, tidy⟩ := tidy.stride goes
    obtain ⟨handed, cursor⟩ := stride
    cases handed with
    | none => exact ih tidy
    | some e => exact ⟨fits e rfl, ih tidy⟩

/-- However often a text has been scanned and whatever has been refused, the first token delivered fits its kind,
and so does every other, unless it is a parenthesis right behind one that was refused just before: that one is
delivered with it, in front. So all tokens fit exactly if no delivery carries over into the next. -/
theorem deliveredFits {text : String} (resumed : Resumed (ofText text) row c) :
    AllFitAfter none (deliveries row) ∧
      ((∀ e ∈ deliveries row, e.token.Fits) ↔ (deliveries row).IsChain fun d e => ¬ d.Carries e) := by
  have tidy : Tidy none (ofText text) :=
    tidyClear (.inl rfl) (by simp) (by simp) (by simp) text.toList
  have all := resumed.path.fits tidy
  exact ⟨all, all.iff⟩

theorem deliveredFitsTwice : ∃ row c, Resumed (ofText "7(") row c ∧
    deliveries row = [⟨⟨.number, "7"⟩, 1, true⟩, ⟨⟨.number, "7"⟩, 1, false⟩, ⟨⟨.openParen, "("⟩, 2, true⟩] ∧
      ∀ e ∈ deliveries row, e.token.Fits := by
  let receive (n : Nat) (_ : Token) : Nat × Option Unit := (n + 1, if n = 1 then none else some ())
  have mark : (ofText "7(").step = .moved ⟨.number, 0, [], ['7', '(']⟩ := by decide
  have digit : step ⟨.number, 0, [], ['7', '(']⟩ = .moved ⟨.number, 0, ['7'], ['(']⟩ := by decide
  have seven : step ⟨.number, 0, ['7'], ['(']⟩ =
      .delivers ⟨.number, "7"⟩ ⟨.number, 0, ['7'], ['(']⟩ ⟨.between, 1, [], ['(']⟩ := by decide
  have group : step ⟨.between, 1, [], ['(']⟩ =
      .delivers ⟨.openParen, "("⟩ ⟨.between, 1, ['('], []⟩ ⟨.between, 2, [], []⟩ := by decide
  have first : Strides receive (ofText "7(") 0 _ _ := .moved mark (.moved digit (.refused seven rfl))
  have second : Strides receive ⟨.number, 0, ['7'], ['(']⟩ 1 _ _ := .taken seven rfl (.refused group rfl)
  have resumed := (Resumed.again (.start _) first).again second
  refine ⟨_, _, resumed, rfl, (deliveredFits resumed).2.mpr ?_⟩
  have same : ¬ Carries ⟨⟨.number, "7"⟩, 1, true⟩ ⟨⟨.number, "7"⟩, 1, false⟩ := fun carries => nomatch carries.group
  have taken : ¬ Carries ⟨⟨.number, "7"⟩, 1, false⟩ ⟨⟨.openParen, "("⟩, 2, true⟩ := fun carries =>
    nomatch carries.refused
  exact .cons_cons same (.cons_cons taken (.singleton _))

/- A closing parenthesis that is refused, and an opening one right behind it: the second scan delivers the two of
them as one opening parenthesis. -/

theorem deliveredTogether : ∃ row c, Resumed (ofText ")(") row c ∧
    deliveries row = [⟨⟨.closeParen, ")"⟩, 1, true⟩, ⟨⟨.openParen, ")("⟩, 2, false⟩] ∧
      ¬ ∀ e ∈ deliveries row, e.token.Fits := by
  let receive (first : Bool) (_ : Token) : Bool × Option Unit := (false, if first then some () else none)
  have close : (ofText ")(").step =
      .delivers ⟨.closeParen, ")"⟩ ⟨.between, 0, [')'], ['(']⟩ ⟨.between, 1, [], ['(']⟩ := by decide
  have both : step ⟨.between, 0, [')'], ['(']⟩ =
      .delivers ⟨.openParen, ")("⟩ ⟨.between, 0, ['(', ')'], []⟩ ⟨.between, 2, [], []⟩ := by decide
  have ended : step ⟨.between, 2, [], []⟩ = .finished ⟨.finished, 2, [], []⟩ := by decide
  have first : Strides receive (ofText ")(") true _ _ := .refused close rfl
  have second : Strides receive ⟨.between, 0, [')'], ['(']⟩ false _ _ := .taken both rfl (.finished ended)
  refine ⟨_, _, (Resumed.again (.start _) first).again second, rfl, fun fits => ?_⟩
  have single := (fits ⟨⟨.openParen, ")("⟩, 2, false⟩ (.tail _ (.head _))).single rfl
  exact absurd single (by decide)

end Cursor
end Reckon

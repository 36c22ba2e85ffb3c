import Mathlib.Data.List.SplitBy
import Mathlib.Data.List.TakeWhile
import Reckon.Proofs.Token.Delivered
/-! The tokens of a text by longest match: the text is cut wherever two neighbours are not of one token.
A scan delivers these tokens and no others, up to the first character that has no class. -/
namespace Reckon
open Text

namespace CharClass

def kind? : CharClass → Option Kind
  | digit => some .number
  | letter => some .word
  | operator => some .operator
  | openParen => some .openParen
  | closeParen => some .closeParen
  | blank | endOfText | unrecognized => none

theorem kindOwn (k : Kind) : k.own.kind? = some k := by cases k <;> rfl

theorem ownNotBlank (k : Kind) : k.own ≠ blank := by cases k <;> decide

theorem ownNotEnd (k : Kind) : k.own ≠ endOfText := by cases k <;> decide

theorem ownNotUnrecognized (k : Kind) : k.own ≠ unrecognized := by cases k <;> decide

def together (a b : Char) : Bool :=
  (ofChar a).kind?.any Kind.runs && decide (ofChar a = ofChar b)

theorem togetherOwn {k : Kind} {a : Char} (own : ofChar a = k.own) (b : Char) :
    together a b = true ↔ k.runs = true ∧ ofChar b = k.own := by
  rw [together, own, kindOwn, Option.any_some, Bool.and_eq_true, decide_eq_true_eq, eq_comm (a := k.own)]

end CharClass

open CharClass

namespace Token

def ofRow? : List Char → Option Token
  | [] => none
  | c :: row => (ofChar c).kind?.map fun k => ⟨k, String.ofList (c :: row)⟩

def munch (text : List Char) : List Token := (text.splitBy together).filterMap ofRow?

theorem munchAppend {s t : List Char}
    (apart : ∀ a ∈ s.getLast?, ∀ b ∈ t.head?, together a b = false) :
    munch (s ++ t) = munch s ++ munch t := by
  unfold munch
  rw [List.splitBy_append apart, List.filterMap_append]

theorem munchBlank {c : Char} (blank : isBlank c = true) (text : List Char) :
    munch (c :: text) = munch text := by
  have alone : munch [c] = [] := by
    show [[c]].filterMap ofRow? = []
    simp [ofRow?, classOfBlank blank, kind?]
  have cut : munch ([c] ++ text) = munch [c] ++ munch text := by
    apply munchAppend
    intro a atLast b _
    cases Option.mem_some.mp atLast
    simp [together, classOfBlank blank, kind?]
  rw [← List.singleton_append, cut, alone, List.nil_append]

theorem munchBlanks {gap : List Char} (blank : ∀ c ∈ gap, isBlank c = true) (text : List Char) :
    munch (gap ++ text) = munch text := by
  induction gap with
  | nil => rfl
  | cons c gap ih =>
    rw [List.cons_append, munchBlank (blank c List.mem_cons_self),
      ih fun d member => blank d (List.mem_cons_of_mem _ member)]

theorem munchFits {t : Token} (fits : t.Fits) {text : List Char}
    (longest : t.kind.runs = true → ofNext text ≠ t.kind.own) :
    munch (t.lexeme.toList ++ text) = t :: munch text := by
  obtain ⟨kind, lexeme⟩ := t
  obtain ⟨nonempty, own, single⟩ := fits
  simp only at nonempty own single longest
  have chain : lexeme.toList.IsChain (fun a b => together a b = true) := by
    cases runs : kind.runs with
    | false =>
      obtain ⟨c, alone⟩ := List.length_eq_one_iff.mp (single runs)
      rw [alone]
      exact List.isChain_singleton c
    | true =>
      apply (List.pairwise_of_forall_mem_list _).isChain
      intro a first b second
      exact (togetherOwn (own a first) b).mpr ⟨runs, own b second⟩
  have alone : munch lexeme.toList = [⟨kind, lexeme⟩] := by
    unfold munch
    rw [List.splitBy_of_isChain nonempty chain]
    obtain ⟨c, row, whole⟩ := List.exists_cons_of_ne_nil nonempty
    have back : String.ofList (c :: row) = lexeme := by rw [← whole, String.ofList_toList]
    simp [whole, ofRow?, own c (by simp [whole]), kindOwn, back]
  rw [munchAppend, alone, List.singleton_append]
  intro a atLast b atHead
  obtain ⟨more, rfl⟩ := List.head?_eq_some_iff.mp atHead
  rw [Bool.eq_false_iff, Ne, togetherOwn (own a (List.mem_of_getLast? atLast))]
  rintro ⟨runs, same⟩
  exact longest runs same

end Token

open Token

inductive Munched : List Char → List Token → List Char → Prop where
  | done {rest : List Char} (stops : ∀ c ∈ rest.head?, ofChar c = .unrecognized) : Munched rest [] rest
  | blank {c : Char} {text rest : List Char} {ts : List Token} (blank : isBlank c = true)
      (more : Munched text ts rest) : Munched (c :: text) ts rest
  | token {t : Token} {text rest : List Char} {ts : List Token} (fits : t.Fits)
      (longest : t.kind.runs = true → ofNext text ≠ t.kind.own) (more : Munched text ts rest) :
      Munched (t.lexeme.toList ++ text) (t :: ts) rest

theorem nextNotOwn {k : Kind} (text : List Char) :
    ofNext (text.dropWhile (fun a => ofChar a = k.own)) ≠ k.own := by
  cases left : text.dropWhile (fun a => ofChar a = k.own) with
  | nil => exact (ownNotEnd k).symm
  | cons a more =>
    have head := List.head?_dropWhile_not (fun a => decide (ofChar a = k.own)) text
    rw [left] at head
    simpa [ofNext] using head

theorem firstToken {k : Kind} {c : Char} (own : ofChar c = k.own) (text : List Char) :
    ∃ (t : Token) (more : List Char), c :: text = t.lexeme.toList ++ more ∧ t.Fits ∧
      (t.kind.runs = true → ofNext more ≠ t.kind.own) := by
  cases runs : k.runs with
  | false =>
    refine ⟨⟨k, String.ofList [c]⟩, text, by simp, fitsSingle own, ?_⟩
    intro other
    exact absurd (runs.symm.trans other) Bool.false_ne_true
  | true =>
    let row := text.takeWhile (fun a => ofChar a = k.own)
    let t : Token := ⟨k, String.ofList (c :: row)⟩
    have fits : t.Fits := by
      refine ⟨by simp [t], ?_, fun single => absurd (single.symm.trans runs) Bool.false_ne_true⟩
      intro a member
      rw [String.toList_ofList, List.mem_cons] at member
      rcases member with rfl | inside
      · exact own
      · simpa using List.mem_takeWhile_imp inside
    refine ⟨t, text.dropWhile (fun a => ofChar a = k.own), ?_, fits, fun _ => nextNotOwn text⟩
    rw [String.toList_ofList, List.cons_append, List.takeWhile_append_dropWhile]

def Readable (text : List Char) : Prop := ∀ c ∈ text, ofChar c ≠ .unrecognized

theorem munchedReadable {text rest : List Char} (readable : Readable text)
    (stops : ∀ c ∈ rest.head?, ofChar c = .unrecognized) : Munched (text ++ rest) (munch text) rest := by
  match text with
  | [] => exact .done stops
  | c :: tail =>
    rcases Cursor.classCases c with blank | ⟨k, own⟩ | unknown
    · have others : Readable tail := fun a member => readable a (List.mem_cons_of_mem _ member)
      rw [munchBlank blank, List.cons_append]
      exact .blank blank (munchedReadable others stops)
    · obtain ⟨t, more, whole, fits, longest⟩ := firstToken own tail
      have others : Readable more := fun a member => readable a (by simp [whole, member])
      have shorter : more.length < (c :: tail).length := by
        have long := List.length_pos_of_ne_nil fits.nonempty
        rw [whole, List.length_append]
        omega
      -- What follows the whole text carries no token on.
      have still : t.kind.runs = true → ofNext (more ++ rest) ≠ t.kind.own := by
        intro runs
        cases more with
        | cons a more => exact longest runs
        | nil =>
          cases rest with
          | nil => exact longest runs
          | cons a rest =>
            show ofChar a ≠ t.kind.own
            rw [stops a rfl]
            exact (ownNotUnrecognized _).symm
      rw [whole, munchFits fits longest, List.append_assoc]
      exact .token fits still (munchedReadable others stops)
    · exact absurd unknown (readable c List.mem_cons_self)
termination_by text.length
decreasing_by
  · exact Nat.lt_succ_self tail.length
  · exact shorter

theorem blankReadable {c : Char} (blank : isBlank c = true) : ofChar c ≠ .unrecognized := by
  rw [classOfBlank blank]
  decide

theorem fitsReadable {t : Token} (fits : t.Fits) : Readable t.lexeme.toList := by
  intro c member
  rw [fits.own c member]
  exact ownNotUnrecognized t.kind

theorem Spaced.readable {ts : List Token} {text : List Char} (spaced : Spaced ts text) :
    Readable text := by
  induction spaced with
  | done blank => exact fun c member => blankReadable (blank c member)
  | next blank fits apart more ih =>
    intro c member
    rw [List.mem_append, List.mem_append] at member
    rcases member with inGap | inToken | inRest
    · exact blankReadable (blank c inGap)
    · exact fitsReadable fits c inToken
    · exact ih c inRest

theorem Spaced.munch {ts : List Token} {text : List Char} (spaced : Spaced ts text) :
    Token.munch text = ts := by
  induction spaced with
  | @done gap blank =>
    have all := munchBlanks blank []
    rwa [List.append_nil] at all
  | @next gap rest t ts blank fits apart more ih =>
    have longest : t.kind.runs = true → ofNext rest ≠ t.kind.own := by
      intro _
      cases rest with
      | nil => exact (ownNotEnd _).symm
      | cons c rest =>
        show ofChar c ≠ t.kind.own
        rw [classOfBlank (apart c rfl)]
        exact (ownNotBlank _).symm
    rw [munchBlanks blank, munchFits fits longest, ih]

theorem Token.munchParted {w : Char} (blank : isBlank w = true) (before after : List Char) :
    munch (before ++ w :: after) = munch before ++ munch after := by
  rw [munchAppend, munchBlank blank]
  intro a _ b atHead
  cases Option.mem_some.mp atHead
  cases joined : together a w with
  | false => rfl
  | true =>
    rw [together, Bool.and_eq_true, decide_eq_true_eq, classOfBlank blank] at joined
    simp [joined.2, kind?] at joined

theorem Token.readableParted {w : Char} (blank : isBlank w = true) {before after : List Char}
    (first : Readable before) (last : Readable after) : Readable (before ++ w :: after) := by
  intro c member
  rcases List.mem_append.mp member with inside | member
  · exact first c inside
  · rcases List.mem_cons.mp member with rfl | inside
    · exact blankReadable blank
    · exact last c inside

theorem Token.joinedIntercalate (ts : List Token) :
    (" ".intercalate (ts.map (·.lexeme))).toList = joined ts := by
  rw [String.toList_intercalate]
  induction ts with
  | nil => rfl
  | cons t ts ih =>
    cases ts with
    | nil => simp [joined]
    | cons u ts =>
      simp only [List.map_cons, List.intercalate_cons_cons, joined] at ih ⊢
      rw [ih]
      simp

theorem readableCut (text : List Char) : ∃ before rest, text = before ++ rest ∧ Readable before ∧
    ∀ a ∈ rest.head?, ofChar a = .unrecognized := by
  let known (a : Char) : Bool := ofChar a ≠ .unrecognized
  refine ⟨text.takeWhile known, text.dropWhile known, List.takeWhile_append_dropWhile.symm, ?_, ?_⟩
  · intro a member
    simpa [known] using List.mem_takeWhile_imp member
  · intro a atHead
    have stops := List.head?_dropWhile_not known text
    rw [Option.mem_def.mp atHead] at stops
    simpa [known] using stops

theorem Munched.fits {text rest : List Char} {ts : List Token} (munched : Munched text ts rest) :
    ∀ t ∈ ts, t.Fits := by
  induction munched with
  | done => exact fun t member => nomatch member
  | blank blank more ih => exact ih
  | token fits longest more ih => exact List.forall_mem_cons.mpr ⟨fits, ih⟩

theorem endStops : ∀ a ∈ ([] : List Char).head?, ofChar a = .unrecognized := fun _ atHead => nomatch atHead

theorem munchedWhole {text : List Char} (readable : Readable text) : Munched text (munch text) [] := by
  have munched := munchedReadable readable endStops
  rwa [List.append_nil] at munched

theorem munchedLexemes {text rest : List Char} {ts : List Token} (munched : Munched text ts rest) :
    ts.flatMap (·.lexeme.toList) ++ rest.filter (fun c => !isBlank c) =
      text.filter (fun c => !isBlank c) := by
  induction munched with
  | done => rfl
  | blank blank more ih => simpa [blank] using ih
  | @token t text rest ts fits longest more ih =>
    have kept : t.lexeme.toList.filter (fun c => !isBlank c) = t.lexeme.toList := by
      rw [List.filter_eq_self]
      intro c member
      rw [Bool.not_eq_true', Bool.eq_false_iff]
      intro blank
      exact ownNotBlank t.kind ((fits.own c member).symm.trans (classOfBlank blank))
    rw [List.flatMap_cons, List.append_assoc, ih, List.filter_append, kept]

def Scanned.told {σ ε : Type} (scanned : Scanned σ ε) : σ × Option (Halt ε) := (scanned.receiver, scanned.halt)

namespace Cursor

inductive Passes : Cursor → List Token → Cursor → Prop where
  | done (c : Cursor) : Passes c [] c
  | moves {c c' d : Cursor} {ts : List Token} (step : c.step = .moved c') (more : Passes c' ts d) :
      Passes c ts d
  | delivers {c refused accepted d : Cursor} {t : Token} {ts : List Token}
      (step : c.step = .delivers t refused accepted) (more : Passes accepted ts d) :
      Passes c (t :: ts) d

section
variable {σ ε : Type} {receive : σ → Token → σ × Option ε} {c d : Cursor} {ts : List Token}

theorem scanPasses (passes : c.Passes ts d) {s s' : σ} (taken : feed receive s ts = (s', none)) :
    c.scan receive s = d.scan receive s' := by
  induction passes generalizing s with
  | done =>
    cases taken
    rfl
  | moves step more ih => rw [scanMoved step, ih taken]
  | delivers step more ih =>
    obtain ⟨between, first, rest⟩ := feedCons taken
    rw [scanTaken step first, ih rest]

theorem scanPassesRefused (passes : c.Passes ts d) {s s' : σ} {reason : ε}
    (refused : feed receive s ts = (s', some reason)) :
    ∃ back, c.scan receive s = ⟨back, s', some (.refused reason)⟩ := by
  induction passes generalizing s with
  | done => cases refused
  | moves step more ih =>
    rw [scanMoved step]
    exact ih refused
  | @delivers c back accepted d t ts step more ih =>
    cases first : receive s t with
    | mk between answer =>
      cases answer with
      | none =>
        rw [feedTaken first] at refused
        rw [scanTaken step first]
        exact ih refused
      | some other =>
        rw [feedRefused first] at refused
        cases refused
        exact ⟨back, scanRefused step first⟩

end

theorem Passes.append {c d e : Cursor} {ts us : List Token} (first : c.Passes ts d)
    (second : d.Passes us e) : c.Passes (ts ++ us) e := by
  induction first with
  | done => exact second
  | moves step more ih => exact .moves step (ih second)
  | delivers step more ih => exact .delivers step (ih second)

theorem passesRun {k : Kind} (runs : k.runs = true) {start : Nat} {row pending rest : List Char}
    (own : ∀ a ∈ row, ofChar a = k.own) :
    Passes ⟨k.mode, start, pending, row ++ rest⟩ [] ⟨k.mode, start, row.reverse ++ pending, rest⟩ := by
  induction row generalizing pending with
  | nil => exact .done _
  | cons a row ih =>
    rw [List.reverse_cons, List.append_assoc]
    exact .moves (stepOn runs (own a List.mem_cons_self))
      (ih fun b member => own b (List.mem_cons_of_mem _ member))

theorem passesToken {t : Token} (fits : t.Fits) {rest : List Char}
    (longest : t.kind.runs = true → ofNext rest ≠ t.kind.own) (start : Nat) :
    ∃ d, Passes ⟨.between, start, [], t.lexeme.toList ++ rest⟩ [t] d ∧ d.Ready ∧ d.rest = rest ∧
      d.start = start + t.lexeme.toList.length := by
  obtain ⟨kind, lexeme⟩ := t
  obtain ⟨nonempty, own, single⟩ := fits
  simp only at nonempty own single longest ⊢
  cases runs : kind.runs with
  | false =>
    obtain ⟨a, alone⟩ := List.length_eq_one_iff.mp (single runs)
    have back : String.ofList [a] = lexeme := by rw [← alone, String.ofList_toList]
    rw [alone] at own ⊢
    have step : Cursor.step ⟨.between, start, [], a :: rest⟩ = _ :=
      stepSingle runs (own a (List.mem_singleton.mpr rfl))
    rw [back] at step
    exact ⟨_, .delivers step (.done _), ⟨rfl, .inl rfl⟩, rfl, rfl⟩
  | true =>
    obtain ⟨a, row, whole⟩ := List.exists_cons_of_ne_nil nonempty
    have begun : Cursor.step ⟨.between, start, [], a :: (row ++ rest)⟩ = _ :=
      stepStart runs (own a (by simp [whole]))
    have ran : Passes ⟨kind.mode, start, [], lexeme.toList ++ rest⟩ [] _ := passesRun runs own
    have ended : Cursor.step ⟨kind.mode, start, lexeme.toList.reverse, rest⟩ = _ :=
      stepEnd runs (longest runs)
    rw [List.reverse_reverse, String.ofList_toList] at ended
    rw [whole, List.cons_append] at ran ⊢
    rw [List.append_nil, ← whole] at ran
    exact ⟨_, .moves begun (ran.append (.delivers ended (.done _))), ⟨rfl, .inr rfl⟩, rfl, by simp [whole]⟩

theorem passesMunched {text rest : List Char} {ts : List Token} (munched : Munched text ts rest)
    {c : Cursor} (ready : c.Ready) (here : c.rest = text) :
    ∃ d, c.Passes ts d ∧ d.Ready ∧ d.rest = rest ∧ d.start + rest.length = c.start + text.length := by
  induction munched generalizing c with
  | done => exact ⟨c, .done c, ready, here, rfl⟩
  | @blank a text rest ts blank more ih =>
    obtain ⟨d, passes, ended, left, place⟩ :=
      ih (c := ⟨.between, c.start + 1, [], text⟩) ⟨rfl, .inl rfl⟩ rfl
    rw [readyBetween ready (by simp [here]), here]
    refine ⟨d, .moves (stepBlank blank) passes, ended, left, ?_⟩
    rw [place, List.length_cons, Nat.add_right_comm, Nat.add_assoc]
  | @token t text rest ts fits longest more ih =>
    obtain ⟨between, first, ready', here', place'⟩ := passesToken fits longest c.start
    obtain ⟨d, passes, ended, left, place⟩ := ih ready' here'
    rw [readyBetween ready (by simp [here, fits.nonempty]), here]
    refine ⟨d, first.append passes, ended, left, ?_⟩
    rw [place, place', List.length_append, Nat.add_assoc]

section
variable {σ ε : Type} {receive : σ → Token → σ × Option ε} {c : Cursor} {s : σ}

theorem scanReadyEnd (ready : c.Ready) (ended : c.rest = []) :
    c.scan receive s = ⟨⟨.finished, c.start, [], []⟩, s, none⟩ := by
  obtain ⟨mode, start, pending, rest⟩ := c
  obtain ⟨noPending, between | finished⟩ := ready
  · obtain rfl : mode = .between := between
    obtain rfl : pending = [] := noPending
    obtain rfl : rest = [] := ended
    rw [scanFinished rfl]
  · obtain rfl : rest = [] := ended
    obtain rfl : mode = .finished := finished
    obtain rfl : pending = [] := noPending
    rw [scanFinished rfl]

theorem scanReadyUnknown {a : Char} {after : List Char} (ready : c.Ready) (here : c.rest = a :: after)
    (unknown : ofChar a = .unrecognized) :
    c.scan receive s = ⟨⟨.between, c.start, [], a :: after⟩, s, some (.unrecognized a c.start)⟩ := by
  rw [readyBetween ready (by simp [here]), here]
  apply scanUnrecognized
  simp [step, transition, ofNext, unknown, fromBetween, position]

def stopped (n : Nat) (s : σ) : List Char → Scanned σ ε
  | [] => ⟨⟨.finished, n, [], []⟩, s, none⟩
  | a :: after => ⟨⟨.between, n, [], a :: after⟩, s, some (.unrecognized a n)⟩

end

theorem passesText {text : String} {before rest : List Char} (whole : text.toList = before ++ rest)
    (readable : Readable before) (stops : ∀ a ∈ rest.head?, ofChar a = .unrecognized) :
    ∃ d, (ofText text).Passes (munch before) d ∧
      ∀ {σ ε : Type} (receive : σ → Token → σ × Option ε) (s : σ),
        d.scan receive s = stopped before.length s rest := by
  have munched := munchedReadable readable stops
  obtain ⟨d, passes, ready, left, place⟩ := passesMunched munched (c := ofText text) ⟨rfl, .inl rfl⟩ whole
  have begun : (ofText text).start = 0 := rfl
  have start : d.start = before.length := by
    rw [List.length_append] at place
    omega
  refine ⟨d, passes, fun receive s => ?_⟩
  rw [← start]
  cases rest with
  | nil => exact scanReadyEnd ready left
  | cons a after => exact scanReadyUnknown ready left (stops a rfl)

section
variable {σ ε : Type} (receive : σ → Token → σ × Option ε) (state : σ)

def toldBy (position : Nat) (rest : List Char) (fed : σ × Option ε) : σ × Option (Halt ε) :=
  (fed.1, fed.2.elim (rest.head?.map (Halt.unrecognized · position)) fun reason => some (.refused reason))

theorem scanTold {text : String} {before rest : List Char} (whole : text.toList = before ++ rest)
    (readable : Readable before) (stops : ∀ a ∈ rest.head?, ofChar a = .unrecognized) :
    ((ofText text).scan receive state).told = toldBy before.length rest (feed receive state (munch before)) := by
  obtain ⟨d, passes, ends⟩ := passesText whole readable stops
  cases fed : feed receive state (munch before) with
  | mk s answer =>
    cases answer with
    | some reason =>
      obtain ⟨back, refused⟩ := scanPassesRefused passes fed
      rw [refused]
      rfl
    | none =>
      rw [scanPasses passes fed, ends]
      cases rest <;> rfl

end

def taking {σ : Type} (take : σ → Token → σ) (s : σ) (t : Token) : σ × Option Refusal := (take s t, none)

theorem feedTaking {σ : Type} (take : σ → Token → σ) (s : σ) (ts : List Token) :
    feed (taking take) s ts = (ts.foldl take s, none) := by
  induction ts generalizing s with
  | nil => rfl
  | cons t ts ih => exact ih (take s t)

/-- A receiver that refuses nothing is handed the tokens of the text by longest match, and the scan ends
behind the last character. If there are characters without a class it is handed the tokens before the
first of these, and it is this character, with its position, that the scan is refused for. -/
theorem scanDeliversLongest {σ : Type} (take : σ → Token → σ) (s : σ) (text : String) :
    (Readable text.toList →
      (ofText text).scan (taking take) s =
          ⟨⟨.finished, text.length, [], []⟩, (munch text.toList).foldl take s, none⟩ ∧
        (munch text.toList).flatMap (·.lexeme.toList) = text.toList.filter (fun c => !isBlank c)) ∧
    ∀ before a after, text.toList = before ++ a :: after → Readable before →
      ofChar a = .unrecognized →
      ((ofText text).scan (taking take) s).receiver = (munch before).foldl take s ∧
        ∃ r, ((ofText text).scan (taking take) s).halt.map Halt.refusal = some r ∧
          r.category = .invalidInput ∧
          r.details = [("character", .text a.toString), ("position", .number before.length)] := by
  constructor
  · intro readable
    obtain ⟨d, passes, ends⟩ := passesText (List.append_nil _).symm readable endStops
    constructor
    · rw [scanPasses passes (feedTaking take s _), ends, String.length_toList]
      rfl
    · simpa using munchedLexemes (munchedWhole readable)
  · intro before a after whole readable unknown
    obtain ⟨d, passes, ends⟩ := passesText whole readable fun b atHead => by
      cases Option.mem_some.mp atHead
      exact unknown
    rw [scanPasses passes (feedTaking take s _), ends]
    exact ⟨rfl, _, rfl, rfl, rfl⟩

end Cursor
end Reckon

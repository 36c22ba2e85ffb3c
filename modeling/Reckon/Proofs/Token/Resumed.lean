import Mathlib.Data.List.Chain
import Reckon.Proofs.Token.Delivered
/-! Scans stride by stride, and scans taken up again. Each scan has a receiver of its own, that may refuse any
token; the next one goes on from the cursor that the last one left. -/
namespace Reckon
open Text

structure Delivery where
  token : Token
  position : Nat
  refused : Bool
  deriving DecidableEq, Repr

structure Stride where
  handed : Option Delivery
  cursor : Cursor
  deriving DecidableEq, Repr

def deliveries (strides : List Stride) : List Delivery := strides.filterMap Stride.handed

namespace Cursor

inductive Strides {σ ε : Type} (receive : σ → Token → σ × Option ε) :
    Cursor → σ → List Stride → Scanned σ ε → Prop where
  | finished {c d : Cursor} {s : σ} (step : c.step = .finished d) :
      Strides receive c s [⟨none, d⟩] ⟨d, s, none⟩
  | unrecognized {c : Cursor} {s : σ} {a : Char} {n : Nat} (step : c.step = .unrecognized a n) :
      Strides receive c s [] ⟨c, s, some (.unrecognized a n)⟩
  | refused {c back on : Cursor} {s s' : σ} {t : Token} {reason : ε} (step : c.step = .delivers t back on)
      (answer : receive s t = (s', some reason)) :
      Strides receive c s [⟨some ⟨t, back.position, true⟩, back⟩] ⟨back, s', some (.refused reason)⟩
  | moved {c d : Cursor} {s : σ} {more : List Stride} {scanned : Scanned σ ε} (step : c.step = .moved d)
      (rest : Strides receive d s more scanned) : Strides receive c s (⟨none, d⟩ :: more) scanned
  | taken {c back on : Cursor} {s s' : σ} {t : Token} {more : List Stride} {scanned : Scanned σ ε}
      (step : c.step = .delivers t back on) (answer : receive s t = (s', none))
      (rest : Strides receive on s' more scanned) :
      Strides receive c s (⟨some ⟨t, back.position, false⟩, on⟩ :: more) scanned

inductive Resumed : Cursor → List Stride → Cursor → Prop where
  | start (c : Cursor) : Resumed c [] c
  | again {σ ε : Type} {receive : σ → Token → σ × Option ε} {s : σ} {c d : Cursor}
      {before strides : List Stride} {scanned : Scanned σ ε} (earlier : Resumed c before d)
      (scan : Strides receive d s strides scanned) : Resumed c (before ++ strides) scanned.cursor

section
variable {σ ε : Type} {receive : σ → Token → σ × Option ε} {c : Cursor} {s : σ} {strides : List Stride}
  {scanned : Scanned σ ε}

theorem stridesOfScan (receive : σ → Token → σ × Option ε) (c : Cursor) (s : σ) :
    ∃ strides, Strides receive c s strides (c.scan receive s) := by
  induction c, s using Cursor.scan.induct receive with
  | case1 c s d step =>
    rw [scanFinished step]
    exact ⟨_, .finished step⟩
  | case2 c s d step ih =>
    obtain ⟨more, rest⟩ := ih
    rw [scanMoved step]
    exact ⟨_, .moved step rest⟩
  | case3 c s t back on step s' reason answer =>
    rw [scanRefused step answer]
    exact ⟨_, .refused step answer⟩
  | case4 c s t back on step s' answer ih =>
    obtain ⟨more, rest⟩ := ih
    rw [scanTaken step answer]
    exact ⟨_, .taken step answer rest⟩
  | case5 c s a n step =>
    rw [scanUnrecognized step]
    exact ⟨_, .unrecognized step⟩

theorem Strides.unique {others : List Stride} {scannedToo : Scanned σ ε}
    (first : Strides receive c s strides scanned) (second : Strides receive c s others scannedToo) :
    strides = others ∧ scanned = scannedToo := by
  induction first generalizing others scannedToo with
  | finished step | unrecognized step => cases second <;> simp_all
  | refused step answer => cases second <;> simp_all
  | moved step rest ih =>
    cases second with
    | moved stepToo restToo =>
      cases step.symm.trans stepToo
      obtain ⟨rfl, rfl⟩ := ih restToo
      exact ⟨rfl, rfl⟩
    | _ => simp_all
  | taken step answer rest ih =>
    cases second with
    | taken stepToo answerToo restToo =>
      cases step.symm.trans stepToo
      cases answer.symm.trans answerToo
      obtain ⟨rfl, rfl⟩ := ih restToo
      exact ⟨rfl, rfl⟩
    | _ => simp_all

theorem weightAtMost (c : Cursor) : c.weight ≤ 3 * c.rest.length + 2 :=
  Nat.add_le_add_left (modeWeightLe c.mode (CharClass.ofNext c.rest)) _

theorem Strides.few (scan : Strides receive c s strides scanned) : strides.length ≤ c.weight + 1 := by
  induction scan with
  | finished | unrecognized | refused => simp
  | moved step rest ih =>
    have less := stepMoved step
    rw [List.length_cons]
    omega
  | taken step answer rest ih =>
    have less := stepDelivers step
    rw [List.length_cons]
    omega

end

inductive StepCase (c : Cursor) : Prop where
  | stop (step : c.step = .finished ⟨.finished, c.start, c.pending, c.rest⟩)
  | blank (a : Char) (rest : List Char) (mode : c.mode = .between) (here : c.rest = a :: rest)
      (step : c.step = .moved ⟨.between, c.position + 1, [], rest⟩)
  | begin (k : Kind) (runs : k.runs = true) (mode : c.mode = .between) (next : CharClass.ofNext c.rest = k.own)
      (step : c.step = .moved ⟨k.mode, c.position, [], c.rest⟩)
  | on (k : Kind) (a : Char) (rest : List Char) (runs : k.runs = true) (mode : c.mode = k.mode)
      (here : c.rest = a :: rest) (own : CharClass.ofChar a = k.own)
      (step : c.step = .moved ⟨k.mode, c.start, a :: c.pending, rest⟩)
  | single (k : Kind) (a : Char) (rest : List Char) (single : k.runs = false) (mode : c.mode = .between)
      (here : c.rest = a :: rest) (own : CharClass.ofChar a = k.own)
      (step : c.step = .delivers ⟨k, String.ofList (a :: c.pending).reverse⟩
        ⟨.between, c.start, a :: c.pending, rest⟩ ⟨.between, c.position + 1, [], rest⟩)
  | run (k : Kind) (runs : k.runs = true) (mode : c.mode = k.mode) (other : CharClass.ofNext c.rest ≠ k.own)
      (step : c.step = .delivers ⟨k, c.lexeme⟩ c ⟨modeAfter c.rest, c.position, [], c.rest⟩)
  | unrecognized (a : Char) (rest : List Char) (here : c.rest = a :: rest)
      (unknown : CharClass.ofChar a = .unrecognized) (step : c.step = .unrecognized a c.position)

theorem stepCase (c : Cursor) : StepCase c := by
  obtain ⟨mode, start, pending, rest⟩ := c
  rcases modeCases mode with rfl | rfl | ⟨k, runs, rfl⟩
  · cases rest with
    | nil => exact .stop rfl
    | cons a rest =>
      rcases classCases a with blank | ⟨k, own⟩ | unknown
      · refine .blank a rest rfl rfl ?_
        simp [step, transition, CharClass.ofNext, classOfBlank blank, fromBetween]
      · cases runs : k.runs with
        | true =>
          refine .begin k runs rfl own ?_
          cases k <;> simp [Kind.runs] at runs <;>
            simp [step, transition, CharClass.ofNext, own, Kind.own, Kind.mode, fromBetween]
        | false =>
          refine .single k a rest runs rfl rfl own ?_
          cases k <;> simp [Kind.runs] at runs <;>
            simp [step, transition, CharClass.ofNext, own, Kind.own, fromBetween, lexeme, position] <;> omega
      · refine .unrecognized a rest rfl unknown ?_
        simp [step, transition, CharClass.ofNext, unknown, fromBetween]
  · exact .stop rfl
  · by_cases goesOn : CharClass.ofNext rest = k.own
    · cases rest with
      | nil => exact absurd goesOn.symm (by cases k <;> decide)
      | cons a rest => exact .on k a rest runs rfl rfl goesOn (stepOn runs goesOn)
    · exact .run k runs rfl goesOn (stepEnd runs goesOn)

def strides : Step → List Stride
  | .finished d | .moved d => [⟨none, d⟩]
  | .delivers t back on => [⟨some ⟨t, back.position, false⟩, on⟩, ⟨some ⟨t, back.position, true⟩, back⟩]
  | .unrecognized .. => []

inductive StrideCase (c : Cursor) : Stride → Prop where
  | stop : StrideCase c ⟨none, ⟨.finished, c.start, c.pending, c.rest⟩⟩
  | blank (a : Char) (rest : List Char) (mode : c.mode = .between) (here : c.rest = a :: rest) :
      StrideCase c ⟨none, ⟨.between, c.position + 1, [], rest⟩⟩
  | begin (k : Kind) (runs : k.runs = true) (next : CharClass.ofNext c.rest = k.own) :
      StrideCase c ⟨none, ⟨k.mode, c.position, [], c.rest⟩⟩
  | on (k : Kind) (a : Char) (rest : List Char) (runs : k.runs = true) (mode : c.mode = k.mode)
      (here : c.rest = a :: rest) (own : CharClass.ofChar a = k.own) :
      StrideCase c ⟨none, ⟨k.mode, c.start, a :: c.pending, rest⟩⟩
  | single (k : Kind) (a : Char) (rest : List Char) (single : k.runs = false) (mode : c.mode = .between)
      (here : c.rest = a :: rest) (own : CharClass.ofChar a = k.own) :
      StrideCase c ⟨some ⟨⟨k, String.ofList (a :: c.pending).reverse⟩, c.position + 1, false⟩,
        ⟨.between, c.position + 1, [], rest⟩⟩
  | singleRefused (k : Kind) (a : Char) (rest : List Char) (single : k.runs = false) (mode : c.mode = .between)
      (here : c.rest = a :: rest) (own : CharClass.ofChar a = k.own) :
      StrideCase c ⟨some ⟨⟨k, String.ofList (a :: c.pending).reverse⟩, c.position + 1, true⟩,
        ⟨.between, c.start, a :: c.pending, rest⟩⟩
  | run (k : Kind) (runs : k.runs = true) (mode : c.mode = k.mode) (other : CharClass.ofNext c.rest ≠ k.own) :
      StrideCase c ⟨some ⟨⟨k, c.lexeme⟩, c.position, false⟩, ⟨modeAfter c.rest, c.position, [], c.rest⟩⟩
  | runRefused (k : Kind) (runs : k.runs = true) (mode : c.mode = k.mode)
      (other : CharClass.ofNext c.rest ≠ k.own) :
      StrideCase c ⟨some ⟨⟨k, c.lexeme⟩, c.position, true⟩, c⟩

theorem strideCase {c : Cursor} {stride : Stride} (goes : stride ∈ strides c.step) : StrideCase c stride := by
  cases stepCase c with
  | stop step =>
    rw [step] at goes
    obtain rfl := List.mem_singleton.mp goes
    exact .stop
  | blank a rest mode here step =>
    rw [step] at goes
    obtain rfl := List.mem_singleton.mp goes
    exact .blank a rest mode here
  | begin k runs mode next step =>
    rw [step] at goes
    obtain rfl := List.mem_singleton.mp goes
    exact .begin k runs next
  | on k a rest runs mode here own step =>
    rw [step] at goes
    obtain rfl := List.mem_singleton.mp goes
    exact .on k a rest runs mode here own
  | single k a rest single mode here own step =>
    rw [step] at goes
    obtain rfl | rfl := List.mem_pair.mp goes
    · exact .single k a rest single mode here own
    · exact .singleRefused k a rest single mode here own
  | run k runs mode other step =>
    rw [step] at goes
    obtain rfl | rfl := List.mem_pair.mp goes
    · exact .run k runs mode other
    · exact .runRefused k runs mode other
  | unrecognized a rest here unknown step =>
    rw [step] at goes
    exact absurd goes List.not_mem_nil

inductive Path : Cursor → List Stride → Cursor → Prop where
  | done (c : Cursor) : Path c [] c
  | next {c d : Cursor} {stride : Stride} {more : List Stride} (goes : stride ∈ strides c.step)
      (rest : Path stride.cursor more d) : Path c (stride :: more) d

theorem Path.append {c d e : Cursor} {before after : List Stride} (first : Path c before d)
    (second : Path d after e) : Path c (before ++ after) e := by
  induction first with
  | done => exact second
  | next goes rest ih => exact .next goes (ih second)

theorem Strides.path {σ ε : Type} {receive : σ → Token → σ × Option ε} {c : Cursor} {s : σ}
    {row : List Stride} {scanned : Scanned σ ε} (scan : Strides receive c s row scanned) :
    Path c row scanned.cursor := by
  induction scan with
  | finished step => exact .next (by simp [strides, step]) (.done _)
  | unrecognized step => exact .done _
  | refused step answer => exact .next (by simp [strides, step]) (.done _)
  | moved step rest ih => exact .next (by simp [strides, step]) ih
  | taken step answer rest ih => exact .next (by simp [strides, step]) ih

theorem Resumed.path {c d : Cursor} {row : List Stride} (resumed : Resumed c row d) : Path c row d := by
  induction resumed with
  | start c => exact .done c
  | again earlier scan ih => exact ih.append scan.path

section
variable {text : List Char} {c d : Cursor} {stride : Stride} {row : List Stride}

def On (text : List Char) (c : Cursor) : Prop :=
  ∃ before, text = before ++ (c.pending.reverse ++ c.rest) ∧ before.length = c.start

theorem On.marked (on : c.On text) (m : Mode) : On text ⟨m, c.position, [], c.rest⟩ := by
  obtain ⟨before, whole, length⟩ := on
  exact ⟨before ++ c.pending.reverse, by simp [whole], by simp [length, position]⟩

theorem On.advanced (on : c.On text) {a : Char} {rest : List Char} (here : c.rest = a :: rest) (m : Mode) :
    On text ⟨m, c.start, a :: c.pending, rest⟩ := by
  obtain ⟨before, whole, length⟩ := on
  exact ⟨before, by simp [whole, here], length⟩

theorem On.past (on : c.On text) {a : Char} {rest : List Char} (here : c.rest = a :: rest) (m : Mode) :
    On text ⟨m, c.position + 1, [], rest⟩ := (on.advanced here m).marked m

theorem On.kept (on : c.On text) (goes : stride ∈ strides c.step) :
    stride.cursor.On text ∧ c.position ≤ stride.cursor.position := by
  cases strideCase goes with
  | stop => exact ⟨on, le_rfl⟩
  | blank a rest mode here => exact ⟨on.past here .between, Nat.le_succ _⟩
  | begin k runs next => exact ⟨on.marked k.mode, le_rfl⟩
  | on k a rest runs mode here own => exact ⟨on.advanced here k.mode, Nat.le_succ _⟩
  | single k a rest single mode here own => exact ⟨on.past here .between, Nat.le_succ _⟩
  | singleRefused k a rest single mode here own => exact ⟨on.advanced here .between, Nat.le_succ _⟩
  | run k runs mode other => exact ⟨on.marked _, le_rfl⟩
  | runRefused k runs mode other => exact ⟨on, le_rfl⟩

theorem Path.on (path : Path c row d) (on : c.On text) : (∀ stride ∈ row, stride.cursor.On text) ∧ d.On text := by
  induction path with
  | done c => exact ⟨fun _ member => absurd member List.not_mem_nil, on⟩
  | next goes rest ih =>
    obtain ⟨here, _⟩ := on.kept goes
    obtain ⟨later, last⟩ := ih here
    exact ⟨List.forall_mem_cons.mpr ⟨here, later⟩, last⟩

theorem Path.onwards (path : Path c row d) (on : c.On text) :
    (c.position :: row.map (·.cursor.position)).IsChain (· ≤ ·) := by
  induction path with
  | done c => exact .singleton _
  | next goes rest ih =>
    obtain ⟨here, order⟩ := on.kept goes
    exact .cons_cons order (ih here)

structure Within (text : List Char) (c : Cursor) : Prop where
  ordered : c.start ≤ c.position
  inside : c.position ≤ text.length
  pending : c.pending.reverse = (text.take c.position).drop c.start
  rest : c.rest = text.drop c.position

theorem On.within (on : c.On text) : c.Within text := by
  obtain ⟨before, rfl, length⟩ := on
  have place : c.position = (before ++ c.pending.reverse).length := by simp [position, length]
  refine ⟨Nat.le_add_right .., ?_, ?_, ?_⟩
  · rw [place, ← List.append_assoc]
    exact (List.prefix_append _ c.rest).length_le
  · rw [place, ← List.append_assoc, List.take_left, ← length, List.drop_left]
  · rw [place, ← List.append_assoc, List.drop_left]

theorem onStart (text : String) : (ofText text).On text.toList := ⟨[], rfl, rfl⟩

section
variable {σ ε : Type} {receive : σ → Token → σ × Option ε} {s : σ} {scanned : Scanned σ ε}

theorem finishedMode (step : c.step = .finished d) : d.mode = .finished := by
  cases stepCase c with
  | stop only =>
    cases step.symm.trans only
    rfl
  | _ => simp_all

theorem Strides.finishes (scan : Strides receive c s row scanned) (unhalted : scanned.halt = none) :
    scanned.cursor.mode = .finished := by
  induction scan with
  | finished step => exact finishedMode step
  | unrecognized | refused => cases unhalted
  | moved _ _ ih | taken _ _ _ ih => exact ih unhalted

theorem Strides.blocks {a : Char} {n : ℕ} (scan : Strides receive c s row scanned)
    (blocked : scanned.halt = some (.unrecognized a n)) : scanned.cursor.step = .unrecognized a n := by
  induction scan with
  | finished | refused => cases blocked
  | unrecognized step =>
    cases blocked
    exact step
  | moved _ _ ih | taken _ _ _ ih => exact ih blocked

end

structure Blocked (text : List Char) (c : Cursor) (a : Char) (n : Nat) : Prop where
  place : n = c.position
  character : text[n]? = some a
  stays : ∀ {row d}, Resumed c row d → row = [] ∧ d = c
  again : ∀ {σ ε : Type} (receive : σ → Token → σ × Option ε) (s : σ),
    c.scan receive s = ⟨c, s, some (.unrecognized a n)⟩

theorem On.blocked (on : c.On text) {a : Char} {n : ℕ} (step : c.step = .unrecognized a n) :
    c.Blocked text a n := by
  have nowhere : strides c.step = [] := by
    rw [step]
    rfl
  have stays : ∀ {row d}, Path c row d → row = [] ∧ d = c := by
    intro row d path
    cases path with
    | done => exact ⟨rfl, rfl⟩
    | next goes =>
      rw [nowhere] at goes
      exact absurd goes List.not_mem_nil
  cases stepCase c with
  | unrecognized b rest here unknown met =>
    cases step.symm.trans met
    refine ⟨rfl, ?_, fun resumed => stays resumed.path, fun receive s => scanUnrecognized step⟩
    rw [← List.head?_drop, ← on.within.rest, here]
    rfl
  | _ => simp_all

end

/-- However often a text has been scanned and whatever has been refused, the cursor is within the text after
every stride and never goes back. Every further scan ends, in few strides, and unless it is refused a token,
it ends in its last mode or before a character without a class; and there every scan after it ends as well,
without a stride. -/
theorem cursorKept {text : String} {row : List Stride} {c : Cursor} (resumed : Resumed (ofText text) row c) :
    (∀ stride ∈ row, stride.cursor.Within text.toList) ∧
      (row.map (·.cursor.position)).Pairwise (· ≤ ·) ∧
      ∀ {σ ε : Type} (receive : σ → Token → σ × Option ε) (s : σ),
        (∃ strides, strides.length ≤ 3 * text.length + 3 ∧ ∀ others scanned,
          Strides receive c s others scanned ↔ others = strides ∧ scanned = c.scan receive s) ∧
        ((c.scan receive s).halt = none → (c.scan receive s).cursor.mode = .finished) ∧
        ∀ a n, (c.scan receive s).halt = some (.unrecognized a n) →
          (c.scan receive s).cursor.Blocked text.toList a n := by
  have path := resumed.path
  obtain ⟨all, last⟩ := path.on (onStart text)
  have order := (path.onwards (onStart text)).pairwise
  refine ⟨fun stride member => (all stride member).within, (List.pairwise_cons.mp order).2, ?_⟩
  intro σ ε receive s
  obtain ⟨strides, scan⟩ := stridesOfScan receive c s
  refine ⟨⟨strides, ?_, ?_⟩, scan.finishes, ?_⟩
  · have few := scan.few
    have most := weightAtMost c
    have short : c.rest.length ≤ text.length := by
      rw [last.within.rest, List.length_drop, String.length_toList]
      exact Nat.sub_le ..
    omega
  · intro others scanned
    constructor
    · intro other
      exact other.unique scan
    · rintro ⟨rfl, rfl⟩
      exact scan
  · intro a n blocked
    exact (scan.path.on last).2.blocked (scan.blocks blocked)

theorem cursorKeptRefused :
    Resumed (ofText ")(?") [⟨some ⟨⟨.closeParen, ")"⟩, 1, true⟩, ⟨.between, 0, [')'], ['(', '?']⟩⟩]
        ⟨.between, 0, [')'], ['(', '?']⟩ ∧
      Blocked ")(?".toList ⟨.between, 2, [], ['?']⟩ '?' 2 := by
  let refuse (_ : Unit) (_ : Token) : Unit × Option Unit := ((), some ())
  let take (_ : Unit) (_ : Token) : Unit × Option Unit := ((), none)
  have step : (ofText ")(?").step = .delivers ⟨.closeParen, ")"⟩ ⟨.between, 0, [')'], ['(', '?']⟩
      ⟨.between, 1, [], ['(', '?']⟩ := by decide
  have first : Strides refuse (ofText ")(?") () _ _ := .refused step rfl
  have resumed := Resumed.again (.start _) first
  have second : scan take ⟨.between, 0, [')'], ['(', '?']⟩ () =
      ⟨⟨.between, 2, [], ['?']⟩, (), some (.unrecognized '?' 2)⟩ := by decide +kernel
  have blocked := ((cursorKept resumed).2.2 take ()).2.2 '?' 2
  rw [second] at blocked
  exact ⟨resumed, blocked rfl⟩

end Cursor
end Reckon

import Reckon.Proofs.Token.Spaced
import Reckon.Session
/-! A session by what it calls for. Each command comes to some calls of the stages, a scan to one for each token
that it hands over, whether this is then refused or not; and the stages are what these calls make of them. -/
namespace Reckon

namespace Cursor
variable {σ ε : Type}

def logging (receive : σ → Token → σ × Option ε) (s : σ × List Token) (t : Token) :
    (σ × List Token) × Option ε :=
  let (after, refused) := receive s.1 t
  ((after, s.2 ++ [t]), refused)

def handed (receive : σ → Token → σ × Option ε) (c : Cursor) (s : σ) : List Token :=
  (c.scan (logging receive) (s, [])).receiver.2

def takeEach (receive : σ → Token → σ × Option ε) (s : σ) (ts : List Token) : σ :=
  ts.foldl (fun s t => (receive s t).1) s

theorem loggingAnswer {receive : σ → Token → σ × Option ε} {s s' : σ} {t : Token} {refused : Option ε}
    (answer : receive s t = (s', refused)) (log : List Token) :
    logging receive (s, log) t = ((s', log ++ [t]), refused) := by
  simp only [logging, answer]

theorem scanLogging (receive : σ → Token → σ × Option ε) (c : Cursor) (s : σ) :
    ∃ ts, (c.scan receive s).receiver = takeEach receive s ts ∧
      ∀ log, (c.scan (logging receive) (s, log)).receiver = ((c.scan receive s).receiver, log ++ ts) := by
  induction c, s using Cursor.scan.induct receive with
  | case1 c s d step =>
    refine ⟨[], by rw [scanFinished step]; rfl, fun log => ?_⟩
    rw [scanFinished step, scanFinished step, List.append_nil]
  | case2 c s d step ih =>
    obtain ⟨ts, made, kept⟩ := ih
    refine ⟨ts, by rw [scanMoved step, made], fun log => ?_⟩
    rw [scanMoved step, scanMoved step, kept log]
  | case3 c s t back on step s' reason answer =>
    refine ⟨[t], by rw [scanRefused step answer]; simp [takeEach, answer], fun log => ?_⟩
    rw [scanRefused step answer, scanRefused step (loggingAnswer answer log)]
  | case4 c s t back on step s' answer ih =>
    obtain ⟨ts, made, kept⟩ := ih
    refine ⟨t :: ts, by rw [scanTaken step answer, made]; simp [takeEach, answer], fun log => ?_⟩
    rw [scanTaken step answer, scanTaken step (loggingAnswer answer log), kept, List.append_assoc]
    rfl
  | case5 c s a n step =>
    refine ⟨[], by rw [scanUnrecognized step]; rfl, fun log => ?_⟩
    rw [scanUnrecognized step, scanUnrecognized step, List.append_nil]

theorem scanHanded (receive : σ → Token → σ × Option ε) (c : Cursor) (s : σ) :
    (c.scan receive s).receiver = takeEach receive s (c.handed receive s) := by
  obtain ⟨ts, made, kept⟩ := scanLogging receive c s
  have same : c.handed receive s = ts := congrArg Prod.snd (kept [])
  rw [same, made]

end Cursor

namespace Session

inductive Call where
  | enter (gate : Entrance) (t : Token)
  | enterUnknown (gate : Entrance) (kind : String)
  | closePhrase
  | finish
  deriving DecidableEq, Repr

def perform (i : Intake) : Call → Intake × Option Fault
  | .enter gate t => entrance gate i t
  | .enterUnknown gate kind => pushUnknown i kind gate
  | .closePhrase => i.closePhrase
  | .finish => i.finishYard

def performAll (i : Intake) (calls : List Call) : Intake := calls.foldl (fun i call => (perform i call).1) i

theorem performAllAppend (i : Intake) (before after : List Call) :
    performAll i (before ++ after) = performAll (performAll i before) after := List.foldl_append

def calls (s : Session) : Command → List Call
  | .scan gate => (s.cursor.handed (entrance gate) s.intake).map (.enter gate)
  | .push gate kind lexeme =>
    match Kind.ofName? kind with
    | some k => [.enter gate ⟨k, lexeme⟩]
    | none => [.enterUnknown gate kind]
  | .closePhrase => [.closePhrase]
  | .finish => [.finish]
  | .evaluate => []

theorem stepCalls (s : Session) (c : Command) : (s.step c).1.intake = performAll s.intake (s.calls c) := by
  cases c with
  | scan gate =>
    have made := Cursor.scanHanded (entrance gate) s.cursor s.intake
    simpa [step, calls, performAll, Cursor.takeEach, List.foldl_map, perform] using made
  | push gate kind lexeme =>
    cases known : Kind.ofName? kind with
    | some k =>
      simp only [step, calls, known]
      rfl
    | none =>
      simp only [step, calls, known]
      rfl
  | closePhrase => rfl
  | finish =>
    show (s.step .finish).1.intake = s.intake.finishYard.1
    unfold step
    cases s.intake.finishYard with
    | mk i fault => cases fault <;> rfl
  | evaluate => rfl

def history (s : Session) : List Command → List Call
  | [] => []
  | c :: cs => s.calls c ++ (s.step c).1.history cs

theorem runHistory {s after : Session} {commands : List Command} {n : Nat} {outcome : Except Fault Answer}
    (reached : (s.run commands)[n]? = some (outcome, after)) :
    after.intake = performAll s.intake (s.history (commands.take (n + 1))) := by
  induction commands generalizing s n with
  | nil => cases reached
  | cons c commands ih =>
    have first := stepCalls s c
    cases n with
    | zero =>
      obtain rfl : (s.step c).1 = after := congrArg Prod.snd (Option.some.inj reached)
      simpa [history] using first
    | succ n =>
      have later := ih (s := (s.step c).1) reached
      rw [List.take_succ_cons, history, performAllAppend, ← first, later]

end Session
end Reckon

import Reckon.Proofs.Settings.Written
/-! Settings told to an environment are the settings read from it. Each variable is read for itself, and one that is
unset or blank leaves the usual value of its field. -/
namespace Reckon

theorem Fields.readPresent {α : Type} {fields : Fields} {name : String} {absent : Except Complaint α}
    {reader : Input → Except Complaint α} {input : Input} {a : α} (found : fields name = some input)
    (reads : reader input = .ok a) : fields.read name absent reader = .ok a := by
  simp only [Fields.read, found, reads]

theorem Fields.readAbsent {α : Type} {fields : Fields} {name : String}
    {reader : Input → Except Complaint α} {a : α} (absent : fields name = none) :
    fields.read name (.ok a) reader = .ok a := by
  simp only [Fields.read, absent]

namespace Settings
open Text

inductive Field where
  | textbookPrecedence
  | precision
  | maxExponent
  | logLevel
  | debugTokens
  deriving DecidableEq, Repr

namespace Field

def all : List Field := [textbookPrecedence, precision, maxExponent, logLevel, debugTokens]

def name : Field → String
  | textbookPrecedence => "textbook_precedence"
  | precision => "precision"
  | maxExponent => "max_exponent"
  | logLevel => "log_level"
  | debugTokens => "debug_tokens"

def key (f : Field) : String := variableName f.name

end Field

example : Field.all.map Field.name = fieldNames := rfl

example : Field.all.map Field.key = ["WORDCALC_TEXTBOOK_PRECEDENCE", "WORDCALC_PRECISION",
    "WORDCALC_MAX_EXPONENT", "WORDCALC_LOG_LEVEL", "WORDCALC_DEBUG_TOKENS"] := by decide

def value (s : Settings) : Field → Value
  | .textbookPrecedence => .flag s.textbookPrecedence
  | .precision => .number s.precision
  | .maxExponent => .number s.maxExponent
  | .logLevel => .level s.logLevel
  | .debugTokens => .flag s.debugTokens

def without (s : Settings) (fs : List Field) : Settings where
  textbookPrecedence := if .textbookPrecedence ∈ fs then usual.textbookPrecedence else s.textbookPrecedence
  precision := if .precision ∈ fs then usual.precision else s.precision
  maxExponent := if .maxExponent ∈ fs then usual.maxExponent else s.maxExponent
  logLevel := if .logLevel ∈ fs then usual.logLevel else s.logLevel
  debugTokens := if .debugTokens ∈ fs then usual.debugTokens else s.debugTokens
  precisionRange := by
    split
    · exact usual.precisionRange
    · exact s.precisionRange

theorem withoutValue (s : Settings) (fs : List Field) (f : Field) :
    (s.without fs).value f = if f ∈ fs then usual.value f else s.value f := by
  cases f <;> simp only [without, value] <;> split <;> rfl

variable {environment : String → Option String} {f : Field} {v : Value}

def Binds (environment : String → Option String) (f : Field) (v : Value) : Prop :=
  ∃ text before word after, environment f.key = some text ∧
    text.toList = before ++ (word.toList ++ after) ∧ isBlankText before = true ∧ Written v word ∧
    isBlankText after = true

def Unset (environment : String → Option String) (f : Field) : Prop :=
  ∀ text ∈ environment f.key, isBlankText text.toList = true

def Tells (environment : String → Option String) (f : Field) (v : Value) : Prop :=
  Binds environment f v ∨ Unset environment f ∧ v = usual.value f

def handed (f : Field) (word : String) : String :=
  if f = .logLevel then String.ofList (capitals word.toList) else word

theorem fieldsBound {text word : String} {before after : List Char} (found : environment f.key = some text)
    (around : text.toList = before ++ (word.toList ++ after)) (front : isBlankText before = true)
    (written : Written v word) (back : isBlankText after = true) :
    environmentFields environment f.name = some (.text (handed f word)) := by
  obtain ⟨present, plain⟩ := written.plain
  have trimmed : trim text.toList = word.toList := by
    rw [around]
    exact trimWithin (List.all_eq_true.mp front) plain (List.all_eq_true.mp back) present
  have own : f.name = "log_level" ↔ f = .logLevel := by cases f <;> decide
  rw [Field.key] at found
  simp only [environmentFields, found, trimmed, if_neg present, own, handed]
  split
  · rfl
  · rw [String.ofList_toList]

theorem fieldsUnset (unset : Unset environment f) : environmentFields environment f.name = none := by
  unfold environmentFields
  cases found : environment (variableName f.name) with
  | none => rfl
  | some text => simp only [trimBlank (unset text found), if_true]

variable {α : Type} {reader : Input → Except Complaint α} {a usually : α}

theorem readTold (tells : Tells environment f v)
    (written : ∀ word, Written v word → reader (.text (handed f word)) = .ok a)
    (left : v = usual.value f → usually = a) :
    (environmentFields environment).read f.name (.ok usually) reader = .ok a := by
  obtain ⟨text, before, word, after, found, around, front, writes, back⟩ | ⟨unset, same⟩ := tells
  · exact Fields.readPresent (fieldsBound found around front writes back) (written word writes)
  · rw [left same]
    exact Fields.readAbsent (fieldsUnset unset)

theorem flagTold {b c : Bool} (tells : Tells environment f (.flag b)) (usually : usual.value f = .flag c) :
    (environmentFields environment).read f.name (.ok c) Input.readFlag = .ok b := by
  refine readTold tells ?_ ?_
  · intro word written
    have other : f ≠ .logLevel := by
      rintro rfl
      cases usually
    rw [handed, if_neg other]
    cases written with
    | flag letters => exact readFlagWritten letters
  · intro same
    exact (Value.flag.inj (same.trans usually)).symm

theorem ofEnvironmentTold {s : Settings} (tells : ∀ f, Tells environment f (s.value f)) :
    ofEnvironment environment = .ok s := by
  have textbook := flagTold (tells .textbookPrecedence) rfl
  have debug := flagTold (tells .debugTokens) rfl
  have digits : (environmentFields environment).read Field.precision.name
      (.ok ⟨usual.precision, usual.precisionRange⟩) readPrecision = .ok ⟨s.precision, s.precisionRange⟩ := by
    refine readTold (tells .precision) ?_ ?_
    · intro word written
      cases written with
      | number zeros => exact readPrecisionWritten s.precisionRange
    · intro same
      exact Subtype.ext (Value.number.inj same).symm
  have limit : (environmentFields environment).read Field.maxExponent.name (.ok usual.maxExponent)
      readExponentLimit = .ok s.maxExponent := by
    refine readTold (tells .maxExponent) ?_ ?_
    · intro word written
      cases written with
      | number zeros => exact readExponentLimitWritten
    · intro same
      exact (Value.number.inj same).symm
  have level : (environmentFields environment).read Field.logLevel.name (.ok usual.logLevel) readLevel =
      .ok s.logLevel := by
    refine readTold (tells .logLevel) ?_ ?_
    · intro word written
      cases written with
      | level letters => exact readLevelWritten letters
    · intro same
      exact (Value.level.inj same).symm
  simp only [Field.name] at textbook digits limit level debug
  simp only [ofEnvironment, ofFields, textbook, digits, limit, level, debug]

/-- Settings whose values stand in the variables of an environment, in any of their ways of writing and with blanks
around them, are the settings read from it, whatever other variables there are. If some of the variables are removed
or made blank, their fields have their usual values, and all others still the same. -/
theorem environmentKept {s : Settings} (bound : ∀ f, Binds environment f (s.value f)) :
    ofEnvironment environment = .ok s ∧
      ∀ (fs : List Field) (rest : String → Option String), (∀ f ∈ fs, Unset rest f) →
        (∀ f, f ∉ fs → rest f.key = environment f.key) → ofEnvironment rest = .ok (s.without fs) := by
  refine ⟨ofEnvironmentTold fun f => .inl (bound f), ?_⟩
  intro fs rest unset same
  apply ofEnvironmentTold
  intro f
  rw [withoutValue]
  split
  · rename_i member
    exact .inr ⟨unset f member, rfl⟩
  · rename_i other
    rw [Tells, Binds, same f other]
    exact .inl (bound f)

theorem environmentKeptPadded :
    let s : Settings := { textbookPrecedence := true, precision := 50, maxExponent := 7, logLevel := .debug }
    let others := [("WORDCALC_TEXTBOOK_PRECEDENCE", "\t tRUE"), ("WORDCALC_MAX_EXPONENT", "\x1c007"),
      ("WORDCALC_DEBUG_TOKENS", "FALSE"), ("wordcalc_precision", "3")]
    let environment : String → Option String := fun key =>
      (("WORDCALC_PRECISION", "0050\n") :: ("WORDCALC_LOG_LEVEL", " deBug ") :: others).lookup key
    let rest : String → Option String := fun key => (("WORDCALC_PRECISION", " \n") :: others).lookup key
    let dropped : List Field := [.precision, .logLevel]
    (∀ f, Binds environment f (s.value f)) ∧ (∀ f ∈ dropped, Unset rest f) ∧
      (∀ f, f ∉ dropped → rest f.key = environment f.key) ∧
      ofEnvironment environment = .ok s ∧ ofEnvironment rest = .ok (s.without dropped) := by
  intro s others environment rest dropped
  have bound : ∀ f, Binds environment f (s.value f) := by
    intro f
    cases f with
    | textbookPrecedence => exact ⟨_, ['\t', ' '], "tRUE", [], rfl, rfl, rfl, .flag (by decide), rfl⟩
    | precision => exact ⟨_, [], _, ['\n'], rfl, by decide, rfl, .number 2 50, rfl⟩
    | maxExponent => exact ⟨_, ['\x1c'], _, [], rfl, by decide, rfl, .number 2 7, rfl⟩
    | logLevel => exact ⟨_, [' '], "deBug", [' '], rfl, rfl, rfl, .level (by decide), rfl⟩
    | debugTokens => exact ⟨_, [], "FALSE", [], rfl, rfl, rfl, .flag (by decide), rfl⟩
  have unset : ∀ f ∈ dropped, Unset rest f := by
    simp only [dropped, List.forall_mem_cons, Unset]
    decide
  have same : ∀ f, f ∉ dropped → rest f.key = environment f.key := by
    intro f
    cases f <;> decide
  have kept := environmentKept bound
  exact ⟨bound, unset, same, kept.1, kept.2 _ rest unset same⟩

end Settings
end Reckon

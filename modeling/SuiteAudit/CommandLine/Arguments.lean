import SuiteAudit.Number.Decimal
import SuiteAudit.Text.Quoted

/-! # Arguments of the command line

The words of a command line are options and operands.  An option may be cut short as long as one
option alone begins with what is left, and may carry a value behind an equals sign.  Operands fill
the two places for folders where the first of them stand; what is left over is not recognised.
After two hyphens every word is an operand.
-/

namespace SuiteAudit

/-- Options that are there or not. -/
inductive Switch where
  | help
  | noRefactoring
  | noQuality
  | noDocs
  | noReports
  | applyRefactoring
  | outputJson
  | verbose
  deriving DecidableEq, Repr

/-- Options with a value. -/
inductive Setting where
  | maxWorkers
  | timeBudget
  deriving DecidableEq, Repr

inductive OptionKind where
  | switch (s : Switch)
  | setting (s : Setting)
  deriving DecidableEq, Repr

namespace OptionKind

/-- The spellings of all options, in order. -/
def spellings : List (Text × OptionKind) :=
  [("-h", switch .help), ("--help", switch .help), ("--no-refactoring", switch .noRefactoring),
   ("--no-quality", switch .noQuality), ("--no-docs", switch .noDocs),
   ("--no-reports", switch .noReports), ("--apply-refactoring", switch .applyRefactoring),
   ("--max-workers", setting .maxWorkers), ("--time-budget", setting .timeBudget),
   ("--output-json", switch .outputJson), ("--verbose", switch .verbose)]

/-- The option as messages name it, by all its spellings. -/
def title (k : OptionKind) : Text :=
  Text.join "/" ((spellings.filter fun p => p.2 = k).map (·.1))

end OptionKind

inductive UsageError where
  | ambiguous (word : Text) (spellings : List Text)
  | unusedValue (option : OptionKind) (value : Text)
  | noValue (option : OptionKind)
  | notWhole (option : OptionKind) (value : Text)
  | notReal (option : OptionKind) (value : Text)
  | unrecognized (words : List Text)
  deriving DecidableEq

namespace UsageError

def about (option : OptionKind) (message : Text) : Text :=
  "argument " ++ option.title ++ ": " ++ message

def message : UsageError → Text
  | ambiguous word spellings =>
    "ambiguous option: " ++ word ++ " could match " ++ Text.join ", " spellings
  | unusedValue option value => about option ("ignored explicit argument " ++ Text.quoted value)
  | noValue option => about option "expected one argument"
  | notWhole option value => about option ("invalid int value: " ++ Text.quoted value)
  | notReal option value => about option ("invalid float value: " ++ Text.quoted value)
  | unrecognized words => "unrecognized arguments: " ++ Text.join " " words

end UsageError

/-- Why there are no arguments to go on with. -/
inductive Stop where
  | help
  | usage (e : UsageError)
  deriving DecidableEq

/-! ### Words -/

/-- What a word is: an operand, the two hyphens, an option and the value in it, the letter for help
and what stands behind it, or an option that does not exist. -/
inductive WordKind where
  | operand
  | hyphens
  | option (k : OptionKind) (value? : Option Text)
  | letters (behind : Text)
  | unknown
  deriving DecidableEq

structure Word where
  text : Text
  kind : WordKind
  deriving DecidableEq

namespace Word

/-- A text before its first equals sign, and the value behind it. -/
def cutValue (word : Text) : Text × Option Text :=
  match word.dropWhile (· != '=') with
  | [] => (word, none)
  | _ :: value => (word.takeWhile (· != '='), some value)

/-- Whether a word is a hyphen and digits, with or without a point before some of them. -/
def isNegativeNumber (word : Text) : Bool :=
  match Text.dropEnding ['\n'] word with
  | '-' :: rest =>
    let whole := rest.takeWhile Text.isDigit
    match rest.dropWhile Text.isDigit with
    | [] => !whole.isEmpty
    | c :: fraction => c == '.' && !fraction.isEmpty && fraction.all Text.isDigit
  | _ => false

/-- The options that a word with two hyphens may stand for. -/
def longMatches (word : Text) : List (Text × WordKind) :=
  let (start, value?) := cutValue word
  (OptionKind.spellings.filter fun p => Text.startsWith p.1 start).map fun p =>
    (p.1, .option p.2 value?)

/-- The options that a word with one hyphen may stand for: one letter and others behind it, or
more. -/
def shortMatches (word : Text) : List (Text × WordKind) :=
  OptionKind.spellings.filterMap fun p =>
    if p.1 = word.take 2 then some (p.1, .letters (word.drop 2))
    else if Text.startsWith p.1 word then some (p.1, .option p.2 none)
    else none

/-- The kind of a word that begins with a hyphen and is no option as it stands. -/
def looseKind (word : Text) : Except UsageError WordKind :=
  let found := if Text.startsWith word "--" then longMatches word else shortMatches word
  match found with
  | [p] => .ok p.2
  | [] => .ok (if isNegativeNumber word || word.elem ' ' then .operand else .unknown)
  | several => .error (.ambiguous word (several.map (·.1)))

/-- The kind of a word that gives a spelling of an option a value. -/
def valuedKind (spelling : Text) (k : OptionKind) (value : Text) : WordKind :=
  if Text.startsWith spelling "--" then .option k (some value) else .letters value

/-- The kind of a word before the two hyphens. -/
def kindOf (word : Text) : Except UsageError WordKind :=
  if word.head? ≠ some '-' then .ok .operand
  else
    match OptionKind.spellings.lookup word with
    | some k => .ok (.option k none)
    | none =>
      if word.length = 1 then .ok .operand
      else
        match OptionKind.spellings.lookup (cutValue word).1, (cutValue word).2 with
        | some k, some value => .ok (valuedKind (cutValue word).1 k value)
        | _, _ => looseKind word

/-- The words of a command line with their kinds. -/
def ofTexts : List Text → Except UsageError (List Word)
  | [] => .ok []
  | t :: rest =>
    if t = ['-', '-'] then .ok (⟨t, .hyphens⟩ :: rest.map fun t => ⟨t, .operand⟩)
    else do
      let kind ← kindOf t
      return ⟨t, kind⟩ :: (← ofTexts rest)

end Word

/-! ### Arguments -/

/-- What stands behind a setting. -/
inductive SettingValue (α : Type) where
  | value (a : α)
  /-- The two hyphens, which are no value. -/
  | hyphens

structure Arguments where
  testDirectory : Text := "e2e/specs"
  outputDirectory : Text := "e2e/maintainability-reports"
  switches : List Switch := []
  maxWorkers : SettingValue Int := .value 4
  timeBudget? : Option (SettingValue Extended) := none
  /-- Words that are not recognised. -/
  extras : List Text := []

namespace Arguments

def has (a : Arguments) (s : Switch) : Bool := a.switches.elem s

/-- What a text behind a setting is. -/
def settingValue? {α : Type} (read : Text → Option α) (t : Text) : Option (SettingValue α) :=
  if t = ['-', '-'] then some .hyphens else (read t).map .value

/-- The arguments with a value for a setting. -/
def withSetting (a : Arguments) (s : Setting) (value : Text) : Except Stop Arguments :=
  match s with
  | .maxWorkers =>
    match settingValue? readInt? value with
    | some n => .ok { a with maxWorkers := n }
    | none => .error (.usage (.notWhole (.setting s) value))
  | .timeBudget =>
    match settingValue? readExtended? value with
    | some x => .ok { a with timeBudget? := some x }
    | none => .error (.usage (.notReal (.setting s) value))

/-- What the characters behind the letter for help lead to: help, if each is that letter again. -/
def stopAtLetters : Text → Stop
  | ['h'] => .help
  | 'h' :: behind => stopAtLetters behind
  | behind => .usage (.unusedValue (.switch .help) behind)

/-- The arguments with a switch, which takes no value. -/
def withSwitch (a : Arguments) (s : Switch) (value? : Option Text) : Except Stop Arguments :=
  match value?, s with
  | some value, _ => .error (.usage (.unusedValue (.switch s) value))
  | none, .help => .error .help
  | none, _ => .ok { a with switches := s :: a.switches }

/-- Takes in the options at the start of some words, or with `all` those behind operands too. -/
def takeOptions (all : Bool) (a : Arguments) : List Word → Except Stop (Arguments × List Word)
  | [] => .ok (a, [])
  | w :: rest =>
    match w.kind with
    | .unknown => takeOptions all { a with extras := a.extras ++ [w.text] } rest
    | .letters behind => .error (stopAtLetters behind)
    | .option (.switch s) value? => do takeOptions all (← a.withSwitch s value?) rest
    | .option (.setting s) (some value) => do takeOptions all (← a.withSetting s value) rest
    | .option (.setting s) none =>
      match rest with
      | [] => .error (.usage (.noValue (.setting s)))
      | value :: rest =>
        if value.kind = .operand then do takeOptions all (← a.withSetting s value.text) rest
        else .error (.usage (.noValue (.setting s)))
    | .operand | .hyphens =>
      if all then takeOptions all { a with extras := a.extras ++ [w.text] } rest
      else .ok (a, w :: rest)

/-- The two hyphens at the start of some words, and the other words. -/
def takeHyphens (words : List Word) : List Word × List Word :=
  (words.takeWhile fun w => w.kind = .hyphens, words.dropWhile fun w => w.kind = .hyphens)

/-- The operand at the start of some words, and the other words. -/
def takeOne : List Word → List Word × List Word
  | [] => ([], [])
  | w :: rest => if w.kind = .operand then ([w], rest) else ([], w :: rest)

/-- The value for a place among some words, if there is one, and the other words. -/
def takeOperand (words : List Word) : Option Text × List Word :=
  let (before, words) := takeHyphens words
  let (operand, words) := takeOne words
  let (after, words) := takeHyphens words
  ((((before ++ operand ++ after).map (·.text)).erase ['-', '-']).head?, words)

/-- The arguments with the operands at the start of some words, and the other words. -/
def takeOperands (a : Arguments) (words : List Word) : Arguments × List Word :=
  let (test?, words) := takeOperand words
  let (output?, words) := takeOperand words
  ({ a with
      testDirectory := test?.getD a.testDirectory
      outputDirectory := output?.getD a.outputDirectory }, words)

/-- The arguments of a command line. -/
def parse (texts : List Text) : Except Stop Arguments := do
  let words ← (Word.ofTexts texts).mapError .usage
  let (a, words) ← takeOptions false {} words
  let (a, words) := a.takeOperands words
  let (a, _) ← takeOptions true a words
  if a.extras.isEmpty then return a
  throw (.usage (.unrecognized a.extras))

end Arguments
end SuiteAudit

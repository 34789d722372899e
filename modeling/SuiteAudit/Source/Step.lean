import SuiteAudit.Source.Block

/-! # Steps of a test case

A step is what a user would do: go to a page, click, fill in, upload, wait.  Each line of a block
gives at most one, by the first call that it holds.
-/

namespace SuiteAudit

inductive StepAction where
  | navigate
  | click
  | fill
  | upload
  | waitForSelector
  | waitForTimeout
  deriving DecidableEq, Repr

namespace StepAction

def all : List StepAction := [navigate, click, fill, upload, waitForSelector, waitForTimeout]

def name : StepAction → Text
  | navigate => "navigate"
  | click => "click"
  | fill => "fill"
  | upload => "upload"
  | waitForSelector => "wait-for-selector"
  | waitForTimeout => "wait-for-timeout"

/-- How a description of the action begins. -/
def label : StepAction → Text
  | navigate => "Navigate to"
  | click => "Click"
  | fill => "Fill in"
  | upload => "Upload file to"
  | waitForSelector => "Wait for element"
  | waitForTimeout => "Wait"

end StepAction

/-- A step, with its line counted from one within the block. -/
structure Step where
  action : StepAction
  target : Option Text := none
  data : Option Text := none
  expected : Option Text := none
  line : Option Int := none
  deriving DecidableEq

/-- A text that is there and not empty. -/
def given? : Option Text → Option Text
  | some [] | none => none
  | some t => some t

namespace Step

/-- A step in words. -/
def description (s : Step) : Text :=
  match s.action with
  | .waitForTimeout =>
    match given? s.data with
    | some ms => s.action.label ++ " " ++ ms ++ "ms"
    | none => s.action.label
  | _ =>
    Text.join " "
      ([s.action.label] ++ (given? s.target).toList ++
        ((given? s.data).map fun d => "with " ++ Text.quoted d).toList)

/-! ### Calls -/

/-- A call of one of some methods and its first argument, a quoted text, which is group 2. -/
def quotedCall (methods : List Text) : Pattern :=
  .chain [.lit ".", .words methods, .lit "(", .blanks,
    .group 1 (.one (Pattern.among Opening.quoteMarks)), .group 2 .inLineShort, .sameAs 1]

def gotoCall : Pattern := quotedCall ["goto"]

def clickCall : Pattern := quotedCall ["click"]

def uploadCall : Pattern := quotedCall ["setInputFiles"]

def selectorWaitCall : Pattern := quotedCall ["waitForSelector"]

def locatorCall : Pattern :=
  quotedCall ["locator", "getByTestId", "getByRole", "getByText", "getByLabel", "getByPlaceholder"]

/-- A fill of a selector, group 2, with a value, group 3. -/
def fillCall : Pattern :=
  .chain [quotedCall ["fill"], .blanks, .lit ",", .blanks,
    .group 3 (.run true 0 (Pattern.notAmong ")")), .lit ")"]

/-- A fill of what a locator before it chose, with a value, group 3. -/
def fillValueCall : Pattern :=
  .chain [.lit ".fill(", .blanks, .group 3 (.run true 0 (Pattern.notAmong "),")), .lit ")"]

/-- A fixed wait, for the time in group 3. -/
def fixedWaitCall : Pattern :=
  .chain [.lit ".waitForTimeout(", .blanks, .group 3 (.run true 1 (Pattern.notAmong ")")), .lit ")"]

/-- An argument without the blanks around it and without its quotes, if it has a pair of them. -/
def unquote (value : Text) : Text :=
  let t := Text.trim value
  match t.head?, t.getLast? with
  | some a, some b =>
    if 2 ≤ t.length ∧ a = b ∧ Opening.quoteMarks.elem a then t.tail.dropLast else t
  | _, _ => t

/-- What the first locator on a line chooses. -/
def locatorTarget? (line : Text) : Option Text := (locatorCall.find? line).map (·.group 2)

/-- The quoted argument of a call, or else what a locator on the line chooses. -/
def targetOn? (call : Pattern) (line : Text) : Option Text :=
  match call.find? line with
  | some hit => some (hit.group 2)
  | none => locatorTarget? line

/-- The step on a line that fills something in. -/
def fillOn? (line : Text) : Option Step :=
  match fillCall.find? line with
  | some hit =>
    some { action := .fill, target := hit.group 2, data := some (unquote (hit.group 3)) }
  | none =>
    (fillValueCall.find? line).map fun hit =>
      { action := .fill, target := locatorTarget? line, data := some (unquote (hit.group 3)) }

/-- The step on a line, if there is one. -/
def onLine? (line : Text) : Option Step :=
  match gotoCall.find? line with
  | some hit => some { action := .navigate, target := some (hit.group 2) }
  | none =>
    if Text.contains line ".click(" then
      some { action := .click, target := targetOn? clickCall line }
    else if Text.contains line ".fill(" then fillOn? line
    else if Text.contains line ".setInputFiles(" then
      some { action := .upload, target := targetOn? uploadCall line }
    else
      match selectorWaitCall.find? line with
      | some hit => some { action := .waitForSelector, target := some (hit.group 2) }
      | none =>
        (fixedWaitCall.find? line).map fun hit =>
          { action := .waitForTimeout, data := some (Text.trim (hit.group 3)) }

end Step

/-- The steps of some lines, the first of which has the number `lineNo`. -/
def stepsFrom : Nat → List Text → List Step
  | _, [] => []
  | lineNo, line :: rest =>
    ((Step.onLine? line).map fun s => { s with line := some (lineNo : Int) }).toList ++
      stepsFrom (lineNo + 1) rest

/-- The steps of a block in order. -/
def stepsOf (content : Text) : List Step := stepsFrom 1 (Text.lines content)

end SuiteAudit

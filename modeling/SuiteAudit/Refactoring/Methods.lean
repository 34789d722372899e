import SuiteAudit.Refactoring.Constants
import SuiteAudit.Source.Duplicate
import SuiteAudit.Text.CaseMap

/-! # Helpers for repeated steps

Three consecutive lines of code that occur twice could be a helper.  Blank lines and comments are
passed over; a window opens no test and has as many opening as closing braces.
-/

namespace SuiteAudit.Methods

/-- The lines of code of a file, trimmed, with their numbers. -/
def codeLines (content : Text) : List (Nat × Text) :=
  ((Text.lines content).zipIdx 1).filterMap fun p =>
    let trimmed := Text.trim p.1
    if trimmed.isEmpty || isCommentLine trimmed then none else some (p.2, trimmed)

/-- The windows of three consecutive entries. -/
def windows : List (Nat × Text) → List (List (Nat × Text))
  | a :: b :: c :: rest => [a, b, c] :: windows (b :: c :: rest)
  | _ => []

/-- The text of a window. -/
def snippetOf (window : List (Nat × Text)) : Text := Text.joinLines (window.map (·.2))

/-- Whether a window could be a helper. -/
def isCandidate (window : List (Nat × Text)) : Bool :=
  !(window.any fun p => Extraction.opensTest p.2) &&
    Text.countChar '\x7b' (snippetOf window) == Text.countChar '\x7d' (snippetOf window)

/-- The texts of the windows that could be helpers, with the lines on which they begin. -/
def occurrences (content : Text) : Table Text (List Nat) :=
  ((windows (codeLines content)).filter isCandidate).foldl
    (fun table window =>
      Table.modify (snippetOf window)
        (fun old => old.getD [] ++ (window.head?.map (·.1)).toList) table)
    []

/-- What a helper may be called, by a word in it. -/
def nameHints : List (Text × Text) :=
  [("login", "performLogin"), ("register", "performRegistration"), ("upload", "uploadFile"),
   ("analysis", "performAnalysis")]

/-- The name that some steps ask for, when `count` helpers have names already. -/
def baseName (snippet : Text) (count : Nat) : Text :=
  let lowered := Text.lower snippet
  ((nameHints.find? fun p => Text.contains lowered p.1).map (·.2)).getD
    ("extractedMethod" ++ Text.ofNat (count + 1))

def change (snippet name : Text) (lineNumbers : List Nat) : Change where
  kind := .extractMethod
  line := (lineNumbers.headD 0 : Nat)
  description := "Extract repeated steps into " ++ name ++ " (" ++ Text.ofNat lineNumbers.length ++
    " occurrences)"
  before := snippet
  after := "await " ++ name ++ "(page);"

/-- Names a helper; the names taken grow with the context. -/
def add (state : Context × List Text × List Change) (entry : Text × List Nat) :
    Context × List Text × List Change :=
  let (context, taken, changes) := state
  match context.methods.get? entry.1 with
  | some name => (context, taken, changes ++ [change entry.1 name entry.2])
  | none =>
    let name := unusedName (baseName entry.1 context.methods.length) taken
    ({ context with methods := context.methods.set entry.1 name }, name :: taken,
      changes ++ [change entry.1 name entry.2])

/-- The repeated windows of a file. -/
def repeated (content : Text) : Table Text (List Nat) :=
  (occurrences content).filter fun p => 2 ≤ p.2.length

/-- The changes that make helpers of repeated steps, and the context with their names. -/
def extract (content : Text) (context : Context) : Context × List Change :=
  let (context, _, changes) := (repeated content).foldl add (context, context.names, [])
  (context, changes)

end SuiteAudit.Methods

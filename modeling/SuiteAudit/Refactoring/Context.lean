import SuiteAudit.Source.Style
import SuiteAudit.Table
import SuiteAudit.Text.FreshName

/-! # Names given to values and steps

A context remembers the name of every value and every group of steps that was given one, in order.
New names differ from all names in it, `unusedName`; two contexts are merged with the entries of the
first winning.
-/

namespace SuiteAudit

/-- The names of fixed waits, of test data and of repeated steps. -/
structure Context where
  timeouts : Table Text Text := []
  data : Table Text Text := []
  methods : Table Text Text := []
  deriving DecidableEq

namespace Context

def size (c : Context) : Nat := c.timeouts.length + c.data.length + c.methods.length

/-- All names of a context. -/
def names (c : Context) : List Text := c.timeouts.values ++ c.data.values ++ c.methods.values

/-- The entries of two tables: the second one's keys first, the first one's values preferred. -/
def mergeTables (first second : Table Text Text) : Table Text Text :=
  first.foldl (fun table p => Table.set p.1 p.2 table) second

/-- Both contexts in one; where they differ the first one wins. -/
def merge (first second : Context) : Context :=
  ⟨mergeTables first.timeouts second.timeouts, mergeTables first.data second.data,
    mergeTables first.methods second.methods⟩

end Context

/-- The name `base` with a number behind it. -/
def numberedName (base : Text) (n : Nat) : Text := base ++ "_" ++ Text.ofNat n

/-- The name `base` itself, or with a number behind it that makes it differ from all taken names. -/
def unusedName (base : Text) (taken : List Text) : Text := freshName taken base (numberedName base)

/-! ### Text of the definitions -/

/-- Lines that declare constants, under a heading and before a blank line; nothing for none. -/
def declarationLines (heading : Text) (value : Text → Text) (table : Table Text Text) : List Text :=
  if table.isEmpty then []
  else heading :: table.map (fun p => "const " ++ p.2 ++ " = " ++ value p.1 ++ ";") ++ [[]]

/-- The declarations of all constants of a context. -/
def Context.definitionLines (c : Context) (quotes : Quotes) : List Text :=
  declarationLines "// Timeout constants" id c.timeouts ++
    declarationLines "// Test data constants" quotes.literal c.data

def Context.definitions (c : Context) (quotes : Quotes) : Text :=
  Text.joinLines (c.definitionLines quotes)

/-- A function around steps that were repeated. -/
def methodText (snippet name : Text) : Text :=
  let head : List Text :=
    ["/**", " * Shared steps extracted from repeated code", " */",
      "async function " ++ name ++ "(page: Page): Promise<void> \x7b"]
  let body := (Text.lines snippet).map fun (line : Text) => "  " ++ line
  let tail : List Text := ["\x7d", ""]
  Text.joinLines (head ++ body ++ tail)

/-- The functions around all repeated steps of a context. -/
def Context.methodDefinitions (c : Context) : Text :=
  Text.joinLines (c.methods.map fun p => methodText p.1 p.2)

end SuiteAudit

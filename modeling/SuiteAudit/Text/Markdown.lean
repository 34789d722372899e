import SuiteAudit.Text.Basic

/-! # Lines of a Markdown page

Pages are built as lists of lines.  A section is a heading, a blank line, its lines and another
blank line; an empty list of entries gives no section.
-/

namespace SuiteAudit.Markdown

/-- A text as code within a line. -/
def code (t : Text) : Text := "\x60" ++ t ++ "\x60"

def item (t : Text) : Text := "- " ++ t

/-- A value under a bold label. -/
def entry (label value : Text) : Text := "**" ++ label ++ "**: " ++ value

/-- Lines of code in a block. -/
def fenced (ls : List Text) : List Text :=
  let mark : Text := "\x60\x60\x60"
  [mark ++ "typescript"] ++ ls ++ [mark]

/-- A heading, a blank line, the lines and a blank line. -/
def sectionLines (heading : Text) (ls : List Text) : List Text := [heading, []] ++ ls ++ [[]]

/-- A section for each of some entries, one line each; nothing without entries. -/
def sectionOf {α : Type} (heading : Text) (line : α → Text) (entries : List α) : List Text :=
  if entries.isEmpty then [] else sectionLines heading (entries.map line)

/-- A heading and some lines under it; nothing without lines. -/
def underHeading (heading : Text) (ls : List Text) : List Text :=
  if ls.isEmpty then [] else [heading, []] ++ ls

/-- A line and the lines below it. -/
def above (line : Text) (ls : List Text) : List Text := line :: ls

/-- A title, a blank line and the lines below it. -/
def titled (title : Text) (ls : List Text) : List Text := title :: [] :: ls

/-- The lines of a list under a bold label; nothing without entries. -/
def labelled (label : Text) (ls : List Text) : List Text :=
  if ls.isEmpty then [] else above ("**" ++ label ++ "**:") ls ++ [[]]

/-- The line that ends a section about one file. -/
def rule : List Text := ["---", ""]

/-- The lines that `f` gives for each entry and its number from one on. -/
def numbered {α : Type} (f : Nat → α → List Text) (entries : List α) : List Text :=
  (entries.zipIdx 1).flatMap fun p => f p.2 p.1

end SuiteAudit.Markdown

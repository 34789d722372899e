import SuiteAudit.Text.Basic

/-! # Languages of source files

The ending of a file's name tells the language that it is written in.
-/

namespace SuiteAudit

inductive Language where
  | javascript
  | typescript
  | tsx
  deriving DecidableEq, Repr

namespace Language

def name : Language → Text
  | javascript => "javascript"
  | typescript => "typescript"
  | tsx => "tsx"

/-- The endings of each language. -/
def endings : List (Text × Language) :=
  [(".js", javascript), (".jsx", javascript), (".mjs", javascript), (".cjs", javascript),
   (".ts", typescript), (".mts", typescript), (".cts", typescript), (".tsx", tsx)]

/-- The last part of a path that is neither empty nor a point. -/
def lastPart (path : Text) : Text :=
  (((Text.splitOn '/' path).filter fun part => !part.isEmpty && part != ['.']).getLast?).getD []

/-- The last point of a name and what follows it, when there is something on both sides. -/
def endingOf (name : Text) : Text :=
  let after := name.reverse.takeWhile (· != '.')
  let before := name.reverse.dropWhile (· != '.')
  if after.isEmpty || before.length ≤ 1 then [] else '.' :: after.reverse

/-- The language of a file, or the ending that no language has. -/
def ofPath (path : Text) : Except Text Language :=
  let ending := endingOf (lastPart path)
  match endings.lookup ending with
  | some language => .ok language
  | none => .error ending

/-- What is said about an ending that no language has. -/
def unsupported (ending : Text) : Text := "Unsupported file extension: " ++ ending

end Language
end SuiteAudit

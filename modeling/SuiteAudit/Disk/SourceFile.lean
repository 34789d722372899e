import SuiteAudit.Disk.Machine

/-! # Source files

A source file is read as UTF-8.  Its text has line feeds alone at the ends of lines; what ends the
lines on the disk is kept, so that `restore` can put it back.
-/

namespace SuiteAudit

/-- What ends the lines of a file. -/
inductive LineEnding where
  | lf
  | crlf
  deriving DecidableEq, Repr

namespace LineEnding

def text : LineEnding → Text
  | lf => ['\n']
  | crlf => ['\r', '\n']

/-- The ending of a file: both characters as soon as they stand together once. -/
def detect (raw : Text) : LineEnding := if Text.contains raw ['\r', '\n'] then crlf else lf

/-- A text with a line feed for each end of a line. -/
def unify : Text → Text
  | [] => []
  | '\r' :: '\n' :: rest => '\n' :: unify rest
  | c :: rest => (if c = '\r' then '\n' else c) :: unify rest

/-- A text with an ending for each line feed. -/
def restore (e : LineEnding) (t : Text) : Text := Text.replaceChar '\n' e.text t

end LineEnding

structure SourceFile where
  path : Text
  content : Text
  ending : LineEnding := .lf
  deriving DecidableEq

inductive SourceFault where
  | disk (e : DiskError)
  | encoding (e : Utf8.Fault)
  deriving DecidableEq

def SourceFault.message : SourceFault → Text
  | disk e => e.message
  | encoding e => e.message

/-- A source file that cannot be read. -/
structure SourceError where
  path : Text
  fault : SourceFault
  deriving DecidableEq

def SourceError.message (e : SourceError) : Text :=
  match e.fault with
  | .disk .nullCharacter => e.fault.message
  | fault => "Cannot read " ++ e.path ++ ": " ++ fault.message

namespace SourceFile

/-- The source file that the text on a disk stands for. -/
def ofRaw (path raw : Text) : SourceFile := ⟨path, LineEnding.unify raw, LineEnding.detect raw⟩

/-- The source file of some bytes. -/
def ofBytes (path : Text) (bytes : Bytes) : Except SourceError SourceFile :=
  match Utf8.decode bytes with
  | .ok raw => .ok (ofRaw path raw)
  | .error fault => .error ⟨path, .encoding fault⟩

/-- The bytes of a text under the line ending of a file. -/
def bytesOf (ending : LineEnding) (content : Text) : Bytes := Utf8.encode (ending.restore content)

/-- Reads a source file. -/
def read (path : Text) : Work SourceError SourceFile := do
  let bytes ← (Machine.readFile path).adapt fun e => ⟨path, .disk e⟩
  match ofBytes path bytes with
  | .ok file => return file
  | .error e => throw e

end SourceFile
end SuiteAudit

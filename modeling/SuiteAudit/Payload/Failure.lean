import SuiteAudit.Failure
import SuiteAudit.Payload.Reader

/-! # Payloads of failures -/

namespace SuiteAudit.FileFailure

open Payload

def toJson (f : FileFailure) : Json :=
  .obj [("filePath", .str f.filePath), ("stage", .str f.stage.name), ("error", .str f.error)]

def ofJson : Reader FileFailure := recordOf fun m =>
  FileFailure.mk <$> required "filePath" text m
    <*> required "stage" (choice Stage.all Stage.name) m
    <*> required "error" text m

end SuiteAudit.FileFailure

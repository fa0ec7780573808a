import MachineCodegen.Digest.Sha256
import MachineCodegen.Json.Shape
import MachineCodegen.Lowering.Error
import MachineCodegen.Model.Decoding
import MachineCodegen.Model.Encoding
set_option autoImplicit false

/-!
# Outcomes of a job (SPEC §7, §10.1)

A job ends with one generated file and its fingerprint, or with a diagnostic and no file.  An
outcome can be written as a document and read back.

No partial file is ever handed out: an outcome with a diagnostic has no file.
-/

namespace MachineCodegen.Job

open MachineCodegen.Model
open MachineCodegen.Lowering (Error)

/-- Why a job ends without a file. -/
inductive Failure where
  /-- The program is no document of a scope. -/
  | scope
  /-- The settings are no document of a job. -/
  | settings
  | lowering (cause : Error)
  deriving DecidableEq, Repr, Inhabited

namespace Failure

/-- The kind of an error, which is that of its root; a lowering that does not end has none. -/
def kindOf (e : Error) : String :=
  match e.root with
  | .unsupported _ _ => "unsupported"
  | .unresolved _ => "unresolved_symbol"
  | .missingStart _ => "missing_start_state"
  | .internal _ | .within _ _ _ _ => "internal"
  | .endless => ""

/-- The kind of a failure. -/
def kind : Failure → String
  | .scope => "invalid_scope"
  | .settings => "invalid_job"
  | .lowering e => kindOf e

/-- The message of a failure. -/
def message : Failure → String
  | .scope => "invalid scope input"
  | .settings => "invalid job configuration"
  | .lowering e => e.message

end Failure

/-- What an outcome tells about a failure. -/
structure Diagnostic where
  kind : String
  message : String
  /-- The declaration in which it arose. -/
  decl : Option String
  span : Option Span
  deriving DecidableEq, Repr, Inhabited

namespace Diagnostic

/-- The diagnostic of a failure. -/
def ofFailure (f : Failure) : Diagnostic :=
  match f with
  | .lowering e => ⟨f.kind, f.message, e.decl?, e.span?⟩
  | .scope | .settings => ⟨f.kind, f.message, none, none⟩

/-- The document of a diagnostic. -/
def toJson (d : Diagnostic) : Json :=
  .record [("kind", .ofString d.kind), ("message", .ofString d.message),
    ("decl", .option .ofString d.decl), ("span", .option Span.toJson d.span)]

/-- Reads the document of a diagnostic. -/
def ofJson? : Nat → Json → Option Diagnostic :=
  record? ["kind", "message", "decl", "span"] fun depth f => do
    return { kind := ← f.required "kind" Json.text?
             message := ← f.required "message" Json.text?
             decl := ← f.optional "decl" Json.text?
             span := ← f.omissible "span" (Span.ofJson? depth) }

end Diagnostic

/-- A generated file. -/
structure File where
  name : String
  contents : String
  deriving DecidableEq, Repr, Inhabited

namespace File

/-- The document of a file. -/
def toJson (f : File) : Json :=
  .record [("name", .ofString f.name), ("contents", .ofString f.contents)]

/-- Reads the document of a file. -/
def ofJson? : Nat → Json → Option File :=
  record? ["name", "contents"] fun _ f => do
    return ⟨← f.required "name" Json.text?, ← f.required "contents" Json.text?⟩

end File

/-- How a job ended. -/
structure Outcome where
  success : Bool
  files : List File
  error : Option Diagnostic
  /-- The fingerprint of the generated file. -/
  outputHash : Option String
  deriving DecidableEq, Repr, Inhabited

namespace Outcome

/-- The outcome with a generated file. -/
def succeeded (file : File) : Outcome :=
  ⟨true, [file], none, some (Digest.fingerprint file.contents)⟩

/-- The outcome with a failure. -/
def failed (f : Failure) : Outcome := ⟨false, [], some (.ofFailure f), none⟩

/-- The document of an outcome. -/
def toJson (o : Outcome) : Json :=
  .record [("success", .bool o.success), ("files", .list File.toJson o.files),
    ("error", .option Diagnostic.toJson o.error),
    ("output_hash", .option .ofString o.outputHash)]

/-- Reads the document of an outcome. -/
def ofJson? : Nat → Json → Option Outcome :=
  record? ["success", "files", "error", "output_hash"] fun depth f => do
    return { success := ← f.required "success" Json.bool?
             files := ← f.required "files" (Json.list? File.ofJson? depth)
             error := ← f.optional "error" (Diagnostic.ofJson? depth)
             outputHash := ← f.optional "output_hash" Json.text? }

end Outcome

end MachineCodegen.Job

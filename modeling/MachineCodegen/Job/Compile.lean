import MachineCodegen.Job.Outcome
import MachineCodegen.Json.Reader
import MachineCodegen.Lowering.Program
set_option autoImplicit false

/-!
# Compiling (SPEC §10.1, §10.4)

From a program and settings to an outcome.  Program and settings may be given as documents; the
program is read first, so that of two documents that cannot be read the program is reported.  Where
the lowering of the program does not end, neither does the job, and there is no outcome.
-/

namespace MachineCodegen.Job

open MachineCodegen.Model

/-- Reads a program from a document, if there is one. -/
def readScope (document : Option Json) : Except Failure Scope :=
  match document.bind (Scope.ofJson? Json.depthLimit) with
  | some scope => .ok scope
  | none => .error .scope

/-- Reads settings from a document, if there is one. -/
def readOptions (document : Option Json) : Except Failure Options :=
  match document.bind (Options.ofJson? Json.depthLimit) with
  | some options => .ok options
  | none => .error .settings

/-- The file that is generated for a program. -/
def compileFile (scope : Scope) (options : Options) : Except Failure File :=
  match Lowering.generate scope options with
  | .ok contents => .ok ⟨options.fileName, contents⟩
  | .error e => .error (.lowering e)

/-- The outcome of a job, if it ends. -/
def compile (scope : Scope) (options : Options) : Option Outcome :=
  match compileFile scope options with
  | .ok file => some (.succeeded file)
  | .error (.lowering .endless) => none
  | .error f => some (.failed f)

/-- The outcome of a job that is given as documents, if it ends. -/
def compileDocuments (scope settings : Option Json) : Option Outcome :=
  match readScope scope with
  | .error f => some (.failed f)
  | .ok scope =>
    match readOptions settings with
    | .error f => some (.failed f)
    | .ok options => compile scope options

/-- The outcome of a job that is given as texts, if it ends. -/
def compileTexts (scope settings : String) : Option Outcome :=
  compileDocuments (Json.parse? scope) (Json.parse? settings)

end MachineCodegen.Job

import MachineCodegen.Json.Shape
set_option autoImplicit false

/-!
# Options of a job (SPEC §10.4)

What a job may say about the file it generates.  Only the name of the project is required; the
dependencies that the file lists are the project itself when none are given.
-/

namespace MachineCodegen

/-- The settings of one job. -/
structure Options where
  projectName : String
  /-- Listed at the head of the generated file. -/
  dependencies : List String := []
  /-- The library whose modules the generated file imports. -/
  runtimeCrate : String := "amzn_p_rust"
  /-- The module that holds the free functions. -/
  globalModule : String := "global_functions"
  deriving DecidableEq, Repr, Inhabited

namespace Options

/-- The settings of a job that gives none. -/
def standard : Options := { projectName := "main" }

/-- The dependencies that are listed: the project itself when there are none. -/
def listedDependencies (o : Options) : List String :=
  if o.dependencies.isEmpty then [o.projectName] else o.dependencies

/-- The name of the generated file. -/
def fileName (o : Options) : String := o.projectName ++ ".rs"

/-- The document of a job. -/
def toJson (o : Options) : Json :=
  .record [("project_name", .ofString o.projectName),
    ("project_dependencies", .list .ofString o.dependencies),
    ("runtime_crate", .ofString o.runtimeCrate),
    ("global_functions_module", .ofString o.globalModule)]

/-- Reads the document of a job. -/
def ofJson? : Nat → Json → Option Options
  | 0, _ => none
  | depth + 1, v =>
    match Json.Fields.of? ["project_name", "project_dependencies", "runtime_crate",
        "global_functions_module"] v with
    | none => none
    | some f => do
      let plain : Options := { projectName := ← f.required "project_name" Json.text? }
      return { plain with
        dependencies := ← f.defaulted "project_dependencies" plain.dependencies
          (Json.list? (fun _ => Json.text?) depth)
        runtimeCrate := ← f.defaulted "runtime_crate" plain.runtimeCrate Json.text?
        globalModule := ← f.defaulted "global_functions_module" plain.globalModule Json.text? }

end Options

end MachineCodegen

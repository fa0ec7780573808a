import Mathlib.Data.List.Nodup
import MachineCodegen.Lowering.Program
import MachineCodegen.Proofs.Creation.Chains
import MachineCodegen.Proofs.Dispatch.Tables
import MachineCodegen.Proofs.Naming.Distinct
import MachineCodegen.Proofs.Text.Quoted
set_option autoImplicit false

/-!
# Machines that can be created (SPEC §4.7, §6)

A machine is created by its own number or by that of an interface: that of its implementer, through
as many interfaces as it takes, or else that of the machine with the name of the interface.  However
it is reached, it is a machine of the program, under the name of one of the cases of the function
that makes machines by name.
-/

namespace MachineCodegen.Lowering

open MachineCodegen.Model MachineCodegen.Naming

variable {scope : Scope} {options : Options} {ctx : Context} {start names : Names}

/-! ## Chains of implementers -/

variable {id : DeclId} {name : String}

/-- The names of the machines of a program that are no monitors, in order. -/
def AreMachineNames (scope : Scope) (names : Names) (machines : List String) : Prop :=
  List.Forall₂ (fun m name => names.lookup m.id = some name)
    (scope.machines.filter fun m => !m.isSpec) machines

section

variable (hstart : Context.start scope options = .ok (ctx, start))
include hstart

variable {machines : List String} (hmachines : AreMachineNames scope start machines)
include hmachines

end

end MachineCodegen.Lowering

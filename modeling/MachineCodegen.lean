import MachineCodegen.Job.Compile
import MachineCodegen.Json.Printer
import MachineCodegen.Model.Draft
import MachineCodegen.Proofs.Alias.Transparency
import MachineCodegen.Proofs.Naming.Uniqueness
import MachineCodegen.Proofs.Json.Text
import MachineCodegen.Proofs.Codec.Documents
import MachineCodegen.Proofs.Codec.Types
import MachineCodegen.Proofs.Codec.Doubles
import MachineCodegen.Proofs.Codec.Expressions
import MachineCodegen.Proofs.Codec.Statements
import MachineCodegen.Proofs.Codec.Scopes
import MachineCodegen.Proofs.Naming.Walk
import MachineCodegen.Proofs.Naming.Symbols
import MachineCodegen.Proofs.Dispatch.Tables
import MachineCodegen.Proofs.Dispatch.Agreement
import MachineCodegen.Proofs.Dispatch.Machines
import MachineCodegen.Proofs.Naming.Further
import MachineCodegen.Proofs.Naming.Registration
import MachineCodegen.Proofs.Naming.Drafting
import MachineCodegen.Proofs.Payload.Agreement
import MachineCodegen.Proofs.Calls.Targets
import MachineCodegen.Proofs.Calls.Handlers
import MachineCodegen.Proofs.Creation.Machines
import MachineCodegen.Proofs.Creation.Program
import MachineCodegen.Proofs.Yields
import MachineCodegen.Proofs.Calls.Licenses
import MachineCodegen.Proofs.Orderly
import MachineCodegen.Proofs.Naming.Phrases
import MachineCodegen.Proofs.Layout.Lines
import MachineCodegen.Proofs.Layout.Words
import MachineCodegen.Proofs.Layout.Indentation
import MachineCodegen.Proofs.Layout.Balance
import MachineCodegen.Proofs.Layout.Syntax
import MachineCodegen.Proofs.Layout.Expressions
import MachineCodegen.Proofs.Layout.Statements
import MachineCodegen.Proofs.Layout.Machines
import MachineCodegen.Proofs.Layout.Program
import MachineCodegen.Proofs.Layout.Head
import MachineCodegen.Proofs.Layout.Level
import MachineCodegen.Proofs.Attribution
import MachineCodegen.Proofs.Restrictions.Nodes
import MachineCodegen.Proofs.Restrictions.Expressions
import MachineCodegen.Proofs.Restrictions.Terminal
import MachineCodegen.Proofs.Restrictions.Statements
import MachineCodegen.Proofs.Restrictions.Leaving
import MachineCodegen.Proofs.Calls.Definitions
import MachineCodegen.Proofs.Spelling.Outlines
import MachineCodegen.Proofs.Spelling.Records
import MachineCodegen.Proofs.Spelling.Types
import MachineCodegen.Proofs.Spelling.Expressions
import MachineCodegen.Proofs.Spelling.Statements
import MachineCodegen.Proofs.Spelling.Scopes
import MachineCodegen.Proofs.Restrictions.Passing
import MachineCodegen.Proofs.Execution.Values
import MachineCodegen.Proofs.Execution.Syntax
import MachineCodegen.Proofs.Execution.Evaluation
import MachineCodegen.Proofs.Execution.Locality
import MachineCodegen.Proofs.Execution.Parallel
import MachineCodegen.Proofs.Execution.Lowered
import MachineCodegen.Proofs.Execution.Steps
import MachineCodegen.Proofs.Execution.Shifts
import MachineCodegen.Proofs.Stores.Locations
import MachineCodegen.Proofs.Stores.Exact
import MachineCodegen.Proofs.Stores.Repeats
import MachineCodegen.Proofs.Stores.Sequences
import MachineCodegen.Proofs.Templates.Scanning
import MachineCodegen.Proofs.Text.Literal
import MachineCodegen.Proofs.Effects.Parts
import MachineCodegen.Proofs.Templates.Filling
import MachineCodegen.Proofs.Templates.Evaluation
import MachineCodegen.Proofs.Execution.Membership
import MachineCodegen.Proofs.Effects.Kept
import MachineCodegen.Proofs.Effects.Lowered
import MachineCodegen.Proofs.Effects.Discarded
import MachineCodegen.Proofs.Conversions.Agreement
import MachineCodegen.Proofs.Conversions.NullChecks
import MachineCodegen.Proofs.Tuples.Spreading
import MachineCodegen.Proofs.Tuples.Components
import MachineCodegen.Proofs.Representations
import MachineCodegen.Proofs.Layout.Literals
import MachineCodegen.Proofs.Naming.Fixed
import MachineCodegen.Proofs.Operators.Reading
import MachineCodegen.Proofs.Operators.Grammar
import MachineCodegen.Proofs.Operators.Written
import MachineCodegen.Proofs.Operators.Structure
import MachineCodegen.Proofs.Unrepresentable
import MachineCodegen.Proofs.Naming.Variables
import MachineCodegen.Proofs.Restrictions.Places
import MachineCodegen.Proofs.Stores.Moves
import MachineCodegen.Proofs.Naming.Modules
import MachineCodegen.Proofs.Naming.Order
import MachineCodegen.Proofs.Naming.Probing
import MachineCodegen.Proofs.Naming.Marks
import MachineCodegen.Proofs.Naming.Temporaries
import MachineCodegen.Proofs.Starting
import MachineCodegen.Proofs.Integers.Source
import MachineCodegen.Proofs.Integers.Range

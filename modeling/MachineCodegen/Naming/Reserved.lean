set_option autoImplicit false

/-!
# Reserved identifiers (SPEC §4.2)

Three groups of words that no declaration may be called: the keywords of the target language, the
names that a generated file defines or imports itself, and the names of the standard prelude that
it uses unqualified.
-/

namespace MachineCodegen.Naming

/-- The keywords of the target language, those reserved for later use among them. -/
def keywords : List String :=
  ["Self", "abstract", "as", "async", "await", "become", "box", "break", "const", "continue",
    "crate", "do", "dyn", "else", "enum", "extern", "false", "final", "fn", "for", "gen", "if",
    "impl", "in", "let", "loop", "macro", "match", "mod", "move", "mut", "override", "priv",
    "pub", "ref", "return", "self", "static", "struct", "super", "trait", "true", "try", "type",
    "typeof", "union", "unsafe", "unsized", "use", "virtual", "where", "while", "yield"]

/-- The names that a generated file defines or imports itself. -/
def scaffoldNames : List String :=
  ["MD", "M", "MP", "PV", "EV", "PStateMachine", "Clonable", "HashMap", "mpsc", "thread",
    "Box", "Option", "Some", "None", "String", "Vec", "ProtocolEvent", "ProtocolEventName",
    "MonitorTemperature", "DefaultEvent", "PHalt", "create_new_machine", "global_functions",
    "common_data", "goto_payload", "current_machine", "current_state", "default_function",
    "exit_current_state", "take_entry_event", "observe", "observes", "temperature", "is_hot",
    "new", "default", "send_event", "create_machine", "add_to_config", "answer_requests",
    "name", "index", "execute", "print", "update_id", "event", "e", "entry_event", "main",
    "link_map", "interface_definitions", "monitor_observes", "monitor_map", "start", "MAIN",
    "tx_machine_to_config", "rx_config_to_machine", "arg", "args", "self_id"]

/-- The names of the prelude, and of primitive types, that a generated file uses. -/
def preludeNames : List String :=
  ["std", "core", "Ok", "Err", "Result", "Clone", "Copy", "Debug", "Default", "PartialEq",
    "Eq", "Hash", "Iterator", "Send", "Sync", "Sized", "Drop", "From", "Into", "ToString",
    "bool", "char", "str", "i32", "i64", "u32", "usize", "f64"]

/-- A keyword, or a name of the scaffold. -/
def isReserved (name : String) : Bool := keywords.contains name || scaffoldNames.contains name

/-- Every name that is taken before the first declaration is named. -/
def reservedNames : List String := keywords ++ scaffoldNames ++ preludeNames

end MachineCodegen.Naming

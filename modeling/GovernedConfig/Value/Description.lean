import GovernedConfig.Json.Printer
import GovernedConfig.Value.Conversion

/-! # Describing values

A value is described in messages by its JSON text, or by its plain text if it has no JSON text.
-/

namespace GovernedConfig.Value

/-- The description of a value; none if it can be read neither way. -/
def describe? (v : Value) : Option String := (Json.print? v).orElse fun _ => v.toText?

end GovernedConfig.Value

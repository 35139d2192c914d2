import InstallerAnalysis.Identifier.Synthesis
import InstallerAnalysis.Registry.Basic
import InstallerAnalysis.SourceUnit.Rows
import InstallerAnalysis.Text.Lowercase

/-!
# Registry values

A registry value belongs to a component. Its identifier is derived from the component, the root,
the key and the name, where letter case in key and name makes no difference.
-/

namespace InstallerAnalysis

namespace Registry

structure Entry where
  root : Root
  key : String
  component : String
  name : Option String := none
  value : Option String := none
  valueType : ValueType := .string
  valueAction : ValueAction := .write
deriving DecidableEq

namespace Entry

/-- Makes the value a number. -/
def withInteger (e : Entry) (n : Int) : Entry :=
  { e with value := some (toString n), valueType := .integer }

/-- What tells registry values apart. -/
def parts (e : Entry) : List String :=
  [e.component, toString e.root.code, Text.lowercase e.key, Text.lowercase (e.name.getD "")]

def identifier (e : Entry) : Identifier :=
  Identifier.ofParts "reg" e.parts

def fill (e : Entry) (s : Symbol) : Symbol :=
  s.put Schema.Registry.root e.root.code
    |>.put Schema.Registry.key e.key
    |>.put? Schema.Registry.name e.name
    |>.put? Schema.Registry.value e.value
    |>.put Schema.Registry.valueType e.valueType.code
    |>.put Schema.Registry.valueAction e.valueAction.code
    |>.put Schema.Registry.component e.component

end Entry

end Registry

namespace SourceUnit

/-- Adds a registry value and gives its identifier, unless its key is empty or the value exists
already. -/
def createRegistryValue (loc : Location) (e : Registry.Entry) : Analysis (Option Identifier) := do
  if e.key.isEmpty then
    report .emptyRegistryKey loc
    return none
  else if ← createRow loc Schema.Registry.definition (some e.identifier) e.fill then
    return some e.identifier
  else
    return none

end SourceUnit

end InstallerAnalysis

import InstallerAnalysis.Identifier.Synthesis
import InstallerAnalysis.SourceUnit.Rows

/-!
# References to rows defined elsewhere

A reference names a table and the keys of a row in it. The table is not looked up: the row may be
in a table that only a later stage knows.
-/

namespace InstallerAnalysis.SourceUnit

/-- Records that the section depends on a row. -/
def reference (loc : Location) (table : String) (keys : List String) : Analysis Unit := do
  let _ ← createRow loc Schema.SimpleReference.definition none fun s =>
    (s.put Schema.SimpleReference.table table).put Schema.SimpleReference.primaryKeys
      (String.intercalate "/" keys)

/-- Refers to the variant of a custom action for a platform, if there is one for it. -/
def referenceCustomAction (loc : Location) (name : String) (platform : Platform)
    (supported : PlatformSet) : Analysis (Option Identifier) := do
  match Identifier.ofPlatform? name platform supported with
  | none => return none
  | some id =>
    reference loc Schema.CustomAction.definition.name [id.id]
    return some id

end InstallerAnalysis.SourceUnit

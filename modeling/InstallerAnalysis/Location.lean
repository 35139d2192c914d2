/-!
# Source locations
-/

namespace InstallerAnalysis

/-- A line of a source file, or the file as a whole. -/
structure Location where
  file : String
  line : Option Nat
deriving DecidableEq

namespace Location

def text (loc : Location) : String :=
  match loc.line with
  | some n => loc.file ++ "(" ++ toString n ++ ")"
  | none => loc.file

end Location

end InstallerAnalysis

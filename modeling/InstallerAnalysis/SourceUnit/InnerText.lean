import InstallerAnalysis.Markup.InnerText
import InstallerAnalysis.SourceUnit.Basic

/-!
# Elements that take no text
-/

namespace InstallerAnalysis.SourceUnit

/-- Reports text inside an element that takes none, and names the attribute to use instead. -/
def refuseText (e : Element) (suggestion : Option String) : Analysis Unit := do
  if e.trimmedText.isSome then report (.unexpectedText e.name suggestion) e.location

end InstallerAnalysis.SourceUnit

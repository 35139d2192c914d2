import InstallerAnalysis.Markup.Basic
import InstallerAnalysis.Text.Blank

/-!
# Inner text

The text of an element as a value: with the blanks around it removed, or as a condition, in which
every run of blanks is a single space. Blank text counts as no text.
-/

namespace InstallerAnalysis

/-- A text, unless it is empty. -/
def nonempty? (s : String) : Option String :=
  if s.isEmpty then none else some s

namespace Element

def trimmedText (e : Element) : Option String :=
  (e.text.map Text.trim).bind nonempty?

def conditionText (e : Element) : Option String :=
  (e.text.map Text.foldBlanks).bind nonempty?

end Element

end InstallerAnalysis

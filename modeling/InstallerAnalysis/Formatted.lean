/-!
# Formatted text

Formatted text may refer to an installer property by writing its name in square brackets.
-/

namespace InstallerAnalysis.Formatted

/-- Whether a `]` of the rest of a text closes a bracket with something in it. The rest starts at
the byte `index`, and `start?` is the byte of the latest `[`, unless a `]` came after it. -/
def scan (index : Nat) (start? : Option Nat) : List Char → Bool
  | [] => false
  | c :: cs =>
    let next := index + c.utf8Size
    if c = '[' then scan next (some index) cs
    else if c = ']' then start?.any (· + 1 < index) || scan next none cs
    else scan next start? cs

/-- Whether the text holds a property reference such as `[INSTALLFOLDER]`. -/
def hasPropertyReference (s : String) : Bool :=
  scan 0 none s.toList

end InstallerAnalysis.Formatted

/-!
# TOML values

The values that a document holds. Settings are texts, truth values, lists and tables; numbers and
dates are recognized and not told apart. A table remembers how it came to be, because that decides
how it may be extended.
-/

namespace InstallerAnalysis.Toml

/-- How a table was introduced. -/
inductive Origin where
  /-- Written as a value. -/
  | inline
  /-- By a header of its own. -/
  | header
  /-- By the header of a table inside it. -/
  | implied
  /-- By a dotted key. -/
  | dotted
deriving DecidableEq

inductive Value where
  | text (s : String)
  | flag (b : Bool)
  | scalar
  | list (items : List Value)
  /-- The tables that repeated headers add to. -/
  | tables (items : List (List (String × Value)))
  | table (origin : Origin) (entries : List (String × Value))

/-- How many lists and tables may be written inside one another, and how many tables a key may lead
through, counting the one it is in. -/
def maxDepth : Nat := 80

/-- The contents of a table. -/
abbrev Entries := List (String × Value)

end InstallerAnalysis.Toml

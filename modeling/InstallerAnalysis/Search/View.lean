import InstallerAnalysis.Search.Basic

/-!
# Searches and relations read back from a section

The view holds the searches in the order in which they come up: first those that the section
declares, then those that its relations mention, and the relations in the order of their rows.
-/

namespace InstallerAnalysis.Search

/-- The search `child` comes after the search `parent`. -/
structure Relation where
  parent : String
  child : String
  flags : Flags
deriving DecidableEq

/-- The relation that a row records. -/
def Relation.ofSymbol? (s : Symbol) : Option Relation := do
  let child ← s.id
  let parent ← s.get? Schema.SearchRelation.parent
  return ⟨parent, child.id,
    ((s.get? Schema.SearchRelation.attributes).map Flags.ofInt).getD Flags.none⟩

structure View where
  searches : List String
  relations : List Relation
deriving DecidableEq

namespace View

def ofSection (c : Section) : View :=
  let declared := (c.rowsOf Schema.Search.definition.name).filterMap (·.id.map (·.id))
  let relations :=
    (c.rowsOf Schema.SearchRelation.definition.name).filterMap Relation.ofSymbol?
  ⟨(declared ++ relations.flatMap fun r => [r.parent, r.child]).eraseDups, relations⟩

/-- The searches that a search comes after, with the flags of each relation. -/
def parents (v : View) (id : String) : List (String × Flags) :=
  (v.relations.filter (·.child = id)).map fun r => (r.parent, r.flags)

end View

end InstallerAnalysis.Search

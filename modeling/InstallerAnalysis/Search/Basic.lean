import InstallerAnalysis.SourceUnit.References

/-!
# Searches

A search looks something up before an installation is planned and keeps the result in a variable.
A relation orders one search after another. A search has at most one relation of its own, since
the row of a relation is named after the later search.
-/

namespace InstallerAnalysis

namespace Search

/-- How two searches are related, as bit flags. -/
structure Flags where
  bits : UInt32
deriving DecidableEq

namespace Flags

def none : Flags := ⟨0⟩

/-- The search comes strictly after the other one. -/
def after : Flags := ⟨2⟩

def union (a b : Flags) : Flags :=
  ⟨a.bits ||| b.bits⟩

def contains (a b : Flags) : Bool :=
  a.bits &&& b.bits = b.bits

/-- The flags of a number, or none if it has more than thirty-two bits or a sign. -/
def ofInt (n : Int) : Flags :=
  if 0 ≤ n ∧ n < 4294967296 then ⟨UInt32.ofNat n.toNat⟩ else none

end Flags

structure Entry where
  elementName : String
  id : Identifier
  variableName : String
  condition : Option String := none
  after : Option String := none
  bundleExtension : Option String := none
deriving DecidableEq

def Entry.fill (e : Entry) (s : Symbol) : Symbol :=
  s.put Schema.Search.elementName e.elementName
    |>.put Schema.Search.variableName e.variableName
    |>.put? Schema.Search.condition e.condition
    |>.put? Schema.Search.bundleExtension e.bundleExtension

end Search

namespace SourceUnit

/-- Orders the search `id` after another one, and says whether that was recorded. -/
def createSearchRelation (loc : Location) (id : Identifier) (parent : String)
    (flags : Search.Flags) : Analysis Bool := do
  if id.id = parent then
    report (.selfRelation parent) loc
    return false
  else
    createRow loc Schema.SearchRelation.definition (some id) fun s =>
      (s.put Schema.SearchRelation.parent parent).put Schema.SearchRelation.attributes
        (flags.bits.toNat : Int)

/-- Adds a search together with what it refers to, and says whether it was added. -/
def createSearch (loc : Location) (e : Search.Entry) : Analysis Bool := do
  if ← createRow loc Schema.Search.definition (some e.id) e.fill then
    if let some earlier := e.after then
      reference loc Schema.Search.definition.name [earlier]
      let _ ← createSearchRelation loc e.id earlier .after
    if let some extension := e.bundleExtension then
      reference loc Schema.BundleExtension.definition.name [extension]
    return true
  else
    return false

end SourceUnit

end InstallerAnalysis

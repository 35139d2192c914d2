import InstallerAnalysis.Grouping.Basic
import InstallerAnalysis.SourceUnit.Rows

/-!
# Memberships

A membership puts a child under a parent, possibly as the primary child of its kind. It makes a
row of its own and a group row. The group row is left out when the parent is not known.
-/

namespace InstallerAnalysis

namespace Grouping

structure Membership where
  parentType : ParentType
  parent : String
  childType : ChildType
  child : String
  parentLanguage : Option String := none
  isPrimary : Bool := false
deriving DecidableEq

namespace Membership

def fill (m : Membership) (s : Symbol) : Symbol :=
  s.put Schema.ComplexReference.parent m.parent
    |>.put Schema.ComplexReference.parentType m.parentType.code
    |>.put? Schema.ComplexReference.parentLanguage m.parentLanguage
    |>.put Schema.ComplexReference.child m.child
    |>.put Schema.ComplexReference.childType m.childType.code
    |>.put Schema.ComplexReference.isPrimary m.isPrimary

def fillGroup (m : Membership) (s : Symbol) : Symbol :=
  s.put Schema.Group.parent m.parent
    |>.put Schema.Group.parentType m.parentType.code
    |>.put Schema.Group.child m.child
    |>.put Schema.Group.childType m.childType.code

/-- Whether the parent is known well enough to be a group. -/
def hasGroup (m : Membership) : Bool :=
  m.parentType ≠ .unknown && !m.parent.isEmpty

end Membership

end Grouping

namespace SourceUnit

def createGroupRow (loc : Location) (m : Grouping.Membership) : Analysis Unit := do
  if m.hasGroup then
    let _ ← createRow loc Schema.Group.definition none m.fillGroup

def createMembership (loc : Location) (m : Grouping.Membership) : Analysis Unit := do
  let _ ← createRow loc Schema.ComplexReference.definition none m.fill
  createGroupRow loc m

end SourceUnit

end InstallerAnalysis

import InstallerAnalysis.Grouping.Membership

/-!
# Memberships read back from a section

The view is a graph. Its nodes are the parents and the children of the section, each kind and
identifier once, in the order in which they come up. Every membership is an edge, in the order of
the rows. Rows whose kinds are not known are left out.
-/

namespace InstallerAnalysis.Grouping

/-- The membership that a row records. -/
def Membership.ofSymbol? (s : Symbol) : Option Membership := do
  let parentType ← (s.get? Schema.ComplexReference.parentType).bind ParentType.ofCode?
  let childType ← (s.get? Schema.ComplexReference.childType).bind ChildType.ofCode?
  return {
    parentType := parentType
    parent := (s.get? Schema.ComplexReference.parent).getD ""
    childType := childType
    child := (s.get? Schema.ComplexReference.child).getD ""
    parentLanguage := s.get? Schema.ComplexReference.parentLanguage
    isPrimary := (s.get? Schema.ComplexReference.isPrimary).getD false }

/-- An identifier may be that of a parent and that of a child. -/
inductive Node where
  | parent (kind : ParentType) (id : String)
  | child (kind : ChildType) (id : String)
deriving DecidableEq

/-- A membership, with the positions of parent and child among the nodes. -/
structure Edge where
  source : Nat
  target : Nat
  childType : ChildType
  isPrimary : Bool
  parentLanguage : Option String
deriving DecidableEq

/-- A child as its parent has it. -/
structure Member where
  child : String
  childType : ChildType
  isPrimary : Bool
  parentLanguage : Option String
deriving DecidableEq

structure View where
  nodes : List Node := []
  edges : List Edge := []
deriving DecidableEq

/-- A parent with several primary children of one kind. -/
structure Conflict where
  parentType : ParentType
  parent : String
  childType : ChildType
  children : List String
deriving DecidableEq

namespace View

/-- The position of a node, which is added if it is new. -/
def intern (v : View) (n : Node) : Nat × View :=
  match v.nodes.idxOf? n with
  | some index => (index, v)
  | none => (v.nodes.length, { v with nodes := v.nodes ++ [n] })

def connect (v : View) (m : Membership) : View :=
  let (source, v) := v.intern (.parent m.parentType m.parent)
  let (target, v) := v.intern (.child m.childType m.child)
  { v with edges := v.edges ++ [⟨source, target, m.childType, m.isPrimary, m.parentLanguage⟩] }

def ofSection (c : Section) : View :=
  ((c.rowsOf Schema.ComplexReference.definition.name).filterMap Membership.ofSymbol?).foldl
    connect {}

/-- The child at the end of an edge. -/
def member? (v : View) (e : Edge) : Option Member :=
  match v.nodes[e.target]? with
  | some (.child _ id) => some ⟨id, e.childType, e.isPrimary, e.parentLanguage⟩
  | _ => none

/-- The children of a parent, in the order in which they were put under it. -/
def children (v : View) (owner : ParentType × String) : List Member :=
  match v.nodes.idxOf? (.parent owner.1 owner.2) with
  | some source => (v.edges.filter (·.source = source)).filterMap v.member?
  | none => []

def primaries (v : View) (owner : ParentType × String) : List Member :=
  (v.children owner).filter (·.isPrimary)

/-- The first primary child of a kind. -/
def firstPrimary? (v : View) (owner : ParentType × String) (kind : ChildType) : Option String :=
  ((v.children owner).find? fun m => m.childType = kind && m.isPrimary).map (·.child)

/-- The parents, each where it is first mentioned. -/
def owners (v : View) : List (ParentType × String) :=
  v.nodes.filterMap fun
    | .parent kind id => some (kind, id)
    | .child _ _ => none

/-- The conflicts of one parent, by kind in the order of the first primary child. -/
def conflictsOf (v : View) (owner : ParentType × String) : List Conflict :=
  let primaries := v.primaries owner
  let kinds := (primaries.map (·.childType)).eraseDups
  (kinds.map fun kind => Conflict.mk owner.1 owner.2 kind
    ((primaries.filter (·.childType = kind)).map (·.child))).filter (1 < ·.children.length)

def conflicts (v : View) : List Conflict :=
  v.owners.flatMap v.conflictsOf

end View

end InstallerAnalysis.Grouping

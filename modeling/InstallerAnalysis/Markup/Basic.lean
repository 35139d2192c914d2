import InstallerAnalysis.Location

/-!
# Markup

The element tree that analysis reads: names with an optional namespace, attributes as text, child
elements, inner text and the location of each element. An attribute knows the name of the element
that owns it, so that a report about it can name both.
-/

namespace InstallerAnalysis

/-- A name and the namespace it is in. The empty namespace is not the same as none. -/
structure QName where
  space : Option String
  name : String
deriving DecidableEq

namespace QName

/-- A name outside every namespace. -/
def plain (name : String) : QName :=
  ⟨none, name⟩

def text (q : QName) : String :=
  match q.space with
  | some space => "\x7b" ++ space ++ "\x7d" ++ q.name
  | none => q.name

end QName

structure Attribute where
  owner : QName
  name : QName
  value : String
deriving DecidableEq

/-- The attribute as reports name it. -/
def Attribute.path (a : Attribute) : String :=
  a.owner.text ++ "/@" ++ a.name.text

structure Element where
  name : QName
  location : Location
  /-- Names and values of the attributes, in document order. -/
  values : List (QName × String)
  children : List Element
  text : Option String

namespace Element

def attributes (e : Element) : List Attribute :=
  e.values.map fun (name, value) => ⟨e.name, name, value⟩

/-- The first attribute of a name outside every namespace. -/
def attribute? (e : Element) (name : String) : Option Attribute :=
  e.attributes.find? (·.name = QName.plain name)

end Element

end InstallerAnalysis

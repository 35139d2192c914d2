import InstallerAnalysis.Extension.Basic

/-!
# Offering markup to extensions

What is in the namespace of extensions is offered to them in their order, until one accepts it. What
nobody accepts is reported.
-/

namespace InstallerAnalysis

namespace QName

/-- The namespaces of the markup standards themselves start like this. -/
def standardSpace : String := "http://www.w3.org/"

/-- Namespace declarations and attributes of the markup standards say nothing about the package. -/
def isMarkupOnly (q : QName) : Bool :=
  match q.space with
  | some space => standardSpace.toList.isPrefixOf space.toList
  | none => q.name = "xmlns" || "xmlns:".toList.isPrefixOf q.name.toList

end QName

namespace SourceUnit

def refuseAttribute (e : Element) (a : Attribute) : Analysis Unit := do
  unless a.name.isMarkupOnly do
    report (.unexpectedAttribute e.name a.name) e.location

def refuseElement (parent child : Element) : Analysis Unit :=
  report (.unexpectedElement parent.name child.name) child.location

def refuseUnhandled (parent e : Element) : Analysis Unit :=
  report (.unhandledElement parent.name e.name) e.location

end SourceUnit

namespace Extension

variable {σ α : Type}

/-- The extensions that own a namespace. -/
def owning (extensions : List (Extension σ)) (space : Option String) : List (Extension σ) :=
  extensions.filter fun x => space = some x.space

/-- Asks one after the other until one accepts. -/
def firstAccept (ask : Extension σ → Hosted σ (Reply α)) :
    List (Extension σ) → Hosted σ (Option α)
  | [] => return none
  | x :: rest => do
    match ← ask x with
    | .accept result => return some result
    | .pass => firstAccept ask rest

def offerAttribute (extensions : List (Extension σ)) (accepted : Intermediate) (e : Element)
    (context : Context) (a : Attribute) : Hosted σ Unit := do
  unless a.name.isMarkupOnly do
    let reply ← firstAccept (·.onAttribute accepted e a context) (owning extensions a.name.space)
    if reply.isNone then Hosted.analyze (SourceUnit.refuseAttribute e a)

def offerElement (extensions : List (Extension σ)) (accepted : Intermediate) (parent : Element)
    (context : Context) (e : Element) : Hosted σ Unit := do
  let reply ← firstAccept (·.onElement accepted parent e context) (owning extensions e.name.space)
  if reply.isNone then Hosted.analyze (SourceUnit.refuseUnhandled parent e)

/-- Offers an element that may supply the key path of the component around it. -/
def offerKeyPath (extensions : List (Extension σ)) (accepted : Intermediate) (parent : Element)
    (context : Context) (e : Element) : Hosted σ (Option KeyPath) := do
  match ← firstAccept (·.onKeyPath accepted parent e context) (owning extensions e.name.space) with
  | some keyPath => return keyPath
  | none =>
    Hosted.analyze (SourceUnit.refuseUnhandled parent e)
    return none

/-- Offers the children of an element. A child in the element's own namespace is nobody's. -/
def offerChildren (extensions : List (Extension σ)) (accepted : Intermediate) (e : Element)
    (context : Context) : Hosted σ Unit :=
  e.children.forM fun child =>
    if child.name.space = e.name.space then Hosted.analyze (SourceUnit.refuseElement e child)
    else offerElement extensions accepted e context child

end Extension

end InstallerAnalysis

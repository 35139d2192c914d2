import InstallerAnalysis.Identifier.Basic

/-!
# Variable references

A reference such as `!(loc.Title)` or `!(bind.fileVersion.App)` is a sigil, and in parentheses a
namespace of letters, a period, and a name of the identifier grammar. A reference is always the
whole text.
-/

namespace InstallerAnalysis

namespace Variable

/-- The character before the parenthesis. -/
inductive Sigil where
  | bang
  | dollar
deriving DecidableEq

def Sigil.char : Sigil → Char
  | .bang => '!'
  | .dollar => '$'

def Sigil.ofChar? (c : Char) : Option Sigil :=
  [Sigil.bang, Sigil.dollar].find? (·.char = c)

structure Reference where
  sigil : Sigil
  space : List Char
  name : List Char
deriving DecidableEq

namespace Reference

/-- The reference as it is written. -/
def render (r : Reference) : List Char :=
  r.sigil.char :: '(' :: r.space ++ '.' :: r.name ++ [')']

/-- Splits a name from the parenthesis that closes the text. -/
def closeName? (cs : List Char) : Option (List Char) :=
  let name := cs.takeWhile Identifier.isChar
  if Identifier.isLegalText name && cs.dropWhile Identifier.isChar = [')'] then some name else none

def read? : List Char → Option Reference
  | c :: '(' :: rest => do
    let sigil ← Sigil.ofChar? c
    match rest.takeWhile Text.isAsciiLetter, rest.dropWhile Text.isAsciiLetter with
    | [], _ => none
    | space, '.' :: tail => (closeName? tail).map fun name => ⟨sigil, space, name⟩
    | _, _ => none
  | _ => none

def parse? (s : String) : Option Reference :=
  read? s.toList

/-- A localized text, put in when the package is localized. -/
def isLocalization (r : Reference) : Bool :=
  r.sigil = .bang && r.space = "loc".toList

/-- A reference that stands for a text known only later. -/
def isDeferred (r : Reference) : Bool :=
  (r.space = "loc".toList) || (r.sigil = .bang && r.space = "wix".toList)

/-- A value that the binder supplies. -/
def isBinder (r : Reference) : Bool :=
  r.sigil = .bang &&
    ((r.space = "bind".toList && r.name.contains '.') || r.space = "bindpath".toList)

end Reference

def isLocalization (s : String) : Bool :=
  (Reference.parse? s).any (·.isLocalization)

def isDeferred (s : String) : Bool :=
  (Reference.parse? s).any (·.isDeferred)

def isBinder (s : String) : Bool :=
  (Reference.parse? s).any (·.isBinder)

end Variable

end InstallerAnalysis

import InstallerAnalysis.SourceUnit.Basic
import InstallerAnalysis.Text.Blank

/-!
# Coercions

A coercion reads the text of an attribute as a value, and reports what is wrong or odd about the
text to the unit that is being analyzed. When the text is refused a placeholder takes the place of
the value, so that analysis can go on.
-/

namespace InstallerAnalysis

/-- The outcome of reading an attribute: what it says, or the placeholder. -/
inductive Coercion.Outcome (α : Type) where
  | valid (value : α)
  | placeholder (value : α)
deriving DecidableEq

namespace Coercion.Outcome

variable {α β : Type}

def isValid : Outcome α → Bool
  | .valid _ => true
  | .placeholder _ => false

/-- The value in either case. -/
def value : Outcome α → α
  | .valid a => a
  | .placeholder a => a

/-- The value, unless it is the placeholder. -/
def valid? : Outcome α → Option α
  | .valid a => some a
  | .placeholder _ => none

def map (f : α → β) : Outcome α → Outcome β
  | .valid a => .valid (f a)
  | .placeholder a => .placeholder (f a)

end Coercion.Outcome

/-- A way to read attributes, with the location that their problems are reported at. -/
def Coercion (α : Type) : Type :=
  Location → Attribute → Analysis (Coercion.Outcome α)

namespace SourceUnit

def readAttribute {α : Type} (c : Coercion α) (loc : Location) (a : Attribute) :
    Analysis (Coercion.Outcome α) :=
  c loc a

end SourceUnit

/-- Which texts without content an attribute accepts. -/
inductive BlankRule where
  /-- Neither empty nor blank texts. -/
  | refuseBlank
  /-- Blank texts, but not the empty one. -/
  | refuseEmpty
  | acceptAll
deriving DecidableEq

def BlankRule.refuses (rule : BlankRule) (text : String) : Bool :=
  match rule with
  | .refuseBlank => Text.allBlank text
  | .refuseEmpty => text.isEmpty
  | .acceptAll => false

namespace Coercion

open SourceUnit (report readAttribute)

def text (rule : BlankRule) : Coercion String := fun loc a => do
  if rule.refuses a.value then
    report (.value a.path .empty) loc
    return .placeholder ""
  else
    return .valid a.value

/-- Refuses blank texts, and goes on with the others. -/
def ofText {α : Type} (standIn : α)
    (next : Location → Attribute → String → Analysis (Outcome α)) : Coercion α := fun loc a => do
  match ← readAttribute (text .refuseBlank) loc a with
  | .valid s => next loc a s
  | .placeholder _ => return .placeholder standIn

end Coercion

end InstallerAnalysis

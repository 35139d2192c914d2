import InstallerAnalysis.Action.Standard
import InstallerAnalysis.SourceUnit.References

/-!
# Scheduling actions

An action is scheduled in a sequence, possibly before or after other actions. An action that is
overridable may be scheduled along with others of its name, and which of them counts is settled
when sections are linked. Two of one name that are not overridable contradict each other, and the
second is dropped.
-/

namespace InstallerAnalysis

namespace Action

structure Schedule where
  sequence : Sequence
  name : String
  access : Access := .fragment
  condition : Option String := none
  before : Option String := none
  after : Option String := none
  overridable : Bool := false
deriving DecidableEq

namespace Schedule

def identifier (a : Schedule) : Identifier :=
  ⟨a.access, a.sequence.text ++ "/" ++ a.name⟩

def fill (a : Schedule) (s : Symbol) : Symbol :=
  s.put Schema.Action.sequence a.sequence.code
    |>.put Schema.Action.name a.name
    |>.put? Schema.Action.condition a.condition
    |>.put? Schema.Action.before a.before
    |>.put? Schema.Action.after a.after
    |>.put Schema.Action.overridable a.overridable

/-- The rows that schedule an action of the same name in the same sequence. -/
def earlier (a : Schedule) (c : Section) : List Symbol :=
  (c.scheduledIn a.sequence).filter (·.get? Schema.Action.name = some a.name)

end Schedule

/-- Whether a row may stand beside another one of its name. -/
def isOverridable (s : Symbol) : Bool :=
  (s.get? Schema.Action.overridable).getD false

end Action

namespace SourceUnit

/-- Refers to an action, which is a standard one in the same sequence or a custom one. -/
def referenceAction (loc : Location) (sequence : Sequence) (target : String) : Analysis Unit :=
  if Action.isStandard target then
    reference loc Schema.Action.definition.name [sequence.text, target]
  else
    reference loc Schema.CustomAction.definition.name [target]

/-- Adds the row of an action: it holds its identifier only if it is the first of its name. -/
def placeAction (loc : Location) (a : Action.Schedule) : Analysis Bool := do
  match a.earlier (← get).content with
  | [] => createRow loc Schema.Action.definition (some a.identifier) a.fill
  | rows =>
    match rows.find? fun s => !Action.isOverridable s && !a.overridable with
    | some first =>
      report (.duplicateAction a.name a.sequence first.location) loc
      return false
    | none =>
      pushRow loc Schema.Action.definition (some a.identifier) a.fill
      return true

/-- Schedules an action and gives its identifier, unless it was dropped. -/
def addAction (loc : Location) (a : Action.Schedule) : Analysis (Option Identifier) := do
  if ← placeAction loc a then
    (a.before.toList ++ a.after.toList).forM (referenceAction loc a.sequence)
    return some a.identifier
  else
    return none

end SourceUnit

end InstallerAnalysis

import InstallerAnalysis.Extension.Basic

/-!
# Extensions given by rules

A rule says for a kind of hook and a name what is done with the markup of that name: a row is added,
a warning made, and it is accepted or not. Such an extension remembers the calls of its hooks.
-/

namespace InstallerAnalysis.Extension

inductive Hook where
  | attribute
  | element
  | keyPath
deriving DecidableEq

namespace Hook

def all : List Hook :=
  [.attribute, .element, .keyPath]

def text : Hook → String
  | .attribute => "attribute"
  | .element => "element"
  | .keyPath => "key_path"

def ofText? (s : String) : Option Hook :=
  all.find? (·.text = s)

end Hook

/-- A row that a rule adds. Its identifier ends with the context's value of a key. -/
structure RowRule where
  table : String
  id : String
  contextKey : Option String := none
deriving DecidableEq

structure Rule where
  hook : Hook
  /-- The local name, or `*` for every one. -/
  pattern : String
  row : Option RowRule := none
  warning : Option String := none
  accepts : Bool := false
  keyPath : Option KeyPath := none
deriving DecidableEq

structure RuleSet where
  name : String
  rules : List Rule
deriving DecidableEq

namespace RuleSet

/-- A call of a hook, as it is remembered. -/
def callText (set : RuleSet) (hook : Hook) (name : String) (accepted : Intermediate)
    (context : Context) : String :=
  s!"{set.name} {hook.text} {name} sections={accepted.sections.length} context={context.size}"

/-- The first rule for a hook and a local name. -/
def ruleFor? (set : RuleSet) (hook : Hook) (name : String) : Option Rule :=
  set.rules.find? fun r => r.hook = hook && (r.pattern = name || r.pattern = "*")

end RuleSet

namespace RowRule

def identifier (r : RowRule) (context : Context) : Identifier :=
  Identifier.ofId (r.id ++ (r.contextKey.bind context.get?).getD "")

end RowRule

/-- Does what a rule says, apart from accepting. -/
def Rule.perform (r : Rule) (loc : Location) (context : Context) : Analysis Unit := do
  if let some row := r.row then
    let _ ← SourceUnit.createWith loc (.named row.table) (some (row.identifier context))
      fun s => (s, ())
  if let some message := r.warning then
    SourceUnit.record
      { severity := .warning, message := message, labels := [⟨loc, "extension", true⟩] }

/-- Remembers the call and follows the first rule that applies. -/
def RuleSet.respond (set : RuleSet) (hook : Hook) (name : String) (loc : Location)
    (accepted : Intermediate) (context : Context) :
    Hosted (List String) (Reply (Option KeyPath)) := do
  modify fun host =>
    { host with memory := host.memory ++ [set.callText hook name accepted context] }
  match set.ruleFor? hook name with
  | none => return .pass
  | some rule =>
    Hosted.analyze (rule.perform loc context)
    return if rule.accepts then .accept rule.keyPath else .pass

def ofRules (space : String) (set : RuleSet) : Extension (List String) where
  space := space
  onAttribute accepted e a context :=
    Reply.discard <$> set.respond .attribute a.name.name e.location accepted context
  onElement accepted _ e context :=
    Reply.discard <$> set.respond .element e.name.name e.location accepted context
  onKeyPath accepted _ e context :=
    set.respond .keyPath e.name.name e.location accepted context

end InstallerAnalysis.Extension

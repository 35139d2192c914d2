import InstallerAnalysis.Coercion.Basic
import InstallerAnalysis.Filename.Path
import InstallerAnalysis.Guid.Basic
import InstallerAnalysis.Identifier.Basic
import InstallerAnalysis.Registry.Basic
import InstallerAnalysis.Variable
import InstallerAnalysis.Version

/-!
# The values of attributes

One coercion for each kind of value that attributes hold.
-/

namespace InstallerAnalysis

/-- A version in numbers, or a variable that the binder replaces by one. -/
inductive VersionText where
  | numeric (text : String)
  | bound (text : String)
deriving DecidableEq

inductive YesNo where
  | yes
  | no
deriving DecidableEq

inductive YesNoDefault where
  | yes
  | no
  | default
deriving DecidableEq

namespace Coercion

open SourceUnit (report readAttribute)

/-! ## Identifiers -/

/-- The keyword before the first space, if there is a space, and the trimmed text after it. -/
def splitKeyword (s : String) : Option (String × String) :=
  match s.toList.dropWhile (· ≠ ' ') with
  | _ :: rest =>
    some (String.ofList (s.toList.takeWhile (· ≠ ' ')), String.ofList (Text.strip rest))
  | [] => none

/-- The access that a text states, or that of a text that states none, and the identifier. -/
def readAccess (s : String) : Except ValueFault (Access × String) :=
  match splitKeyword s with
  | none => .ok (.fragment, s)
  | some (keyword, rest) =>
    match Access.ofKeyword? keyword with
    | some access => .ok (access, rest)
    | none => .error (.unknownAccess keyword)

def identifier : Coercion Identifier := ofText Identifier.placeholder fun loc a s => do
  match readAccess s with
  | .error fault =>
    report (.value a.path fault) loc
    return .placeholder Identifier.placeholder
  | .ok (access, id) =>
    if Identifier.isLegal id then
      if Identifier.maxLength < id.length then
        report (.caution a.path (.longIdentifier id)) loc
      return .valid ⟨access, id⟩
    else
      report (.value a.path (.illegalIdentifier id)) loc
      return .placeholder Identifier.placeholder

/-- The identifier without its access. -/
def identifierText : Coercion String := fun loc a => do
  return (← readAttribute identifier loc a).map (·.id)

/-! ## Numbers -/

/-- The least number of a width, which stands for a number that was never set. -/
def unset (bits : Nat) : Int :=
  Text.minSigned bits

/-- The number that stands for one that could not be read. -/
def illegal (bits : Nat) : Int :=
  unset bits + 1

/-- A number of 64 bits in a range, and not one of the reserved ones. -/
def wideNumber (minimum maximum : Int) (reserved : List Int) : Coercion Int :=
  ofText (illegal 64) fun loc a s => do
    match (Text.readInt (Text.strip s.toList)).filter (Text.fitsSigned 64) with
    | none =>
      report (.value a.path (.notInteger s)) loc
      return .placeholder (illegal 64)
    | some n =>
      if reserved.contains n then
        report (.value a.path (.reservedInteger n)) loc
        return .placeholder (illegal 64)
      else if minimum ≤ n ∧ n ≤ maximum then
        return .valid n
      else
        report (.value a.path (.outOfRange n minimum maximum)) loc
        return .placeholder (illegal 64)

/-- A number of a width in a range that leaves out the two reserved numbers. It is read as a number
of 64 bits and then narrowed to the width, where one that does not fit would be lost unreported. -/
def number (bits : Nat) (minimum maximum : Int) : Coercion Int := fun loc a => do
  let wide ← readAttribute (wideNumber minimum maximum [unset bits, illegal bits]) loc a
  match wide.valid?.filter (Text.fitsSigned bits) with
  | some n => return .valid n
  | none => return .placeholder (illegal bits)

/-! ## GUIDs -/

/-- A GUID in its canonical spelling, `*` where one can be generated, or a reference that is
resolved later. -/
def guid (generatable mayBeEmpty : Bool) : Coercion String := fun loc a => do
  let s := Text.trim a.value
  if s.isEmpty then
    if mayBeEmpty then
      return .valid ""
    else
      report (.value a.path .empty) loc
      return .placeholder ""
  else if generatable && s = "*" then
    return .valid s
  else if Variable.isDeferred s then
    return .valid s
  else
    match Guid.parse? s with
    | some guid => return .valid guid.text
    | none =>
      report (.value a.path (.illegalGuid s)) loc
      return .placeholder ""

/-! ## File names -/

/-- The name as it is kept: a relative path is resolved first, unless it leads above its root. -/
def normalName? (relative : Bool) (s : String) : Option String :=
  if relative then
    (Filename.resolve s.toList).map fun names => String.ofList (Filename.joinNames names)
  else some s

def longName (wildcards relative : Bool) : Coercion String := ofText "" fun loc a s => do
  if Variable.isLocalization s then
    return .valid s
  else
    match normalName? relative s with
    | none =>
      report (.value a.path (.escapingPath s)) loc
      return .placeholder ""
    | some name =>
      if Filename.isLong wildcards relative name then
        if Filename.looksGenerated name then
          report (.caution a.path (.generatedShortName s)) loc
        return .valid name
      else
        report (.value a.path (.illegalLongName s)) loc
        return .placeholder ""

/-! ## Choices -/

def registryRoot (machineOrUser : Bool) : Coercion (Option Registry.Root) :=
  ofText none fun loc a s => do
    match (Registry.Root.ofText? s).filter fun root => machineOrUser || root ≠ .machineOrUser with
    | some root => return .valid (some root)
    | none =>
      report (.value a.path (.illegalRegistryRoot s machineOrUser)) loc
      return .placeholder none

def version : Coercion (Option VersionText) := ofText none fun loc a s => do
  if (Version.parse? s).isSome then
    return .valid (some (.numeric s))
  else if Variable.isBinder s then
    return .valid (some (.bound s))
  else
    report (.value a.path (.illegalVersion s)) loc
    return .placeholder none

/-- One of several keywords. -/
def choice {α : Type} (standIn : α) (choices : List (String × α)) (withDefault : Bool) :
    Coercion α :=
  ofText standIn fun loc a s => do
    match choices.lookup s with
    | some value => return .valid value
    | none =>
      report (.value a.path (.illegalChoice s withDefault)) loc
      return .placeholder standIn

def yesNo : Coercion YesNo :=
  choice .no [("yes", .yes), ("no", .no)] false

def yesNoDefault : Coercion YesNoDefault :=
  choice .default [("yes", .yes), ("no", .no), ("default", .default)] true

end Coercion

end InstallerAnalysis

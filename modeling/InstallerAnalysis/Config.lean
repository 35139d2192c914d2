import InstallerAnalysis.Platform
import InstallerAnalysis.Table.Basic
import InstallerAnalysis.Toml.Reader

/-!
# Configuration

What a compilation is told: the platform, what is done with warnings, and tables besides the
built-in ones. Every setting has a default. A configuration is read from TOML, where unknown keys
and values of the wrong type are refused. A record may also be given as a list of its fields. The
tables are entries of their own until a compilation starts.
-/

namespace InstallerAnalysis

namespace Config

structure ColumnEntry where
  name : String
  kind : FieldKind
deriving DecidableEq

/-- A table as a configuration describes it. -/
structure TableEntry where
  name : String
  columns : List ColumnEntry := []
deriving DecidableEq

namespace TableEntry

/-- The table that is described. -/
def toTable (e : TableEntry) : Table :=
  ⟨e.name, e.columns.map fun c => ⟨c.name, c.kind⟩⟩

/-- Describes a table. -/
def ofTable (t : Table) : TableEntry :=
  ⟨t.name, t.columns.map fun c => ⟨c.name, c.kind⟩⟩

end TableEntry

/-- A configuration can be given tables as they are. -/
instance : Coe (List Table) (List TableEntry) :=
  ⟨List.map TableEntry.ofTable⟩

end Config

structure Config where
  platform : Platform := .x86
  warningsAsErrors : Bool := false
  /-- Has no effect when warnings are errors. -/
  suppressWarnings : Bool := false
  extraTables : List Config.TableEntry := []
deriving DecidableEq

namespace Config

/-- The tables that the configuration describes. -/
def tables (c : Config) : List Table :=
  c.extraTables.map (·.toTable)

open Toml (Value Entries)

def text? : Value → Option String
  | .text s => some s
  | _ => none

def flag? : Value → Option Bool
  | .flag b => some b
  | _ => none

/-- The items of a list, or the tables of repeated headers. -/
def items? : Value → Option (List Value)
  | .list items => some items
  | .tables items => some (items.map (.table .header))
  | _ => none

/-- The keyword of a choice: a text, or the only key of a table with nothing under it. -/
def keyword? : Value → Option String
  | .text s => some s
  | .table _ [(keyword, .table _ [])] => some keyword
  | .table _ [(keyword, .list [])] => some keyword
  | _ => none

/-- The values of a record's fields, in their order. -/
def record? (fields : List String) : Value → Option (List (Option Value))
  | .table _ entries =>
    if entries.all (fields.contains ·.1) then some (fields.map fun f => entries.lookup f)
    else none
  | .list items => some ((List.range fields.length).map (items[·]?))
  | _ => none

def platform? (v : Value) : Option Platform :=
  (keyword? v).bind Platform.ofText?

def column? (v : Value) : Option ColumnEntry := do
  match ← record? ["name", "kind"] v with
  | [some name, some kind] => return ⟨← text? name, ← (keyword? kind).bind FieldKind.ofText?⟩
  | _ => none

def columns? (v : Value) : Option (List ColumnEntry) :=
  (items? v).bind (·.mapM column?)

def table? (v : Value) : Option TableEntry := do
  match ← record? ["name", "fields"] v with
  | [some name, fields] => return ⟨← text? name, (← fields.mapM columns?).getD []⟩
  | _ => none

def tables? (v : Value) : Option (List TableEntry) :=
  (items? v).bind (·.mapM table?)

def ofEntries? (entries : Entries) : Option Config := do
  match ← record? ["platform", "warnings_as_errors", "suppress_warnings", "extra_tables"]
      (.table .header entries) with
  | [platform, warningsAsErrors, suppressWarnings, extraTables] =>
    return {
      platform := (← platform.mapM platform?).getD .x86
      warningsAsErrors := (← warningsAsErrors.mapM flag?).getD false
      suppressWarnings := (← suppressWarnings.mapM flag?).getD false
      extraTables := (← extraTables.mapM tables?).getD [] }
  | _ => none

/-- The configuration that a text describes. -/
def parse? (s : String) : Option Config :=
  (Toml.read s).bind ofEntries?

/-- Why a configuration cannot be loaded. -/
inductive LoadFault where
  | missingFile
  | notText
  | illegal
deriving DecidableEq

/-- The message of a file that cannot be read. What is wrong with a text is not said. -/
def LoadFault.message? : LoadFault → Option String
  | .missingFile => some "I/O error: No such file or directory (os error 2)"
  | .notText => some "I/O error: stream did not contain valid UTF-8"
  | .illegal => none

/-- Loads a configuration from the bytes of a file, if the file exists. -/
def load (bytes : Option (List UInt8)) : Except LoadFault Config :=
  match bytes with
  | none => .error .missingFile
  | some bytes =>
    match String.fromUTF8? ⟨bytes.toArray⟩ with
    | none => .error .notText
    | some s =>
      match parse? s with
      | some c => .ok c
      | none => .error .illegal

end Config

end InstallerAnalysis

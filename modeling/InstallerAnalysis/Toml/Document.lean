import InstallerAnalysis.Toml.Value

/-!
# Building tables

A document fills tables step by step: an assignment puts a value under a key, which may lead
through other tables, and a header opens a table in which the assignments after it are made. No key
is set twice. A table written as a value is closed, and one opened by a header can only be added to
by the headers of tables inside it.
-/

namespace InstallerAnalysis.Toml

/-- Changes what a key stands for. A new key is added at the end. -/
def alter (key : String) (change : Option Value → Option Value) : Entries → Option Entries
  | [] => (change none).map fun value => [(key, value)]
  | (k, value) :: rest =>
    if k = key then (change (some value)).map fun value => (k, value) :: rest
    else (alter key change rest).map ((k, value) :: ·)

/-- Whether an assignment may lead through a table to another one. -/
def Origin.isOpen : Origin → Bool
  | .implied => true
  | .dotted => true
  | _ => false

/-- Changes the table at the end of a path. Tables that are missing on the way are added as `new`.
The way never leads through a table written as a value, and if `new` is `dotted` it does not lead
through one with a header either. Of repeated tables it takes the last. -/
def within (new : Origin) (change : Origin → Entries → Option Entries) :
    List String → Origin → Entries → Option Entries
  | [], origin, entries => change origin entries
  | key :: path, _, entries =>
    alter key
      (fun
        | none => (within new change path new []).map (.table new)
        | some (.table origin inner) =>
          if origin = .inline || (new = .dotted && !origin.isOpen) then none
          else (within new change path origin inner).map (.table origin)
        | some (.tables items) =>
          match items.getLast? with
          | some last =>
            (within new change path .header last).map fun inner =>
              .tables (items.dropLast ++ [inner])
          | none => none
        | some _ => none)
      entries

structure Assignment where
  path : List String
  key : String
  value : Value

namespace Assignment

def addNew (key : String) (value : Value) : Entries → Option Entries :=
  alter key fun old => if old.isSome then none else some value

/-- Makes an assignment in a table. A dotted key only adds to tables that dotted keys made. -/
def apply (a : Assignment) (entries : Entries) : Option Entries :=
  within .dotted
    (fun origin inner =>
      if a.path ≠ [] ∧ origin ≠ .dotted then none else addNew a.key a.value inner)
    a.path .header entries

def applyAll (assignments : List Assignment) (entries : Entries) : Option Entries :=
  assignments.foldlM (fun entries a => a.apply entries) entries

end Assignment

/-- A header, and whether it adds one of several tables. -/
structure Header where
  path : List String
  key : String
  repeated : Bool

/-- A header with the assignments after it. -/
structure Block where
  header : Header
  assignments : List Assignment

namespace Block

/-- What stands at the key of a header after its block. -/
def place (b : Block) : Option Value → Option Value
  | none =>
    (Assignment.applyAll b.assignments []).map fun inner =>
      if b.header.repeated then .tables [inner] else .table .header inner
  | some (.table .implied inner) =>
    if b.header.repeated then none
    else (Assignment.applyAll b.assignments inner).map (.table .header)
  | some (.tables items) =>
    if b.header.repeated then
      (Assignment.applyAll b.assignments []).map fun inner => .tables (items ++ [inner])
    else none
  | some _ => none

def apply (b : Block) (root : Entries) : Option Entries :=
  within .implied (fun _ inner => alter b.header.key b.place inner) b.header.path .header root

end Block

/-- The assignments before the first header, and the blocks. -/
structure Document where
  assignments : List Assignment
  blocks : List Block

def Document.entries (d : Document) : Option Entries := do
  let root ← Assignment.applyAll d.assignments []
  d.blocks.foldlM (fun root b => b.apply root) root

end InstallerAnalysis.Toml

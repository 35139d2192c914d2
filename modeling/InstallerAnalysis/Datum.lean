import InstallerAnalysis.Identifier.Basic
import InstallerAnalysis.Location
import InstallerAnalysis.Platform

/-!
# Identifiers, locations and platforms as plain data

Values are exchanged as data of a general shape. A record is an object of its fields, or a list of
them in their order. A choice is its keyword, or an object that has the keyword as its only key and
nothing under it.
-/

namespace InstallerAnalysis

inductive Datum where
  | null
  | bool (b : Bool)
  | number (n : Int)
  | text (s : String)
  | list (items : List Datum)
  | object (fields : List (String × Datum))
deriving Inhabited

namespace Datum

def text? : Datum → Option String
  | .text s => some s
  | _ => none

/-- The keyword of a choice. -/
def keyword? : Datum → Option String
  | .text s => some s
  | .object [(keyword, .null)] => some keyword
  | _ => none

/-- The two fields of a record. A field that is missing from an object is `null`. -/
def pair? (first second : String) : Datum → Option (Datum × Datum)
  | .list [a, b] => some (a, b)
  | .object fields => some ((fields.lookup first).getD .null, (fields.lookup second).getD .null)
  | _ => none

/-- A line number of at most thirty-two bits, or none. -/
def line? : Datum → Option (Option Nat)
  | .null => some none
  | .number n => if 0 ≤ n ∧ n < 4294967296 then some (some n.toNat) else none
  | _ => none

end Datum

namespace Access

def all : List Access :=
  [.package, .library, .fragment]

def ofDatum? (d : Datum) : Option Access :=
  d.keyword?.bind fun keyword => all.find? (·.text = keyword)

def datum (a : Access) : Datum :=
  .text a.text

end Access

namespace Identifier

def ofDatum? (d : Datum) : Option Identifier := do
  let (access, id) ← d.pair? "access" "id"
  return ⟨← Access.ofDatum? access, ← id.text?⟩

def datum (i : Identifier) : Datum :=
  .object [("access", i.access.datum), ("id", .text i.id)]

end Identifier

namespace Location

def ofDatum? (d : Datum) : Option Location := do
  let (file, line) ← d.pair? "file" "line"
  return ⟨← file.text?, ← line.line?⟩

def datum (loc : Location) : Datum :=
  .object [("file", .text loc.file), ("line", match loc.line with
    | some n => .number n
    | none => .null)]

end Location

namespace Platform

def ofDatum? (d : Datum) : Option Platform :=
  d.keyword?.bind ofText?

def datum (p : Platform) : Datum :=
  .text p.text

end Platform

end InstallerAnalysis

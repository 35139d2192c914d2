import InstallerAnalysis.SourceUnit.Rows

/-!
# Extensions

An extension owns a namespace of the markup and may deal with the attributes and elements in it. Its
hooks can add rows and report problems, since they run on the source unit, and they can keep a
memory of their own. A hook that is not given declines everything.
-/

namespace InstallerAnalysis

/-- What the caller tells hooks about the surroundings. A key has one value, the latest. -/
structure Context where
  entries : List (String × String) := []
deriving DecidableEq

namespace Context

def get? (c : Context) (key : String) : Option String :=
  c.entries.lookup key

def insertInto (key value : String) : List (String × String) → List (String × String)
  | [] => [(key, value)]
  | (k, v) :: rest => if k = key then (k, value) :: rest else (k, v) :: insertInto key value rest

def insert (c : Context) (key value : String) : Context :=
  ⟨insertInto key value c.entries⟩

def ofList (pairs : List (String × String)) : Context :=
  pairs.foldl (fun c (key, value) => c.insert key value) {}

def size (c : Context) : Nat :=
  c.entries.length

end Context

/-- The answer of a hook: it leaves what it was offered to others, or has dealt with it. -/
inductive Reply (α : Type) where
  | pass
  | accept (result : α)
deriving DecidableEq

/-- Forgets what accepting brought. -/
def Reply.discard {α : Type} : Reply α → Reply Unit
  | .pass => .pass
  | .accept _ => .accept ()

inductive KeyPathKind where
  | file
  | directory
  | registry
deriving DecidableEq

namespace KeyPathKind

def all : List KeyPathKind :=
  [.file, .directory, .registry]

def text : KeyPathKind → String
  | .file => "File"
  | .directory => "Directory"
  | .registry => "Registry"

def ofText? (s : String) : Option KeyPathKind :=
  all.find? (·.text = s)

end KeyPathKind

/-- What tells whether a component is installed. An explicit one was asked for by the author. -/
structure KeyPath where
  id : String
  kind : KeyPathKind
  explicit : Bool := false
deriving DecidableEq

/-- The source unit, and what the extensions remember. -/
structure Host (σ : Type) where
  unit : SourceUnit
  memory : σ

abbrev Hosted (σ : Type) := StateM (Host σ)

variable {σ α : Type}

/-- Runs an analysis on the unit of a host. -/
def Hosted.analyze (run : Analysis α) : Hosted σ α := fun host =>
  let (result, unit) := run host.unit
  (result, { host with unit := unit })

structure Extension (σ : Type) where
  space : String
  onAttribute : Intermediate → Element → Attribute → Context → Hosted σ (Reply Unit) :=
    fun _ _ _ _ => return .pass
  onElement : Intermediate → (parent : Element) → Element → Context → Hosted σ (Reply Unit) :=
    fun _ _ _ _ => return .pass
  onKeyPath : Intermediate → (parent : Element) → Element → Context →
      Hosted σ (Reply (Option KeyPath)) :=
    fun _ _ _ _ => return .pass

end InstallerAnalysis

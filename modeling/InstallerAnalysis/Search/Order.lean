import InstallerAnalysis.Search.View

/-!
# The order of searches

Every search runs after the searches it is related to. Each search has a count of the relations that
hold it back, and the searches that nothing holds back are in a heap, by their place in the view.
Again and again the first of them is taken out and runs, and each of its relations takes one off the
count of a later search, which comes into the heap when nothing is left of its count. If searches
are left when the heap is empty, the relations have a cycle.
-/

namespace InstallerAnalysis.Search

/-- Places in a view, of which the least is taken out first. -/
structure Heap where
  places : List Nat := []
deriving DecidableEq

namespace Heap

def push (h : Heap) (place : Nat) : Heap :=
  ⟨place :: h.places⟩

def pop? (h : Heap) : Option (Nat × Heap) :=
  h.places.min?.map fun place => (place, ⟨h.places.erase place⟩)

end Heap

/-- What is left to do. -/
structure Agenda where
  /-- How many relations hold back the search at each place. -/
  counts : List Nat
  /-- The searches that have not run and that nothing holds back. -/
  ready : Heap
deriving DecidableEq

namespace View

/-- The searches directly after `id`, by the newest relation first. -/
def successors (v : View) (id : String) : List String :=
  ((v.relations.filter (·.parent = id)).map (·.child)).reverse

/-- Before anything has run. -/
def agenda (v : View) : Agenda :=
  let counts := v.searches.map fun id => v.relations.countP (·.child = id)
  ⟨counts, ⟨(List.range counts.length).filter (counts[·]? = some 0)⟩⟩

/-- One relation of a search that runs: the search `child` has one thing less to wait for. -/
def lower (v : View) (a : Agenda) (child : String) : Agenda :=
  let place := v.searches.idxOf child
  let counts := a.counts.modify place (· - 1)
  ⟨counts, if counts[place]? = some 0 then a.ready.push place else a.ready⟩

/-- The first search that is ready, and what is left to do once it has run. -/
def round? (v : View) (a : Agenda) : Option (String × Agenda) := do
  let (place, ready) ← a.ready.pop?
  let id ← v.searches[place]?
  return (id, (v.successors id).foldl v.lower { a with ready := ready })

/-- Runs at most `rounds` searches. -/
def runFrom (v : View) : (rounds : Nat) → Agenda → List String
  | 0, _ => []
  | rounds + 1, a =>
    match v.round? a with
    | none => []
    | some (id, next) => id :: v.runFrom rounds next

/-- The searches that can run, in the order in which they do. -/
def runnable (v : View) : List String :=
  v.runFrom v.searches.length v.agenda

end View

end InstallerAnalysis.Search

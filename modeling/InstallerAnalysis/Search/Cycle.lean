import InstallerAnalysis.Search.Order

/-!
# Cycles of searches

When no order exists, the searches of one cycle are named: all that reach each other through
relations. Of several such groups the one is chosen that a depth-first traversal leaves first. The
traversal starts from the searches in their order and follows the relations of a search from the
newest to the oldest. A search that is related only to itself makes no group. The traversal lists a
group as it leaves the searches; they are sorted by their places before they are named.
-/

namespace InstallerAnalysis.Search

namespace View

/-- The searches that a traversal has met, and those it has left, the latest first. -/
structure Traversal where
  met : List String := []
  left : List String := []

/-- Visits a search and what is after it, at most `depth` relations away. -/
def visit (v : View) : (depth : Nat) → Traversal → String → Traversal
  | 0, t, _ => t
  | depth + 1, t, id =>
    if t.met.contains id then t
    else
      let t := (v.successors id).foldl (v.visit depth) { t with met := id :: t.met }
      { t with left := id :: t.left }

/-- All searches, in the order in which a traversal leaves them. -/
def leavingOrder (v : View) : List String :=
  (v.searches.foldl (v.visit v.searches.length) {}).left.reverse

/-- The searches directly before `id`. -/
def predecessors (v : View) (id : String) : List String :=
  (v.relations.filter (·.child = id)).map (·.parent)

/-- Adds to what is reached all that is at most `steps` steps of `next` away from the newest. -/
def reachWithin (next : String → List String) :
    (steps : Nat) → (reached newest : List String) → List String
  | 0, reached, _ => reached
  | steps + 1, reached, newest =>
    let found := ((newest.flatMap next).filter (!reached.contains ·)).eraseDups
    reachWithin next steps (reached ++ found) found

/-- The search itself and all that come after it, directly or not. -/
def reach (v : View) (id : String) : List String :=
  reachWithin v.successors v.searches.length [id] [id]

/-- The search itself and all that come before it, directly or not. -/
def reachedBy (v : View) (id : String) : List String :=
  reachWithin v.predecessors v.searches.length [id] [id]

/-- The searches that reach `id` and are reached from it, as a traversal leaves them. -/
def component (v : View) (id : String) : List String :=
  let after := v.reach id
  let before := v.reachedBy id
  v.leavingOrder.filter fun other => after.contains other && before.contains other

/-- The first group of at least two searches that a traversal leaves for good: the group of the
first search after which no other one of its group is left. -/
def firstGroup (v : View) : List String → List String
  | [] => []
  | id :: later =>
    let group := v.component id
    if 1 < group.length && later.all (!group.contains ·) then group else v.firstGroup later

/-- The searches that are reported when no order exists. -/
def cycle (v : View) : List String :=
  (v.firstGroup v.leavingOrder).mergeSort fun x y => v.searches.idxOf x ≤ v.searches.idxOf y

/-- The order in which the searches run, or the searches of a cycle. -/
def order (v : View) : Except (List String) (List String) :=
  if v.runnable.length = v.searches.length then .ok v.runnable else .error v.cycle

/-- What is said of a cycle. -/
def cycleMessage (ids : List String) : String :=
  "searches depend on each other in a cycle: " ++ String.intercalate ", " ids

end View

end InstallerAnalysis.Search

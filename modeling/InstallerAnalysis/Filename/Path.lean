import InstallerAnalysis.Filename.Basic

/-!
# Relative paths

A relative path is brought to a plain list of names: empty segments and `.` are dropped, and `..`
takes back the name before it. A path that takes back more than it has climbs above its root and
has no such list.
-/

namespace InstallerAnalysis.Filename

/-- Resolves segments against the names collected so far, which are kept last first. -/
def resolveFrom : List (List Char) → List (List Char) → Option (List (List Char))
  | names, [] => some names.reverse
  | names, segment :: rest =>
    if segment = [] || segment = ['.'] then resolveFrom names rest
    else if segment = ['.', '.'] then
      match names with
      | [] => none
      | _ :: outer => resolveFrom outer rest
    else resolveFrom (segment :: names) rest

/-- The names of a relative path, or `none` if it climbs above its root. -/
def resolve (cs : List Char) : Option (List (List Char)) :=
  resolveFrom [] (segments cs)

/-- Names joined by backslashes. -/
def joinNames (names : List (List Char)) : List Char :=
  List.intercalate ['\\'] names

end InstallerAnalysis.Filename

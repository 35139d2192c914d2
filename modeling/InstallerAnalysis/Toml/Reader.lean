import InstallerAnalysis.Text.Blank
import InstallerAnalysis.Toml.Document
import InstallerAnalysis.Toml.Lexeme
import InstallerAnalysis.Toml.Scalar

/-!
# Reading TOML
-/

namespace InstallerAnalysis.Toml

/-- The characters that end a value without quotes. -/
def endsUnquoted (c : Char) : Bool :=
  ['\n', '\r', ',', '=', '#', '[', ']', '\x7b', '\x7d'].contains c

/-- The words of a value without quotes and the blanks after them. A quote or a period directly
after a blank is no part of it. -/
def takeWords : List Char → List Char
  | [] => []
  | c :: rest =>
    if endsUnquoted c || (isSpace c && rest.head?.any (['"', '\'', '.'].contains ·)) then []
    else c :: takeWords rest

/-- A truth value, a number or a date. -/
def readScalar (cs : List Char) : Option (Value × List Char) :=
  let text := Text.dropEndWhile isSpace (takeWords cs)
  let rest := cs.drop text.length
  if text = "true".toList then some (.flag true, rest)
  else if text = "false".toList then some (.flag false, rest)
  else if isScalar text then some (.scalar, rest)
  else none

mutual

/-- A value in which `depth` more lists and tables may be written inside one another. -/
def readValue : (fuel depth : Nat) → List Char → Option (Value × List Char)
  | 0, _, _ => none
  | fuel + 1, depth, cs =>
    match depth, cs with
    | 0, '[' :: _ => none
    | 0, '\x7b' :: _ => none
    | depth + 1, '[' :: rest => do
      let (items, rest) ← readItems fuel depth rest
      return (.list items, rest)
    | depth + 1, '\x7b' :: rest => do
      let (assignments, rest) ← readFields fuel depth rest
      return (.table .inline (← Assignment.applyAll assignments []), rest)
    | _, '"' :: _ => do
      let (s, rest) ← readQuoted cs
      return (.text s, rest)
    | _, '\'' :: _ => do
      let (s, rest) ← readQuoted cs
      return (.text s, rest)
    | _, _ => readScalar cs

/-- The rest of a list. -/
def readItems : (fuel depth : Nat) → List Char → Option (List Value × List Char)
  | 0, _, _ => none
  | fuel + 1, depth, cs =>
    match skipBlanks false cs with
    | ']' :: rest => some ([], rest)
    | cs => do
      let (item, rest) ← readValue fuel depth cs
      match skipBlanks false rest with
      | ']' :: rest => return ([item], rest)
      | ',' :: rest =>
        let (items, rest) ← readItems fuel depth rest
        return (item :: items, rest)
      | _ => none

/-- The rest of a table written as a value. -/
def readFields : (fuel depth : Nat) → List Char → Option (List Assignment × List Char)
  | 0, _, _ => none
  | fuel + 1, depth, cs =>
    match skipBlanks false cs with
    | '\x7d' :: rest => some ([], rest)
    | cs => do
      let (field, rest) ← readAssignment fuel depth cs
      match skipBlanks false rest with
      | '\x7d' :: rest => return ([field], rest)
      | ',' :: rest =>
        let (fields, rest) ← readFields fuel depth rest
        return (field :: fields, rest)
      | _ => none

def readAssignment : (fuel depth : Nat) → List Char → Option (Assignment × List Char)
  | 0, _, _ => none
  | fuel + 1, depth, cs => do
    let ((path, key), rest) ← readKey cs
    match skipSpaces rest with
    | '=' :: rest =>
      let (value, rest) ← readValue fuel depth (skipSpaces rest)
      return (⟨path, key, value⟩, rest)
    | _ => none

end

/-- The rest of a header after its opening brackets. -/
def readHeader (repeated : Bool) (cs : List Char) : Option (Header × List Char) := do
  let ((path, key), rest) ← readKey (skipSpaces cs)
  match repeated, skipSpaces rest with
  | false, ']' :: rest => return (⟨path, key, false⟩, rest)
  | true, ']' :: ']' :: rest => return (⟨path, key, true⟩, rest)
  | _, _ => none

/-- One line, if it says anything. -/
inductive Line where
  | assignment (a : Assignment)
  | header (h : Header)

/-- Every nested value takes at most as many steps as it has characters, four kinds of step each. -/
def valueFuel (cs : List Char) : Nat :=
  4 * (cs.length + 1)

def readLine (cs : List Char) : Option (Option Line × List Char) :=
  match skipSpaces cs with
  | [] => some (none, [])
  | '#' :: _ => some (none, cs)
  | '\n' :: _ => some (none, cs)
  | '\r' :: _ => some (none, cs)
  | '[' :: '[' :: rest => do
    let (h, rest) ← readHeader true rest
    return (some (.header h), rest)
  | '[' :: rest => do
    let (h, rest) ← readHeader false rest
    return (some (.header h), rest)
  | cs => do
    let (a, rest) ← readAssignment (valueFuel cs) maxDepth cs
    return (some (.assignment a), rest)

def readLines : (fuel : Nat) → List Char → Option (List Line)
  | 0, _ => none
  | _ + 1, [] => some []
  | fuel + 1, cs => do
    let (line, rest) ← readLine cs
    let lines ← readLines fuel (← endLine rest)
    return line.toList ++ lines

/-- Gathers the assignments of each header. -/
def gather : List Line → Document
  | [] => ⟨[], []⟩
  | .assignment a :: rest =>
    let d := gather rest
    ⟨a :: d.assignments, d.blocks⟩
  | .header h :: rest =>
    let d := gather rest
    ⟨[], ⟨h, d.assignments⟩ :: d.blocks⟩

/-- A mark of the byte order may stand in front. -/
def dropMark : List Char → List Char
  | '\uFEFF' :: rest => rest
  | cs => cs

/-- The table that a text describes, or `none` if the text is not legal. -/
def read (s : String) : Option Entries := do
  let cs := dropMark s.toList
  (gather (← readLines (cs.length + 1) cs)).entries

end InstallerAnalysis.Toml

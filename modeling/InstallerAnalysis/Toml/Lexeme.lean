import InstallerAnalysis.Guid.Basic
import InstallerAnalysis.Text.Numeral
import InstallerAnalysis.Toml.Value

/-!
# The lexical part of TOML

Blanks and comments, quoted texts and keys. A reader takes the characters that are left and gives
what it read with the characters after it, or nothing if the text is not legal.
-/

namespace InstallerAnalysis.Toml

def isSpace (c : Char) : Bool :=
  c = ' ' || c = '\t'

/-- The characters that comments and texts may hold as they are. -/
def isPlain (c : Char) : Bool :=
  c = '\t' || (0x20 ≤ c.toNat && c.toNat ≠ 0x7F)

def skipSpaces (cs : List Char) : List Char :=
  cs.dropWhile isSpace

def skipComment : List Char → List Char
  | '#' :: rest => rest.dropWhile isPlain
  | cs => cs

/-- What is after a line on which nothing but blanks and a comment is left. -/
def endLine (cs : List Char) : Option (List Char) :=
  match skipComment (skipSpaces cs) with
  | [] => some []
  | '\n' :: rest => some rest
  | '\r' :: '\n' :: rest => some rest
  | _ => none

/-- Skips blanks, line ends and comments. -/
def skipBlanks (inComment : Bool) : List Char → List Char
  | [] => []
  | '\n' :: rest => skipBlanks false rest
  | '\r' :: '\n' :: rest => skipBlanks false rest
  | c :: rest =>
    if inComment then if isPlain c then skipBlanks true rest else c :: rest
    else if isSpace c then skipBlanks false rest
    else if c = '#' then skipBlanks true rest
    else c :: rest

/-! ## Quoted texts -/

/-- The character whose code is written in `count` hexadecimal digits. -/
def readCode (count : Nat) (cs : List Char) : Option (Char × List Char) := do
  let values ← (cs.take count).mapM Guid.hexValue?
  let code := values.foldl (fun n d => 16 * n + d) 0
  if values.length = count ∧ code.isValidChar then some (Char.ofNat code, cs.drop count) else none

/-- What stands after a backslash. -/
def readEscape : List Char → Option (Char × List Char)
  | 'b' :: rest => some ('\x08', rest)
  | 't' :: rest => some ('\t', rest)
  | 'n' :: rest => some ('\n', rest)
  | 'f' :: rest => some ('\x0c', rest)
  | 'r' :: rest => some ('\r', rest)
  | 'e' :: rest => some ('\x1b', rest)
  | '"' :: rest => some ('"', rest)
  | '\\' :: rest => some ('\\', rest)
  | 'x' :: rest => readCode 2 rest
  | 'u' :: rest => readCode 4 rest
  | 'U' :: rest => readCode 8 rest
  | _ => none

/-- The rest of a text in double quotes on one line. -/
def readBasic : (fuel : Nat) → List Char → Option (List Char × List Char)
  | 0, _ => none
  | _ + 1, [] => none
  | fuel + 1, c :: rest =>
    if c = '"' then some ([], rest)
    else if c = '\\' then do
      let (d, rest) ← readEscape rest
      let (ds, rest) ← readBasic fuel rest
      return (d :: ds, rest)
    else if isPlain c then do
      let (ds, rest) ← readBasic fuel rest
      return (c :: ds, rest)
    else none

/-- The rest of a text in single quotes on one line. -/
def readLiteral (cs : List Char) : Option (List Char × List Char) :=
  match cs.dropWhile fun c => isPlain c && c ≠ '\'' with
  | '\'' :: rest => some (cs.takeWhile fun c => isPlain c && c ≠ '\'', rest)
  | _ => none

/-- A line end directly after the opening quotes is no part of the text. -/
def dropLineEnd : List Char → List Char
  | '\n' :: rest => rest
  | '\r' :: '\n' :: rest => rest
  | cs => cs

/-- Blanks and line ends. -/
def skipGap : List Char → List Char
  | [] => []
  | '\r' :: '\n' :: rest => skipGap rest
  | c :: rest => if isSpace c || c = '\n' then skipGap rest else c :: rest

/-- What is after a backslash that joins lines: the blanks and line ends up to the next
character are skipped. -/
def joinLines? (cs : List Char) : Option (List Char) :=
  match skipSpaces cs with
  | '\n' :: rest => some (skipGap rest)
  | '\r' :: '\n' :: rest => some (skipGap rest)
  | _ => none

/-- The rest of a text in three quotes, in which `escapes` tells whether a backslash is special. Up
to two quotes may stand before the closing ones. -/
def readLong (quote : Char) (escapes : Bool) :
    (fuel : Nat) → List Char → Option (List Char × List Char)
  | 0, _ => none
  | _ + 1, [] => none
  | fuel + 1, c :: rest =>
    if c = quote then
      let run := (rest.takeWhile (· = quote)).length + 1
      if 3 ≤ run then
        let extra := min (run - 3) 2
        some (List.replicate extra quote, (c :: rest).drop (3 + extra))
      else do
        let (ds, rest) ← readLong quote escapes fuel ((c :: rest).drop run)
        return (List.replicate run quote ++ ds, rest)
    else if escapes && c = '\\' then
      match joinLines? rest with
      | some rest => readLong quote escapes fuel rest
      | none => do
        let (d, rest) ← readEscape rest
        let (ds, rest) ← readLong quote escapes fuel rest
        return (d :: ds, rest)
    else if isPlain c || c = '\n' || (c = '\r' && rest.head? = some '\n') then do
      let (ds, rest) ← readLong quote escapes fuel rest
      return (c :: ds, rest)
    else none

/-- A quoted text of any of the four forms. -/
def readQuoted : List Char → Option (String × List Char)
  | '"' :: '"' :: '"' :: rest => do
    let (ds, rest) ← readLong '"' true (rest.length + 1) (dropLineEnd rest)
    return (String.ofList ds, rest)
  | '\'' :: '\'' :: '\'' :: rest => do
    let (ds, rest) ← readLong '\'' false (rest.length + 1) (dropLineEnd rest)
    return (String.ofList ds, rest)
  | '"' :: rest => do
    let (ds, rest) ← readBasic (rest.length + 1) rest
    return (String.ofList ds, rest)
  | '\'' :: rest => do
    let (ds, rest) ← readLiteral rest
    return (String.ofList ds, rest)
  | _ => none

/-! ## Keys -/

def isBareChar (c : Char) : Bool :=
  Text.isAsciiLetter c || Text.isAsciiDigit c || c = '_' || c = '-'

/-- A bare key or one quoted on a single line. -/
def readSimpleKey (cs : List Char) : Option (String × List Char) :=
  match cs with
  | '"' :: rest => do
    let (ds, rest) ← readBasic (rest.length + 1) rest
    return (String.ofList ds, rest)
  | '\'' :: rest => do
    let (ds, rest) ← readLiteral rest
    return (String.ofList ds, rest)
  | _ =>
    match cs.takeWhile isBareChar with
    | [] => none
    | ds => some (String.ofList ds, cs.dropWhile isBareChar)

/-- Simple keys joined by periods: those before the last, and the last. -/
def readDotted : (fuel : Nat) → List Char → Option ((List String × String) × List Char)
  | 0, _ => none
  | fuel + 1, cs => do
    let (key, rest) ← readSimpleKey cs
    match skipSpaces rest with
    | '.' :: rest =>
      let ((path, last), rest) ← readDotted fuel (skipSpaces rest)
      return ((key :: path, last), rest)
    | rest => return (([], key), rest)

def readKey (cs : List Char) : Option ((List String × String) × List Char) := do
  let ((path, last), rest) ← readDotted (cs.length + 1) cs
  if path.length < maxDepth then return ((path, last), rest) else none

end InstallerAnalysis.Toml

/-!
# Registry roots, value types and actions

Each has a number, by which rows name it, and the words that authors write.
-/

namespace InstallerAnalysis.Registry

inductive Root where
  /-- The machine or the user, whichever the package is installed for. -/
  | machineOrUser
  | classesRoot
  | currentUser
  | localMachine
  | users
deriving DecidableEq

namespace Root

def all : List Root :=
  [.machineOrUser, .classesRoot, .currentUser, .localMachine, .users]

def code : Root → Int
  | .machineOrUser => -1
  | .classesRoot => 0
  | .currentUser => 1
  | .localMachine => 2
  | .users => 3

def text : Root → String
  | .machineOrUser => "HKMU"
  | .classesRoot => "HKCR"
  | .currentUser => "HKCU"
  | .localMachine => "HKLM"
  | .users => "HKU"

def ofText? (s : String) : Option Root :=
  all.find? (·.text = s)

end Root

inductive ValueType where
  | string
  | binary
  | expandable
  | integer
  | multiString
deriving DecidableEq

namespace ValueType

def all : List ValueType :=
  [.string, .binary, .expandable, .integer, .multiString]

def code : ValueType → Int
  | .string => 0
  | .binary => 1
  | .expandable => 2
  | .integer => 3
  | .multiString => 4

def text : ValueType → String
  | .string => "string"
  | .binary => "binary"
  | .expandable => "expandable"
  | .integer => "integer"
  | .multiString => "multistring"

def ofText? (s : String) : Option ValueType :=
  all.find? (·.text = s)

end ValueType

/-- What is done with the value that may already be there. -/
inductive ValueAction where
  | write
  | append
  | prepend
deriving DecidableEq

namespace ValueAction

def all : List ValueAction :=
  [.write, .append, .prepend]

def code : ValueAction → Int
  | .write => 0
  | .append => 1
  | .prepend => 2

def text : ValueAction → String
  | .write => "write"
  | .append => "append"
  | .prepend => "prepend"

def ofText? (s : String) : Option ValueAction :=
  all.find? (·.text = s)

end ValueAction

end InstallerAnalysis.Registry

/-!
# Platforms and sets of them
-/

namespace InstallerAnalysis

/-- A processor architecture that a package is built for. -/
inductive Platform where
  | x86
  | x64
  | arm64
deriving DecidableEq

namespace Platform

def all : List Platform :=
  [.x86, .x64, .arm64]

def text : Platform → String
  | .x86 => "x86"
  | .x64 => "x64"
  | .arm64 => "arm64"

def ofText? (s : String) : Option Platform :=
  all.find? (·.text = s)

/-- What marks the variant of a custom action that is made for this platform. -/
def suffix : Platform → String
  | .x86 => "_X86"
  | .x64 => "_X64"
  | .arm64 => "_A64"

end Platform

/-- A set of platforms. -/
structure PlatformSet where
  x86 : Bool := false
  x64 : Bool := false
  arm64 : Bool := false
deriving DecidableEq

namespace PlatformSet

def empty : PlatformSet := {}

def full : PlatformSet := ⟨true, true, true⟩

def contains (s : PlatformSet) : Platform → Bool
  | .x86 => s.x86
  | .x64 => s.x64
  | .arm64 => s.arm64

def union (s t : PlatformSet) : PlatformSet :=
  ⟨s.x86 || t.x86, s.x64 || t.x64, s.arm64 || t.arm64⟩

def insert (s : PlatformSet) : Platform → PlatformSet
  | .x86 => { s with x86 := true }
  | .x64 => { s with x64 := true }
  | .arm64 => { s with arm64 := true }

def ofList (ps : List Platform) : PlatformSet :=
  ps.foldl insert empty

/-- The members, in the order in which platforms are listed. -/
def toList (s : PlatformSet) : List Platform :=
  Platform.all.filter s.contains

end PlatformSet

end InstallerAnalysis

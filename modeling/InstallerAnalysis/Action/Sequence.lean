/-!
# Sequences

The five sequences in which actions are scheduled.
-/

namespace InstallerAnalysis

inductive Sequence where
  | adminUI
  | adminExecute
  | advertiseExecute
  | installUI
  | installExecute
deriving DecidableEq

namespace Sequence

def all : List Sequence :=
  [.adminUI, .adminExecute, .advertiseExecute, .installUI, .installExecute]

def code : Sequence → Int
  | .adminUI => 0
  | .adminExecute => 1
  | .advertiseExecute => 2
  | .installUI => 3
  | .installExecute => 4

def text : Sequence → String
  | .adminUI => "AdminUISequence"
  | .adminExecute => "AdminExecuteSequence"
  | .advertiseExecute => "AdvertiseExecuteSequence"
  | .installUI => "InstallUISequence"
  | .installExecute => "InstallExecuteSequence"

def ofCode? (code : Int) : Option Sequence :=
  all.find? (·.code = code)

def ofText? (s : String) : Option Sequence :=
  all.find? (·.text = s)

end Sequence

end InstallerAnalysis

import InstallerAnalysis.Filename.Basic
import InstallerAnalysis.Identifier.Synthesis
import InstallerAnalysis.Text.Lowercase
import InstallerAnalysis.Variable

/-!
# Synthesized short names

A long name without a short one gets eight characters of a hash, and keeps its extension if that
makes a legal 8.3 name. Letter case does not matter, except in a localization reference.
-/

namespace InstallerAnalysis.Filename

def shortAlphabet : Digest.Alphabet :=
  ⟨"ABCDEFGHIJKLMNOPQRSTUVWXYZabcdefghijklmnopqrstuvwxyz0123456789-_".toList, by decide⟩

/-- The form of a long name that is hashed. -/
def hashedName (longName : String) : String :=
  if Variable.isLocalization longName then longName else Text.lowercase longName

/-- Eight characters of the hash, in lower case. -/
def shortStem (longName : String) (salt : List String) : List Char :=
  ((Digest.SixBit.encode shortAlphabet (Digest.partsDigest (hashedName longName :: salt))).take
    maxStem).map Char.toLower

/-- The text after the last period, if there is a period and text after it. -/
def lastExtension? (cs : List Char) : Option (List Char) :=
  if cs.contains '.' then
    let extension := (cs.reverse.takeWhile (· ≠ '.')).reverse
    if extension = [] then none else some extension
  else none

def synthesizeShort (longName : String) (keepExtension wildcards : Bool) (salt : List String) :
    String :=
  let stem := shortStem longName salt
  match if keepExtension then lastExtension? longName.toList else none with
  | some extension =>
    let candidate := stem ++ '.' :: Text.lowerAfter [] (extension.take maxExtension)
    String.ofList (if isShortText wildcards candidate then candidate else stem)
  | none => String.ofList stem

end InstallerAnalysis.Filename

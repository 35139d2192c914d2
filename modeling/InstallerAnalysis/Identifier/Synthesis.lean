import InstallerAnalysis.Digest.Sha256
import InstallerAnalysis.Digest.SixBit
import InstallerAnalysis.Identifier.Basic
import InstallerAnalysis.Platform
import InstallerAnalysis.Text.Encoding

/-!
# Synthesized identifiers

Identifiers that nobody writes are derived from what they name, so that the same source always
gives the same identifiers: from a hash of parts, from a file name, or from the platform that a
custom action is made for.
-/

namespace InstallerAnalysis

namespace Digest

/-- The parts joined by `|`, as they are hashed. -/
def partsText (parts : List String) : String :=
  String.intercalate "|" parts

/-- The bytes of the digest that a synthesized name shows. -/
def partsDigest (parts : List String) : List UInt8 :=
  (Sha256.hash (Text.utf8Bytes (partsText parts))).take 20

end Digest

namespace Identifier

def alphabet : Digest.Alphabet :=
  ⟨"ABCDEFGHIJKLMNOPQRSTUVWXYZabcdefghijklmnopqrstuvwxyz0123456789._".toList, by decide⟩

def maxStem : Nat := 3

/-- Puts an underscore in front of what does not start like an identifier. -/
def mendStart (cs : List Char) : List Char :=
  match cs with
  | c :: _ => if isStartChar c then cs else '_' :: cs
  | [] => ['_']

/-- At most three identifier characters, mended at the start. -/
def stem (s : String) : List Char :=
  mendStart ((s.toList.filter isChar).take maxStem)

/-- A stem that says what is named, followed by the hash of the parts. -/
def ofParts (stemText : String) (parts : List String) : Identifier :=
  ofId (String.ofList (stem stemText ++ Digest.SixBit.encode alphabet (Digest.partsDigest parts)))

/-- A file name with every character that identifiers lack replaced by an underscore. -/
def ofFilename (filename : String) : Identifier :=
  ofId (String.ofList (mendStart (filename.toList.map fun c => if isChar c then c else '_')))

/-- The variant of a name for a platform, if there is one for it. -/
def ofPlatform? (name : String) (current : Platform) (supported : PlatformSet) :
    Option Identifier :=
  if supported.contains current then some (ofId (name ++ current.suffix)) else none

end Identifier

end InstallerAnalysis

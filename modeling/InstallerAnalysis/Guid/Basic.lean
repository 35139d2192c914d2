/-!
# GUIDs

A GUID is sixteen bytes. It is read from four spellings: thirty-two hexadecimal digits, the
hyphenated groups of 8, 4, 4, 4 and 12 digits, those in braces, and those after `urn:uuid:`.
Digits and the prefix may be of either case. It is written in one: braced groups, upper case.
-/

namespace InstallerAnalysis

structure Guid where
  bytes : List UInt8
  size : bytes.length = 16
deriving DecidableEq

namespace Guid

def hexValue? (c : Char) : Option Nat :=
  if '0' ≤ c ∧ c ≤ '9' then some (c.toNat - '0'.toNat)
  else if 'a' ≤ c ∧ c ≤ 'f' then some (c.toNat - 'a'.toNat + 10)
  else if 'A' ≤ c ∧ c ≤ 'F' then some (c.toNat - 'A'.toNat + 10)
  else none

/-- The upper-case digit of a value below sixteen. -/
def hexDigit (n : Nat) : Char :=
  if n < 10 then Char.ofNat ('0'.toNat + n) else Char.ofNat ('A'.toNat + n - 10)

/-- Two digit values make a byte, the high one first. -/
def pairBytes : List Nat → List UInt8
  | high :: low :: rest => UInt8.ofNat (16 * high + low) :: pairBytes rest
  | _ => []

theorem length_pairBytes : ∀ digits : List Nat, (pairBytes digits).length = digits.length / 2
  | [] => rfl
  | [_] => by simp [pairBytes]
  | _ :: _ :: rest => by
    simp only [pairBytes, List.length_cons, length_pairBytes rest]
    omega

/-- Exactly thirty-two hexadecimal digits. -/
def ofDigits? (cs : List Char) : Option Guid :=
  match cs.mapM hexValue? with
  | some digits =>
    if h : digits.length = 32 then some ⟨pairBytes digits, by simp [length_pairBytes, h]⟩ else none
  | none => none

/-- The digits of groups of the right lengths between hyphens. -/
def ungroup? (cs : List Char) : Option (List Char) :=
  let groups := cs.splitOn '-'
  if groups.map List.length = [8, 4, 4, 4, 12] then some groups.flatten else none

def ofGroups? (cs : List Char) : Option Guid :=
  (ungroup? cs).bind ofDigits?

def ofBraced? : List Char → Option Guid
  | '\x7b' :: rest => if rest.getLast? = some '\x7d' then ofGroups? rest.dropLast else none
  | _ => none

def urnPrefix : List Char :=
  "urn:uuid:".toList

def ofUrn? (cs : List Char) : Option Guid :=
  if (cs.take urnPrefix.length).map Char.toLower = urnPrefix then
    ofGroups? (cs.drop urnPrefix.length)
  else none

def parse? (s : String) : Option Guid :=
  ofDigits? s.toList <|> ofGroups? s.toList <|> ofBraced? s.toList <|> ofUrn? s.toList

def byteDigits (b : UInt8) : List Char :=
  [hexDigit (b.toNat / 16), hexDigit (b.toNat % 16)]

def digits (guid : Guid) : List Char :=
  guid.bytes.flatMap byteDigits

/-- The groups of 8, 4, 4, 4 and 12 digits, joined by hyphens. -/
def group (ds : List Char) : List Char :=
  List.intercalate ['-']
    [ds.take 8, (ds.drop 8).take 4, (ds.drop 12).take 4, (ds.drop 16).take 4, ds.drop 20]

/-- The canonical spelling: braced, upper case. -/
def text (guid : Guid) : String :=
  String.ofList ('\x7b' :: group guid.digits ++ ['\x7d'])

end Guid

end InstallerAnalysis

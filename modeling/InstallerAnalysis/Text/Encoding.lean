/-!
# Texts as bytes

The two encodings that are hashed: UTF-8, and UTF-16 with the low byte of each unit first.
-/

namespace InstallerAnalysis.Text

def utf8Bytes (s : String) : List UInt8 :=
  s.toList.flatMap String.utf8EncodeChar

/-- One code unit for a character of the basic plane, a surrogate pair beyond it. -/
def codeUnits (c : Char) : List Nat :=
  if c.toNat < 0x10000 then [c.toNat]
  else [0xD800 + (c.toNat - 0x10000) / 0x400, 0xDC00 + (c.toNat - 0x10000) % 0x400]

/-- The two bytes of a code unit, the low one first. -/
def unitBytes (unit : Nat) : List UInt8 :=
  [UInt8.ofNat (unit % 256), UInt8.ofNat (unit / 256)]

def utf16Bytes (s : String) : List UInt8 :=
  s.toList.flatMap fun c => (codeUnits c).flatMap unitBytes

end InstallerAnalysis.Text

import InstallerAnalysis.Digest.Md5
import InstallerAnalysis.Guid.Basic
import InstallerAnalysis.Text.Encoding

/-!
# Name-based GUIDs

A name in a namespace has a GUID of version 3: the MD5 digest of the namespace and the name, with
the version and variant bits set. The name is hashed in UTF-16, so that the same GUIDs result as
on systems whose texts are sequences of sixteen-bit units.
-/

namespace InstallerAnalysis.Guid

def setVersion (b : UInt8) : UInt8 :=
  b &&& 0x0F ||| 0x30

def setVariant (b : UInt8) : UInt8 :=
  b &&& 0x3F ||| 0x80

/-- The bytes that identify a name in a namespace. -/
def nameBytes (space : Guid) (name : String) : List UInt8 :=
  space.bytes ++ Text.utf16Bytes name

def ofName (space : Guid) (name : String) : Guid where
  bytes := ((Digest.Md5.hash (nameBytes space name)).modify 6 setVersion).modify 8 setVariant
  size := by simp [Digest.Md5.length_hash]

/-- The namespace of component GUIDs. -/
def componentSpace : Guid :=
  ⟨[0x30, 0x64, 0xe5, 0xc6, 0xfb, 0x63, 0x4f, 0xe9, 0xac, 0x49, 0xe4, 0x46, 0xa7, 0x92, 0xef, 0xa5],
    rfl⟩

def dnsSpace : Guid :=
  ⟨[0x6b, 0xa7, 0xb8, 0x10, 0x9d, 0xad, 0x11, 0xd1, 0x80, 0xb4, 0x00, 0xc0, 0x4f, 0xd4, 0x30, 0xc8],
    rfl⟩

def urlSpace : Guid :=
  ⟨[0x6b, 0xa7, 0xb8, 0x11, 0x9d, 0xad, 0x11, 0xd1, 0x80, 0xb4, 0x00, 0xc0, 0x4f, 0xd4, 0x30, 0xc8],
    rfl⟩

def oidSpace : Guid :=
  ⟨[0x6b, 0xa7, 0xb8, 0x12, 0x9d, 0xad, 0x11, 0xd1, 0x80, 0xb4, 0x00, 0xc0, 0x4f, 0xd4, 0x30, 0xc8],
    rfl⟩

def x500Space : Guid :=
  ⟨[0x6b, 0xa7, 0xb8, 0x14, 0x9d, 0xad, 0x11, 0xd1, 0x80, 0xb4, 0x00, 0xc0, 0x4f, 0xd4, 0x30, 0xc8],
    rfl⟩

end InstallerAnalysis.Guid

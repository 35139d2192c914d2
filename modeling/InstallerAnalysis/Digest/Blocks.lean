/-!
# Messages as blocks

Both digests read a message in blocks of sixty-four bytes. The message is closed by the byte
`0x80`, zeros, and its length in bits, so that whole blocks result; the digests differ in the
order in which bytes make up a word or a length.
-/

namespace InstallerAnalysis.Digest

/-- How many zero bytes follow the closing byte of a message of `size` bytes. -/
def zeroCount (size : Nat) : Nat :=
  (119 - size % 64) % 64

/-- The message, its closing byte, zeros, and eight bytes of length. -/
def pad (lengthBytes : Nat → List UInt8) (message : List UInt8) : List UInt8 :=
  message ++ 0x80 :: List.replicate (zeroCount message.length) 0 ++ lengthBytes (8 * message.length)

/-- The first `count` blocks of sixty-four bytes. -/
def blocks : Nat → List UInt8 → List (List UInt8)
  | 0, _ => []
  | count + 1, bytes => bytes.take 64 :: blocks count (bytes.drop 64)

/-- The blocks of the closed message. -/
def messageBlocks (lengthBytes : Nat → List UInt8) (message : List UInt8) : List (List UInt8) :=
  let padded := pad lengthBytes message
  blocks (padded.length / 64) padded

/-- Byte number `i` of a number, counted from the low end. -/
def byteAt (n i : Nat) : UInt8 :=
  UInt8.ofNat (n >>> (8 * i) % 256)

def rotateLeft (x : UInt32) (amount : UInt32) : UInt32 :=
  x <<< amount ||| x >>> (32 - amount)

def rotateRight (x : UInt32) (amount : UInt32) : UInt32 :=
  x >>> amount ||| x <<< (32 - amount)

end InstallerAnalysis.Digest

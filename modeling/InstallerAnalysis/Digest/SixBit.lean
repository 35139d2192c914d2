/-!
# Six-bit text

Bytes are written six bits at a time, high bits first, over an alphabet of sixty-four symbols;
zero bits fill up the last group. The encoder keeps the bits that wait for a full group in a
sixteen-bit buffer.
-/

namespace InstallerAnalysis.Digest

/-- Sixty-four symbols, one for each group of six bits. -/
structure Alphabet where
  symbols : List Char
  size : symbols.length = 64

/-- The symbol of the low six bits of a number. -/
def Alphabet.symbol (alphabet : Alphabet) (n : Nat) : Char :=
  alphabet.symbols.get ⟨n % 64, by rw [alphabet.size]; exact Nat.mod_lt _ (by decide)⟩

namespace SixBit

/-- Writes the bytes, where the low `bits` bits of the buffer, fewer than six, still wait. -/
def encodeFrom (alphabet : Alphabet) : (buffer bits : Nat) → List UInt8 → List Char
  | buffer, bits, [] => if 0 < bits then [alphabet.symbol (buffer <<< (6 - bits))] else []
  | buffer, bits, byte :: rest =>
    let buffer := (buffer <<< 8 ||| byte.toNat) &&& 0xFFFF
    let bits := bits + 8
    if bits < 12 then
      alphabet.symbol (buffer >>> (bits - 6)) :: encodeFrom alphabet buffer (bits - 6) rest
    else
      alphabet.symbol (buffer >>> (bits - 6)) :: alphabet.symbol (buffer >>> (bits - 12)) ::
        encodeFrom alphabet buffer (bits - 12) rest

def encode (alphabet : Alphabet) (bytes : List UInt8) : List Char :=
  encodeFrom alphabet 0 0 bytes

end SixBit

end InstallerAnalysis.Digest

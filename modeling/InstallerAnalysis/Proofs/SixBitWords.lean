import InstallerAnalysis.Proofs.SynthesizedIdentifier

/-!
# Six-bit text on machine words

The encoder once more, on a buffer of 32 bits, with a loop that takes groups as long as six bits
wait, and with every operation checked: a shift has to be by fewer than 32 places and loses no bit,
the mask loses none of the bits that wait, and a symbol is looked up inside the alphabet. None of
these checks ever fails (`Word.encodeFrom?_eq`).
-/

namespace InstallerAnalysis.Digest.SixBit

namespace Word

/-- Refused if it goes too far, or if a bit falls out. -/
def shiftLeft? (word : UInt32) (places : Nat) : Option UInt32 :=
  if places < 32 ∧ word.toNat <<< places < 2 ^ 32 then some (word <<< UInt32.ofNat places) else none

/-- Refused if it goes too far. -/
def shiftRight? (word : UInt32) (places : Nat) : Option UInt32 :=
  if places < 32 then some (word >>> UInt32.ofNat places) else none

/-- The low sixteen bits of a word, refused if one of the low `bits` bits is lost. -/
def mask? (bits : Nat) (word : UInt32) : Option UInt32 :=
  let kept := word &&& 0xFFFF
  if lowBits bits kept.toNat = lowBits bits word.toNat then some kept else none

/-- Refused if the low six bits of the word name no symbol. -/
def symbol? (alphabet : Alphabet) (word : UInt32) : Option Char :=
  alphabet.symbols[(word &&& 0x3F).toNat]?

/-- Takes groups as long as there are six bits, and says how many bits are left. -/
def drain? (alphabet : Alphabet) (buffer : UInt32) : (bits : Nat) → Option (List Char × Nat)
  | bits + 6 => do
    let c ← symbol? alphabet (← shiftRight? buffer bits)
    let (cs, left) ← drain? alphabet buffer bits
    return (c :: cs, left)
  | bits => some ([], bits)

def encodeFrom? (alphabet : Alphabet) : (buffer : UInt32) → (bits : Nat) → List UInt8 →
    Option (List Char)
  | buffer, bits, [] =>
    if 6 < bits then none
    else if 0 < bits then do return [← symbol? alphabet (← shiftLeft? buffer (6 - bits))]
    else some []
  | buffer, bits, byte :: rest => do
    let buffer ← mask? (bits + 8) ((← shiftLeft? buffer 8) ||| byte.toUInt32)
    let (cs, left) ← drain? alphabet buffer (bits + 8)
    return cs ++ (← encodeFrom? alphabet buffer left rest)

def encode? (alphabet : Alphabet) (bytes : List UInt8) : Option (List Char) :=
  encodeFrom? alphabet 0 0 bytes

variable {alphabet : Alphabet} {word buffer : UInt32} {places bits : Nat}

theorem toNat_places (h : places < 32) : (UInt32.ofNat places).toNat % 32 = places := by
  rw [UInt32.toNat_ofNat_of_lt' (by rw [UInt32.size]; omega), Nat.mod_eq_of_lt h]

theorem shiftLeft?_eq (h : places < 32) (hfit : word.toNat <<< places < 2 ^ 32) :
    ∃ w, shiftLeft? word places = some w ∧ w.toNat = word.toNat <<< places := by
  refine ⟨_, if_pos ⟨h, hfit⟩, ?_⟩
  rw [UInt32.toNat_shiftLeft, toNat_places h, Nat.mod_eq_of_lt hfit]

theorem shiftRight?_eq (word : UInt32) (h : places < 32) :
    ∃ w, shiftRight? word places = some w ∧ w.toNat = word.toNat >>> places := by
  refine ⟨_, if_pos h, ?_⟩
  rw [UInt32.toNat_shiftRight, toNat_places h]

theorem mask?_eq (h : bits ≤ 16) (word : UInt32) : mask? bits word = some (word &&& 0xFFFF) := by
  refine if_pos ?_
  rw [UInt32.toNat_and]
  exact lowBits_mask h word.toNat

theorem symbol?_eq (word : UInt32) : symbol? alphabet word = some (alphabet.symbol word.toNat) := by
  have hlow : (word &&& 0x3F).toNat = word.toNat % 64 := by
    rw [UInt32.toNat_and]
    exact Nat.and_two_pow_sub_one_eq_mod _ 6
  rw [symbol?, hlow, Alphabet.getElem?_symbols (Nat.mod_lt _ (by decide))]
  exact congrArg some (Alphabet.symbol_congr (Nat.mod_mod _ _))

theorem drain?_of_lt (h : bits < 6) : drain? alphabet buffer bits = some ([], bits) := by
  unfold drain?
  split
  · omega
  · rfl

theorem drain?_add {cs : List Char} {left : Nat} (h : bits < 32)
    (hrest : drain? alphabet buffer bits = some (cs, left)) :
    drain? alphabet buffer (bits + 6)
      = some (alphabet.symbol (buffer.toNat >>> bits) :: cs, left) := by
  obtain ⟨w, hw, hval⟩ := shiftRight?_eq buffer h
  rw [drain?, hw, hrest]
  simp [symbol?_eq, hval]

/-- No check fails while fewer than six bits wait in a buffer of sixteen. -/
theorem encodeFrom?_eq : ∀ (bytes : List UInt8) {buffer : UInt32} {bits : Nat}, bits < 6 →
    buffer.toNat < 2 ^ 16 →
      encodeFrom? alphabet buffer bits bytes = some (encodeFrom alphabet buffer.toNat bits bytes)
  | [], buffer, bits, hbits, hbuffer => by
    have hfit : buffer.toNat <<< (6 - bits) < 2 ^ 32 := by
      have hplaces : 2 ^ (6 - bits) ≤ 2 ^ 6 := Nat.pow_le_pow_right (by decide) (by omega)
      calc buffer.toNat <<< (6 - bits) = buffer.toNat * 2 ^ (6 - bits) := Nat.shiftLeft_eq _ _
        _ ≤ buffer.toNat * 2 ^ 6 := Nat.mul_le_mul_left _ hplaces
        _ < 2 ^ 32 := by omega
    obtain ⟨w, hw, hval⟩ := shiftLeft?_eq (by omega) hfit
    rw [encodeFrom?, if_neg (by omega), encodeFrom, hw]
    split_ifs
    · simp [symbol?_eq, hval]
    · rfl
  | byte :: rest, buffer, bits, hbits, hbuffer => by
    have hfit : buffer.toNat <<< 8 < 2 ^ 32 := by
      rw [Nat.shiftLeft_eq]
      omega
    obtain ⟨w, hw, hval⟩ := shiftLeft?_eq (by decide) hfit
    have hnext : ((w ||| byte.toUInt32) &&& 0xFFFF).toNat
        = (buffer.toNat <<< 8 ||| byte.toNat) &&& 0xFFFF := by
      rw [UInt32.toNat_and, UInt32.toNat_or, hval, UInt8.toNat_toUInt32]
      rfl
    rw [encodeFrom?, hw, Option.bind_eq_bind, Option.bind_some, mask?_eq (by omega), encodeFrom,
      ← hnext]
    have hlt : ((w ||| byte.toUInt32) &&& 0xFFFF).toNat < 2 ^ 16 := by
      rw [hnext]
      exact Nat.and_lt_two_pow _ (by decide)
    -- from here on nothing is needed of the next buffer but that it fits the mask
    generalize (w ||| byte.toUInt32) &&& 0xFFFF = next at hlt
    split_ifs with hone
    · obtain ⟨left, hleft⟩ : ∃ left, bits + 8 = left + 6 := ⟨bits + 2, by omega⟩
      have hdrain : drain? alphabet next (left + 6)
          = some ([alphabet.symbol (next.toNat >>> left)], left) :=
        drain?_add (by omega) (drain?_of_lt (by omega))
      have hrest : encodeFrom? alphabet next left rest
          = some (encodeFrom alphabet next.toNat left rest) := encodeFrom?_eq rest (by omega) hlt
      rw [hleft, Nat.add_sub_cancel]
      simp [hdrain, hrest]
    · obtain ⟨left, hleft⟩ : ∃ left, bits + 8 = left + 6 + 6 := ⟨bits - 4, by omega⟩
      have hdrain : drain? alphabet next (left + 6 + 6)
          = some ([alphabet.symbol (next.toNat >>> (left + 6)),
            alphabet.symbol (next.toNat >>> left)], left) :=
        drain?_add (by omega) (drain?_add (by omega) (drain?_of_lt (by omega)))
      have hrest : encodeFrom? alphabet next left rest
          = some (encodeFrom alphabet next.toNat left rest) := encodeFrom?_eq rest (by omega) hlt
      have htwo : left + 6 + 6 - 12 = left := by omega
      rw [hleft, Nat.add_sub_cancel, htwo]
      simp [hdrain, hrest]

theorem encode?_eq (alphabet : Alphabet) (bytes : List UInt8) :
    encode? alphabet bytes = some (encode alphabet bytes) :=
  encodeFrom?_eq bytes (by decide) (by decide)

end Word

theorem getElem?_encode {alphabet : Alphabet} {bytes : List UInt8} {k : Nat}
    (h : k < (8 * bytes.length + 5) / 6) :
    (encode alphabet bytes)[k]? = alphabet.symbols[binary (group (bitString bytes) k)]? := by
  rw [encode_eq_spell, spell, Alphabet.getElem?_symbols (binary_group_lt _ k), List.getElem?_map,
    List.getElem?_range (by rwa [length_bitString])]
  rfl

/-- There is one symbol for every six bits of the bytes, rounded up, and each is that of its six
bits, with zeros at the end. On words of 32 bits with a mask of sixteen, no operation leaves its
range or loses a bit. With distinct symbols, lists of one length are written differently. -/
theorem encode_groups (alphabet : Alphabet) (bytes : List UInt8) :
    (encode alphabet bytes).length = (8 * bytes.length + 5) / 6
      ∧ (∀ k < (8 * bytes.length + 5) / 6, (encode alphabet bytes)[k]?
          = alphabet.symbols[binary (group (bitString bytes) k)]?)
      ∧ Word.encode? alphabet bytes = some (encode alphabet bytes)
      ∧ (alphabet.symbols.Nodup → ∀ other : List UInt8, other.length = bytes.length →
          encode alphabet other = encode alphabet bytes → other = bytes) :=
  ⟨length_encode bytes, fun _ h => getElem?_encode h, Word.encode?_eq alphabet bytes,
    fun hnodup _ hlen he => encode_inj hnodup hlen he⟩

theorem encode_groups_identifier :
    (encode Identifier.alphabet [0xFF, 0x01])[2]? = some 'E'
      ∧ encode Identifier.alphabet [0xFF, 0x02] ≠ encode Identifier.alphabet [0xFF, 0x01] := by
  obtain ⟨-, hgroup, -, hinj⟩ := encode_groups Identifier.alphabet [0xFF, 0x01]
  have hthird : Identifier.alphabet.symbols[binary (group (bitString [0xFF, 0x01]) 2)]?
      = some 'E' := by decide
  refine ⟨(hgroup 2 (by decide)).trans hthird, fun heq => ?_⟩
  exact absurd (hinj Identifier.nodup_alphabet [0xFF, 0x02] rfl heq) (by decide)

end InstallerAnalysis.Digest.SixBit

import InstallerAnalysis.Digest.SixBit
import Mathlib.Algebra.Group.Nat.Defs
import Mathlib.Data.List.Nodup
import Mathlib.Data.List.TakeDrop

/-!
# Six-bit text loses nothing

The buffer holds the last two bytes, so its low bits are those that still wait for a group. What is
written is therefore the bit string of the bytes, one symbol for every six bits, with zeros after
its end (`encode_eq_spell`). So there are as many symbols as the bits need (`length_encode`), and
with distinct symbols two byte lists of one length that are written alike are equal (`encode_inj`).
-/

namespace InstallerAnalysis.Digest

variable {alphabet : Alphabet}

namespace Alphabet

theorem symbol_mem (n : Nat) : alphabet.symbol n ∈ alphabet.symbols :=
  List.get_mem _ _

theorem symbol_inj (h : alphabet.symbols.Nodup) {m n : Nat}
    (hs : alphabet.symbol m = alphabet.symbol n) : m % 64 = n % 64 := by
  have hget := (List.Nodup.get_inj_iff h).1 hs
  exact congrArg Fin.val hget

theorem symbol_congr {m n : Nat} (h : m % 64 = n % 64) : alphabet.symbol m = alphabet.symbol n := by
  simp only [symbol, h]

theorem getElem?_symbols {n : Nat} (h : n < 64) :
    alphabet.symbols[n]? = some (alphabet.symbol n) := by
  rw [List.getElem?_eq_getElem (by rwa [alphabet.size])]
  simp [symbol, Nat.mod_eq_of_lt h]

end Alphabet

namespace SixBit

/-! ## Bits -/

/-- The low bits of a number, high bits first. -/
def lowBits : (count n : Nat) → List Bool
  | 0, _ => []
  | count + 1, n => n.testBit count :: lowBits count n

/-- The number that bits stand for, high bits first. -/
def binary : List Bool → Nat
  | [] => 0
  | bit :: bits => bit.toNat * 2 ^ bits.length + binary bits

/-- The bits of all bytes, one after the other. -/
def bitString (bytes : List UInt8) : List Bool :=
  bytes.flatMap fun byte => lowBits 8 byte.toNat

theorem length_lowBits (n : Nat) : ∀ count, (lowBits count n).length = count
  | 0 => rfl
  | count + 1 => by rw [lowBits, List.length_cons, length_lowBits n count]

theorem lowBits_congr {m n : Nat} : ∀ {count : Nat}, (∀ i < count, m.testBit i = n.testBit i) →
    lowBits count m = lowBits count n
  | 0, _ => rfl
  | count + 1, h => by
    rw [lowBits, lowBits, h count (by omega), lowBits_congr fun i hi => h i (by omega)]

theorem lowBits_add (low n : Nat) : ∀ high,
    lowBits (high + low) n = lowBits high (n >>> low) ++ lowBits low n
  | 0 => by simp [lowBits]
  | high + 1 => by
    rw [Nat.add_right_comm, lowBits, lowBits, lowBits_add low n high, Nat.testBit_shiftRight,
      Nat.add_comm low high, List.cons_append]

theorem lowBits_zero : ∀ count, lowBits count 0 = List.replicate count false
  | 0 => rfl
  | count + 1 => by rw [lowBits, lowBits_zero count, Nat.zero_testBit, List.replicate_succ]

theorem lowBits_shiftLeft (high low n : Nat) :
    lowBits (high + low) (n <<< low) = lowBits high n ++ List.replicate low false := by
  have hlow : lowBits low (n <<< low) = lowBits low 0 := by
    refine lowBits_congr fun i hi => ?_
    simp [Nat.testBit_shiftLeft, Nat.not_le.2 hi]
  rw [lowBits_add, Nat.shiftLeft_shiftRight, hlow, lowBits_zero]

theorem binary_lowBits (n : Nat) : ∀ count, binary (lowBits count n) = n % 2 ^ count
  | 0 => by simp [lowBits, binary, Nat.mod_one]
  | count + 1 => by
    rw [lowBits, binary, binary_lowBits n count, length_lowBits, Nat.toNat_testBit,
      Nat.mod_pow_succ, Nat.mul_comm, Nat.add_comm]

theorem binary_lt : ∀ bits : List Bool, binary bits < 2 ^ bits.length
  | [] => by simp [binary]
  | bit :: bits => by
    have hrest := binary_lt bits
    rw [binary, List.length_cons, Nat.pow_succ]
    cases bit <;> simp <;> omega

theorem binary_inj : ∀ {bits bits' : List Bool}, bits.length = bits'.length →
    binary bits = binary bits' → bits = bits'
  | [], [], _, _ => rfl
  | bit :: bits, bit' :: bits', hlen, h => by
    have hrest : bits.length = bits'.length := by simpa using hlen
    have hlt := binary_lt bits
    have hlt' := binary_lt bits'
    rw [binary, binary, ← hrest] at h
    rw [← hrest] at hlt'
    have hhigh : bit = bit' := by
      cases bit <;> cases bit' <;> simp at h ⊢ <;> omega
    subst hhigh
    rw [binary_inj hrest (Nat.add_left_cancel h)]

theorem length_bitString (bytes : List UInt8) : (bitString bytes).length = 8 * bytes.length := by
  simp [bitString, List.length_flatMap, length_lowBits, Nat.mul_comm]

theorem bitString_inj : ∀ {xs ys : List UInt8}, bitString xs = bitString ys → xs = ys
  | [], [], _ => rfl
  | [], y :: ys, h => by simpa [length_bitString] using congrArg List.length h
  | x :: xs, [], h => by simpa [length_bitString] using congrArg List.length h
  | x :: xs, y :: ys, h => by
    simp only [bitString, List.flatMap_cons] at h
    obtain ⟨hbyte, hrest⟩ := List.append_inj h (by rw [length_lowBits, length_lowBits])
    have hval : x.toNat % 2 ^ 8 = y.toNat % 2 ^ 8 := by
      rw [← binary_lowBits, hbyte, binary_lowBits]
    rw [Nat.mod_eq_of_lt x.toNat_lt, Nat.mod_eq_of_lt y.toNat_lt] at hval
    rw [UInt8.toNat_inj.1 hval, bitString_inj hrest]

/-! ## Groups -/

/-- The six bits at a place of a bit string, with zeros after its end. -/
def group (bits : List Bool) (k : Nat) : List Bool :=
  (bits.drop (6 * k)).takeD 6 false

/-- The symbols of the groups of a bit string. -/
def spell (alphabet : Alphabet) (bits : List Bool) : List Char :=
  (List.range ((bits.length + 5) / 6)).map fun k => alphabet.symbol (binary (group bits k))

section Spelling

variable {six six' bits : List Bool}

theorem binary_group_lt (bits : List Bool) (k : Nat) : binary (group bits k) < 64 := by
  have hlt := binary_lt (group bits k)
  rwa [group, List.takeD_length] at hlt

theorem group_append_zero (h : six.length = 6) (bits : List Bool) : group (six ++ bits) 0 = six :=
  List.takeD_left' h

theorem group_append_succ (h : six.length = 6) (bits : List Bool) (k : Nat) :
    group (six ++ bits) (k + 1) = group bits k := by
  have hplace : 6 * (k + 1) = six.length + 6 * k := by omega
  rw [group, hplace, List.drop_length_add_append, group]

theorem takeD_of_length_le : ∀ {count : Nat} {bits : List Bool}, bits.length ≤ count →
    bits.takeD count false = bits ++ List.replicate (count - bits.length) false
  | 0, [], _ => rfl
  | count + 1, [], _ => by simp [List.replicate_succ]
  | count + 1, bit :: bits, h => by
    have hrest := takeD_of_length_le (Nat.le_of_succ_le_succ h)
    simpa using hrest

theorem spell_nil : spell alphabet [] = [] :=
  rfl

theorem spell_append (h : six.length = 6) (bits : List Bool) :
    spell alphabet (six ++ bits) = alphabet.symbol (binary six) :: spell alphabet bits := by
  have hlen : ((six ++ bits).length + 5) / 6 = (bits.length + 5) / 6 + 1 := by
    rw [List.length_append]
    omega
  rw [spell, hlen, List.range_succ_eq_map, List.map_cons, List.map_map, group_append_zero h]
  simp only [spell, Function.comp_def, Nat.succ_eq_add_one, group_append_succ h]

theorem spell_of_short (hpos : 0 < bits.length) (h : bits.length ≤ 6) : spell alphabet bits
    = [alphabet.symbol (binary (bits ++ List.replicate (6 - bits.length) false))] := by
  have hlen : (bits.length + 5) / 6 = 1 := by omega
  rw [spell, hlen, ← takeD_of_length_le h]
  rfl

theorem symbol_binary_inj (h : alphabet.symbols.Nodup) (hsix : six.length = 6)
    (hsix' : six'.length = 6)
    (hs : alphabet.symbol (binary six) = alphabet.symbol (binary six')) : six = six' := by
  have hlt := binary_lt six
  have hlt' := binary_lt six'
  have hmod := Alphabet.symbol_inj h hs
  rw [hsix] at hlt
  rw [hsix'] at hlt'
  exact binary_inj (hsix.trans hsix'.symm) (by omega)

/-- With distinct symbols, bit strings of one length are told apart. -/
theorem spell_inj (h : alphabet.symbols.Nodup) {bits bits' : List Bool}
    (hlen : bits.length = bits'.length) (he : spell alphabet bits = spell alphabet bits') :
    bits = bits' := by
  by_cases hlong : 6 ≤ bits.length
  · have hsix : (bits.take 6).length = 6 := by simp [hlong]
    have hsix' : (bits'.take 6).length = 6 := by simp [← hlen, hlong]
    rw [← List.take_append_drop 6 bits, ← List.take_append_drop 6 bits', spell_append hsix,
      spell_append hsix', List.cons.injEq] at he
    have hrest := spell_inj h (by simp [hlen]) he.2
    rw [← List.take_append_drop 6 bits, ← List.take_append_drop 6 bits',
      symbol_binary_inj h hsix hsix' he.1, hrest]
  · rcases Nat.eq_zero_or_pos bits.length with hnil | hpos
    · rw [List.eq_nil_of_length_eq_zero hnil, List.eq_nil_of_length_eq_zero (hlen.symm.trans hnil)]
    · -- the last group: both strings end in the same zeros
      rw [spell_of_short hpos (by omega), spell_of_short (hlen ▸ hpos) (by omega)] at he
      have hpadded := symbol_binary_inj h (by simp; omega) (by simp; omega) (List.cons.inj he).1
      exact (List.append_inj hpadded hlen).1
termination_by bits.length
decreasing_by
  rw [List.length_drop]
  omega

end Spelling

/-! ## Writing -/

theorem lowBits_mask {bits : Nat} (h : bits ≤ 16) (n : Nat) :
    lowBits bits (n &&& 0xFFFF) = lowBits bits n := by
  refine lowBits_congr fun i hi => ?_
  rw [Nat.testBit_and, Nat.testBit_two_pow_sub_one 16 i, decide_eq_true (by omega), Bool.and_true]

/-- The mask keeps the bits that wait and those of the new byte. -/
theorem lowBits_push {bits : Nat} (hbits : bits ≤ 8) (buffer : Nat) (byte : UInt8) :
    lowBits (bits + 8) ((buffer <<< 8 ||| byte.toNat) &&& 0xFFFF)
      = lowBits bits buffer ++ lowBits 8 byte.toNat := by
  have hhigh : (buffer <<< 8 ||| byte.toNat) >>> 8 = buffer := by
    rw [Nat.shiftRight_or_distrib, Nat.shiftLeft_shiftRight, Nat.shiftRight_eq_div_pow,
      Nat.div_eq_of_lt byte.toNat_lt, Nat.or_zero]
  have hlow : lowBits 8 (buffer <<< 8 ||| byte.toNat) = lowBits 8 byte.toNat := by
    refine lowBits_congr fun i hi => ?_
    simp [Nat.testBit_or, Nat.testBit_shiftLeft, Nat.not_le.2 hi]
  rw [lowBits_mask (by omega), lowBits_add, hhigh, hlow]

theorem symbol_lowBits (n : Nat) :
    alphabet.symbol (binary (lowBits 6 n)) = alphabet.symbol n := by
  refine Alphabet.symbol_congr ?_
  rw [binary_lowBits]
  omega

/-- The next group is taken from above the bits that still wait after it. -/
theorem spell_lowBits_add (left n : Nat) (bits : List Bool) :
    spell alphabet (lowBits (6 + left) n ++ bits)
      = alphabet.symbol (n >>> left) :: spell alphabet (lowBits left n ++ bits) := by
  rw [lowBits_add, List.append_assoc, spell_append (length_lowBits _ 6), symbol_lowBits]

/-- What is written is what waits in the buffer and then the bytes. -/
theorem encodeFrom_eq_spell : ∀ (bytes : List UInt8) (buffer bits : Nat), bits < 6 →
    encodeFrom alphabet buffer bits bytes
      = spell alphabet (lowBits bits buffer ++ bitString bytes)
  | [], buffer, bits, h => by
    have hwait : lowBits bits buffer ++ bitString [] = lowBits bits buffer := List.append_nil _
    rw [encodeFrom, hwait]
    split_ifs with hpos
    · have hlast : lowBits bits buffer ++ List.replicate (6 - bits) false
          = lowBits 6 (buffer <<< (6 - bits)) := by
        rw [← lowBits_shiftLeft, Nat.add_sub_of_le (by omega)]
      rw [spell_of_short (by rwa [length_lowBits]) (by rw [length_lowBits]; omega), length_lowBits,
        hlast, symbol_lowBits]
    · rw [Nat.eq_zero_of_not_pos hpos, lowBits, spell_nil]
  | byte :: rest, buffer, bits, h => by
    -- the mask may cut off only bits that were written before: fewer than six wait
    have hpush : lowBits bits buffer ++ bitString (byte :: rest)
        = lowBits (bits + 8) ((buffer <<< 8 ||| byte.toNat) &&& 0xFFFF) ++ bitString rest := by
      rw [lowBits_push (by omega), List.append_assoc]
      rfl
    rw [encodeFrom, hpush]
    split_ifs with hone
    · obtain ⟨left, hleft⟩ : ∃ left, bits + 8 = 6 + left := ⟨bits + 2, by omega⟩
      rw [hleft, Nat.add_sub_cancel_left, spell_lowBits_add,
        encodeFrom_eq_spell rest _ left (by omega)]
    · obtain ⟨left, hleft⟩ : ∃ left, bits + 8 = 6 + (6 + left) := ⟨bits - 4, by omega⟩
      have htwo : 6 + (6 + left) - 12 = left := by omega
      rw [hleft, Nat.add_sub_cancel_left, htwo, spell_lowBits_add, spell_lowBits_add,
        encodeFrom_eq_spell rest _ left (by omega)]

theorem encode_eq_spell (bytes : List UInt8) :
    encode alphabet bytes = spell alphabet (bitString bytes) :=
  encodeFrom_eq_spell bytes 0 0 (by omega)

theorem mem_of_mem_encode {bytes : List UInt8} {c : Char} (h : c ∈ encode alphabet bytes) :
    c ∈ alphabet.symbols := by
  rw [encode_eq_spell] at h
  obtain ⟨k, -, rfl⟩ := List.mem_map.1 h
  exact Alphabet.symbol_mem _

/-- One symbol for every six bits, and one for those that are left. -/
theorem length_encode (bytes : List UInt8) :
    (encode alphabet bytes).length = (8 * bytes.length + 5) / 6 := by
  rw [encode_eq_spell, spell, List.length_map, List.length_range, length_bitString]

theorem encode_inj (h : alphabet.symbols.Nodup) {xs ys : List UInt8}
    (hlen : xs.length = ys.length) (he : encode alphabet xs = encode alphabet ys) : xs = ys := by
  rw [encode_eq_spell, encode_eq_spell] at he
  exact bitString_inj (spell_inj h (by rw [length_bitString, length_bitString, hlen]) he)

end SixBit

end InstallerAnalysis.Digest

import InstallerAnalysis.Guid.NameBased
import InstallerAnalysis.Proofs.LetterCase
import InstallerAnalysis.Proofs.Trimming
import Mathlib.Data.List.Forall2
import Mathlib.Data.Nat.Digits.Lemmas
import Mathlib.Data.Option.Basic

/-!
# The spellings of GUIDs

A text is read as a GUID exactly if it spells its number (`parse?_eq_some_iff`): thirty-two
hexadecimal digits, plain, in groups, or in groups with braces or a prefix. The four spellings have
different lengths, so the order in which they are tried does not matter. The canonical spelling is
one of them (`spells_text`), and tells GUIDs apart (`text_inj`).
-/

namespace InstallerAnalysis

namespace Guid

/-- The character is a hexadecimal digit, of either case, and has the value. -/
def IsHexDigit (c : Char) (v : Nat) : Prop :=
  "0123456789ABCDEF".toList[v]? = some c ∨ "0123456789abcdef".toList[v]? = some c

/-- The text is groups of 8, 4, 4, 4 and 12 characters, joined by hyphens. -/
def Grouped (cs ds : List Char) : Prop :=
  ∃ groups : List (List Char), groups.map List.length = [8, 4, 4, 4, 12]
    ∧ cs = List.intercalate ['-'] groups ∧ ds = groups.flatten

/-- The ways to write digits: as they are, in groups, and groups in braces or after a prefix. -/
inductive Spelling : List Char → List Char → Prop
  | plain {ds : List Char} : Spelling ds ds
  | grouped {cs ds : List Char} : Grouped cs ds → Spelling cs ds
  | braced {cs ds : List Char} : Grouped cs ds → Spelling ('\x7b' :: cs ++ ['\x7d']) ds
  | urn {start cs ds : List Char} : start.map Char.toLower = "urn:uuid:".toList → Grouped cs ds →
      Spelling (start ++ cs) ds

/-- The text is a spelling of a number of thirty-two hexadecimal digits. -/
def Spells (cs : List Char) (n : Nat) : Prop :=
  ∃ ds vs, Spelling cs ds ∧ ds.length = 32 ∧ List.Forall₂ IsHexDigit ds vs
    ∧ Nat.ofDigits 16 vs.reverse = n

/-! ## Digits -/

variable {c : Char} {v : Nat} {cs ds : List Char} {vs : List Nat} {guid : Guid}

theorem IsHexDigit.lt (h : IsHexDigit c v) : v < 16 := by
  rcases h with h | h <;> exact (List.getElem?_eq_some_iff.1 h).1

theorem IsHexDigit.range (h : IsHexDigit c v) : 48 ≤ c.toNat ∧ c.toNat ≤ 102 := by
  have hv := h.lt
  rcases h with h | h <;> interval_cases v <;> cases h <;> decide

theorem isHexDigit_iff : IsHexDigit c v ↔ hexValue? c = some v := by
  constructor
  · intro h
    have hv := h.lt
    rcases h with h | h <;> interval_cases v <;> cases h <;> rfl
  · intro h
    -- each range of characters is short
    rw [← Char.ofNat_toNat c]
    unfold hexValue? at h
    split_ifs at h with hdigit hlower hupper <;> cases h
    · obtain ⟨hlow, hhigh⟩ : 48 ≤ c.toNat ∧ c.toNat ≤ 57 := hdigit
      generalize c.toNat = n at *
      interval_cases n <;> exact .inl rfl
    · obtain ⟨hlow, hhigh⟩ : 97 ≤ c.toNat ∧ c.toNat ≤ 102 := hlower
      generalize c.toNat = n at *
      interval_cases n <;> exact .inr rfl
    · obtain ⟨hlow, hhigh⟩ : 65 ≤ c.toNat ∧ c.toNat ≤ 70 := hupper
      generalize c.toNat = n at *
      interval_cases n <;> exact .inl rfl

theorem hexDigit_spec (h : v < 16) : "0123456789ABCDEF".toList[v]? = some (hexDigit v) := by
  interval_cases v <;> rfl

theorem mapM_hexValue?_eq_some_iff : ∀ {ds : List Char} {vs : List Nat},
    ds.mapM hexValue? = some vs ↔ List.Forall₂ IsHexDigit ds vs
  | [], vs => by
    cases vs <;> simp
  | d :: ds, [] => by
    simp [List.mapM_cons, Option.bind_eq_some_iff]
  | d :: ds, v :: vs => by
    rw [List.forall₂_cons, ← mapM_hexValue?_eq_some_iff, isHexDigit_iff, List.mapM_cons]
    simp [Option.bind_eq_some_iff]

/-- The values of the digits of bytes, two for each. -/
def halves (bytes : List UInt8) : List Nat :=
  bytes.flatMap fun b => [b.toNat / 16, b.toNat % 16]

theorem length_halves (bytes : List UInt8) : (halves bytes).length = 2 * bytes.length := by
  simp [halves, Nat.mul_comm]

theorem lt_of_mem_halves {bytes : List UInt8} (h : v ∈ halves bytes) : v < 16 := by
  simp only [halves, List.mem_flatMap, List.mem_cons, List.not_mem_nil, or_false] at h
  obtain ⟨b, -, rfl | rfl⟩ := h
  · have := b.toNat_lt
    omega
  · omega

theorem pairBytes_halves : ∀ bytes : List UInt8, pairBytes (halves bytes) = bytes
  | [] => rfl
  | b :: bytes => by
    have hb : 16 * (b.toNat / 16) + b.toNat % 16 = b.toNat := by omega
    simp only [halves, List.flatMap_cons, List.cons_append, List.nil_append, pairBytes, hb,
      UInt8.ofNat_toNat]
    rw [← halves, pairBytes_halves bytes]

theorem halves_pairBytes : ∀ {vs : List Nat}, vs.length % 2 = 0 → (∀ v ∈ vs, v < 16) →
    halves (pairBytes vs) = vs
  | [], _, _ => rfl
  | [_], h, _ => by simp at h
  | high :: low :: vs, h, hlt => by
    have hhigh : high < 16 := hlt high (by simp)
    have hlow : low < 16 := hlt low (by simp)
    have hbyte : (UInt8.ofNat (16 * high + low)).toNat = 16 * high + low := by
      rw [UInt8.toNat_ofNat', Nat.mod_eq_of_lt (by omega)]
    have hdiv : (16 * high + low) / 16 = high := by omega
    have hmod : (16 * high + low) % 16 = low := by omega
    have ih : halves (pairBytes vs) = vs := by
      refine halves_pairBytes ?_ fun v hv => hlt v (by simp [hv])
      simp only [List.length_cons] at h
      omega
    rw [halves] at ih ⊢
    simp only [pairBytes, List.flatMap_cons, hbyte, hdiv, hmod, ih, List.cons_append,
      List.nil_append]

theorem exists_of_forall₂ (h : List.Forall₂ IsHexDigit ds vs) :
    (∀ c ∈ ds, ∃ v, IsHexDigit c v) ∧ ∀ v ∈ vs, ∃ c, IsHexDigit c v := by
  induction h with
  | nil => simp
  | cons hd _ ih =>
    simp only [List.forall_mem_cons]
    exact ⟨⟨⟨_, hd⟩, ih.1⟩, ⟨_, hd⟩, ih.2⟩

theorem lt_of_forall₂ (h : List.Forall₂ IsHexDigit ds vs) : ∀ v ∈ vs, v < 16 := by
  intro v hv
  obtain ⟨c, hc⟩ := (exists_of_forall₂ h).2 v hv
  exact hc.lt

theorem range_of_forall₂ (h : List.Forall₂ IsHexDigit ds vs) (hc : c ∈ ds) :
    48 ≤ c.toNat ∧ c.toNat ≤ 102 := by
  obtain ⟨v, hv⟩ := (exists_of_forall₂ h).1 c hc
  exact hv.range

/-- Thirty-two digits are those of one GUID. -/
theorem ofDigits?_eq_some_iff :
    ofDigits? ds = some guid ↔ List.Forall₂ IsHexDigit ds (halves guid.bytes) := by
  unfold ofDigits?
  constructor
  · intro h
    split at h
    · rename_i vs hvs
      have hdigits := mapM_hexValue?_eq_some_iff.1 hvs
      split_ifs at h with hlen
      cases h
      rwa [halves_pairBytes (by omega) (lt_of_forall₂ hdigits)]
    · cases h
  · intro h
    have hlen : (halves guid.bytes).length = 32 := by rw [length_halves, guid.size]
    simp only [mapM_hexValue?_eq_some_iff.2 h, hlen, pairBytes_halves, dif_pos]

/-! ## Spellings -/

theorem ungroup?_eq_some_iff (h : '-' ∉ ds) : ungroup? cs = some ds ↔ Grouped cs ds := by
  unfold ungroup?
  constructor
  · intro hcs
    dsimp only at hcs
    split_ifs at hcs with hlengths
    cases hcs
    exact ⟨_, hlengths, (List.intercalate_splitOn '-').symm, rfl⟩
  · rintro ⟨groups, hlengths, rfl, rfl⟩
    have hsplit : (List.intercalate ['-'] groups).splitOn '-' = groups := by
      refine List.splitOn_intercalate '-' (fun g hg hmem => h ?_) ?_
      · exact List.mem_flatten.2 ⟨g, hg, hmem⟩
      · rintro rfl
        simp at hlengths
    simp only [hsplit, hlengths, if_true]

theorem ofGroups?_eq_some_iff :
    ofGroups? cs = some guid ↔ ∃ ds, Grouped cs ds ∧ ofDigits? ds = some guid := by
  rw [ofGroups?, Option.bind_eq_some_iff]
  refine exists_congr fun ds => and_congr_left fun h => ungroup?_eq_some_iff fun hmem => ?_
  exact absurd (range_of_forall₂ (ofDigits?_eq_some_iff.1 h) hmem) (by decide)

theorem ofBraced?_eq_some_iff : ofBraced? cs = some guid
    ↔ ∃ inner, cs = '\x7b' :: inner ++ ['\x7d'] ∧ ofGroups? inner = some guid := by
  constructor
  · intro h
    unfold ofBraced? at h
    split at h
    · rename_i rest
      split_ifs at h with hlast
      obtain ⟨inner, rfl⟩ := List.getLast?_eq_some_iff.1 hlast
      rw [List.dropLast_concat] at h
      exact ⟨inner, rfl, h⟩
    · cases h
  · rintro ⟨inner, rfl, h⟩
    simp [ofBraced?, h]

theorem ofUrn?_eq_some_iff : ofUrn? cs = some guid ↔ ∃ start inner, cs = start ++ inner
    ∧ start.map Char.toLower = urnPrefix ∧ ofGroups? inner = some guid := by
  unfold ofUrn?
  constructor
  · intro h
    split_ifs at h with hstart
    exact ⟨_, _, (List.take_append_drop _ cs).symm, hstart, h⟩
  · rintro ⟨start, inner, rfl, hstart, h⟩
    have hlen : urnPrefix.length = start.length := by
      rw [← hstart, List.length_map]
    rw [hlen, List.take_left, List.drop_left, if_pos hstart, h]

theorem Grouped.exists_groups (h : Grouped cs ds) : ∃ a b c d e : List Char,
    (a.length = 8 ∧ b.length = 4 ∧ c.length = 4 ∧ d.length = 4 ∧ e.length = 12)
      ∧ cs = a ++ '-' :: (b ++ '-' :: (c ++ '-' :: (d ++ '-' :: e)))
      ∧ ds = a ++ (b ++ (c ++ (d ++ e))) := by
  obtain ⟨groups, hlengths, rfl, rfl⟩ := h
  obtain ⟨a, groups, rfl, ha, hlengths⟩ := List.map_eq_cons_iff.1 hlengths
  obtain ⟨b, groups, rfl, hb, hlengths⟩ := List.map_eq_cons_iff.1 hlengths
  obtain ⟨c, groups, rfl, hc, hlengths⟩ := List.map_eq_cons_iff.1 hlengths
  obtain ⟨d, groups, rfl, hd, hlengths⟩ := List.map_eq_cons_iff.1 hlengths
  obtain ⟨e, groups, rfl, he, hlengths⟩ := List.map_eq_cons_iff.1 hlengths
  obtain rfl := List.map_eq_nil_iff.1 hlengths
  exact ⟨a, b, c, d, e, ⟨ha, hb, hc, hd, he⟩, by simp [List.intercalate_cons_cons], by simp⟩

theorem Grouped.length_eq (h : Grouped cs ds) : cs.length = 36 := by
  obtain ⟨a, b, c, d, e, ⟨ha, hb, hc, hd, he⟩, rfl, -⟩ := h.exists_groups
  simp [ha, hb, hc, hd, he]

theorem length_of_ofDigits? (h : ofDigits? cs = some guid) : cs.length = 32 := by
  rw [(ofDigits?_eq_some_iff.1 h).length_eq, length_halves, guid.size]

theorem length_of_ofGroups? (h : ofGroups? cs = some guid) : cs.length = 36 := by
  obtain ⟨ds, hgrouped, -⟩ := ofGroups?_eq_some_iff.1 h
  exact hgrouped.length_eq

theorem length_of_ofBraced? (h : ofBraced? cs = some guid) : cs.length = 38 := by
  obtain ⟨inner, rfl, hinner⟩ := ofBraced?_eq_some_iff.1 h
  simp [length_of_ofGroups? hinner]

/-- The spellings have different lengths, so a text is of one of them at most. -/
theorem parse?_eq_some_iff_spelling {s : String} : parse? s = some guid
    ↔ ∃ ds, Spelling s.toList ds ∧ ofDigits? ds = some guid := by
  unfold parse?
  generalize s.toList = cs
  constructor
  · intro h
    rcases (Option.orElse_eq_some _ _ _).1 h with h | ⟨-, h⟩
    · exact ⟨cs, .plain, h⟩
    rcases (Option.orElse_eq_some _ _ _).1 h with h | ⟨-, h⟩
    · obtain ⟨ds, hgrouped, h⟩ := ofGroups?_eq_some_iff.1 h
      exact ⟨ds, .grouped hgrouped, h⟩
    rcases (Option.orElse_eq_some _ _ _).1 h with h | ⟨-, h⟩
    · obtain ⟨inner, rfl, hinner⟩ := ofBraced?_eq_some_iff.1 h
      obtain ⟨ds, hgrouped, hds⟩ := ofGroups?_eq_some_iff.1 hinner
      exact ⟨ds, .braced hgrouped, hds⟩
    · obtain ⟨start, inner, rfl, hstart, hinner⟩ := ofUrn?_eq_some_iff.1 h
      obtain ⟨ds, hgrouped, hds⟩ := ofGroups?_eq_some_iff.1 hinner
      exact ⟨ds, .urn hstart hgrouped, hds⟩
  · rintro ⟨ds, hspelling, h⟩
    have hdigits : cs.length ≠ 32 → ofDigits? cs = none := fun hlen =>
      Option.eq_none_iff_forall_ne_some.2 fun _ hsome => hlen (length_of_ofDigits? hsome)
    have hgroups : cs.length ≠ 36 → ofGroups? cs = none := fun hlen =>
      Option.eq_none_iff_forall_ne_some.2 fun _ hsome => hlen (length_of_ofGroups? hsome)
    have hbraced : cs.length ≠ 38 → ofBraced? cs = none := fun hlen =>
      Option.eq_none_iff_forall_ne_some.2 fun _ hsome => hlen (length_of_ofBraced? hsome)
    cases hspelling with
    | plain => rw [h]; rfl
    | grouped hgrouped =>
      have hlen := hgrouped.length_eq
      rw [hdigits (by omega), ofGroups?_eq_some_iff.2 ⟨ds, hgrouped, h⟩]
      rfl
    | @braced inner _ hgrouped =>
      have hlen : ('\x7b' :: inner ++ ['\x7d']).length = 38 := by simp [hgrouped.length_eq]
      rw [hdigits (by omega), hgroups (by omega),
        ofBraced?_eq_some_iff.2 ⟨inner, rfl, ofGroups?_eq_some_iff.2 ⟨ds, hgrouped, h⟩⟩]
      rfl
    | @urn start inner _ hstart hgrouped =>
      have hlen : (start ++ inner).length = 45 := by
        have hstart := congrArg List.length hstart
        simp at hstart
        simp [hgrouped.length_eq, hstart]
      rw [hdigits (by omega), hgroups (by omega), hbraced (by omega),
        ofUrn?_eq_some_iff.2 ⟨start, inner, rfl, hstart, ofGroups?_eq_some_iff.2 ⟨ds, hgrouped, h⟩⟩]
      rfl

/-! ## Numbers -/

/-- The GUID as a number of 128 bits. -/
def number (guid : Guid) : Nat :=
  Nat.ofDigits 16 (halves guid.bytes).reverse

theorem length_halves_bytes (guid : Guid) : (halves guid.bytes).length = 32 := by
  rw [length_halves, guid.size]

theorem eq_of_ofDigits_eq {vs' : List Nat} (hlen : vs.length = vs'.length)
    (hvs : ∀ v ∈ vs, v < 16) (hvs' : ∀ v ∈ vs', v < 16)
    (h : Nat.ofDigits 16 vs.reverse = Nat.ofDigits 16 vs'.reverse) : vs = vs' := by
  refine List.reverse_injective (Nat.ofDigits_inj_of_len_eq (by omega) ?_ ?_ ?_ h)
  · simp [hlen]
  · simpa using hvs
  · simpa using hvs'

theorem eq_of_halves_eq {guid guid' : Guid} (h : halves guid.bytes = halves guid'.bytes) :
    guid = guid' := by
  obtain ⟨bytes, size⟩ := guid
  obtain ⟨bytes', size'⟩ := guid'
  have hbytes : bytes = bytes' := by
    rw [← pairBytes_halves bytes, ← pairBytes_halves bytes', h]
  subst hbytes
  rfl

theorem number_inj {guid guid' : Guid} : guid.number = guid'.number ↔ guid = guid' := by
  constructor
  · intro h
    refine eq_of_halves_eq (eq_of_ofDigits_eq ?_ ?_ ?_ h)
    · rw [length_halves_bytes, length_halves_bytes]
    · exact fun v => lt_of_mem_halves
    · exact fun v => lt_of_mem_halves
  · rintro rfl
    rfl

/-- A text is read as the GUID whose number it spells. -/
theorem parse?_eq_some_iff {s : String} : parse? s = some guid ↔ Spells s.toList guid.number := by
  rw [parse?_eq_some_iff_spelling]
  constructor
  · rintro ⟨ds, hspelling, h⟩
    have hdigits := ofDigits?_eq_some_iff.1 h
    exact ⟨ds, _, hspelling, length_of_ofDigits? h, hdigits, rfl⟩
  · rintro ⟨ds, vs, hspelling, hlen, hdigits, hnumber⟩
    have hvs : vs = halves guid.bytes := by
      refine eq_of_ofDigits_eq ?_ (lt_of_forall₂ hdigits) (fun v => lt_of_mem_halves) hnumber
      rw [← hdigits.length_eq, hlen, length_halves_bytes]
    exact ⟨ds, hspelling, ofDigits?_eq_some_iff.2 (hvs ▸ hdigits)⟩

theorem exists_number_eq {n : Nat} (h : Spells cs n) : ∃ guid : Guid, guid.number = n := by
  obtain ⟨ds, vs, -, hlen, hdigits, rfl⟩ := h
  rw [hdigits.length_eq] at hlen
  refine ⟨⟨pairBytes vs, by rw [length_pairBytes, hlen]⟩, ?_⟩
  rw [number, halves_pairBytes (by omega) (lt_of_forall₂ hdigits)]

/-! ## The canonical spelling -/

/-- Groups of 8, 4, 4, 4 and 12 upper-case digits, joined by hyphens, in braces. -/
structure Canonical (groups : List (List Char)) (s : String) : Prop where
  text : s.toList = '\x7b' :: List.intercalate ['-'] groups ++ ['\x7d']
  lengths : groups.map List.length = [8, 4, 4, 4, 12]
  digits : ∀ c ∈ groups.flatten, c ∈ "0123456789ABCDEF".toList

theorem digits_eq (guid : Guid) : guid.digits = (halves guid.bytes).map hexDigit := by
  rw [digits, halves, List.map_flatMap]
  rfl

theorem length_digits (guid : Guid) : guid.digits.length = 32 := by
  rw [digits_eq, List.length_map, length_halves_bytes]

/-- The groups of the digits of a GUID. -/
def groups (ds : List Char) : List (List Char) :=
  [ds.take 8, (ds.drop 8).take 4, (ds.drop 12).take 4, (ds.drop 16).take 4, ds.drop 20]

theorem flatten_groups (ds : List Char) : (groups ds).flatten = ds := by
  have hnext : ∀ k m, (ds.drop k).take m ++ ds.drop (k + m) = ds.drop k := fun k m => by
    rw [← List.drop_drop, List.take_append_drop]
  simp only [groups, List.flatten_cons, List.flatten_nil, List.append_nil]
  rw [hnext 16 4, hnext 12 4, hnext 8 4, List.take_append_drop]

theorem canonical_text (guid : Guid) : Canonical (groups guid.digits) guid.text := by
  have hlen := length_digits guid
  refine ⟨String.toList_ofList, by simp [groups, hlen], fun c hc => ?_⟩
  rw [flatten_groups, digits_eq] at hc
  obtain ⟨v, hv, rfl⟩ := List.mem_map.1 hc
  exact List.mem_of_getElem? (hexDigit_spec (lt_of_mem_halves hv))

theorem length_text (g : Guid) : g.text.length = 38 := by
  obtain ⟨htext, hlengths, -⟩ := g.canonical_text
  have hlen := Grouped.length_eq ⟨_, hlengths, rfl, rfl⟩
  rw [← String.length_toList, htext]
  simp [hlen]

theorem spells_text (guid : Guid) : Spells guid.text.toList guid.number := by
  have hcanonical := canonical_text guid
  refine ⟨guid.digits, halves guid.bytes, ?_, length_digits guid, ?_, rfl⟩
  · rw [hcanonical.text]
    exact .braced ⟨_, hcanonical.lengths, rfl, (flatten_groups _).symm⟩
  · rw [digits_eq, List.forall₂_map_left_iff, List.forall₂_same]
    exact fun v hv => .inl (hexDigit_spec (lt_of_mem_halves hv))

theorem text_inj {guid guid' : Guid} : guid.text = guid'.text ↔ guid = guid' := by
  constructor
  · intro h
    have hread := parse?_eq_some_iff.2 (spells_text guid)
    rw [h, parse?_eq_some_iff.2 (spells_text guid')] at hread
    exact (Option.some.inj hread).symm
  · rintro rfl
    rfl

/-! ## Name-based GUIDs -/

theorem setVersion_high (b : UInt8) : (setVersion b).toNat / 16 = 3 := by
  have h : (b.toNat &&& 15 ||| 48) >>> 4 = 3 := by
    rw [Nat.shiftRight_or_distrib, Nat.shiftRight_and_distrib]
    simp
  rw [Nat.shiftRight_eq_div_pow] at h
  simpa [setVersion] using h

theorem setVariant_high (b : UInt8) : (setVariant b).toNat / 16 ∈ [8, 9, 10, 11] := by
  have h : (b.toNat &&& 63 ||| 128) >>> 4 = (b.toNat >>> 4 &&& 3) ||| 8 := by
    rw [Nat.shiftRight_or_distrib, Nat.shiftRight_and_distrib]
    rfl
  have hle : b.toNat >>> 4 &&& 3 ≤ 3 := Nat.and_le_right
  have hbyte : (setVariant b).toNat / 16 = (b.toNat >>> 4 &&& 3) ||| 8 := by
    rw [← h, Nat.shiftRight_eq_div_pow]
    simp [setVariant]
  rw [hbyte]
  generalize b.toNat >>> 4 &&& 3 = low at *
  interval_cases low <;> decide

/-- Every second digit is the high half of a byte. -/
theorem getElem?_byteDigits : ∀ (bytes : List UInt8) (k : Nat),
    (bytes.flatMap byteDigits)[2 * k]? = bytes[k]?.map fun b => hexDigit (b.toNat / 16)
  | [], k => by simp
  | b :: bytes, 0 => by simp [byteDigits]
  | b :: bytes, k + 1 => by
    have ih := getElem?_byteDigits bytes k
    rw [Nat.mul_add]
    simpa [byteDigits] using ih

theorem version_ofName (space : Guid) (name : String) :
    (ofName space name).digits[12]? = some '3' := by
  obtain ⟨b, hb⟩ : ∃ b, (Digest.Md5.hash (nameBytes space name))[6]? = some b :=
    ⟨_, List.getElem?_eq_getElem (by rw [Digest.Md5.length_hash]; omega)⟩
  have hbyte : (ofName space name).bytes[6]? = some (setVersion b) := by
    simp [ofName, hb]
  rw [digits, getElem?_byteDigits _ 6, hbyte, Option.map_some, setVersion_high]
  rfl

theorem variant_ofName (space : Guid) (name : String) :
    ∃ variant ∈ ['8', '9', 'A', 'B'], (ofName space name).digits[16]? = some variant := by
  obtain ⟨b, hb⟩ : ∃ b, (Digest.Md5.hash (nameBytes space name))[8]? = some b :=
    ⟨_, List.getElem?_eq_getElem (by rw [Digest.Md5.length_hash]; omega)⟩
  have hbyte : (ofName space name).bytes[8]? = some (setVariant b) := by
    simp [ofName, hb]
  have hhigh := setVariant_high b
  simp only [List.mem_cons, List.not_mem_nil, or_false] at hhigh
  rw [digits, getElem?_byteDigits _ 8, hbyte, Option.map_some]
  rcases hhigh with h | h | h | h <;> rw [h] <;> exact ⟨_, by decide, rfl⟩

/-- A name-based GUID shows its version and variant at the head of the third and fourth group. -/
theorem canonical_ofName (space : Guid) (name : String) : ∃ g₁ g₂ g₃ g₄ g₅,
    Canonical [g₁, g₂, g₃, g₄, g₅] (ofName space name).text
      ∧ g₃.head? = some '3' ∧ ∃ variant ∈ ['8', '9', 'A', 'B'], g₄.head? = some variant := by
  refine ⟨_, _, _, _, _, canonical_text _, ?_, ?_⟩
  · rw [List.head?_take, if_neg (by decide), List.head?_drop, version_ofName]
  · obtain ⟨variant, hmem, hvariant⟩ := variant_ofName space name
    exact ⟨variant, hmem, by rw [List.head?_take, if_neg (by decide), List.head?_drop, hvariant]⟩

/-! ## The characters of spellings -/

theorem Grouped.mem (h : Grouped cs ds) (hc : c ∈ cs) : c = '-' ∨ c ∈ ds := by
  obtain ⟨g₁, g₂, g₃, g₄, g₅, -, rfl, rfl⟩ := h.exists_groups
  simp only [List.mem_append, List.mem_cons] at hc ⊢
  tauto

theorem range_of_urn (h : cs.map Char.toLower = "urn:uuid:".toList) (hc : c ∈ cs) :
    45 ≤ c.toNat ∧ c.toNat ≤ 125 := by
  have hstart : "urn:uuid:".toList.all fun c => decide (58 ≤ c.toNat ∧ c.toNat ≤ 125) := by decide
  have hmem : c.toLower ∈ "urn:uuid:".toList := h ▸ List.mem_map_of_mem hc
  have hlower := of_decide_eq_true (List.all_eq_true.1 hstart _ hmem)
  rw [Text.toNat_toLower] at hlower
  split_ifs at hlower with hupper
  · have hletter := Text.isUpper_iff.1 hupper
    omega
  · omega

/-- No blank is a character of a spelling, and neither is a character that starts a reference or
stands for a GUID to be generated. -/
theorem Spells.range {n : Nat} (h : Spells cs n) (hc : c ∈ cs) :
    45 ≤ c.toNat ∧ c.toNat ≤ 125 := by
  obtain ⟨ds, vs, hspelling, -, hdigits, -⟩ := h
  have hdigit : c ∈ ds → 45 ≤ c.toNat ∧ c.toNat ≤ 125 := by
    intro hmem
    have hrange := range_of_forall₂ hdigits hmem
    omega
  have hgroups : ∀ {cs}, Grouped cs ds → c ∈ cs → 45 ≤ c.toNat ∧ c.toNat ≤ 125 := by
    intro cs hgrouped hmem
    rcases hgrouped.mem hmem with rfl | hmem
    · decide
    · exact hdigit hmem
  cases hspelling with
  | plain => exact hdigit hc
  | grouped hgrouped => exact hgroups hgrouped hc
  | braced hgrouped =>
    simp only [List.mem_cons, List.mem_append, List.not_mem_nil, or_false, List.cons_append] at hc
    rcases hc with rfl | hc | rfl
    · decide
    · exact hgroups hgrouped hc
    · decide
  | urn hstart hgrouped =>
    rcases List.mem_append.1 hc with hc | hc
    · exact range_of_urn hstart hc
    · exact hgroups hgrouped hc

theorem Spells.tight {n : Nat} (h : Spells cs n) : Text.Tight cs := by
  refine Text.tight_of_forall fun c hc => ?_
  have hrange := h.range hc
  exact Text.isBlank_of_range ⟨by omega, by omega⟩

theorem Spells.not_mem {n : Nat} (h : Spells cs n) : '(' ∉ cs ∧ '*' ∉ cs :=
  ⟨fun hc => absurd (h.range hc) (by decide), fun hc => absurd (h.range hc) (by decide)⟩

theorem Spells.ne_nil {n : Nat} (h : Spells cs n) : cs ≠ [] := by
  rintro rfl
  obtain ⟨ds, vs, hspelling, hlen, -⟩ := h
  generalize hcs : ([] : List Char) = cs at hspelling
  cases hspelling with
  | plain => simp [← hcs] at hlen
  | grouped hgrouped => simpa [← hcs] using hgrouped.length_eq
  | braced => cases hcs
  | urn hstart => simp [(List.append_eq_nil_iff.1 hcs.symm).1] at hstart

end Guid

end InstallerAnalysis

import InstallerAnalysis.Identifier.Synthesis
import InstallerAnalysis.Proofs.SixBitText
import Mathlib.Data.List.Basic
import Mathlib.Data.List.DropRight

/-!
# Synthesized identifiers

Synthesized identifiers are of the identifier grammar, whatever they are made from
(`synthesized_legal`). One that is made from parts shows the digest of its parts in full
(`partsDigest_eq_of_ofParts_eq`). The text that is hashed tells its parts apart as long as they do
not hold the character that joins them (`partsText_cons_inj`).
-/

namespace InstallerAnalysis

/-- Two texts that go on after their first `d`, if they have one, are equal piece by piece. -/
theorem append_inj_of_delimiter {d : Char} : ∀ {a b x y : List Char}, d ∉ a → d ∉ b →
    (∀ c ∈ x.head?, c = d) → (∀ c ∈ y.head?, c = d) → a ++ x = b ++ y → a = b ∧ x = y
  | [], [], _, _, _, _, _, _, h => ⟨rfl, h⟩
  | [], c :: b, x, y, _, hb, hx, _, h => by
    subst h
    exact absurd (hx c (by simp)) (by rintro rfl; simp at hb)
  | c :: a, [], x, y, ha, _, _, hy, h => by
    subst h
    exact absurd (hy c (by simp)) (by rintro rfl; simp at ha)
  | c :: a, c' :: b, x, y, ha, hb, hx, hy, h => by
    simp only [List.cons_append, List.cons.injEq] at h
    obtain ⟨rfl, h⟩ := h
    obtain ⟨rfl, rfl⟩ := append_inj_of_delimiter (List.not_mem_of_not_mem_cons ha)
      (List.not_mem_of_not_mem_cons hb) hx hy h
    exact ⟨rfl, rfl⟩

namespace Digest

/-- The bytes of the digest of a text that a synthesized name shows. -/
def textDigest (text : String) : List UInt8 :=
  (Sha256.hash (Text.utf8Bytes text)).take 20

theorem partsText_cons {part : String} {rest : List String} (h : rest ≠ []) :
    (partsText (part :: rest)).toList = part.toList ++ '|' :: (partsText rest).toList := by
  obtain ⟨next, rest, rfl⟩ := List.exists_cons_of_ne_nil h
  simp [partsText, String.intercalate_cons_cons]

theorem partsText_cons_inj {a b : String} {as bs : List String} (ha : '|' ∉ a.toList)
    (hb : '|' ∉ b.toList) (has : as ≠ []) (hbs : bs ≠ [])
    (h : partsText (a :: as) = partsText (b :: bs)) : a = b ∧ partsText as = partsText bs := by
  have hl := congrArg String.toList h
  rw [partsText_cons has, partsText_cons hbs] at hl
  obtain ⟨hab, hrest⟩ := append_inj_of_delimiter ha hb (by simp) (by simp) hl
  exact ⟨String.toList_injective hab, String.toList_injective (List.cons.inj hrest).2⟩

theorem length_partsDigest (parts : List String) : (partsDigest parts).length = 20 := by
  rw [partsDigest, List.length_take, Sha256.length_hash]
  rfl

end Digest

namespace Identifier

theorem isChar_of_isStartChar {c : Char} (h : isStartChar c) : isChar c := by
  simp only [isStartChar, Bool.or_eq_true] at h
  rcases h with h | h <;> simp [isChar, h]

theorem isLegalText_append {start rest : List Char} (hs : isLegalText start)
    (hr : ∀ c ∈ rest, isChar c) : isLegalText (start ++ rest) := by
  rcases start with _ | ⟨c, cs⟩
  · simp [isLegalText] at hs
  · simp only [isLegalText, Bool.and_eq_true, List.all_eq_true, List.cons_append,
      List.mem_append] at hs ⊢
    refine ⟨hs.1, fun x hx => ?_⟩
    rcases hx with hx | hx
    · exact hs.2 x hx
    · exact hr x hx

theorem isLegalText_mendStart {cs : List Char} (h : ∀ c ∈ cs, isChar c) :
    isLegalText (mendStart cs) := by
  unfold mendStart
  split
  · rename_i c rest
    split_ifs with hc
    · simp only [isLegalText, hc, Bool.true_and, List.all_eq_true]
      exact fun x hx => h x (List.mem_cons_of_mem _ hx)
    · simp only [isLegalText, Bool.and_eq_true, List.all_eq_true]
      exact ⟨by decide, h⟩
  · decide

theorem isLegalText_stem (s : String) : isLegalText (stem s) := by
  refine isLegalText_mendStart fun c hc => ?_
  exact (List.mem_filter.1 (List.mem_of_mem_take hc)).2

theorem isChar_of_mem_alphabet : ∀ c ∈ alphabet.symbols, isChar c := by
  have hall : alphabet.symbols.all isChar := by decide +kernel
  exact List.all_eq_true.1 hall

theorem nodup_alphabet : alphabet.symbols.Nodup := by
  decide +kernel

theorem toList_ofParts (stemText : String) (parts : List String) :
    (ofParts stemText parts).id.toList
      = stem stemText ++ Digest.SixBit.encode alphabet (Digest.partsDigest parts) :=
  String.toList_ofList

theorem isLegal_ofParts (stemText : String) (parts : List String) :
    isLegal (ofParts stemText parts).id := by
  rw [isLegal, toList_ofParts]
  exact isLegalText_append (isLegalText_stem stemText) fun c hc =>
    isChar_of_mem_alphabet c (Digest.SixBit.mem_of_mem_encode hc)

theorem isChar_of_isLegalText {cs : List Char} (h : isLegalText cs) : ∀ c ∈ cs, isChar c := by
  intro c hc
  rcases cs with _ | ⟨first, rest⟩
  · cases hc
  · simp only [isLegalText, Bool.and_eq_true, List.all_eq_true] at h
    rcases List.mem_cons.1 hc with rfl | hc
    · exact isChar_of_isStartChar h.1
    · exact h.2 c hc

theorem isChar_of_isLegal {s : String} (h : isLegal s) {c : Char} (hc : c ∈ s.toList) : isChar c :=
  isChar_of_isLegalText h c hc

/-- Identifiers made with one stem differ unless the digests of their parts agree. -/
theorem partsDigest_eq_of_ofParts_eq {stemText : String} {parts parts' : List String}
    (h : (ofParts stemText parts).id = (ofParts stemText parts').id) :
    Digest.partsDigest parts = Digest.partsDigest parts' := by
  have hl := congrArg String.toList h
  rw [toList_ofParts, toList_ofParts] at hl
  exact Digest.SixBit.encode_inj nodup_alphabet
    (by rw [Digest.length_partsDigest, Digest.length_partsDigest]) (List.append_cancel_left hl)

/-! ## Length -/

theorem length_mendStart (cs : List Char) :
    1 ≤ (mendStart cs).length ∧ (mendStart cs).length ≤ cs.length + 1 := by
  unfold mendStart
  split
  · split_ifs <;> simp
  · simp

theorem length_stem (s : String) : 1 ≤ (stem s).length ∧ (stem s).length ≤ 4 := by
  have hmend := length_mendStart ((s.toList.filter isChar).take maxStem)
  have htake : ((s.toList.filter isChar).take maxStem).length ≤ 3 := List.length_take_le _ _
  unfold stem
  omega

theorem length_shown (parts : List String) :
    (Digest.SixBit.encode alphabet (Digest.partsDigest parts)).length = 27 := by
  rw [Digest.SixBit.length_encode, Digest.length_partsDigest]

/-! ## File names and platforms -/

theorem isLegal_ofFilename (filename : String) : isLegal (ofFilename filename).id := by
  unfold isLegal ofFilename ofId
  rw [String.toList_ofList]
  refine isLegalText_mendStart fun c hc => ?_
  obtain ⟨d, -, rfl⟩ := List.mem_map.1 hc
  split_ifs with hd
  · exact hd
  · decide

theorem mendStart_of_isLegalText {cs : List Char} (h : isLegalText cs) : mendStart cs = cs := by
  rcases cs with _ | ⟨c, cs⟩
  · simp [isLegalText] at h
  · simp only [isLegalText, Bool.and_eq_true] at h
    simp [mendStart, h.1]

theorem ofFilename_of_isLegal {filename : String} (h : isLegal filename) :
    (ofFilename filename).id = filename := by
  have hkept : filename.toList.map (fun c => if isChar c then c else '_') = filename.toList := by
    conv_rhs => rw [← List.map_id filename.toList]
    exact List.map_congr_left fun c hc => if_pos (isChar_of_isLegal h hc)
  unfold ofFilename ofId
  rw [hkept, mendStart_of_isLegalText h, String.ofList_toList]

theorem isLegal_ofPlatform? {name : String} (h : isLegal name) {current : Platform}
    {supported : PlatformSet} {i : Identifier} (hi : i ∈ ofPlatform? name current supported) :
    i.access = .fragment ∧ isLegal i.id := by
  have hsuffix : ∀ c ∈ current.suffix.toList, isChar c := by
    have hall : current.suffix.toList.all isChar := by cases current <;> decide
    exact List.all_eq_true.1 hall
  unfold ofPlatform? at hi
  split_ifs at hi
  · cases hi
    refine ⟨rfl, ?_⟩
    unfold isLegal ofId
    rw [String.toList_append]
    exact isLegalText_append h hsuffix
  · cases hi

/-- What is synthesized is private and of the identifier grammar. A name of parts has 28 to 31
characters, the last 27 of which are the hash of the parts. A file name is kept exactly if it is an
identifier itself, and the variants of an identifier for platforms are identifiers. -/
theorem synthesized_legal :
    (∀ stemText parts, (ofParts stemText parts).access = .fragment
        ∧ isLegal (ofParts stemText parts).id
        ∧ 28 ≤ (ofParts stemText parts).id.length ∧ (ofParts stemText parts).id.length ≤ 31
        ∧ (ofParts stemText parts).id.toList.rtake 27
          = Digest.SixBit.encode alphabet (Digest.partsDigest parts))
      ∧ (∀ filename, (ofFilename filename).access = .fragment
        ∧ isLegal (ofFilename filename).id
        ∧ ((ofFilename filename).id = filename ↔ isLegal filename))
      ∧ ∀ name current supported, isLegal name → ∀ i ∈ ofPlatform? name current supported,
        i.access = .fragment ∧ isLegal i.id := by
  refine ⟨fun stemText parts => ?_, fun filename => ?_, fun name current supported h i hi => ?_⟩
  · have hstem := length_stem stemText
    have hshown := length_shown parts
    have hlen : (ofParts stemText parts).id.length = (stem stemText).length + 27 := by
      rw [← String.length_toList, toList_ofParts, List.length_append, hshown]
    refine ⟨rfl, isLegal_ofParts stemText parts, by omega, by omega, ?_⟩
    rw [List.rtake, toList_ofParts, List.length_append, hshown, Nat.add_sub_cancel, List.drop_left]
  · refine ⟨rfl, isLegal_ofFilename filename, fun h => ?_, ofFilename_of_isLegal⟩
    exact h ▸ isLegal_ofFilename filename
  · exact isLegal_ofPlatform? h hi

theorem synthesized_legal_arm64 : isLegal "Close.App"
    ∧ ofPlatform? "Close.App" .arm64 PlatformSet.full = some (ofId "Close.App_A64")
    ∧ isLegal "Close.App_A64" := by
  have hname : isLegal "Close.App" := by decide
  exact ⟨hname, rfl, (synthesized_legal.2.2 "Close.App" .arm64 PlatformSet.full hname
    (ofId "Close.App_A64") rfl).2⟩

end Identifier

end InstallerAnalysis

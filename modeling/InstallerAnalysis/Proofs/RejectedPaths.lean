import InstallerAnalysis.Proofs.Attempts
import InstallerAnalysis.Proofs.InlineReuse

/-!
# What a rejected inline path leaves behind

A path that cannot be read is refused before anything is written. An illegal name is met only on
the way down, when the names before it have their directories already (`descend_rejected`): such a
path leaves what the path up to the illegal name leaves (`resolveInline_rejected`). That is nothing
exactly if all of it was remembered before (`descend_of_knows`, `knows_of_descend`).
-/

namespace InstallerAnalysis

open Directory

namespace SourceUnit

variable {u w : SourceUnit} {loc : Location} {a : Option Attribute} {parent : Option String}
  {given text leaf : String} {illegal illegal' : String → Problem} {path : InlinePath}

/-! ## The text -/

/-- There is no text only if that of the attribute is blank, and asking for it changes nothing
else. -/
theorem inlineText_cases (loc : Location) (a : Option Attribute) (given : String)
    (u : SourceUnit) :
    (∃ path, inlineText loc a given u = (none, (report (.value path .empty) loc u).2))
      ∨ ∃ text, inlineText loc a given u = (some text, u) := by
  unfold inlineText
  split_ifs
  · rcases a with _ | a
    · exact .inr ⟨"", rfl⟩
    · obtain ⟨-, h⟩ | ⟨-, h⟩ := Coercion.text_cases .refuseBlank a
      · left
        simp only [bind_apply, h.eq]
        exact ⟨a.path, rfl⟩
      · right
        simp only [bind_apply, h.eq_self]
        exact ⟨a.value, rfl⟩
  · exact .inr ⟨given, rfl⟩

/-! ## The way down -/

/-- The way ends at an illegal name; up to there it was as if the path ended before it. -/
theorem descend_rejected : ∀ {rest : List String} {key current : String} {u : SourceUnit},
    (descend loc illegal key current rest u).1 = none →
      ∃ before bad after leaf w, rest = before ++ bad :: after
        ∧ ¬ Filename.isLong false false bad
        ∧ descend loc illegal key current before u = (some leaf, w)
        ∧ descend loc illegal key current rest u = (none, (report (illegal bad) loc w).2)
  | [], _, _, _, h => by cases h
  | name :: rest, key, current, u, h => by
    rcases hat : u.directoryAt? (childKey key name) with _ | id
    · by_cases hlong : Filename.isLong false false name
      · rw [descend_new hat hlong] at h ⊢
        obtain ⟨before, bad, after, leaf, w, rfl, hbad, hw, heq⟩ := descend_rejected h
        refine ⟨name :: before, bad, after, leaf, w, rfl, hbad, ?_, heq⟩
        rw [descend_new hat hlong, hw]
      · refine ⟨[], name, rest, current, u, rfl, hlong, rfl, descend_illegal hat hlong⟩
    · rw [descend_hit hat] at h ⊢
      obtain ⟨before, bad, after, leaf, w, rfl, hbad, hw, heq⟩ := descend_rejected h
      refine ⟨name :: before, bad, after, leaf, w, rfl, hbad, ?_, heq⟩
      rw [descend_hit hat, hw]

/-- What is reported of illegal names does not matter where there are none. -/
theorem descend_some_congr : ∀ {rest : List String} {key current : String} {u : SourceUnit},
    descend loc illegal key current rest u = (some leaf, w) →
      descend loc illegal' key current rest u = (some leaf, w)
  | [], _, _, _, h => h
  | name :: rest, key, current, u, h => by
    rcases hat : u.directoryAt? (childKey key name) with _ | id
    · by_cases hlong : Filename.isLong false false name
      · rw [descend_new hat hlong] at h ⊢
        exact descend_some_congr h
      · rw [descend_illegal hat hlong] at h
        cases h
    · rw [descend_hit hat] at h ⊢
      exact descend_some_congr h

/-- The root is remembered, unless the path does not name it, and so are all directories on the
way down. -/
def Knows (u : SourceUnit) (path : InlinePath) : Prop :=
  (path.named = false ∨ (u.directoryAt? (rootKey path.root)).isSome)
    ∧ ∃ leaf, u.Remembers leaf (rootKey path.root) path.root path.segments

theorem descend_of_knows (h : u.Knows path)
    (hw : descend loc illegal (rootKey path.root) path.root path.segments
      (enterRoot loc path u).2 = (some leaf, w)) : w = u := by
  obtain ⟨hroot, leaf', hremembers⟩ := h
  rw [enterRoot_known hroot, descend_of_remembers loc illegal hremembers] at hw
  exact (Prod.mk.inj hw).2.symm

theorem knows_of_descend
    (hw : descend loc illegal (rootKey path.root) path.root path.segments
      (enterRoot loc path u).2 = (some leaf, w))
    (hd : w.directories = u.directories) : u.Knows path := by
  have hdown := directories_prefix_descend loc illegal (rootKey path.root) path.root
    path.segments (enterRoot loc path u).2
  have hremembers := remembers_descend (by rw [hw])
  rw [hw] at hdown hremembers
  refine ⟨?_, leaf, hremembers.mono (by simp [hd])⟩
  rcases enterRoot_cases loc path u with ⟨hknown, -⟩ | ⟨-, -, he⟩
  · exact hknown
  · -- a root that is entered makes the remembered directories one more
    have hlength := hdown.length_le
    simp only [he, hd, List.length_append, List.length_singleton] at hlength
    omega

/-! ## A call -/

theorem refused_resolveInline
    (hno : ∀ text path, Gives a given text → InlinePath.parse parent text ≠ .ok path) :
    Refused ["E001", "E014"] u (resolveInline loc a parent given u).2 := by
  rcases inlineText_cases loc a given u with ⟨p, ht⟩ | ⟨text, ht⟩
  · rw [resolveInline_none (by rw [ht]), ht]
    exact refused_report rfl (by simp [Problem.wording, ValueFault.wording, Code.text]) loc u
  · rcases hp : InlinePath.parse parent text with fault | path
    · rw [resolveInline_fault (by rw [ht]) hp, ht]
      exact refused_report rfl (by simp [Problem.wording, Code.text]) loc u
    · have hne : text ≠ "" := by
        rintro rfl
        cases hp
      exact absurd hp (hno text path (gives_of_inlineText (by rw [ht]) hne))

theorem resolveInline_of_gives (hg : Gives a given text)
    (hp : InlinePath.parse parent text = .ok path) :
    resolveInline loc a parent given u = descend loc
      (.illegalDirectoryName ((a.map (·.path)).getD "inline directory") text) (rootKey path.root)
      path.root path.segments (enterRoot loc path u).2 := by
  have ht : (inlineText loc a given u).1 = some text := by rw [hg.inlineText]
  rw [resolveInline_path ht hp, hg.inlineText]

/-- A rejected path that could not be read leaves nothing but an error. Any other one has an illegal
name, and leaves the error and what a call leaves whose path ends before that name. So the section
and the remembered directories are as before exactly if all of that path was known. -/
theorem resolveInline_rejected (h : (resolveInline loc a parent given u).1 = none) :
    let v := (resolveInline loc a parent given u).2
    ((∀ text path, Gives a given text → InlinePath.parse parent text ≠ .ok path)
        ∧ Refused ["E001", "E014"] u v)
      ∨ ∃ text path bad after w, Gives a given text
        ∧ InlinePath.parse parent text
          = .ok { path with segments := path.segments ++ bad :: after }
        ∧ ¬ Filename.isLong false false bad
        ∧ Refused ["E007"] w v
        ∧ (∀ a' parent' given' text', Gives a' given' text' →
            InlinePath.parse parent' text' = .ok path →
            ∃ leaf, resolveInline loc a' parent' given' u = (some leaf, w))
        ∧ (v.content = u.content ∧ v.directories = u.directories ↔ u.Knows path)
        ∧ (u.Knows path → w = u) := by
  intro v
  by_cases hread : ∀ text path, Gives a given text → InlinePath.parse parent text ≠ .ok path
  · exact .inl ⟨hread, refused_resolveInline hread⟩
  · push Not at hread
    obtain ⟨text, whole, hg, hp⟩ := hread
    have hv : v = _ := congrArg Prod.snd (resolveInline_of_gives hg hp)
    rw [resolveInline_of_gives hg hp] at h
    obtain ⟨before, bad, after, leaf, w, hnames, hbad, hw, hrest⟩ := descend_rejected h
    rw [hrest] at hv
    let path : InlinePath := { whole with segments := before }
    have hpath : descend loc (.illegalDirectoryName ((a.map (·.path)).getD "inline directory") text)
        (rootKey path.root) path.root path.segments (enterRoot loc path u).2 = (some leaf, w) := hw
    refine .inr ⟨text, path, bad, after, w, hg, by rw [hp, ← hnames], hbad, ?_, ?_, ?_, ?_⟩
    · rw [hv]
      exact refused_report rfl (by simp [Problem.wording, Code.text]) loc w
    · intro a' parent' given' text' hg' hp'
      rw [resolveInline_of_gives hg' hp']
      exact ⟨leaf, descend_some_congr hpath⟩
    · rw [hv]
      refine ⟨fun hsame => knows_of_descend hpath hsame.2, fun hknows => ?_⟩
      rw [descend_of_knows hknows hpath]
      exact ⟨rfl, rfl⟩
    · exact fun hknows => descend_of_knows hknows hpath

section LeftBehind

open Operation (sharedLocation sharedStart)

/-- The last name is illegal, but its root is referred to and `B` is made and remembered. -/
theorem resolveInline_leftBehind :
    let r := resolveInline sharedLocation none none "A:\\B\\bad|name" sharedStart
    r.1 = none ∧ r.2.content ≠ sharedStart.content ∧ r.2.directories ≠ sharedStart.directories
      ∧ r.2.content.symbols.map (·.table.name) = ["WixSimpleReference", "Directory"]
      ∧ r.2.directories.map Prod.fst = ["A:", "A:\\B"] := by
  decide +kernel

theorem resolveInline_rejected_leftBehind :
    let r := resolveInline sharedLocation none none "A:\\B\\bad|name" sharedStart
    r.1 = none
      ∧ ∃ leaf w, resolveInline sharedLocation none none "A:\\B" sharedStart = (some leaf, w)
      ∧ Refused ["E007"] w r.2 := by
  have hnone : (resolveInline sharedLocation none none "A:\\B\\bad|name" sharedStart).1 = none := by
    decide +kernel
  have hp : InlinePath.parse none "A:\\B\\bad|name" = .ok ⟨"A", true, ["B", "bad|name"]⟩ := by
    decide +kernel
  have hg : Gives none "A:\\B\\bad|name" "A:\\B\\bad|name" := .given (by decide)
  refine ⟨hnone, ?_⟩
  rcases resolveInline_rejected hnone with ⟨hno, -⟩ |
    ⟨text, ⟨root, named, before⟩, bad, after, w, hg', hp', hbad, hrefused, hcalls, -⟩
  · exact absurd hp (hno _ _ hg)
  · obtain rfl := hg.unique hg'
    obtain ⟨rfl, rfl, hnames⟩ := InlinePath.mk.inj (Except.ok.inj (hp.symm.trans hp'))
    -- `B` is legal, so the name that was met is the second one
    have hbefore : before = ["B"] := by
      rcases before with _ | ⟨name, _ | ⟨name', rest⟩⟩
      · obtain ⟨rfl, -⟩ := List.cons.inj hnames
        exact absurd (by decide +kernel) hbad
      · obtain ⟨rfl, -⟩ := List.cons.inj hnames
        rfl
      · simp at hnames
    subst hbefore
    have hshort : Gives none "A:\\B" "A:\\B" := .given (by decide)
    obtain ⟨leaf, hleaf⟩ := hcalls none none "A:\\B" "A:\\B" hshort (by decide +kernel)
    exact ⟨leaf, w, hleaf, hrefused⟩

end LeftBehind

end SourceUnit

end InstallerAnalysis

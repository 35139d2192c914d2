import InstallerAnalysis.Proofs.InlineCache

/-!
# Inline directories lead back to their root

What going down a path does, name by name, keeps the remembered directories sound
(`Sound.descend`), and so does every operation of a run in which only inline paths create
directories (`sound_performAll`). So whatever an inline path gave leads back to the root of the
path, and reads its names backwards on the way (`climb_inlineDirectory`).
-/

namespace InstallerAnalysis

open Directory

namespace SourceUnit

variable {u u' : SourceUnit} {root name id : String} {names : List String} {loc : Location}

/-! ## One path -/

theorem descend_hit {illegal : String → Problem} {key current : String} {rest : List String}
    (h : u.directoryAt? (childKey key name) = some id) :
    descend loc illegal key current (name :: rest) u
      = descend loc illegal (childKey key name) id rest u := by
  simp only [descend, bind_apply, get_apply, h]

theorem descend_new {illegal : String → Problem} {key current : String} {rest : List String}
    (h : u.directoryAt? (childKey key name) = none) (hlong : Filename.isLong false false name) :
    descend loc illegal key current (name :: rest) u
      = descend loc illegal (childKey key name) (inlineId current name) rest
        (makeDirectory loc (childKey key name) current name u) := by
  simp only [descend, bind_apply, get_apply, h, hlong, if_true]
  rfl

theorem descend_illegal {illegal : String → Problem} {key current : String} {rest : List String}
    (h : u.directoryAt? (childKey key name) = none) (hlong : ¬ Filename.isLong false false name) :
    descend loc illegal key current (name :: rest) u = (none, (report (illegal name) loc u).2) := by
  simp only [descend, bind_apply, get_apply, h, hlong]
  rfl

theorem Sound.report (h : u.Sound) (p : Problem) (loc : Location) :
    (SourceUnit.report p loc u).2.Sound :=
  h.writes (Writing.report p loc u) rfl (by simp)

/-- All is sound afterwards, and what was found is the directory at the path. -/
def Arrives (root : String) (names : List String) (result : Option String × SourceUnit) : Prop :=
  result.2.Sound ∧ ∀ leaf, result.1 = some leaf → result.2.identifierAt? root names = some leaf

theorem Sound.descend {illegal : String → Problem} : ∀ {rest names : List String}
    {current : String} {u : SourceUnit}, u.Sound → PlainPath root (names ++ rest) →
    u.identifierAt? root names = some current →
    (SourceUnit.descend loc illegal (pathKey root names) current rest u).2.CollisionFree →
    Arrives root (names ++ rest)
      (SourceUnit.descend loc illegal (pathKey root names) current rest u)
  | [], names, current, u, h, _, hcurrent, _ => by
    refine ⟨h, fun leaf hleaf => ?_⟩
    cases hleaf
    rwa [List.append_nil]
  | name :: rest, names, current, u, h, hplain, hcurrent, hfree => by
    have hkey := pathKey_snoc root names name
    rw [List.append_cons] at hplain ⊢
    rcases hat : u.directoryAt? (pathKey root (names ++ [name])) with _ | id
    · by_cases hlong : Filename.isLong false false name
      · have hc := creates_makeDirectory loc hplain.of_append hlong hcurrent hat
        rw [descend_new (hkey ▸ hat) hlong, ← hkey] at hfree ⊢
        obtain ⟨paths, hw⟩ := remembering_descend illegal rest (pathKey root (names ++ [name]))
          (inlineId current name)
          (makeDirectory loc (pathKey root (names ++ [name])) current name u)
        -- what is hashed further down was not hashed yet, so nothing collides before
        have hsound := hc.sound h (hfree.mono ⟨paths, hw.directories.symm⟩)
        exact hsound.descend hplain hc.identifierAt?_eq hfree
      · rw [descend_illegal (hkey ▸ hat) hlong]
        exact ⟨h.report _ _, by simp⟩
    · rw [descend_hit (hkey ▸ hat), ← hkey] at hfree ⊢
      exact h.descend hplain (by rwa [identifierAt?_snoc]) hfree

theorem enterRoot_new {path : InlinePath} (hnamed : path.named)
    (hnew : u.directoryAt? (rootKey path.root) = none) : enterRoot loc path u
      = ((), { u with
          content := u.content.push
            (referenceRow loc Schema.Directory.definition.name [path.root])
          directories := u.directories ++ [(rootKey path.root, path.root)] }) := by
  simp only [enterRoot, bind_apply, get_apply, hnamed, hnew, Option.isNone_none, Bool.and_self,
    if_true]
  rfl

theorem enterRoot_known {path : InlinePath}
    (h : path.named = false ∨ (u.directoryAt? (rootKey path.root)).isSome) :
    enterRoot loc path u = ((), u) := by
  have hcond : (path.named && (u.directoryAt? (rootKey path.root)).isNone) = false := by
    rcases h with h | h <;> simp [h]
  simp only [enterRoot, bind_apply, get_apply, hcond]
  rfl

/-- The root is known or not named, or it is referred to and remembered. -/
theorem enterRoot_cases (loc : Location) (path : InlinePath) (u : SourceUnit) :
    ((path.named = false ∨ (u.directoryAt? (rootKey path.root)).isSome)
        ∧ enterRoot loc path u = ((), u))
      ∨ (path.named ∧ u.directoryAt? (rootKey path.root) = none ∧ enterRoot loc path u
        = ((), { u with
            content := u.content.push
              (referenceRow loc Schema.Directory.definition.name [path.root])
            directories := u.directories ++ [(rootKey path.root, path.root)] })) := by
  by_cases hknown : path.named = false ∨ (u.directoryAt? (rootKey path.root)).isSome
  · exact .inl ⟨hknown, enterRoot_known hknown⟩
  · simp only [not_or, Bool.not_eq_false, Option.not_isSome_iff_eq_none] at hknown
    exact .inr ⟨hknown.1, hknown.2, enterRoot_new hknown.1 hknown.2⟩

theorem Sound.enterRoot {path : InlinePath} (h : u.Sound) (hr : Identifier.isLegal path.root) :
    (SourceUnit.enterRoot loc path u).2.Sound := by
  rcases enterRoot_cases loc path u with ⟨-, he⟩ | ⟨-, -, he⟩
  · rwa [he]
  · have href : Writes loc [] u (reference loc Schema.Directory.definition.name [path.root] u).2 :=
      writing_reference _ _ u
    have hw := href.trans (writes_rememberDirectory loc (rootKey path.root) path.root _)
    rw [he]
    refine h.writes hw (reference_rowsOf (by decide) loc _ _ u) fun entry he => ?_
    rw [List.mem_singleton.1 he]
    exact ⟨path.root, [], ⟨hr, by simp⟩, rfl, .inl ⟨rfl, rfl⟩⟩

/-- The text of the path of a call: the one given, or else that of the attribute. -/
def spelling (a : Option Attribute) (given : String) : String :=
  if given.isEmpty then (a.map (·.value)).getD "" else given

theorem inlineText_spec (loc : Location) (a : Option Attribute) (given : String) (u : SourceUnit) :
    (inlineText loc a given u).2.content = u.content
      ∧ ∀ text, (inlineText loc a given u).1 = some text → text = spelling a given := by
  unfold inlineText spelling
  split_ifs
  · rcases a with _ | a
    · exact ⟨rfl, fun text h => (Option.some.inj h).symm⟩
    · obtain ⟨-, hrefuses⟩ | ⟨-, haccepts⟩ := Coercion.text_cases .refuseBlank a
      · simp only [bind_apply, hrefuses.eq]
        exact ⟨rfl, nofun⟩
      · simp only [bind_apply, haccepts.eq_self]
        exact ⟨rfl, fun text h => (Option.some.inj h).symm⟩
  · exact ⟨rfl, fun text h => (Option.some.inj h).symm⟩

section Resolve

variable {a : Option Attribute} {parent : Option String} {given text : String}

theorem resolveInline_none (h : (inlineText loc a given u).1 = none) :
    resolveInline loc a parent given u = (none, (inlineText loc a given u).2) := by
  simp only [resolveInline, bind_apply, h]
  rfl

theorem resolveInline_fault {fault : InlineFault} (h : (inlineText loc a given u).1 = some text)
    (hp : InlinePath.parse parent text = .error fault) :
    resolveInline loc a parent given u = (none, (report (.illegalInlineDirectory
      ((a.map (·.path)).getD "inline directory") text fault) loc
        (inlineText loc a given u).2).2) := by
  simp only [resolveInline, bind_apply, h, hp]
  rfl

theorem resolveInline_path {path : InlinePath} (h : (inlineText loc a given u).1 = some text)
    (hp : InlinePath.parse parent text = .ok path) :
    resolveInline loc a parent given u = descend loc
      (.illegalDirectoryName ((a.map (·.path)).getD "inline directory") text) (rootKey path.root)
      path.root path.segments (enterRoot loc path (inlineText loc a given u).2).2 := by
  simp only [resolveInline, bind_apply, h, hp]

theorem Sound.inlineText (h : u.Sound) (loc : Location) (a : Option Attribute) (given : String) :
    (SourceUnit.inlineText loc a given u).2.Sound :=
  h.writes (writing_inlineText a given u) (by rw [(inlineText_spec loc a given u).1]) (by simp)

/-- An inline path leads to the directory that it denotes. -/
theorem Sound.resolveInline (h : u.Sound)
    (hfree : (SourceUnit.resolveInline loc a parent given u).2.CollisionFree) :
    (SourceUnit.resolveInline loc a parent given u).2.Sound
      ∧ ∀ leaf, (SourceUnit.resolveInline loc a parent given u).1 = some leaf →
        ∃ root names, PlainPath root names
          ∧ InlinePath.Denotes parent (spelling a given) root names
          ∧ (SourceUnit.resolveInline loc a parent given u).2.identifierAt? root names
            = some leaf := by
  have htext := h.inlineText loc a given
  rcases ht : (SourceUnit.inlineText loc a given u).1 with _ | text
  · rw [resolveInline_none ht]
    exact ⟨htext, by simp⟩
  · rcases hp : InlinePath.parse parent text with fault | path
    · rw [resolveInline_fault ht hp]
      exact ⟨htext.report _ _, by simp⟩
    · obtain ⟨hr, hd⟩ := InlinePath.parse_eq_ok_iff.1 ⟨path.named, hp⟩
      obtain rfl := (inlineText_spec loc a given u).2 text ht
      have hplain : PlainPath path.root ([] ++ path.segments) := hd.plainPath hr
      rw [resolveInline_path ht hp, ← pathKey_nil] at hfree ⊢
      obtain ⟨hsound, hleaf⟩ := (htext.enterRoot hr).descend hplain rfl hfree
      exact ⟨hsound, fun leaf hl => ⟨_, _, hplain, hd, hleaf leaf hl⟩⟩

end Resolve

end SourceUnit

namespace Operation

open SourceUnit

/-- The operation is an inline path, or adds no row of a directory. -/
def CreatesInline (op : Operation) (u : SourceUnit) : Prop :=
  op.IsInline ∨ (op.perform u).content.rowsOf Schema.Directory.definition.name
    = u.content.rowsOf Schema.Directory.definition.name

/-- Along a run, only inline paths create directories. -/
def DirectoriesInline : List Operation → SourceUnit → Prop
  | [], _ => True
  | op :: ops, u => op.CreatesInline u ∧ DirectoriesInline ops (op.perform u)

variable {op : Operation} {u : SourceUnit}

theorem sound_perform (h : u.Sound) (hop : op.CreatesInline u)
    (hfree : (op.perform u).CollisionFree) : (op.perform u).Sound := by
  by_cases hi : op.IsInline
  · cases op with
    | inlineDirectory loc a parent given => exact (h.resolveInline hfree).1
    | _ => exact hi.elim
  · exact h.writes (writes_perform hi u) (hop.resolve_left hi) (by simp)

theorem sound_performAll : ∀ {ops : List Operation} {u : SourceUnit}, u.Sound →
    DirectoriesInline ops u → (performAll ops u).CollisionFree → (performAll ops u).Sound
  | [], _, h, _, _ => h
  | op :: ops, u, h, hrun, hfree => by
    rw [performAll_cons] at hfree ⊢
    have hop := sound_perform h hrun.1 (hfree.mono (directories_prefix_performAll ops _))
    exact sound_performAll hop hrun.2 hfree

theorem DirectoriesInline.append : ∀ {ops ops' : List Operation} {u : SourceUnit},
    DirectoriesInline (ops ++ ops') u →
      DirectoriesInline ops u ∧ DirectoriesInline ops' (performAll ops u)
  | [], _, _, h => ⟨trivial, h⟩
  | _ :: _, _, _, h => ⟨⟨h.1, h.2.append.1⟩, h.2.append.2⟩

/-- Following parents from the directory that an inline path gave reads its names backwards and
ends at its root, now and after all that follows. -/
theorem climb_inlineDirectory {ops : List Operation} (hu : u.Fresh)
    (hrun : DirectoriesInline ops u) (hfree : (performAll ops u).CollisionFree) :
    (∀ before loc a parent given after leaf,
        ops = before ++ inlineDirectory loc a parent given :: after →
        (resolveInline loc a parent given (performAll before u)).1 = some leaf →
        (∃ root names, InlinePath.Denotes parent (spelling a given) root names)
          ∧ ∀ root names, InlinePath.Denotes parent (spelling a given) root names →
            (performAll ops u).content.climb names.length leaf = some (names.reverse, root))
      ∧ ∀ entry ∈ (performAll ops u).directories, ∃ root names, PlainPath root names
        ∧ entry.1 = pathKey root names
        ∧ ((names = [] ∧ entry.2 = root) ∨ ∃ above name parent row, names = above ++ [name]
          ∧ (performAll ops u).identifierAt? root above = some parent
          ∧ (performAll ops u).content.find? Schema.Directory.definition.name entry.2 = some row
          ∧ row.get? Schema.Directory.name = some name
          ∧ row.get? Schema.Directory.parent = some parent) := by
  have hsound := sound_performAll hu.sound hrun hfree
  refine ⟨?_, ?_⟩
  · rintro before loc a parent given after leaf rfl hleaf
    rw [performAll_append] at hfree hsound ⊢
    have hlater := directories_prefix_performAll after
      ((inlineDirectory loc a parent given).perform (performAll before u))
    obtain ⟨hbefore, -⟩ := hrun.append
    have hsound' := sound_performAll hu.sound hbefore
      (hfree.mono (directories_prefix_performAll _ _))
    obtain ⟨root, names, hplain, hd, hid⟩ :=
      (hsound'.resolveInline (hfree.mono hlater)).2 leaf hleaf
    refine ⟨⟨root, names, hd⟩, fun root' names' hd' => ?_⟩
    obtain ⟨rfl, rfl⟩ := hd.unique hd'
    exact hsound.cached.climb hplain (identifierAt?_mono hlater hid)
  · intro entry he
    obtain ⟨root, names, hplain, hkey, hleads⟩ := hsound.cached entry he
    refine ⟨root, names, hplain, hkey, ?_⟩
    rcases hleads with hroot | ⟨above, name, parent, hn, hparent, row, hrow, hfields⟩
    · exact .inl hroot
    · exact .inr ⟨above, name, parent, row, hn, hparent, hrow.find?, hfields⟩

section Shared

/-- The place of the operations of `sharedRun`. -/
def sharedLocation : Location := ⟨"setup.xml", some 3⟩

/-- The third path comes to a directory whose row the second one added under another key. -/
def sharedRun : List Operation :=
  [inlineDirectory sharedLocation none none "A:\\B",
    inlineDirectory sharedLocation none (some "dfp9Uva25YnJ6Ch8Hl3Gu1mjCjrs") "C",
    inlineDirectory sharedLocation none none "A/B/C\\"]

def sharedStart : SourceUnit := { catalog := Catalog.builtin, content := { id := "Main" } }

theorem sharedRun_outcome : (performAll sharedRun sharedStart).directories
      = [(pathKey "A" [], "A"), (pathKey "A" ["B"], "dfp9Uva25YnJ6Ch8Hl3Gu1mjCjrs"),
        (pathKey "dfp9Uva25YnJ6Ch8Hl3Gu1mjCjrs" ["C"], "dsgjl7NnScXFFZZOcdphZKhdfm90"),
        (pathKey "A" ["B", "C"], "dsgjl7NnScXFFZZOcdphZKhdfm90")]
    ∧ (performAll sharedRun sharedStart).diagnostics.length = 1
    ∧ (resolveInline sharedLocation none none "A/B/C\\"
      (performAll (sharedRun.take 2) sharedStart)).1 = some "dsgjl7NnScXFFZZOcdphZKhdfm90" := by
  decide +kernel

theorem sharedRun_hashedTexts : (performAll sharedRun sharedStart).hashedTexts
    ⊆ {hashedText "A" "B", hashedText "dfp9Uva25YnJ6Ch8Hl3Gu1mjCjrs" "C"} := by
  rintro text ⟨root, names, name, parent, hplain, hparent, hsome, rfl⟩
  rw [identifierAt?_snoc, directoryAt?] at hsome
  obtain ⟨id, hid⟩ := Option.isSome_iff_exists.1 hsome
  obtain ⟨earlier, later, hl, -⟩ := List.lookup_eq_some_iff.1 hid
  have hm : (pathKey root (names ++ [name]), id) ∈ earlier ++ (_, id) :: later :=
    List.mem_append_right _ List.mem_cons_self
  rw [← hl, sharedRun_outcome.1] at hm
  simp only [List.mem_cons, Prod.mk.injEq, List.not_mem_nil, or_false] at hm
  rcases hm with ⟨hk, -⟩ | ⟨hk, -⟩ | ⟨hk, -⟩ | ⟨hk, -⟩
  · obtain ⟨-, hn⟩ := pathKey_inj hplain ⟨by decide, by decide⟩ hk
    simp at hn
  · obtain ⟨rfl, hn⟩ := pathKey_inj hplain ⟨by decide, by decide⟩ hk
    obtain ⟨rfl, rfl⟩ := List.append_singleton_inj.1 (show names ++ [name] = [] ++ ["B"] from hn)
    cases hparent
    exact .inl rfl
  · obtain ⟨rfl, hn⟩ := pathKey_inj hplain ⟨by decide, by decide⟩ hk
    obtain ⟨rfl, rfl⟩ := List.append_singleton_inj.1 (show names ++ [name] = [] ++ ["C"] from hn)
    cases hparent
    exact .inr rfl
  · obtain ⟨rfl, hn⟩ := pathKey_inj hplain ⟨by decide, by decide⟩ hk
    obtain ⟨rfl, rfl⟩ := List.append_singleton_inj.1 (show names ++ [name] = ["B"] ++ ["C"] from hn)
    rw [identifierAt?, if_neg (by simp), directoryAt?, sharedRun_outcome.1] at hparent
    have hat : some "dfp9Uva25YnJ6Ch8Hl3Gu1mjCjrs" = some parent := hparent
    cases hat
    exact .inr rfl

theorem sharedRun_collisionFree : (performAll sharedRun sharedStart).CollisionFree := by
  have hne : Digest.textDigest (hashedText "A" "B")
      ≠ Digest.textDigest (hashedText "dfp9Uva25YnJ6Ch8Hl3Gu1mjCjrs" "C") := by
    decide +kernel
  refine Set.InjOn.mono sharedRun_hashedTexts ?_
  rintro _ (rfl | rfl) _ (rfl | rfl) h
  · rfl
  · exact absurd h hne
  · exact absurd h.symm hne
  · rfl

theorem climb_inlineDirectory_sharedRun :
    (performAll sharedRun sharedStart).diagnostics.length = 1
      ∧ (performAll sharedRun sharedStart).content.climb 2 "dsgjl7NnScXFFZZOcdphZKhdfm90"
        = some (["C", "B"], "A") := by
  have hdenotes : InlinePath.Denotes none (spelling none "A/B/C\\") "A" ["B", "C"] :=
    (InlinePath.parse_eq_ok_iff.1 ⟨true, by decide +kernel⟩).2
  have hclimb := @climb_inlineDirectory sharedStart sharedRun ⟨rfl, rfl, rfl⟩
    ⟨.inl trivial, .inl trivial, .inl trivial, trivial⟩ sharedRun_collisionFree
  obtain ⟨-, hreports, hleaf⟩ := sharedRun_outcome
  exact ⟨hreports, (hclimb.1 (sharedRun.take 2) _ _ _ _ [] _ rfl hleaf).2 "A" ["B", "C"] hdenotes⟩

end Shared

end Operation

end InstallerAnalysis

import InstallerAnalysis.Proofs.InlineReuse

/-!
# Directories that two inline paths lead to

A legal path always gives a directory (`isSome_resolveInline`). Where it makes one, the row is
refused exactly when a directory that was made at another path has the same identifier
(`Traced.makeDirectory`). Unless the hash collides, there are two such paths exactly when one of
them starts from a directory on the way of the other (`Traced.apart_iff`).
-/

namespace InstallerAnalysis

open Directory

/-- An error that refuses the row of a directory. -/
def Diagnostic.RefusesDirectory (d : Diagnostic) : Prop :=
  ∃ loc id first,
    d = (Problem.duplicateSymbol Schema.Directory.definition.name id first).report loc

namespace SourceUnit

variable {u u' : SourceUnit} {loc : Location} {root root' name id above : String}
  {names names' : List String}

/-! ## Paths and the directories at them -/

/-- A directory was made at a path. -/
structure At (u : SourceUnit) (root : String) (names : List String) (id : String) : Prop where
  plain : PlainPath root names
  below : names ≠ []
  found : u.directoryAt? (pathKey root names) = some id

/-- No directory is at two paths. -/
def PathsApart (u : SourceUnit) : Prop :=
  ∀ root root' names names' id, u.At root names id → u.At root' names' id →
    root = root' ∧ names = names'

/-- A path starts from a directory on the way of another path, and goes on like that one. -/
def PathsMeet (u : SourceUnit) : Prop :=
  ∃ root above id rest leaf leaf', u.At root above id ∧ u.At root (above ++ rest) leaf
    ∧ u.At id rest leaf'

theorem At.identifierAt?_eq (h : u.At root names id) : u.identifierAt? root names = some id := by
  rw [identifierAt?, if_neg h.below]
  exact h.found

theorem at_of_identifierAt? (hplain : PlainPath root names) (hne : names ≠ [])
    (h : u.identifierAt? root names = some id) : u.At root names id := by
  rw [identifierAt?, if_neg hne] at h
  exact ⟨hplain, hne, h⟩

theorem At.mono (hd : u.directories <+: u'.directories) (h : u.At root names id) :
    u'.At root names id :=
  ⟨h.plain, h.below, directoryAt?_mono hd h.found⟩

theorem pathKey_ne_rootKey (hplain : PlainPath root names) (hne : names ≠ [])
    (hr : Identifier.isLegal root') : pathKey root names ≠ rootKey root' := by
  intro hkey
  have hroot : PlainPath root' [] := ⟨hr, by simp⟩
  exact hne (pathKey_inj hplain hroot hkey).2

theorem at_enterRoot_iff {path : InlinePath} (hr : Identifier.isLegal path.root) :
    (enterRoot loc path u).2.At root names id ↔ u.At root names id := by
  rcases enterRoot_cases loc path u with ⟨-, he⟩ | ⟨-, hnew, he⟩
  · rw [he]
  · rw [he]
    refine ⟨fun h => ⟨h.plain, h.below, ?_⟩, At.mono (List.prefix_append _ _)⟩
    rcases (directoryAt?_concat_iff hnew rfl).1 h.found with hfound | ⟨hkey, -⟩
    · exact hfound
    · exact absurd hkey (pathKey_ne_rootKey h.plain h.below hr)

theorem at_makeDirectory_iff (hplain : PlainPath root (names ++ [name]))
    (hnew : u.directoryAt? (pathKey root (names ++ [name])) = none) :
    (makeDirectory loc (pathKey root (names ++ [name])) above name u).At root' names' id
      ↔ u.At root' names' id
        ∨ (root' = root ∧ names' = names ++ [name] ∧ id = inlineId above name) := by
  have hmade := directories_makeDirectory loc (pathKey root (names ++ [name])) above name u
  constructor
  · intro h
    rcases (directoryAt?_concat_iff hnew hmade).1 h.found with hfound | ⟨hkey, hid⟩
    · exact .inl ⟨h.plain, h.below, hfound⟩
    · obtain ⟨hroot, hnames⟩ := pathKey_inj h.plain hplain hkey
      exact .inr ⟨hroot, hnames, hid⟩
  · rintro (h | ⟨rfl, rfl, rfl⟩)
    · exact h.mono ⟨_, hmade.symm⟩
    · exact ⟨hplain, by simp, directoryAt?_last hnew hmade⟩

theorem pathsApart_makeDirectory_iff (hplain : PlainPath root (names ++ [name]))
    (hnew : u.directoryAt? (pathKey root (names ++ [name])) = none) :
    (makeDirectory loc (pathKey root (names ++ [name])) above name u).PathsApart
      ↔ u.PathsApart ∧ ∀ root' names', ¬ u.At root' names' (inlineId above name) := by
  constructor
  · intro h
    refine ⟨fun root₁ root₂ names₁ names₂ id h₁ h₂ => ?_, fun root' names' hat => ?_⟩
    · exact h _ _ _ _ id ((at_makeDirectory_iff hplain hnew).2 (.inl h₁))
        ((at_makeDirectory_iff hplain hnew).2 (.inl h₂))
    · obtain ⟨rfl, rfl⟩ := h _ _ _ _ _ ((at_makeDirectory_iff hplain hnew).2 (.inl hat))
        ((at_makeDirectory_iff hplain hnew).2 (.inr ⟨rfl, rfl, rfl⟩))
      rw [hat.found] at hnew
      cases hnew
  · rintro ⟨h, hfree⟩ root₁ root₂ names₁ names₂ id h₁ h₂
    rcases (at_makeDirectory_iff hplain hnew).1 h₁ with h₁ | ⟨rfl, rfl, rfl⟩
    · rcases (at_makeDirectory_iff hplain hnew).1 h₂ with h₂ | ⟨-, -, rfl⟩
      · exact h _ _ _ _ id h₁ h₂
      · exact absurd h₁ (hfree _ _)
    · rcases (at_makeDirectory_iff hplain hnew).1 h₂ with h₂ | ⟨rfl, rfl, -⟩
      · exact absurd h₂ (hfree _ _)
      · exact ⟨rfl, rfl⟩

/-! ## What was made and what was reported -/

/-- The rows of directories are those that were made at paths, and something was reported if a
directory is at two of them. -/
structure Traced (start : List Diagnostic) (u : SourceUnit) : Prop where
  chained : ∀ root names name id, u.At root (names ++ [name]) id → Filename.isLong false false name
    ∧ ∃ above, u.identifierAt? root names = some above ∧ id = inlineId above name
  held : ∀ id, (u.content.keys.lookup (Schema.Directory.definition.name, id)).isSome
    ↔ ∃ root names, u.At root names id
  reported : ∃ reports, u.diagnostics = start ++ reports ∧ (reports = [] ↔ u.PathsApart)
    ∧ ∀ d ∈ reports, d.RefusesDirectory

variable {start : List Diagnostic}

theorem Fresh.not_at (h : u.Fresh) (root : String) (names : List String) (id : String) :
    ¬ u.At root names id := by
  intro hat
  have hfound := hat.found
  simp [directoryAt?, h.directories] at hfound

theorem Fresh.traced (h : u.Fresh) : Traced u.diagnostics u := by
  refine ⟨fun root names name id hat => absurd hat (h.not_at _ _ _), fun id => ?_, [], ?_, ?_, ?_⟩
  · simp [h.keys, h.not_at]
  · simp
  · simp [PathsApart, h.not_at]
  · simp

theorem Traced.enterRoot {path : InlinePath} (h : Traced start u)
    (hr : Identifier.isLegal path.root) : Traced start (SourceUnit.enterRoot loc path u).2 := by
  have hsame : (SourceUnit.enterRoot loc path u).2.content.keys = u.content.keys
      ∧ (SourceUnit.enterRoot loc path u).2.diagnostics = u.diagnostics := by
    rcases enterRoot_cases loc path u with ⟨-, he⟩ | ⟨-, -, he⟩
    · rw [he]
      exact ⟨rfl, rfl⟩
    · rw [he]
      exact ⟨rfl, rfl⟩
  refine ⟨fun root names name id hat => ?_, fun id => ?_, ?_⟩
  · obtain ⟨hlong, above, habove, hid⟩ := h.chained _ _ _ _ ((at_enterRoot_iff hr).1 hat)
    exact ⟨hlong, above, identifierAt?_mono (directories_prefix_enterRoot ..) habove, hid⟩
  · rw [hsame.1, h.held]
    simp only [at_enterRoot_iff hr]
  · rw [hsame.2]
    simp only [PathsApart, at_enterRoot_iff hr]
    exact h.reported

theorem isSome_lookup_makeDirectory (loc : Location) (key above name : String) (u : SourceUnit) :
    ((makeDirectory loc key above name u).content.keys.lookup
        (Schema.Directory.definition.name, id)).isSome
      ↔ (u.content.keys.lookup (Schema.Directory.definition.name, id)).isSome
        ∨ id = inlineId above name := by
  rcases content_makeDirectory loc key above name u with ⟨hadd, -⟩ | ⟨hsame, ⟨index, hl⟩, -⟩
  · rw [(Section.isSome_lookup_added hadd (key?_inlineRow loc above name)).2]
    simp
  · rw [hsame]
    refine ⟨.inl, ?_⟩
    rintro (hsome | rfl)
    · exact hsome
    · exact Option.isSome_of_eq_some hl

theorem Traced.makeDirectory (h : Traced start u) (hplain : PlainPath root (names ++ [name]))
    (hlong : Filename.isLong false false name) (habove : u.identifierAt? root names = some above)
    (hnew : u.directoryAt? (pathKey root (names ++ [name])) = none) :
    Traced start
      (SourceUnit.makeDirectory loc (pathKey root (names ++ [name])) above name u) := by
  have hmade := directories_makeDirectory loc (pathKey root (names ++ [name])) above name u
  obtain ⟨reports, hreports, hapart, hall⟩ := h.reported
  refine ⟨fun root' names' name' id hat => ?_, fun id => ?_, ?_⟩
  · rcases (at_makeDirectory_iff hplain hnew).1 hat with hat | ⟨rfl, hnames, rfl⟩
    · obtain ⟨hlong', above', habove', hid⟩ := h.chained _ _ _ _ hat
      exact ⟨hlong', above', identifierAt?_mono ⟨_, hmade.symm⟩ habove', hid⟩
    · obtain ⟨rfl, rfl⟩ := List.append_singleton_inj.1 hnames
      exact ⟨hlong, above, identifierAt?_mono ⟨_, hmade.symm⟩ habove, rfl⟩
  · rw [isSome_lookup_makeDirectory, h.held]
    simp [at_makeDirectory_iff hplain hnew, exists_or]
  · rw [pathsApart_makeDirectory_iff hplain hnew]
    rcases content_makeDirectory loc (pathKey root (names ++ [name])) above name u
      with ⟨hadd, hdiagnostics⟩ | ⟨-, ⟨index, hl⟩, first, hdiagnostics⟩
    · -- a row that is added had its identifier free, so no path leads to it yet
      have hfree : ∀ root' names', ¬ u.At root' names' (inlineId above name) := by
        intro root' names' hat
        have hsome := (h.held _).2 ⟨root', names', hat⟩
        rw [(Section.isSome_lookup_added hadd (key?_inlineRow loc above name)).1] at hsome
        cases hsome
      refine ⟨reports, hdiagnostics.trans hreports, ?_, hall⟩
      rw [hapart, and_iff_left hfree]
    · obtain ⟨root', names', hat⟩ := (h.held _).1 (Option.isSome_of_eq_some hl)
      rw [hdiagnostics, hreports, List.append_assoc]
      refine ⟨_, rfl, ⟨by simp, fun hfree => absurd hat (hfree.2 _ _)⟩, ?_⟩
      intro d hd
      rcases List.mem_append.1 hd with hd | hd
      · exact hall d hd
      · exact ⟨loc, _, first, List.mem_singleton.1 hd⟩

theorem Traced.descend {illegal : String → Problem} : ∀ {rest names : List String}
    {current : String} {u : SourceUnit}, Traced start u → PlainPath root (names ++ rest) →
    u.identifierAt? root names = some current →
    (∀ name ∈ rest, Filename.isLong false false name) →
    Traced start (SourceUnit.descend loc illegal (pathKey root names) current rest u).2
  | [], _, _, _, h, _, _, _ => h
  | name :: rest, names, current, u, h, hplain, hcurrent, hlong => by
    have hkey := pathKey_snoc root names name
    obtain ⟨hname, hrest⟩ := List.forall_mem_cons.1 hlong
    rw [List.append_cons] at hplain
    rcases hat : u.directoryAt? (pathKey root (names ++ [name])) with _ | id
    · rw [descend_new (hkey ▸ hat) hname, ← hkey]
      have hc := creates_makeDirectory loc hplain.of_append hname hcurrent hat
      exact (h.makeDirectory hplain.of_append hname hcurrent hat).descend hplain
        hc.identifierAt?_eq hrest
    · rw [descend_hit (hkey ▸ hat), ← hkey]
      exact h.descend hplain (by rwa [identifierAt?_snoc]) hrest

theorem isSome_descend {illegal : String → Problem} : ∀ {rest : List String}
    {key current : String} {u : SourceUnit}, (∀ name ∈ rest, Filename.isLong false false name) →
    (descend loc illegal key current rest u).1.isSome
  | [], _, _, _, _ => rfl
  | name :: rest, key, current, u, hlong => by
    obtain ⟨hname, hrest⟩ := List.forall_mem_cons.1 hlong
    rcases hat : u.directoryAt? (childKey key name) with _ | id
    · rw [descend_new hat hname]
      exact isSome_descend hrest
    · rw [descend_hit hat]
      exact isSome_descend hrest

theorem exists_below_cons_iff {rest : List String} :
    (∃ below, below ≠ [] ∧ below <+: name :: rest ∧ names' = names ++ below)
      ↔ names' = names ++ [name]
        ∨ ∃ below, below ≠ [] ∧ below <+: rest ∧ names' = names ++ [name] ++ below := by
  constructor
  · rintro ⟨_ | ⟨name', below⟩, hne, hbelow, rfl⟩
    · exact absurd rfl hne
    · obtain ⟨rfl, htail⟩ := List.cons_prefix_cons.1 hbelow
      by_cases hnil : below = []
      · exact .inl (by rw [hnil])
      · exact .inr ⟨below, hnil, htail, by simp⟩
  · rintro (rfl | ⟨below, -, hbelow, rfl⟩)
    · exact ⟨[name], by simp, ⟨rest, rfl⟩, rfl⟩
    · exact ⟨name :: below, by simp, List.cons_prefix_cons.2 ⟨rfl, hbelow⟩, by simp⟩

/-- Going down a path makes the directories that are missing on it. -/
theorem exists_at_descend_iff {illegal : String → Problem} : ∀ {rest names : List String}
    {current : String} {u : SourceUnit}, PlainPath root (names ++ rest) →
    (∀ name ∈ rest, Filename.isLong false false name) →
    ((∃ id, (descend loc illegal (pathKey root names) current rest u).2.At root' names' id)
      ↔ (∃ id, u.At root' names' id)
        ∨ (root' = root ∧ ∃ below, below ≠ [] ∧ below <+: rest ∧ names' = names ++ below))
  | [], names, current, u, _, _ => by
    refine ⟨.inl, fun h => h.resolve_right ?_⟩
    rintro ⟨-, below, hne, hbelow, -⟩
    exact hne (List.prefix_nil.1 hbelow)
  | name :: rest, names, current, u, hplain, hlong => by
    have hkey := pathKey_snoc root names name
    obtain ⟨hname, hrest⟩ := List.forall_mem_cons.1 hlong
    rw [List.append_cons] at hplain
    rw [exists_below_cons_iff, and_or_left, ← or_assoc]
    rcases hat : u.directoryAt? (pathKey root (names ++ [name])) with _ | id
    · rw [descend_new (hkey ▸ hat) hname, ← hkey, exists_at_descend_iff hplain hrest]
      simp [at_makeDirectory_iff hplain.of_append hat, exists_or]
    · have hthere : u.At root (names ++ [name]) id := ⟨hplain.of_append, by simp, hat⟩
      rw [descend_hit (hkey ▸ hat), ← hkey, exists_at_descend_iff hplain hrest]
      refine or_congr_left ⟨.inl, ?_⟩
      rintro (h | ⟨rfl, rfl⟩)
      · exact h
      · exact ⟨id, hthere⟩

section Legal

variable {a : Option Attribute} {parent : Option String} {given : String}

/-- A call has a path. -/
def HasPath (a : Option Attribute) (parent : Option String) (given root : String)
    (names : List String) : Prop :=
  ∃ text, Gives a given text ∧ InlinePath.Denotes parent text root names

/-- A call has a path with a legal root and legal names. -/
def HasLegalPath (a : Option Attribute) (parent : Option String) (given : String) : Prop :=
  ∃ root names, HasPath a parent given root names ∧ Identifier.isLegal root
    ∧ ∀ name ∈ names, Filename.isLong false false name

theorem HasPath.unique (h : HasPath a parent given root names)
    (h' : HasPath a parent given root' names') : root = root' ∧ names = names' := by
  obtain ⟨text, hg, hd⟩ := h
  obtain ⟨text', hg', hd'⟩ := h'
  obtain rfl := hg.unique hg'
  exact hd.unique hd'

theorem HasPath.resolveInline_eq (h : HasPath a parent given root names)
    (hr : Identifier.isLegal root) (loc : Location) (u : SourceUnit) :
    PlainPath root names ∧ ∃ named illegal, resolveInline loc a parent given u
      = descend loc illegal (pathKey root []) root names
        (enterRoot loc ⟨root, named, names⟩ u).2 := by
  obtain ⟨text, hg, hd⟩ := h
  obtain ⟨named, hp⟩ := InlinePath.parse_eq_ok_iff.2 ⟨hr, hd⟩
  have ht : (inlineText loc a given u).1 = some text := by rw [hg.inlineText]
  have he := resolveInline_path ht hp
  rw [hg.inlineText] at he
  exact ⟨hd.plainPath hr, named, _, he⟩

theorem hasLegalPath_of_parse {path : InlinePath} (hp : InlinePath.parse parent given = .ok path)
    (hlong : ∀ name ∈ path.segments, Filename.isLong false false name) :
    HasLegalPath a parent given := by
  have hne : given ≠ "" := by
    rintro rfl
    cases hp
  obtain ⟨hr, hd⟩ := InlinePath.parse_eq_ok_iff.1 ⟨path.named, hp⟩
  exact ⟨path.root, path.segments, ⟨given, .given hne, hd⟩, hr, hlong⟩

theorem HasLegalPath.isSome_resolveInline (h : HasLegalPath a parent given) (loc : Location)
    (u : SourceUnit) : (resolveInline loc a parent given u).1.isSome := by
  obtain ⟨root, names, hpath, hr, hlong⟩ := h
  obtain ⟨-, named, illegal, he⟩ := hpath.resolveInline_eq hr loc u
  rw [he]
  exact isSome_descend hlong

theorem HasLegalPath.exists_at_resolveInline_iff (h : HasLegalPath a parent given)
    (loc : Location) (u : SourceUnit) :
    (∃ id, (resolveInline loc a parent given u).2.At root' names' id)
      ↔ (∃ id, u.At root' names' id)
        ∨ (names' ≠ [] ∧ ∃ more, HasPath a parent given root' (names' ++ more)) := by
  obtain ⟨root, names, hpath, hr, hlong⟩ := h
  obtain ⟨hplain, named, illegal, he⟩ := hpath.resolveInline_eq hr loc u
  have hnil : PlainPath root ([] ++ names) := hplain
  rw [he, exists_at_descend_iff hnil hlong]
  have hentered {id : String} : (enterRoot loc ⟨root, named, names⟩ u).2.At root' names' id
      ↔ u.At root' names' id := at_enterRoot_iff hr
  simp only [hentered]
  refine or_congr_right ⟨?_, ?_⟩
  · rintro ⟨rfl, below, hne, ⟨more, rfl⟩, rfl⟩
    exact ⟨hne, more, hpath⟩
  · rintro ⟨hne, more, hpath'⟩
    obtain ⟨rfl, rfl⟩ := hpath.unique hpath'
    exact ⟨rfl, names', hne, ⟨more, rfl⟩, rfl⟩

theorem Traced.resolveInline (h : Traced start u) (hlegal : HasLegalPath a parent given) :
    Traced start (SourceUnit.resolveInline loc a parent given u).2 := by
  obtain ⟨root, names, hpath, hr, hlong⟩ := hlegal
  obtain ⟨hplain, named, illegal, he⟩ := hpath.resolveInline_eq hr loc u
  have hnil : PlainPath root ([] ++ names) := hplain
  rw [he]
  exact (h.enterRoot hr).descend hnil rfl hlong

end Legal

/-! ## Two paths to one directory -/

theorem Traced.isLegal (h : Traced start u) (hplain : PlainPath root names)
    (hid : u.identifierAt? root names = some id) : Identifier.isLegal id := by
  rcases List.eq_nil_or_concat' names with rfl | ⟨above, name, rfl⟩
  · cases hid
    exact hplain.root
  · obtain ⟨-, above, -, rfl⟩ := h.chained _ _ _ _ (at_of_identifierAt? hplain (by simp) hid)
    exact isLegal_inlineId above name

theorem Traced.eq_of_append (h : Traced start u) {above rest : List String} {leaf leaf' : String}
    (hid : u.identifierAt? root above = some id) (hplain : PlainPath root (above ++ rest))
    (hleaf : u.identifierAt? root (above ++ rest) = some leaf)
    (hleaf' : u.identifierAt? id rest = some leaf') : leaf = leaf' := by
  induction rest using List.reverseRecOn generalizing leaf leaf' with
  | nil =>
    rw [List.append_nil, hid] at hleaf
    cases hleaf
    exact Option.some.inj hleaf'
  | append_singleton rest name ih =>
    have hplain' : PlainPath id (rest ++ [name]) :=
      ⟨h.isLegal hplain.of_append hid, fun n hn => hplain.names n (List.mem_append_right _ hn)⟩
    rw [← List.append_assoc] at hplain hleaf
    obtain ⟨-, p, hp, rfl⟩ := h.chained _ _ _ _ (at_of_identifierAt? hplain (by simp) hleaf)
    obtain ⟨-, p', hp', rfl⟩ := h.chained _ _ _ _ (at_of_identifierAt? hplain' (by simp) hleaf')
    rw [ih hplain.of_append hp hp']

theorem Traced.not_apart (h : Traced start u) (hmeet : u.PathsMeet) : ¬ u.PathsApart := by
  obtain ⟨root, above, id, rest, leaf, leaf', hat, hbelow, hrest⟩ := hmeet
  intro hapart
  obtain rfl := h.eq_of_append hat.identifierAt?_eq hbelow.plain hbelow.identifierAt?_eq
    hrest.identifierAt?_eq
  obtain ⟨-, hnames⟩ := hapart _ _ _ _ _ hbelow hrest
  exact hat.below (List.append_left_eq_self.1 hnames)

/-- Unless the hash collides, a directory tells its name and the directory that it is in. -/
theorem Traced.same_above (h : Traced start u) (hfree : u.CollisionFree) {name' : String}
    (hat : u.At root (names ++ [name]) id) (hat' : u.At root' (names' ++ [name']) id) :
    name = name' ∧ ∃ above, u.identifierAt? root names = some above
      ∧ u.identifierAt? root' names' = some above := by
  obtain ⟨hlong, above, habove, rfl⟩ := h.chained _ _ _ _ hat
  obtain ⟨hlong', above', habove', hid⟩ := h.chained _ _ _ _ hat'
  have hsome := Option.isSome_of_eq_some hat.identifierAt?_eq
  have hsome' := Option.isSome_of_eq_some hat'.identifierAt?_eq
  have htext := hfree ⟨root, names, name, above, hat.plain, habove, hsome, rfl⟩
    ⟨root', names', name', above', hat'.plain, habove', hsome', rfl⟩
    (textDigest_eq_of_inlineId_eq hid)
  have hbar := not_mem_of_isLegal (h.isLegal hat.plain.of_append habove) (c := '|') (by decide)
  have hbar' := not_mem_of_isLegal (h.isLegal hat'.plain.of_append habove') (c := '|') (by decide)
  obtain ⟨rfl, rfl⟩ := hashedText_inj hbar hbar' (not_mem_of_isLong hlong (by decide))
    (not_mem_of_isLong hlong' (by decide)) htext
  exact ⟨rfl, above, habove, habove'⟩

theorem Traced.meet (h : Traced start u) (hfree : u.CollisionFree) (hat : u.At root names id)
    (hat' : u.At root' names' id) (hne : ¬ (root = root' ∧ names = names')) : u.PathsMeet := by
  induction names using List.reverseRecOn generalizing names' id with
  | nil => exact absurd rfl hat.below
  | append_singleton names name ih =>
    obtain ⟨names', name', rfl⟩ := (List.eq_nil_or_concat' names').resolve_left hat'.below
    obtain ⟨rfl, above, habove, habove'⟩ := h.same_above hfree hat hat'
    -- both are in one directory: go up until a path is at its root, where the other passes
    by_cases hnil : names = []
    · subst hnil
      cases habove
      by_cases hnil' : names' = []
      · subst hnil'
        cases habove'
        exact absurd ⟨rfl, rfl⟩ hne
      · have hthrough := at_of_identifierAt? hat'.plain.of_append hnil' habove'
        exact ⟨root', names', root, [name], id, id, hthrough, hat', hat⟩
    · have hthrough := at_of_identifierAt? hat.plain.of_append hnil habove
      by_cases hnil' : names' = []
      · subst hnil'
        cases habove'
        exact ⟨root, names, root', [name], id, id, hthrough, hat, hat'⟩
      · refine ih (at_of_identifierAt? hat.plain.of_append hnil habove)
          (at_of_identifierAt? hat'.plain.of_append hnil' habove') ?_
        rintro ⟨rfl, rfl⟩
        exact hne ⟨rfl, rfl⟩

theorem Traced.apart_iff (h : Traced start u) (hfree : u.CollisionFree) :
    u.PathsApart ↔ ¬ u.PathsMeet := by
  refine ⟨fun hapart hmeet => h.not_apart hmeet hapart, fun hnone => ?_⟩
  intro root root' names names' id hat hat'
  by_contra hne
  exact hnone (h.meet hfree hat hat' hne)

end SourceUnit

namespace Operation

open SourceUnit

/-- The operation is an inline path with a legal root and legal names. -/
def IsLegalInline : Operation → Prop
  | inlineDirectory _ a parent given => HasLegalPath a parent given
  | _ => False

/-- The operation is an inline path that comes through another path. -/
def Passes (root : String) (names : List String) : Operation → Prop
  | inlineDirectory _ a parent given => ∃ more, HasPath a parent given root (names ++ more)
  | _ => False

variable {op : Operation} {u : SourceUnit} {root : String} {names : List String}

theorem exists_at_perform_iff (hop : op.IsLegalInline) :
    (∃ id, (op.perform u).At root names id)
      ↔ (∃ id, u.At root names id) ∨ (names ≠ [] ∧ op.Passes root names) := by
  cases op with
  | inlineDirectory loc => exact hop.exists_at_resolveInline_iff loc u
  | _ => exact hop.elim

theorem exists_at_performAll_iff : ∀ {ops : List Operation} {u : SourceUnit},
    (∀ op ∈ ops, op.IsLegalInline) →
    ((∃ id, (performAll ops u).At root names id)
      ↔ (∃ id, u.At root names id) ∨ (names ≠ [] ∧ ∃ op ∈ ops, op.Passes root names))
  | [], u, _ => by simp
  | op :: ops, u, hops => by
    obtain ⟨hop, hrest⟩ := List.forall_mem_cons.1 hops
    rw [performAll_cons, exists_at_performAll_iff hrest, exists_at_perform_iff hop, or_assoc,
      ← and_or_left]
    simp

theorem traced_performAll {start : List Diagnostic} : ∀ {ops : List Operation} {u : SourceUnit},
    Traced start u → (∀ op ∈ ops, op.IsLegalInline) → Traced start (performAll ops u)
  | [], _, h, _ => h
  | op :: ops, u, h, hops => by
    obtain ⟨hop, hrest⟩ := List.forall_mem_cons.1 hops
    have hstep : Traced start (op.perform u) := by
      cases op with
      | inlineDirectory => exact h.resolveInline hop
      | _ => exact hop.elim
    exact traced_performAll (u := op.perform u) hstep hrest

/-- Legal inline paths always give a directory. They make one at every path that they pass. All
that they can report is that a directory is there already, which they do if it is at two paths:
unless the hash collides, at a path through another directory and at one that starts from it. -/
theorem resolveInline_legal {ops : List Operation} (hu : u.Fresh)
    (hops : ∀ op ∈ ops, op.IsLegalInline) :
    let v := performAll ops u
    (∀ before loc a parent given after,
        ops = before ++ inlineDirectory loc a parent given :: after →
        (resolveInline loc a parent given (performAll before u)).1.isSome)
      ∧ (∀ root names, (∃ id, v.At root names id)
        ↔ names ≠ [] ∧ ∃ op ∈ ops, op.Passes root names)
      ∧ (∃ reports, v.diagnostics = u.diagnostics ++ reports
        ∧ (reports = [] ↔ v.PathsApart) ∧ ∀ d ∈ reports, d.RefusesDirectory)
      ∧ (v.CollisionFree → (v.PathsApart ↔ ¬ v.PathsMeet)) := by
  intro v
  have h : Traced u.diagnostics v := traced_performAll hu.traced hops
  refine ⟨?_, fun root names => ?_, h.reported, h.apart_iff⟩
  · rintro before loc a parent given after rfl
    have hlegal : HasLegalPath a parent given :=
      hops _ (List.mem_append_right _ List.mem_cons_self)
    exact hlegal.isSome_resolveInline loc _
  · rw [exists_at_performAll_iff hops]
    exact or_iff_right fun ⟨id, hat⟩ => hu.not_at root names id hat

section Shared

theorem sharedRun_legal : ∀ op ∈ sharedRun, op.IsLegalInline := by
  refine List.forall_mem_cons.2 ⟨?_, List.forall_mem_cons.2 ⟨?_, List.forall_mem_singleton.2 ?_⟩⟩
  · have hp : InlinePath.parse none "A:\\B" = .ok ⟨"A", true, ["B"]⟩ := by decide +kernel
    exact hasLegalPath_of_parse hp (by decide +kernel)
  · have hp : InlinePath.parse (some "dfp9Uva25YnJ6Ch8Hl3Gu1mjCjrs") "C"
        = .ok ⟨"dfp9Uva25YnJ6Ch8Hl3Gu1mjCjrs", false, ["C"]⟩ := by decide +kernel
    exact hasLegalPath_of_parse hp (by decide +kernel)
  · have hp : InlinePath.parse none "A/B/C\\" = .ok ⟨"A", true, ["B", "C"]⟩ := by decide +kernel
    exact hasLegalPath_of_parse hp (by decide +kernel)

theorem resolveInline_legal_sharedRun : (performAll sharedRun sharedStart).diagnostics.length = 1
    ∧ (performAll sharedRun sharedStart).PathsMeet := by
  obtain ⟨-, -, ⟨reports, hreports, hapart, -⟩, hmeet⟩ :=
    @resolveInline_legal sharedStart sharedRun ⟨rfl, rfl, rfl⟩ sharedRun_legal
  have hlength := sharedRun_outcome.2.1
  refine ⟨hlength, ?_⟩
  by_contra hnone
  have hnil := hapart.2 ((hmeet sharedRun_collisionFree).2 hnone)
  rw [hreports, hnil] at hlength
  cases hlength

/-- The third path of the run is legal, and its directory is there already: it is reported. -/
theorem sharedRun_reported : sharedStart.Fresh ∧ (∀ op ∈ sharedRun, op.IsLegalInline)
    ∧ (performAll sharedRun sharedStart).diagnostics.map (·.code.map Code.text) = [some "E100"] :=
  ⟨⟨rfl, rfl, rfl⟩, sharedRun_legal, by decide +kernel⟩

end Shared

end Operation

end InstallerAnalysis

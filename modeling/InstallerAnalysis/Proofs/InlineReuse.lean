import InstallerAnalysis.Proofs.InlineDirectories

/-!
# Inline paths find their directories again

Going down a path that gave a directory leaves all of it remembered (`remembers_descend`), and
going down a remembered path changes nothing (`descend_of_remembers`). What is remembered stays, so
a path that is spelled in another way later gives the same directory. All it may add is the
reference to its root, if no path has named the root before (`isSome_performAll_iff`).
-/

namespace InstallerAnalysis

open Directory

namespace Directory.InlinePath

variable {parent : Option String} {text root : String} {names : List String} {path : InlinePath}

/-- The ways to spell a path: the root with a colon, the root where no directory is known from
elsewhere, or the names alone inside the root. -/
inductive Spells (root : String) (names : List String) : Option String → String → Prop
  | colon {parent : Option String} {text : String} :
      Filename.Joined ((root ++ ":") :: names) text.toList → Spells root names parent text
  | leading {text : String} :
      Filename.Joined (root :: names) text.toList → Spells root names none text
  | inside {text : String} : Filename.Joined names text.toList → Spells root names (some root) text

/-- The path itself names the directory that it starts from. -/
def NamesRoot (parent : Option String) (text root : String) : Prop :=
  ∃ names, Filename.Joined ((root ++ ":") :: names) text.toList
    ∨ (parent = none ∧ Filename.Joined (root :: names) text.toList)

theorem getLast?_ne_of_not_mem {s : String} {c : Char} (h : c ∉ s.toList) :
    s.toList.getLast? ≠ some c :=
  fun hl => h (List.mem_of_getLast? hl)

theorem getLast?_ne_of_isLegal (hr : Identifier.isLegal root) : root.toList.getLast? ≠ some ':' :=
  getLast?_ne_of_not_mem (not_mem_of_isLegal hr (by decide))

theorem parse_colon (hr : Identifier.isLegal root)
    (hj : Filename.Joined ((root ++ ":") :: names) text.toList) :
    parse parent text = .ok ⟨root, true, names⟩ := by
  rw [parse_of_joined hj, splitRoot_named, if_pos hr]

theorem parse_leading (hr : Identifier.isLegal root)
    (hj : Filename.Joined (root :: names) text.toList) :
    parse none text = .ok ⟨root, true, names⟩ := by
  rw [parse_of_joined hj, splitRoot_first (getLast?_ne_of_isLegal hr), if_pos hr]

theorem parse_inside {name : String} (hr : Identifier.isLegal root)
    (hne : name.toList.getLast? ≠ some ':')
    (hj : Filename.Joined (name :: names) text.toList) :
    parse (some root) text = .ok ⟨root, false, name :: names⟩ := by
  rw [parse_of_joined hj, splitRoot_inside hne, if_pos hr]

theorem NamesRoot.parse (h : NamesRoot parent text root) (hr : Identifier.isLegal root) :
    ∃ names, InlinePath.parse parent text = .ok ⟨root, true, names⟩ := by
  obtain ⟨names, hj | ⟨rfl, hj⟩⟩ := h
  · exact ⟨names, parse_colon hr hj⟩
  · exact ⟨names, parse_leading hr hj⟩

theorem named_iff (h : parse parent text = .ok path) :
    path.named = true ∧ path.root = root
      ↔ Identifier.isLegal root ∧ NamesRoot parent text root := by
  constructor
  · rintro ⟨hnamed, rfl⟩
    obtain ⟨hr, hd⟩ := parse_eq_ok_iff.1 ⟨path.named, h⟩
    refine ⟨hr, ?_⟩
    rcases path with ⟨root, named, names⟩
    cases hd with
    | named hj => exact ⟨names, .inl hj⟩
    | first _ hj => exact ⟨names, .inr ⟨rfl, hj⟩⟩
    | inside hne hj =>
      rw [parse_inside hr hne hj] at h
      cases h
      cases hnamed
  · rintro ⟨hr, hnames⟩
    obtain ⟨names, hp⟩ := hnames.parse hr
    cases h.symm.trans hp
    exact ⟨rfl, rfl⟩

end Directory.InlinePath

namespace Directory

variable {root name : String}

theorem not_mem_rootKey (hr : Identifier.isLegal root) : '\\' ∉ (rootKey root).toList := by
  have hroot : '\\' ∉ root.toList := not_mem_of_isLegal hr (by decide)
  simp [rootKey, hroot]

theorem mem_childKey (key name : String) : '\\' ∈ (childKey key name).toList := by
  simp [childKey]

theorem rootKey_ne_childKey (hr : Identifier.isLegal root) (key name : String) :
    rootKey root ≠ childKey key name :=
  fun h => not_mem_rootKey hr (h ▸ mem_childKey key name)

theorem rootKey_inj {root' : String} : rootKey root = rootKey root' ↔ root = root' := by
  simp [rootKey, ← String.toList_inj]

theorem ne_of_isLong (h : Filename.isLong false false name) : name ≠ "" := by
  rintro rfl
  revert h
  decide

theorem getLast?_childKey (hne : name ≠ "") (key : String) :
    (childKey key name).toList.getLast? = name.toList.getLast? := by
  have hname : name.toList ≠ [] := by simpa using hne
  rw [childKey, String.toList_append, List.getLast?_append_of_ne_nil _ hname]

end Directory

namespace SourceUnit

variable {u u' : SourceUnit} {loc : Location} {a : Option Attribute} {parent : Option String}
  {given text root leaf : String}

/-! ## Going down again -/

/-- Every directory on the way down a path is remembered, and the last one is `leaf`. -/
def Remembers (u : SourceUnit) (leaf : String) : (key current : String) → List String → Prop
  | _, current, [] => current = leaf
  | key, _, name :: rest => ∃ id, u.directoryAt? (childKey key name) = some id
    ∧ u.Remembers leaf (childKey key name) id rest

theorem Remembers.mono (hd : u.directories <+: u'.directories) :
    ∀ {rest : List String} {key current : String}, u.Remembers leaf key current rest →
      u'.Remembers leaf key current rest
  | [], _, _, h => h
  | _ :: _, _, _, ⟨id, hid, h⟩ => ⟨id, directoryAt?_mono hd hid, h.mono hd⟩

theorem descend_of_remembers (loc : Location) (illegal : String → Problem) :
    ∀ {rest : List String} {key current : String}, u.Remembers leaf key current rest →
      descend loc illegal key current rest u = (some leaf, u)
  | [], _, _, h => by
    rw [Remembers] at h
    rw [h]
    rfl
  | _ :: _, _, _, ⟨id, hid, h⟩ => by
    rw [descend_hit hid]
    exact descend_of_remembers loc illegal h

theorem directories_prefix_enterRoot (loc : Location) (path : InlinePath) (u : SourceUnit) :
    u.directories <+: (enterRoot loc path u).2.directories := by
  have henter : Remembering loc (enterRoot loc path) := remembering_enterRoot path
  obtain ⟨paths, hw⟩ := henter u
  exact ⟨paths, hw.directories.symm⟩

theorem directories_prefix_descend (loc : Location) (illegal : String → Problem)
    (key current : String) (rest : List String) (u : SourceUnit) :
    u.directories <+: (descend loc illegal key current rest u).2.directories := by
  have hdescend : Remembering loc (descend loc illegal key current rest) :=
    remembering_descend illegal rest key current
  obtain ⟨paths, hw⟩ := hdescend u
  exact ⟨paths, hw.directories.symm⟩

theorem remembers_descend {illegal : String → Problem} :
    ∀ {rest : List String} {key current : String} {u : SourceUnit},
      (descend loc illegal key current rest u).1 = some leaf →
      (descend loc illegal key current rest u).2.Remembers leaf key current rest
  | [], _, _, _, h => Option.some.inj h
  | name :: rest, key, current, u, h => by
    rcases hat : u.directoryAt? (childKey key name) with _ | id
    · by_cases hlong : Filename.isLong false false name
      · have hmade := directoryAt?_last hat
          (directories_makeDirectory loc (childKey key name) current name u)
        rw [descend_new hat hlong] at h ⊢
        exact ⟨_, directoryAt?_mono (directories_prefix_descend ..) hmade, remembers_descend h⟩
      · rw [descend_illegal hat hlong] at h
        cases h
    · rw [descend_hit hat] at h ⊢
      exact ⟨id, directoryAt?_mono (directories_prefix_descend ..) hat, remembers_descend h⟩

/-! ## What a call remembers -/

/-- A call has the text of a path: as it is given, or else as the value of the attribute. -/
inductive Gives : Option Attribute → String → String → Prop
  | given {a : Option Attribute} {text : String} : text ≠ "" → Gives a text text
  | valued {a : Attribute} : Text.allBlank a.value = false → Gives (some a) "" a.value

theorem Gives.inlineText (h : Gives a given text) (loc : Location) (u : SourceUnit) :
    SourceUnit.inlineText loc a given u = (some text, u) := by
  cases h with
  | given hne =>
    have hempty : given.isEmpty = false := by simpa using hne
    simp only [SourceUnit.inlineText, hempty]
    rfl
  | @valued a hblank =>
    have hempty : "".isEmpty = true := rfl
    obtain ⟨hrefuses, -⟩ | ⟨-, haccepts⟩ := Coercion.text_cases .refuseBlank a
    · exact absurd hrefuses (by simp [BlankRule.refuses, hblank])
    · simp only [SourceUnit.inlineText, hempty, if_true, bind_apply, haccepts.eq_self]
      rfl

theorem gives_of_inlineText (h : (inlineText loc a given u).1 = some text) (hne : text ≠ "") :
    Gives a given text := by
  unfold inlineText at h
  split_ifs at h with hempty
  · obtain rfl := String.isEmpty_iff.1 hempty
    rcases a with _ | a
    · exact absurd (Option.some.inj h).symm hne
    · obtain ⟨-, hrefuses⟩ | ⟨hblank, haccepts⟩ := Coercion.text_cases .refuseBlank a
      · simp only [bind_apply, hrefuses.eq] at h
        cases h
      · simp only [bind_apply, haccepts.eq_self] at h
        cases h
        exact .valued hblank
  · obtain rfl : given = text := Option.some.inj h
    exact .given hne

theorem Gives.spelling_eq (h : Gives a given text) : spelling a given = text := by
  cases h with
  | given hne => exact if_neg (by simpa using hne)
  | valued => rfl

theorem Gives.unique {text' : String} (h : Gives a given text) (h' : Gives a given text') :
    text = text' :=
  h.spelling_eq.symm.trans h'.spelling_eq

/-- A call leaves what is remembered as it is, or goes down the path that it could read. -/
theorem resolveInline_cases (loc : Location) (a : Option Attribute) (parent : Option String)
    (given : String) (u : SourceUnit) :
    ((resolveInline loc a parent given u).1 = none
        ∧ (resolveInline loc a parent given u).2.directories = u.directories
        ∧ ∀ text, Gives a given text → ∀ path, InlinePath.parse parent text ≠ .ok path)
      ∨ ∃ text path illegal, Gives a given text ∧ InlinePath.parse parent text = .ok path
        ∧ resolveInline loc a parent given u = descend loc illegal (rootKey path.root) path.root
          path.segments (enterRoot loc path u).2 := by
  have hw : Writes loc [] u (inlineText loc a given u).2 := writing_inlineText a given u
  have hkept : (inlineText loc a given u).2.directories = u.directories :=
    hw.directories.trans (List.append_nil _)
  rcases ht : (inlineText loc a given u).1 with _ | text
  · rw [resolveInline_none ht]
    refine .inl ⟨rfl, hkept, fun text hg => ?_⟩
    rw [hg.inlineText] at ht
    cases ht
  · rcases hp : InlinePath.parse parent text with fault | path
    · rw [resolveInline_fault ht hp]
      refine .inl ⟨rfl, hkept, fun text' hg path hp' => ?_⟩
      rw [hg.inlineText] at ht
      cases ht
      cases hp.symm.trans hp'
    · have hg : Gives a given text := gives_of_inlineText ht fun hempty => by
        subst hempty
        cases hp
      rw [resolveInline_path ht hp, hg.inlineText]
      exact .inr ⟨text, path, _, hg, hp, rfl⟩

theorem mem_enterRoot {path : InlinePath} {entry : String × String} :
    entry ∈ (enterRoot loc path u).2.directories ↔ entry ∈ u.directories
      ∨ (path.named ∧ u.directoryAt? (rootKey path.root) = none
        ∧ entry = (rootKey path.root, path.root)) := by
  rcases enterRoot_cases loc path u with ⟨hknown, he⟩ | ⟨hnamed, hnew, he⟩
  · rw [he]
    rcases hknown with h | h
    · simp [h]
    · simp [Option.ne_none_iff_isSome.2 h]
  · rw [he]
    simp [hnamed, hnew]

theorem mem_descend {illegal : String → Problem} {entry : String × String} :
    ∀ {rest : List String} {key current : String} {u : SourceUnit},
      entry ∈ (descend loc illegal key current rest u).2.directories → entry ∈ u.directories
        ∨ ∃ above name, Filename.isLong false false name ∧ entry.1 = childKey above name
  | [], _, _, _, h => .inl h
  | name :: rest, key, current, u, h => by
    rcases hat : u.directoryAt? (childKey key name) with _ | id
    · by_cases hlong : Filename.isLong false false name
      · rw [descend_new hat hlong] at h
        rcases mem_descend h with h | h
        · rw [directories_makeDirectory] at h
          rcases List.mem_append.1 h with h | h
          · exact .inl h
          · rw [List.mem_singleton.1 h]
            exact .inr ⟨key, name, hlong, rfl⟩
        · exact .inr h
      · rw [descend_illegal hat hlong] at h
        exact .inl h
    · rw [descend_hit hat] at h
      exact mem_descend h

theorem isSome_directoryAt?_iff {key : String} :
    (u.directoryAt? key).isSome ↔ ∃ id, (key, id) ∈ u.directories := by
  simp [directoryAt?, List.lookup_isSome_iff]

theorem isSome_enterRoot_iff {path : InlinePath} :
    ((enterRoot loc path u).2.directoryAt? (rootKey root)).isSome
      ↔ (u.directoryAt? (rootKey root)).isSome ∨ (path.named ∧ path.root = root) := by
  refine ⟨fun h => ?_, fun h => ?_⟩
  · obtain ⟨id, hm⟩ := isSome_directoryAt?_iff.1 h
    rcases mem_enterRoot.1 hm with hm | ⟨hnamed, -, he⟩
    · exact .inl (isSome_directoryAt?_iff.2 ⟨id, hm⟩)
    · exact .inr ⟨hnamed, (rootKey_inj.1 (Prod.mk.inj he).1).symm⟩
  · by_cases hnew : u.directoryAt? (rootKey root) = none
    · obtain ⟨hnamed, rfl⟩ := h.resolve_left (by simp [hnew])
      exact isSome_directoryAt?_iff.2 ⟨_, mem_enterRoot.2 (.inr ⟨hnamed, hnew, rfl⟩)⟩
    · obtain ⟨id, hm⟩ := isSome_directoryAt?_iff.1 (Option.isSome_iff_ne_none.2 hnew)
      exact isSome_directoryAt?_iff.2 ⟨id, mem_enterRoot.2 (.inl hm)⟩

theorem isSome_descend_iff {illegal : String → Problem} {rest : List String}
    {key current : String} (hr : Identifier.isLegal root) :
    ((descend loc illegal key current rest u).2.directoryAt? (rootKey root)).isSome
      ↔ (u.directoryAt? (rootKey root)).isSome := by
  refine ⟨fun h => ?_, fun h => ?_⟩
  · obtain ⟨id, hm⟩ := isSome_directoryAt?_iff.1 h
    rcases mem_descend hm with hm | ⟨above, name, -, hkey⟩
    · exact isSome_directoryAt?_iff.2 ⟨id, hm⟩
    · exact absurd hkey (rootKey_ne_childKey hr above name)
  · obtain ⟨id, hid⟩ := Option.isSome_iff_exists.1 h
    rw [directoryAt?_mono (directories_prefix_descend ..) hid]
    rfl

theorem isSome_resolveInline_iff (hr : Identifier.isLegal root) :
    ((resolveInline loc a parent given u).2.directoryAt? (rootKey root)).isSome
      ↔ (u.directoryAt? (rootKey root)).isSome
        ∨ ∃ text, Gives a given text ∧ InlinePath.NamesRoot parent text root := by
  rcases resolveInline_cases loc a parent given u with ⟨-, hd, hno⟩ | ⟨text, path, _, hg, hp, he⟩
  · rw [directoryAt?, hd]
    refine ⟨.inl, fun h => h.resolve_right ?_⟩
    rintro ⟨text, hg, hnames⟩
    obtain ⟨names, hp⟩ := hnames.parse hr
    exact hno text hg _ hp
  · rw [he, isSome_descend_iff hr, isSome_enterRoot_iff, InlinePath.named_iff hp]
    refine or_congr_right ⟨fun h => ⟨text, hg, h.2⟩, ?_⟩
    rintro ⟨text', hg', hnames⟩
    rw [hg.unique hg']
    exact ⟨hr, hnames⟩

theorem mem_resolveInline {entry : String × String}
    (h : entry ∈ (resolveInline loc a parent given u).2.directories) : entry ∈ u.directories
      ∨ (∃ root, Identifier.isLegal root ∧ entry.1 = rootKey root)
      ∨ ∃ above name, Filename.isLong false false name ∧ entry.1 = childKey above name := by
  rcases resolveInline_cases loc a parent given u with ⟨-, hd, -⟩ | ⟨text, path, _, -, hp, he⟩
  · exact .inl (hd ▸ h)
  · rw [he] at h
    rcases mem_descend h with h | h
    · rcases mem_enterRoot.1 h with h | ⟨-, -, rfl⟩
      · exact .inl h
      · exact .inr (.inl ⟨path.root, (InlinePath.parse_eq_ok_iff.1 ⟨path.named, hp⟩).1, rfl⟩)
    · exact .inr (.inr h)

/-- Of the full paths that are remembered, only those of roots end with a colon. -/
def ColonsAtRoots (u : SourceUnit) : Prop :=
  ∀ entry ∈ u.directories, '\\' ∈ entry.1.toList → entry.1.toList.getLast? ≠ some ':'

theorem ColonsAtRoots.resolveInline (h : u.ColonsAtRoots) :
    (SourceUnit.resolveInline loc a parent given u).2.ColonsAtRoots := by
  intro entry he hm
  rcases mem_resolveInline he with he | ⟨root, hr, hkey⟩ | ⟨above, name, hlong, hkey⟩
  · exact h entry he hm
  · rw [hkey] at hm
    exact absurd hm (not_mem_rootKey hr)
  · rw [hkey, getLast?_childKey (ne_of_isLong hlong)]
    exact InlinePath.getLast?_ne_of_not_mem (not_mem_of_isLong hlong (by decide))

theorem resolveInline_of_remembers {path : InlinePath} (hg : Gives a given text)
    (hp : InlinePath.parse parent text = .ok path)
    (hr : u.Remembers leaf (rootKey path.root) path.root path.segments) :
    resolveInline loc a parent given u = (some leaf, (enterRoot loc path u).2) := by
  have ht : (inlineText loc a given u).1 = some text := by rw [hg.inlineText]
  rw [resolveInline_path ht hp, hg.inlineText]
  exact descend_of_remembers loc _ (hr.mono (directories_prefix_enterRoot ..))

theorem remembers_resolveInline {names : List String}
    (h : (resolveInline loc a parent given u).1 = some leaf)
    (hd : InlinePath.Denotes parent (spelling a given) root names) :
    Identifier.isLegal root
      ∧ (resolveInline loc a parent given u).2.Remembers leaf (rootKey root) root names := by
  rcases resolveInline_cases loc a parent given u with ⟨hnone, -⟩ | ⟨text, path, _, hg, hp, he⟩
  · cases h.symm.trans hnone
  · obtain ⟨hr, hd'⟩ := InlinePath.parse_eq_ok_iff.1 ⟨path.named, hp⟩
    rw [hg.spelling_eq] at hd
    obtain ⟨rfl, rfl⟩ := hd.unique hd'
    rw [he] at h ⊢
    exact ⟨hr, remembers_descend h⟩

theorem ColonsAtRoots.getLast?_ne {key current name : String} {rest : List String}
    (h : u.ColonsAtRoots) (hr : u.Remembers leaf key current (name :: rest)) :
    name.toList.getLast? ≠ some ':' := by
  by_cases hne : name = ""
  · simp [hne]
  · obtain ⟨id, hid, -⟩ := hr
    obtain ⟨id, hm⟩ := isSome_directoryAt?_iff.1 (Option.isSome_of_eq_some hid)
    rw [← getLast?_childKey hne key]
    exact h (childKey key name, id) hm (mem_childKey key name)

/-- All spellings of a remembered path denote it. -/
theorem ColonsAtRoots.denotes {names : List String} (h : u.ColonsAtRoots)
    (hr : Identifier.isLegal root) (hremembers : u.Remembers leaf (rootKey root) root names)
    (hs : InlinePath.Spells root names parent text) :
    InlinePath.Denotes parent text root names := by
  cases hs with
  | colon hj => exact .named hj
  | leading hj => exact .first (InlinePath.getLast?_ne_of_isLegal hr) hj
  | inside hj =>
    rcases names with _ | ⟨name, names⟩
    · cases hj
    · exact .inside (h.getLast?_ne hremembers) hj

end SourceUnit

namespace Operation

open SourceUnit

variable {op : Operation} {ops : List Operation} {u : SourceUnit} {root : String}

/-- The operation is an inline path that names its root. -/
def RefersTo (root : String) : Operation → Prop
  | inlineDirectory _ a parent given =>
    ∃ text, Gives a given text ∧ InlinePath.NamesRoot parent text root
  | _ => False

theorem directories_perform (h : ¬ op.IsInline) (u : SourceUnit) :
    (op.perform u).directories = u.directories :=
  (writes_perform h u).directories.trans (List.append_nil _)

theorem isSome_perform_iff (hr : Identifier.isLegal root) :
    ((op.perform u).directoryAt? (rootKey root)).isSome
      ↔ (u.directoryAt? (rootKey root)).isSome ∨ op.RefersTo root := by
  by_cases hi : op.IsInline
  · cases op with
    | inlineDirectory => exact isSome_resolveInline_iff hr
    | _ => exact hi.elim
  · have hno : ¬ op.RefersTo root := by
      cases op with
      | inlineDirectory => exact absurd trivial hi
      | _ => exact id
    rw [directoryAt?, directories_perform hi, ← directoryAt?]
    exact (or_iff_left hno).symm

/-- A root is remembered after a run if a path of the run named it. -/
theorem isSome_performAll_iff (hr : Identifier.isLegal root) :
    ∀ {ops : List Operation} {u : SourceUnit},
      ((performAll ops u).directoryAt? (rootKey root)).isSome
        ↔ (u.directoryAt? (rootKey root)).isSome ∨ ∃ op ∈ ops, op.RefersTo root
  | [], u => by simp
  | op :: ops, u => by
    rw [performAll_cons, isSome_performAll_iff hr, isSome_perform_iff hr, or_assoc]
    simp

theorem colonsAtRoots_performAll : ∀ {ops : List Operation} {u : SourceUnit}, u.ColonsAtRoots →
    (performAll ops u).ColonsAtRoots
  | [], _, h => h
  | op :: ops, u, h => by
    have hop : (op.perform u).ColonsAtRoots := by
      by_cases hi : op.IsInline
      · cases op with
        | inlineDirectory => exact h.resolveInline
        | _ => exact hi.elim
      · rw [ColonsAtRoots, directories_perform hi]
        exact h
    exact colonsAtRoots_performAll (u := op.perform u) hop

/-- A path that gave a directory gives it again, however it is spelled. Only a root that no path
has named before is referred to. -/
theorem resolveInline_again {before after : List Operation} {loc loc' : Location}
    {a a' : Option Attribute} {parent parent' : Option String} {given given' text leaf : String}
    {names : List String} (hu : u.directories = [])
    (hops : ops = before ++ inlineDirectory loc a parent given :: after)
    (hleaf : (resolveInline loc a parent given (performAll before u)).1 = some leaf)
    (hd : InlinePath.Denotes parent (spelling a given) root names)
    (hg : Gives a' given' text) (hs : InlinePath.Spells root names parent' text) :
    let v := performAll ops u
    let again := resolveInline loc' a' parent' given' v
    again.1 = some leaf ∧ again.2.diagnostics = v.diagnostics
      ∧ again.2.content.rowsOf Schema.Directory.definition.name
        = v.content.rowsOf Schema.Directory.definition.name
      ∧ v.directories <+: again.2.directories
      ∧ ∃ rows, again.2.content.symbols = v.content.symbols ++ rows
        ∧ ((rows = [] ∧ (¬ InlinePath.NamesRoot parent' text root ∨ ∃ op ∈ ops, op.RefersTo root))
          ∨ (rows = [referenceRow loc' Schema.Directory.definition.name [root]]
            ∧ InlinePath.NamesRoot parent' text root ∧ ∀ op ∈ ops, ¬ op.RefersTo root)) := by
  intro v again
  have hlegal : Identifier.isLegal root ∧ v.Remembers leaf (rootKey root) root names := by
    obtain ⟨hr, hremembers⟩ := remembers_resolveInline hleaf hd
    simp only [v, hops, performAll_append]
    exact ⟨hr, hremembers.mono (directories_prefix_performAll after _)⟩
  obtain ⟨hr, hremembers⟩ := hlegal
  -- a first name that ends with a colon would be read as a root, but none was remembered
  have hcolons : v.ColonsAtRoots := colonsAtRoots_performAll (by simp [ColonsAtRoots, hu])
  obtain ⟨named, hp⟩ := InlinePath.parse_eq_ok_iff.2 ⟨hr, hcolons.denotes hr hremembers hs⟩
  have hnamed : named = true ↔ InlinePath.NamesRoot parent' text root := by
    have hiff : named = true ∧ root = root
        ↔ Identifier.isLegal root ∧ InlinePath.NamesRoot parent' text root :=
      InlinePath.named_iff hp
    simpa [hr] using hiff
  have hknown : (v.directoryAt? (rootKey root)).isSome ↔ ∃ op ∈ ops, op.RefersTo root := by
    have hstart : u.directoryAt? (rootKey root) = none := by simp [directoryAt?, hu]
    simp [v, isSome_performAll_iff hr, hstart]
  have hagain : again = (some leaf, (enterRoot loc' ⟨root, named, names⟩ v).2) :=
    resolveInline_of_remembers hg hp hremembers
  rw [hagain]
  rcases enterRoot_cases loc' ⟨root, named, names⟩ v with ⟨h, he⟩ | ⟨htrue, hnew, he⟩
  · rw [he]
    rw [← Bool.not_eq_true, hnamed, hknown] at h
    exact ⟨rfl, rfl, rfl, List.prefix_rfl, [], (List.append_nil _).symm, .inl ⟨rfl, h⟩⟩
  · have hnone : ¬ ∃ op ∈ ops, op.RefersTo root := by
      rw [← hknown, hnew]
      simp
    rw [he]
    refine ⟨rfl, rfl, ?_, List.prefix_append _ _, _, rfl, .inr ⟨rfl, hnamed.1 htrue, ?_⟩⟩
    · exact reference_rowsOf (by decide) loc' _ _ v
    · exact fun op hop hrefers => hnone ⟨op, hop, hrefers⟩

section Respelled

/-- Two directories inside one that no path names. -/
def insideRun : List Operation :=
  [inlineDirectory sharedLocation none (some "A") "B/C",
    reference sharedLocation "Feature" ["Main"]]

/-- An attribute that names the same directories with their root. -/
def respelled : Attribute := ⟨.plain "Component", .plain "Directory", "A:\\B/C\\"⟩

theorem insideRun_leaf : (resolveInline sharedLocation none (some "A") "B/C" sharedStart).1
    = some "dsgjl7NnScXFFZZOcdphZKhdfm90" := by
  decide +kernel

theorem resolveInline_again_respelled :
    let v := performAll insideRun sharedStart
    let again := resolveInline sharedLocation (some respelled) (some "Other") "" v
    again.1 = some "dsgjl7NnScXFFZZOcdphZKhdfm90" ∧ again.2.diagnostics = v.diagnostics
      ∧ again.2.content.symbols = v.content.symbols
        ++ [referenceRow sharedLocation Schema.Directory.definition.name ["A"]] := by
  have hinside : InlinePath.parse (some "A") "B/C" = .ok ⟨"A", false, ["B", "C"]⟩ := by
    decide +kernel
  have hcolon : InlinePath.parse (some "Other") respelled.value = .ok ⟨"A", true, ["B", "C"]⟩ := by
    decide +kernel
  have hnames := (InlinePath.named_iff hcolon).1 ⟨rfl, rfl⟩
  have hspells : InlinePath.Spells "A" ["B", "C"] (some "Other") respelled.value := by
    obtain ⟨hr, names, hj | ⟨hnone, -⟩⟩ := hnames
    · cases hcolon.symm.trans (InlinePath.parse_colon hr hj)
      exact .colon hj
    · cases hnone
  have hunnamed : ∀ op ∈ insideRun, ¬ op.RefersTo "A" := by
    refine List.forall_mem_cons.2 ⟨?_, List.forall_mem_singleton.2 id⟩
    rintro ⟨text, hg, hroot⟩
    obtain rfl : "B/C" = text := hg.spelling_eq
    cases ((InlinePath.named_iff hinside).2 ⟨hnames.1, hroot⟩).1
  have hstart : sharedStart.directories = [] := rfl
  have hfirst : insideRun = [] ++ inlineDirectory sharedLocation none (some "A") "B/C"
      :: [reference sharedLocation "Feature" ["Main"]] := rfl
  have hdenotes : InlinePath.Denotes (some "A") (spelling none "B/C") "A" ["B", "C"] :=
    (InlinePath.parse_eq_ok_iff.1 ⟨false, hinside⟩).2
  have hgives : Gives (some respelled) "" respelled.value := .valued (by decide +kernel)
  have hagain : (resolveInline sharedLocation (some respelled) (some "Other") ""
      (performAll insideRun sharedStart)).1 = some "dsgjl7NnScXFFZZOcdphZKhdfm90" ∧ _ :=
    resolveInline_again hstart hfirst insideRun_leaf hdenotes hgives hspells
  obtain ⟨hleaf, hreports, -, -, rows, hrows, h⟩ := hagain
  rcases h with ⟨-, h | ⟨op, hop, h⟩⟩ | ⟨rfl, -⟩
  · exact absurd hnames.2 h
  · exact absurd h (hunnamed op hop)
  · exact ⟨hleaf, hreports, hrows⟩

end Respelled

end Operation

end InstallerAnalysis

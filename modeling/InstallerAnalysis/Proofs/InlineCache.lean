import InstallerAnalysis.Proofs.InlinePath
import InstallerAnalysis.Proofs.Operations
import Mathlib.Data.Set.Function

/-!
# The directories that inline paths have named

A remembered directory has a row that names it and its parent (`Cached`), so that following parents
from it reads its path backwards and ends at its root (`Cached.climb`). A row is refused when its
identifier is taken. That identifier is then the one that the same parent and the same name gave
earlier, as long as the hash does not collide on the texts hashed so far
(`Creates.holdsDirectory`).
-/

namespace InstallerAnalysis

namespace Directory

/-- What names a directory inside another one on an inline path. -/
def inlineNames (parent name : String) : Names :=
  Names.complete (some parent) { name := some name }

/-- The text that is hashed for the identifier of an inline directory. -/
def hashedText (parent name : String) : String :=
  Digest.partsText ((inlineNames parent name).parts (some parent))

def inlineId (parent name : String) : String :=
  ((inlineNames parent name).identifier (some parent)).id

/-- The row of an inline directory. -/
def inlineRow (loc : Location) (parent name : String) : Symbol :=
  (inlineNames parent name).fill (some parent)
    (Symbol.blank Schema.Directory.definition (some loc)
      (some ((inlineNames parent name).identifier (some parent))))

variable {parent parent' name name' : String}

theorem key?_inlineRow (loc : Location) (parent name : String) :
    (inlineRow loc parent name).key?
      = some (Schema.Directory.definition.name, inlineId parent name) := rfl

theorem hashedText_inj (hp : '|' ∉ parent.toList) (hp' : '|' ∉ parent'.toList)
    (hn : '|' ∉ name.toList) (hn' : '|' ∉ name'.toList)
    (h : hashedText parent name = hashedText parent' name') : parent = parent' ∧ name = name' := by
  obtain ⟨hparent, hrest⟩ := Digest.partsText_cons_inj hp hp' (by simp) (by simp) h
  obtain ⟨hname, -⟩ := Digest.partsText_cons_inj hn hn' (by simp) (by simp) hrest
  exact ⟨hparent, hname⟩

theorem textDigest_eq_of_inlineId_eq (h : inlineId parent name = inlineId parent' name') :
    Digest.textDigest (hashedText parent name) = Digest.textDigest (hashedText parent' name') :=
  Identifier.partsDigest_eq_of_ofParts_eq h

theorem isLegal_inlineId (parent name : String) : Identifier.isLegal (inlineId parent name) :=
  Identifier.isLegal_ofParts _ _

end Directory

open Directory

namespace Section

/-- The directory that holds an identifier has a name and a parent. -/
def HoldsDirectory (c : Section) (id parent name : String) : Prop :=
  ∃ s, c.Holds Schema.Directory.definition.name id s
    ∧ s.get? Schema.Directory.name = some name ∧ s.get? Schema.Directory.parent = some parent

/-- Goes from a directory to its parent a number of times, and gives the names of the directories
that were left, the first one first, with the identifier at the end. -/
def climb (c : Section) : Nat → String → Option (List String × String)
  | 0, id => some ([], id)
  | steps + 1, id => do
    let row ← c.find? Schema.Directory.definition.name id
    let name ← row.get? Schema.Directory.name
    let parent ← row.get? Schema.Directory.parent
    let (names, top) ← c.climb steps parent
    return (name :: names, top)

variable {c c' : Section} {id parent name top : String} {rows : List Symbol}

theorem HoldsDirectory.grows {free : Symbol → Prop} (h : c.HoldsDirectory id parent name)
    (hg : c.Grows free rows c') :
    c'.HoldsDirectory id parent name := by
  obtain ⟨s, hs, hfields⟩ := h
  exact ⟨s, hs.grows hg, hfields⟩

theorem climb_succ (h : c.HoldsDirectory id parent name) {steps : Nat} {names : List String}
    (hp : c.climb steps parent = some (names, top)) :
    c.climb (steps + 1) id = some (name :: names, top) := by
  obtain ⟨s, hs, hn, hparent⟩ := h
  simp [climb, hs.find?, hn, hparent, hp]

end Section

namespace SourceUnit

/-- The identifier of the directory at a path. That of a root is the root itself. -/
def identifierAt? (u : SourceUnit) (root : String) (names : List String) : Option String :=
  if names = [] then some root else u.directoryAt? (pathKey root names)

/-- The texts that were hashed for the identifiers of the directories that are remembered. -/
def hashedTexts (u : SourceUnit) : Set String :=
  {text | ∃ root names name parent, PlainPath root (names ++ [name])
    ∧ u.identifierAt? root names = some parent
    ∧ (u.identifierAt? root (names ++ [name])).isSome ∧ text = hashedText parent name}

/-- The truncated hash tells apart all texts that were hashed. -/
def CollisionFree (u : SourceUnit) : Prop :=
  Set.InjOn Digest.textDigest u.hashedTexts

/-- A directory is its own root, or has a row that names it and the directory above it. -/
def Leads (u : SourceUnit) (root : String) (names : List String) (id : String) : Prop :=
  (names = [] ∧ id = root) ∨ ∃ above name parent, names = above ++ [name]
    ∧ u.identifierAt? root above = some parent ∧ u.content.HoldsDirectory id parent name

/-- A key of a path, with a directory that leads to the one above it. -/
def Enters (u : SourceUnit) (entry : String × String) : Prop :=
  ∃ root names, PlainPath root names ∧ entry.1 = pathKey root names ∧ u.Leads root names entry.2

def Cached (u : SourceUnit) : Prop :=
  ∀ entry ∈ u.directories, u.Enters entry

/-- A row is that of an inline directory, whose identifier it has. -/
def AccountsFor (u : SourceUnit) (id : String) (s : Symbol) : Prop :=
  ∃ parent name, id = inlineId parent name ∧ '|' ∉ parent.toList ∧ '|' ∉ name.toList
    ∧ hashedText parent name ∈ u.hashedTexts
    ∧ s.get? Schema.Directory.name = some name ∧ s.get? Schema.Directory.parent = some parent

def Accounted (u : SourceUnit) : Prop :=
  ∀ id s, u.content.Holds Schema.Directory.definition.name id s → u.AccountsFor id s

structure Sound (u : SourceUnit) : Prop where
  indexed : u.content.Indexed
  cached : u.Cached
  accounted : u.Accounted

variable {u u' : SourceUnit} {root name id : String} {names : List String} {loc : Location}

/-! ## What stays remembered -/

theorem directoryAt?_mono (h : u.directories <+: u'.directories) {key : String}
    (hk : u.directoryAt? key = some id) : u'.directoryAt? key = some id := by
  obtain ⟨paths, hp⟩ := h
  rw [directoryAt?] at hk
  rw [directoryAt?, ← hp, List.lookup_append, hk]
  rfl

theorem directoryAt?_concat_iff {key : String} (hnew : u.directoryAt? key = none)
    (hd : u'.directories = u.directories ++ [(key, id)]) {key' id' : String} :
    u'.directoryAt? key' = some id' ↔ u.directoryAt? key' = some id' ∨ (key' = key ∧ id' = id) := by
  rw [directoryAt?] at hnew
  rw [directoryAt?, directoryAt?, hd, List.lookup_append]
  by_cases he : key' = key
  · subst he
    simp [hnew, eq_comm]
  · simp [he, List.lookup_cons, beq_false_of_ne he]

theorem directoryAt?_last {key : String} (hnew : u.directoryAt? key = none)
    (hd : u'.directories = u.directories ++ [(key, id)]) : u'.directoryAt? key = some id :=
  (directoryAt?_concat_iff hnew hd).2 (.inr ⟨rfl, rfl⟩)

theorem identifierAt?_snoc (u : SourceUnit) (root : String) (names : List String) (name : String) :
    u.identifierAt? root (names ++ [name]) = u.directoryAt? (pathKey root (names ++ [name])) :=
  if_neg (by simp)

theorem identifierAt?_mono (h : u.directories <+: u'.directories)
    (hid : u.identifierAt? root names = some id) : u'.identifierAt? root names = some id := by
  unfold identifierAt? at hid ⊢
  split_ifs at hid ⊢
  · exact hid
  · exact directoryAt?_mono h hid

theorem hashedTexts_mono (h : u.directories <+: u'.directories) :
    u.hashedTexts ⊆ u'.hashedTexts := by
  rintro text ⟨root, names, name, parent, hplain, hparent, hsome, htext⟩
  obtain ⟨id, hid⟩ := Option.isSome_iff_exists.1 hsome
  refine ⟨root, names, name, parent, hplain, identifierAt?_mono h hparent, ?_, htext⟩
  rw [identifierAt?_mono h hid]
  rfl

theorem CollisionFree.mono (hu : u'.CollisionFree) (h : u.directories <+: u'.directories) :
    u.CollisionFree :=
  Set.InjOn.mono (hashedTexts_mono h) hu

theorem Leads.mono {rows : List Symbol} (hd : u.directories <+: u'.directories)
    (hg : u.content.Grows Symbol.IsAction rows u'.content) (h : u.Leads root names id) :
    u'.Leads root names id := by
  rcases h with h | ⟨above, name, parent, hn, hparent, hrow⟩
  · exact .inl h
  · exact .inr ⟨above, name, parent, hn, identifierAt?_mono hd hparent, hrow.grows hg⟩

theorem AccountsFor.mono (hd : u.directories <+: u'.directories) {s : Symbol}
    (h : u.AccountsFor id s) : u'.AccountsFor id s := by
  obtain ⟨parent, name, hid, hp, hn, htext, hfields⟩ := h
  exact ⟨parent, name, hid, hp, hn, hashedTexts_mono hd htext, hfields⟩

theorem Cached.leads (h : u.Cached) (hplain : PlainPath root names)
    (hid : u.directoryAt? (pathKey root names) = some id) : u.Leads root names id := by
  obtain ⟨earlier, later, hl, -⟩ := List.lookup_eq_some_iff.1 hid
  obtain ⟨root', names', hplain', hkey, hleads⟩ := h (pathKey root names, id) (by simp [hl])
  obtain ⟨rfl, rfl⟩ := pathKey_inj hplain hplain' hkey
  exact hleads

/-- Following parents reads a path backwards. -/
theorem Cached.climb (h : u.Cached) (hplain : PlainPath root names)
    (hid : u.identifierAt? root names = some id) :
    u.content.climb names.length id = some (names.reverse, root) := by
  induction names using List.reverseRecOn generalizing id with
  | nil =>
    cases hid
    rfl
  | append_singleton names name ih =>
    rw [identifierAt?_snoc] at hid
    rcases h.leads hplain hid with ⟨hnil, -⟩ | ⟨above, name', parent, hn, hparent, hrow⟩
    · simp at hnil
    · obtain ⟨rfl, rfl⟩ := List.append_singleton_inj.1 hn
      rw [List.length_append, List.reverse_append]
      exact Section.climb_succ hrow (ih hplain.of_append hparent)

theorem Cached.step {paths : List (String × String)} {rows : List Symbol} (h : u.Cached)
    (hd : u'.directories = u.directories ++ paths)
    (hg : u.content.Grows Symbol.IsAction rows u'.content)
    (hpaths : ∀ entry ∈ paths, u'.Enters entry) : u'.Cached := by
  intro entry he
  rw [hd] at he
  rcases List.mem_append.1 he with he | he
  · obtain ⟨root, names, hplain, hkey, hleads⟩ := h entry he
    exact ⟨root, names, hplain, hkey, hleads.mono ⟨paths, hd.symm⟩ hg⟩
  · exact hpaths entry he

/-- What adds no row of a directory leaves the directories sound. -/
theorem Sound.writes {paths : List (String × String)} (h : u.Sound) (hw : Writes loc paths u u')
    (hrows : u'.content.rowsOf Schema.Directory.definition.name
      = u.content.rowsOf Schema.Directory.definition.name)
    (hpaths : ∀ entry ∈ paths, u'.Enters entry) : u'.Sound := by
  obtain ⟨rows, hg, -⟩ := hw.content
  have hother := Section.table_ne_of_grows hg hrows
  refine ⟨h.indexed.grows hg, h.cached.step hw.directories hg hpaths, fun id s hs => ?_⟩
  exact (h.accounted id s (hs.of_grows h.indexed hg hother)).mono ⟨paths, hw.directories.symm⟩

/-- Nothing was added and nothing remembered yet. -/
structure Fresh (u : SourceUnit) : Prop where
  symbols : u.content.symbols = []
  keys : u.content.keys = []
  directories : u.directories = []

theorem Fresh.sound (h : u.Fresh) : u.Sound := by
  refine ⟨?_, ?_, ?_⟩
  · intro key index hl
    simp [h.keys] at hl
  · intro entry he
    simp [h.directories] at he
  · rintro id s ⟨index, hl, -⟩
    simp [h.keys] at hl

/-! ## One more directory -/

theorem Sound.isLegal (h : u.Sound) (hplain : PlainPath root names)
    (hid : u.identifierAt? root names = some id) : Identifier.isLegal id := by
  unfold identifierAt? at hid
  split_ifs at hid with hn
  · cases hid
    exact hplain.root
  · rcases h.cached.leads hplain hid with ⟨hnil, -⟩ | ⟨-, -, -, -, -, s, hs, -⟩
    · contradiction
    · obtain ⟨parent, name, rfl, -⟩ := h.accounted id s hs
      exact isLegal_inlineId parent name

section Create

variable {parent : String}

/-- The second unit is the first one after a directory was made at a new path, where its row was
added or, since its identifier was taken, refused. -/
structure Creates (loc : Location) (root : String) (names : List String) (parent name : String)
    (u u' : SourceUnit) : Prop where
  plain : PlainPath root (names ++ [name])
  long : Filename.isLong false false name
  parentAt : u.identifierAt? root names = some parent
  new : u.directoryAt? (pathKey root (names ++ [name])) = none
  directories : u'.directories
    = u.directories ++ [(pathKey root (names ++ [name]), inlineId parent name)]
  content : u.content.add (inlineRow loc parent name) = .ok u'.content
    ∨ (u'.content = u.content ∧ ∃ index, u.content.keys.lookup
      (Schema.Directory.definition.name, inlineId parent name) = some index)

/-- The unit after a directory was made inside another one, and remembered at a full path. -/
def makeDirectory (loc : Location) (key parent name : String) (u : SourceUnit) : SourceUnit :=
  (rememberDirectory key (inlineId parent name)
    (createDirectory loc none (some parent) { name := some name } u).2).2

theorem directories_makeDirectory (loc : Location) (key parent name : String) (u : SourceUnit) :
    (makeDirectory loc key parent name u).directories
      = u.directories ++ [(key, inlineId parent name)] :=
  congrArg (· ++ _) ((writing_createDirectory none (some parent) _ u).directories.trans
    (List.append_nil _))

/-- The row of a directory is added, or refused since there is one of its identifier. -/
theorem content_makeDirectory (loc : Location) (key parent name : String) (u : SourceUnit) :
    (u.content.add (inlineRow loc parent name) = .ok (makeDirectory loc key parent name u).content
        ∧ (makeDirectory loc key parent name u).diagnostics = u.diagnostics)
      ∨ ((makeDirectory loc key parent name u).content = u.content
        ∧ (∃ index, u.content.keys.lookup
            (Schema.Directory.definition.name, inlineId parent name) = some index)
        ∧ ∃ first, (makeDirectory loc key parent name u).diagnostics = u.diagnostics
          ++ [(Problem.duplicateSymbol Schema.Directory.definition.name (inlineId parent name)
            first).report loc]) := by
  have heq : (createDirectory loc none (some parent) { name := some name } u).2
      = (createWith loc (.given Schema.Directory.definition)
        (some ((inlineNames parent name).identifier (some parent)))
        (fun s => ((inlineNames parent name).fill (some parent) s, ())) u).2 := rfl
  rw [makeDirectory, heq]
  rcases ha : u.content.add (inlineRow loc parent name) with taken | content
  · rw [createWith_taken rfl ha]
    obtain ⟨key, index, hk, hl, rfl⟩ := Section.add_eq_error ha
    cases hk
    exact .inr ⟨rfl, ⟨index, hl⟩, _, rfl⟩
  · rw [createWith_added rfl ha]
    exact .inl ⟨rfl, rfl⟩

theorem creates_makeDirectory (loc : Location) (hplain : PlainPath root (names ++ [name]))
    (hlong : Filename.isLong false false name) (hparent : u.identifierAt? root names = some parent)
    (hnew : u.directoryAt? (pathKey root (names ++ [name])) = none) :
    Creates loc root names parent name u
      (makeDirectory loc (pathKey root (names ++ [name])) parent name u) := by
  refine ⟨hplain, hlong, hparent, hnew, directories_makeDirectory loc _ parent name u, ?_⟩
  rcases content_makeDirectory loc (pathKey root (names ++ [name])) parent name u
    with ⟨hadd, -⟩ | ⟨hsame, htaken, -⟩
  · exact .inl hadd
  · exact .inr ⟨hsame, htaken⟩

namespace Creates

variable (hc : Creates loc root names parent name u u')

include hc

theorem mono : u.directories <+: u'.directories :=
  ⟨_, hc.directories.symm⟩

theorem grows : ∃ rows, u.content.Grows Symbol.IsAction rows u'.content := by
  rcases hc.content with ha | ⟨he, -⟩
  · exact ⟨_, .add ha (.refl _)⟩
  · exact ⟨[], he ▸ .refl _⟩

theorem identifierAt?_eq :
    u'.identifierAt? root (names ++ [name]) = some (inlineId parent name) := by
  rw [identifierAt?_snoc]
  exact directoryAt?_last hc.new hc.directories

theorem hashedText_mem : hashedText parent name ∈ u'.hashedTexts := by
  refine ⟨root, names, name, parent, hc.plain, identifierAt?_mono hc.mono hc.parentAt, ?_, rfl⟩
  rw [hc.identifierAt?_eq]
  rfl

theorem not_mem_name : '|' ∉ name.toList :=
  not_mem_of_isLong hc.long (by decide)

variable (h : u.Sound)

include h

theorem not_mem_parent : '|' ∉ parent.toList :=
  not_mem_of_isLegal (h.isLegal hc.plain.of_append hc.parentAt) (by decide)

theorem accounted : u'.Accounted := by
  intro id s hs
  rcases hc.content with ha | ⟨he, -⟩
  · rcases hs.of_add h.indexed ha with hs | ⟨hk, rfl⟩
    · exact (h.accounted id s hs).mono hc.mono
    · cases hk
      exact ⟨parent, name, rfl, hc.not_mem_parent h, hc.not_mem_name, hc.hashedText_mem, rfl, rfl⟩
  · rw [he] at hs
    exact (h.accounted id s hs).mono hc.mono

/-- The row is there: if it was refused, the row that has its identifier is the same. -/
theorem holdsDirectory (hfree : u'.CollisionFree) :
    u'.content.HoldsDirectory (inlineId parent name) parent name := by
  rcases hc.content with ha | ⟨he, index, hl⟩
  · exact ⟨_, .of_added ha rfl, rfl, rfl⟩
  · obtain ⟨s, hs⟩ := h.indexed.holds hl
    rw [← he] at hs
    obtain ⟨parent', name', hid, hp', hn', htext', hfields⟩ := hc.accounted h _ s hs
    have htext := hfree hc.hashedText_mem htext' (textDigest_eq_of_inlineId_eq hid)
    obtain ⟨rfl, rfl⟩ := hashedText_inj (hc.not_mem_parent h) hp' hc.not_mem_name hn' htext
    exact ⟨s, hs, hfields⟩

theorem sound (hfree : u'.CollisionFree) : u'.Sound := by
  obtain ⟨rows, hg⟩ := hc.grows
  refine ⟨h.indexed.grows hg, h.cached.step hc.directories hg ?_, hc.accounted h⟩
  intro entry he
  rw [List.mem_singleton.1 he]
  exact ⟨root, names ++ [name], hc.plain, rfl, .inr ⟨names, name, parent, rfl,
    identifierAt?_mono hc.mono hc.parentAt, hc.holdsDirectory h hfree⟩⟩

end Creates

end Create

end SourceUnit

end InstallerAnalysis

import InstallerAnalysis.Directory.Inline
import InstallerAnalysis.Proofs.SynthesizedIdentifier
import InstallerAnalysis.Proofs.Trimming

/-!
# The reading and the keys of inline paths

`Joined` says how names make up the text of a path, and `Denotes` which directory and which names
a path stands for. Reading a path finds these and nothing else (`parse_eq_ok_iff`). The key under
which a directory is remembered tells its path (`pathKey_inj`).
-/

namespace InstallerAnalysis

namespace Filename

/-- The names with one separator between any two of them, and any number at the end. -/
inductive Joined : List String → List Char → Prop
  | last {name : String} {trail : List Char} :
      name ≠ "" → (∀ c ∈ name.toList, isSeparator c = false) → (∀ c ∈ trail, isSeparator c) →
      Joined [name] (name.toList ++ trail)
  | cons {name : String} {sep : Char} {names : List String} {cs : List Char} :
      name ≠ "" → (∀ c ∈ name.toList, isSeparator c = false) → isSeparator sep →
      Joined names cs → Joined (name :: names) (name.toList ++ sep :: cs)

variable {names : List String} {cs : List Char}

theorem Joined.trimmed (h : Joined names cs) :
    Text.dropEndWhile isSeparator cs ≠ []
      ∧ segments (Text.dropEndWhile isSeparator cs) = names.map String.toList := by
  induction h with
  | @last name trail hne hname htrail =>
    rw [Text.dropEndWhile_append_trail (fun c hc => hname c (List.mem_of_getLast? hc)) htrail]
    exact ⟨by simpa using hne, List.splitOnP_eq_singleton hname⟩
  | @cons name sep names cs hne hname hsep hrest ih =>
    have htrim : Text.dropEndWhile isSeparator (name.toList ++ sep :: cs)
        = name.toList ++ sep :: Text.dropEndWhile isSeparator cs := by
      simpa using Text.dropEndWhile_append ih.1 (name.toList ++ [sep])
    rw [htrim]
    refine ⟨by simp, ?_⟩
    rw [segments, List.splitOnP_append_cons_of_forall_mem hname _ hsep]
    exact congrArg _ ih.2

theorem Joined.unique {names' : List String} (h : Joined names cs) (h' : Joined names' cs) :
    names = names' := by
  have hinj : Function.Injective String.toList := fun _ _ => String.toList_injective
  exact List.map_injective_iff.2 hinj (h.trimmed.2.symm.trans h'.trimmed.2)

theorem Joined.name_ne (h : Joined names cs) : ∀ name ∈ names, name ≠ "" := by
  induction h with
  | last hne => simpa using hne
  | cons hne _ _ _ ih => exact List.forall_mem_cons.2 ⟨hne, ih⟩

theorem Joined.not_mem (h : Joined names cs) : ∀ name ∈ names, '\\' ∉ name.toList := by
  have hsep {name : String} (hname : ∀ c ∈ name.toList, isSeparator c = false) :
      '\\' ∉ name.toList := fun hm => absurd (hname _ hm) (by decide)
  induction h with
  | last _ hname => simpa using hsep hname
  | cons _ hname _ _ ih => exact List.forall_mem_cons.2 ⟨hsep hname, ih⟩

theorem segments_cases (cs : List Char) :
    (segments cs = [cs] ∧ ∀ c ∈ cs, isSeparator c = false)
      ∨ ∃ head sep rest, cs = head ++ sep :: rest ∧ (∀ c ∈ head, isSeparator c = false)
        ∧ isSeparator sep ∧ segments cs = head :: segments rest := by
  have hcs := List.takeWhile_append_dropWhile (p := (!isSeparator ·)) (l := cs)
  have hhead : ∀ c ∈ cs.takeWhile (!isSeparator ·), isSeparator c = false := fun c hc => by
    simpa using List.mem_takeWhile_imp hc
  rcases hd : cs.dropWhile (!isSeparator ·) with _ | ⟨sep, rest⟩ <;> rw [hd] at hcs
  · rw [List.append_nil] at hcs
    rw [hcs] at hhead
    exact .inl ⟨List.splitOnP_eq_singleton hhead, hhead⟩
  · have hsep : isSeparator sep := by
      have := List.head_dropWhile_not (!isSeparator ·) (l := cs) (by simp [hd])
      simpa [hd] using this
    refine .inr ⟨_, sep, rest, hcs.symm, hhead, hsep, ?_⟩
    conv_lhs => rw [← hcs]
    exact List.splitOnP_append_cons_of_forall_mem hhead sep hsep rest

theorem joined_segments {cs trail : List Char} (hcs : [] ∉ segments cs)
    (htrail : ∀ c ∈ trail, isSeparator c) :
    Joined ((segments cs).map String.ofList) (cs ++ trail) := by
  rcases segments_cases cs with ⟨hs, hc⟩ | ⟨head, sep, rest, he, hc, hsep, hs⟩
  · rw [hs] at hcs ⊢
    have hname : String.ofList cs ≠ "" := by simpa using hcs
    simpa using Joined.last hname (by simpa using hc) htrail
  · rw [hs] at hcs ⊢
    obtain ⟨hne, hrest⟩ := List.ne_and_not_mem_of_not_mem_cons hcs
    have hname : String.ofList head ≠ "" := by simpa using hne.symm
    have hjoined := joined_segments hrest htrail
    simpa [he] using Joined.cons hname (by simpa using hc) hsep hjoined
termination_by cs.length
decreasing_by simp [he]; omega

end Filename

namespace Directory.InlinePath

/-- What a path stands for: the directory it starts from, and the names below it. -/
inductive Denotes : Option String → String → String → List String → Prop
  | named {parent : Option String} {text root : String} {names : List String} :
      Filename.Joined ((root ++ ":") :: names) text.toList → Denotes parent text root names
  | inside {text root name : String} {names : List String} :
      name.toList.getLast? ≠ some ':' → Filename.Joined (name :: names) text.toList →
      Denotes (some root) text root (name :: names)
  | first {text root : String} {names : List String} :
      root.toList.getLast? ≠ some ':' → Filename.Joined (root :: names) text.toList →
      Denotes none text root names

variable {parent : Option String} {text root : String} {names : List String}

theorem splitRoot_named (root : String) (parent : Option String) (names : List String) :
    splitRoot parent (root ++ ":").toList (names.map String.toList) = ⟨root, true, names⟩ := by
  simp [splitRoot, explicitParent?, Function.comp_def]

theorem splitRoot_inside {name : String} (h : name.toList.getLast? ≠ some ':') (root : String)
    (names : List String) : splitRoot (some root) name.toList (names.map String.toList)
      = ⟨root, false, name :: names⟩ := by
  simp [splitRoot, explicitParent?, h, Function.comp_def]

theorem splitRoot_first {root : String} (h : root.toList.getLast? ≠ some ':')
    (names : List String) : splitRoot none root.toList (names.map String.toList)
      = ⟨root, true, names⟩ := by
  simp [splitRoot, explicitParent?, h, Function.comp_def]

theorem Denotes.splitRoot (h : Denotes parent text root names) :
    ∃ name rest named, Filename.Joined (name :: rest) text.toList
      ∧ InlinePath.splitRoot parent name.toList (rest.map String.toList)
        = ⟨root, named, names⟩ := by
  cases h with
  | named hj => exact ⟨_, _, _, hj, splitRoot_named root parent names⟩
  | inside hne hj => exact ⟨_, _, _, hj, splitRoot_inside hne root _⟩
  | first hne hj => exact ⟨_, _, _, hj, splitRoot_first hne names⟩

theorem denotes_splitRoot {name : String} (parent : Option String)
    (h : Filename.Joined (name :: names) text.toList) :
    Denotes parent text (splitRoot parent name.toList (names.map String.toList)).root
      (splitRoot parent name.toList (names.map String.toList)).segments := by
  by_cases hl : name.toList.getLast? = some ':'
  · obtain ⟨cs, hcs⟩ := List.getLast?_eq_some_iff.1 hl
    have hname : name = String.ofList cs ++ ":" := String.toList_injective (by simpa using hcs)
    rw [hname] at h ⊢
    rw [splitRoot_named]
    exact .named h
  · rcases parent with _ | root
    · rw [splitRoot_first hl]
      exact .first hl h
    · rw [splitRoot_inside hl]
      exact .inside hl h

theorem parse_of_joined {name : String} (h : Filename.Joined (name :: names) text.toList) :
    parse parent text
      = if Identifier.isLegal (splitRoot parent name.toList (names.map String.toList)).root
        then .ok (splitRoot parent name.toList (names.map String.toList))
        else .error .illegalParent := by
  obtain ⟨hne, hs⟩ := h.trimmed
  have hpieces : [] ∉ name.toList :: names.map String.toList := by
    intro hm
    obtain ⟨piece, hp, hnil⟩ := List.mem_map.1 (by rwa [← List.map_cons] at hm)
    exact h.name_ne piece hp (String.toList_eq_nil_iff.1 hnil)
  unfold parse
  split
  · contradiction
  · rw [hs, List.map_cons]
    simp [hpieces]

theorem exists_joined {path : InlinePath} (h : parse parent text = .ok path) :
    ∃ name names, Filename.Joined (name :: names) text.toList := by
  unfold parse at h
  split at h
  · cases h
  · split at h
    · cases h
    · rename_i name rest hs
      split_ifs at h with hnil
      have hsegments :
          [] ∉ Filename.segments (Text.dropEndWhile Filename.isSeparator text.toList) := by
        rw [hs]
        simpa using hnil
      have hj := Filename.joined_segments hsegments
        (fun c (hc : c ∈ text.toList.rtakeWhile Filename.isSeparator) => List.mem_rtakeWhile_imp hc)
      have htext : Text.dropEndWhile Filename.isSeparator text.toList
          ++ text.toList.rtakeWhile Filename.isSeparator = text.toList :=
        List.rdropWhile_append_rtakeWhile
      rw [htext, hs, List.map_cons] at hj
      exact ⟨_, _, hj⟩

theorem Denotes.unique {root' : String} {names' : List String}
    (h : Denotes parent text root names) (h' : Denotes parent text root' names') :
    root = root' ∧ names = names' := by
  obtain ⟨name, rest, named, hj, hs⟩ := h.splitRoot
  obtain ⟨name', rest', named', hj', hs'⟩ := h'.splitRoot
  obtain ⟨rfl, rfl⟩ := List.cons.inj (hj.unique hj')
  cases hs.symm.trans hs'
  exact ⟨rfl, rfl⟩

/-- Reading a path finds what it denotes. -/
theorem parse_eq_ok_iff : (∃ named, parse parent text = .ok ⟨root, named, names⟩)
    ↔ Identifier.isLegal root ∧ Denotes parent text root names := by
  constructor
  · rintro ⟨named, h⟩
    obtain ⟨name, rest, hj⟩ := exists_joined h
    rw [parse_of_joined hj] at h
    split_ifs at h with hl
    have hd := denotes_splitRoot parent hj
    rw [Except.ok.inj h] at hl hd
    exact ⟨hl, hd⟩
  · rintro ⟨hl, hd⟩
    obtain ⟨name, rest, named, hj, hs⟩ := hd.splitRoot
    refine ⟨named, ?_⟩
    rw [parse_of_joined hj, hs, if_pos hl]

end Directory.InlinePath

namespace Directory

/-! ## Keys -/

/-- The full path of the directory that is reached from a root by names. -/
def pathKey (root : String) (names : List String) : String :=
  names.foldl childKey (rootKey root)

@[simp] theorem pathKey_nil (root : String) : pathKey root [] = rootKey root := rfl

theorem pathKey_snoc (root : String) (names : List String) (name : String) :
    pathKey root (names ++ [name]) = childKey (pathKey root names) name := by
  rw [pathKey, pathKey, List.foldl_append]
  rfl

/-- A root that is an identifier, with names below it that no separator divides. -/
structure PlainPath (root : String) (names : List String) : Prop where
  root : Identifier.isLegal root
  names : ∀ name ∈ names, '\\' ∉ name.toList

variable {root root' : String} {names names' : List String}

theorem PlainPath.of_append (h : PlainPath root (names ++ names')) : PlainPath root names :=
  ⟨h.root, fun name hm => h.names name (List.mem_append_left _ hm)⟩

theorem InlinePath.Denotes.plainPath {parent : Option String} {text : String}
    (h : InlinePath.Denotes parent text root names) (hr : Identifier.isLegal root) :
    PlainPath root names := by
  refine ⟨hr, ?_⟩
  cases h with
  | named hj => exact (List.forall_mem_cons.1 hj.not_mem).2
  | inside _ hj => exact hj.not_mem
  | first _ hj => exact (List.forall_mem_cons.1 hj.not_mem).2

theorem not_mem_of_isLegal {s : String} (h : Identifier.isLegal s) {c : Char}
    (hc : Identifier.isChar c = false) : c ∉ s.toList := by
  intro hm
  rw [Identifier.isChar_of_isLegal h hm] at hc
  cases hc

theorem not_mem_of_isLong {s : String} (h : Filename.isLong false false s) {c : Char}
    (hc : c ∈ Filename.reserved) : c ∉ s.toList := by
  intro hm
  simp only [Filename.isLong, Filename.isLongName, Bool.false_eq_true, if_false, Bool.and_eq_true,
    List.all_eq_true] at h
  have hallowed := (h.2.2 c hm).2
  simp [Filename.isAllowed, hc] at hallowed

/-- The part of a key that follows the root. -/
def keyTail (names : List String) : List Char :=
  names.flatMap fun name => '\\' :: name.toList

theorem toList_pathKey (root : String) (names : List String) :
    (pathKey root names).toList = root.toList ++ ':' :: keyTail names := by
  induction names using List.reverseRecOn with
  | nil => simp [rootKey, keyTail]
  | append_singleton names name ih => simp [pathKey_snoc, childKey, ih, keyTail]

theorem keyTail_head (names : List String) : ∀ c ∈ (keyTail names).head?, c = '\\' := by
  rcases names with _ | ⟨name, names⟩ <;> simp [keyTail]

theorem keyTail_inj : ∀ {names names' : List String}, (∀ name ∈ names, '\\' ∉ name.toList) →
    (∀ name ∈ names', '\\' ∉ name.toList) → keyTail names = keyTail names' → names = names'
  | [], [], _, _, _ => rfl
  | [], _ :: _, _, _, h => by simp [keyTail] at h
  | _ :: _, [], _, _, h => by simp [keyTail] at h
  | name :: names, name' :: names', hn, hn', h => by
    obtain ⟨hname, hnames⟩ := List.forall_mem_cons.1 hn
    obtain ⟨hname', hnames'⟩ := List.forall_mem_cons.1 hn'
    obtain ⟨he, hrest⟩ := append_inj_of_delimiter hname hname' (keyTail_head names)
      (keyTail_head names') (List.cons.inj h).2
    rw [String.toList_injective he, keyTail_inj hnames hnames' hrest]

/-- The key of a directory tells its path. -/
theorem pathKey_inj (h : PlainPath root names) (h' : PlainPath root' names')
    (he : pathKey root names = pathKey root' names') : root = root' ∧ names = names' := by
  have hl := congrArg String.toList he
  rw [toList_pathKey, toList_pathKey] at hl
  obtain ⟨hr, hrest⟩ := append_inj_of_delimiter (d := ':') (not_mem_of_isLegal h.root (by decide))
    (not_mem_of_isLegal h'.root (by decide)) (by simp) (by simp) hl
  exact ⟨String.toList_injective hr, keyTail_inj h.names h'.names (List.cons.inj hrest).2⟩

end Directory

end InstallerAnalysis

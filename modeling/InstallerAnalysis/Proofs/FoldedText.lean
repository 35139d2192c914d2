import InstallerAnalysis.Proofs.CoercionReports
import InstallerAnalysis.Proofs.Trimming
import InstallerAnalysis.SourceUnit.InnerText
import Mathlib.Data.List.Basic

/-!
# Words and folded text

The words of a text are its maximal runs without a blank (`Words`), and cutting at blanks finds just
these (`wordRuns_eq_iff`). Blanks around a text do not change them, nor does folding. So a text has
words exactly if trimming leaves something of it, and both ways of reading inner text agree on
which text is none.
-/

namespace InstallerAnalysis

namespace Text

/-- Characters without a blank, at least one. -/
def IsWord (w : List Char) : Prop :=
  w ≠ [] ∧ ∀ c ∈ w, isBlank c = false

/-- The text consists of the words, in order, and of blanks, at least one between two words. -/
inductive Words : List Char → List (List Char) → Prop
  | nil : Words [] []
  | blank {c cs ws} : isBlank c → Words cs ws → Words (c :: cs) ws
  | word {w cs ws} : IsWord w → (∀ c ∈ cs.head?, isBlank c) → Words cs ws →
      Words (w ++ cs) (w :: ws)

variable {w cs : List Char} {ws : List (List Char)}

/-! ## Cutting at blanks -/

theorem wordRuns_nil : wordRuns [] = [] :=
  rfl

theorem wordRuns_append_blank {c : Char} (h : isBlank c) (cs ds : List Char) :
    wordRuns (cs ++ c :: ds) = wordRuns cs ++ wordRuns ds := by
  rw [wordRuns, List.splitOnP_append_cons cs ds h, List.filter_append]
  rfl

theorem wordRuns_blank {c : Char} (h : isBlank c) (cs : List Char) :
    wordRuns (c :: cs) = wordRuns cs :=
  wordRuns_append_blank h [] cs

theorem IsWord.wordRuns_eq (h : IsWord w) : wordRuns w = [w] := by
  rw [wordRuns, List.splitOnP_eq_singleton h.2]
  simp [h.1]

theorem IsWord.wordRuns_append (h : IsWord w) (hnext : ∀ c ∈ cs.head?, isBlank c) :
    wordRuns (w ++ cs) = w :: wordRuns cs := by
  rcases cs with _ | ⟨c, cs⟩
  · rw [List.append_nil, h.wordRuns_eq, wordRuns_nil]
  · have hc : isBlank c := hnext c rfl
    rw [wordRuns_append_blank hc, h.wordRuns_eq, wordRuns_blank hc, List.singleton_append]

theorem Words.wordRuns_eq (h : Words cs ws) : wordRuns cs = ws := by
  induction h with
  | nil => rfl
  | blank hc _ ih => rw [wordRuns_blank hc, ih]
  | word hw hnext _ ih => rw [hw.wordRuns_append hnext, ih]

theorem words_wordRuns (cs : List Char) : Words cs (wordRuns cs) := by
  rcases cs with _ | ⟨c, cs⟩
  · exact .nil
  · by_cases hc : isBlank c
    · rw [wordRuns_blank hc]
      exact .blank hc (words_wordRuns cs)
    · -- the first word ends at the first blank
      have hword : IsWord ((c :: cs).takeWhile (!isBlank ·)) := by
        refine ⟨by simp [hc], fun d hd => ?_⟩
        simpa using List.mem_takeWhile_imp hd
      have hnext : ∀ d ∈ ((c :: cs).dropWhile (!isBlank ·)).head?, isBlank d := by
        intro d hd
        have hhead := List.head?_dropWhile_not (!isBlank ·) (c :: cs)
        rw [Option.mem_def.1 hd] at hhead
        simpa using hhead
      have hrest := words_wordRuns ((c :: cs).dropWhile (!isBlank ·))
      rw [← List.takeWhile_append_dropWhile (p := (!isBlank ·)) (l := c :: cs),
        hword.wordRuns_append hnext]
      exact .word hword hnext hrest
termination_by cs.length
decreasing_by
  · simp
  · have hle := List.length_dropWhile_le (!isBlank ·) cs
    simp [hc]
    omega

theorem wordRuns_eq_iff : wordRuns cs = ws ↔ Words cs ws :=
  ⟨fun h => h ▸ words_wordRuns cs, Words.wordRuns_eq⟩

theorem Words.isWord (h : Words cs ws) : ∀ w ∈ ws, IsWord w := by
  induction h with
  | nil => simp
  | blank _ _ ih => exact ih
  | word hw _ _ ih => exact List.forall_mem_cons.2 ⟨hw, ih⟩

/-! ## Blanks around a text -/

theorem wordRuns_blanks_append (cs : List Char) : ∀ {blanks : List Char},
    (∀ c ∈ blanks, isBlank c) → wordRuns (blanks ++ cs) = wordRuns cs
  | [], _ => rfl
  | c :: blanks, h => by
    rw [List.forall_mem_cons] at h
    rw [List.cons_append, wordRuns_blank h.1, wordRuns_blanks_append cs h.2]

theorem wordRuns_append_blanks (cs : List Char) {blanks : List Char}
    (h : ∀ c ∈ blanks, isBlank c) : wordRuns (cs ++ blanks) = wordRuns cs := by
  rcases blanks with _ | ⟨c, blanks⟩
  · rw [List.append_nil]
  · rw [List.forall_mem_cons] at h
    have hblanks : wordRuns blanks = [] := by
      simpa [wordRuns_nil] using wordRuns_blanks_append [] h.2
    rw [wordRuns_append_blank h.1, hblanks, List.append_nil]

/-- Blanks around a text are no part of its words. -/
theorem Padded.wordRuns_eq {core : List Char} (h : Padded cs core) :
    wordRuns cs = wordRuns core := by
  obtain ⟨before, after, rfl, hbefore, hafter⟩ := h
  rw [wordRuns_append_blanks _ (List.all_eq_true.1 hafter),
    wordRuns_blanks_append _ (List.all_eq_true.1 hbefore)]

/-- A text that starts with no blank has a word if it is not empty. -/
theorem Tight.wordRuns_eq_nil_iff (h : Tight cs) : wordRuns cs = [] ↔ cs = [] := by
  constructor
  · intro hnil
    have hwords := wordRuns_eq_iff.1 hnil
    cases hwords with
    | nil => rfl
    | blank hc _ => simp [h.1 _ rfl] at hc
  · rintro rfl
    rfl

/-! ## Folding -/

theorem intercalate_ne_nil (hw : IsWord w) (ws : List (List Char)) :
    List.intercalate [' '] (w :: ws) ≠ [] := by
  obtain ⟨c, w, rfl⟩ := List.exists_cons_of_ne_nil hw.1
  rw [List.intercalate_cons_cons_left]
  exact List.cons_ne_nil _ _

theorem words_intercalate : ∀ {ws : List (List Char)}, (∀ w ∈ ws, IsWord w) →
    Words (List.intercalate [' '] ws) ws
  | [], _ => .nil
  | [w], h => by
    have hword : Words (w ++ []) [w] := .word (h w (by simp)) (by simp) .nil
    simpa using hword
  | w :: v :: ws, h => by
    rw [List.forall_mem_cons] at h
    rw [List.intercalate_cons_cons, List.append_assoc, List.singleton_append]
    have hspace : isBlank ' ' := rfl
    exact .word h.1 (by simp [hspace]) (.blank hspace (words_intercalate h.2))

theorem tight_intercalate : ∀ {ws : List (List Char)}, (∀ w ∈ ws, IsWord w) →
    Tight (List.intercalate [' '] ws)
  | [], _ => tight_of_forall (by simp)
  | [w], h => by
    rw [List.intercalate_singleton]
    exact tight_of_forall (h w (by simp)).2
  | w :: v :: ws, h => by
    rw [List.forall_mem_cons] at h
    have hne := intercalate_ne_nil (h.2 v List.mem_cons_self) ws
    rw [List.intercalate_cons_cons]
    refine ⟨fun c hc => h.1.2 c ?_, fun c hc => (tight_intercalate h.2).2 c ?_⟩
    · obtain ⟨d, w, rfl⟩ := List.exists_cons_of_ne_nil h.1.1
      obtain rfl : d = c := by simpa using hc
      exact List.mem_cons_self
    · rwa [List.getLast?_append_of_ne_nil _ hne] at hc

theorem toList_foldBlanks (s : String) :
    (foldBlanks s).toList = List.intercalate [' '] (wordRuns s.toList) :=
  String.toList_ofList

/-- The words of a text stay, and no blank is left at its ends. -/
structure Normalizes (f : String → String) : Prop where
  tight : ∀ s, Tight (f s).toList
  words : ∀ s, wordRuns (f s).toList = wordRuns s.toList

theorem normalizes_trim : Normalizes trim where
  tight s := by
    rw [trim, String.toList_ofList]
    exact tight_strip _
  words s := by
    rw [trim, String.toList_ofList]
    exact (padded_strip _).wordRuns_eq.symm

theorem normalizes_foldBlanks : Normalizes foldBlanks where
  tight s := by
    rw [toList_foldBlanks]
    exact tight_intercalate (words_wordRuns _).isWord
  words s := by
    rw [toList_foldBlanks]
    exact (words_intercalate (words_wordRuns _).isWord).wordRuns_eq

example : foldBlanks "\u00a0NOT\u2003\n Installed\u3000" = "NOT Installed" := by decide

namespace Normalizes

variable {f g : String → String} {text : Option String} {s : String}

/-- A text counts as none exactly if it has no words. -/
theorem nonempty?_eq (h : Normalizes f) (s : String) :
    nonempty? (f s) = if wordRuns s.toList = [] then none else some (f s) := by
  rw [← h.words, nonempty?]
  simp only [(h.tight s).wordRuns_eq_nil_iff, String.isEmpty_iff, String.toList_eq_nil_iff]

theorem bind_eq_some_iff (h : Normalizes f) : (text.map f).bind nonempty? = some s
    ↔ ∃ t, text = some t ∧ wordRuns t.toList ≠ [] ∧ f t = s := by
  simp [Option.bind_eq_some_iff, h.nonempty?_eq]

theorem bind_eq_none_iff (h : Normalizes f) : (text.map f).bind nonempty? = none
    ↔ ∀ t, text = some t → wordRuns t.toList = [] := by
  simp [Option.bind_eq_none_iff, h.nonempty?_eq]

/-- What one way has left is read in another way as the text itself is. -/
theorem bind_bind (h : Normalizes f) (hg : Normalizes g) (hfg : ∀ s, f (g s) = f s)
    (text : Option String) :
    (((text.map g).bind nonempty?).map f).bind nonempty? = (text.map f).bind nonempty? := by
  rcases text with _ | t
  · rfl
  · simp only [Option.map_some, Option.bind_some, hg.nonempty?_eq]
    split_ifs with hwords
    · simp [h.nonempty?_eq, hwords]
    · simp [hfg]

end Normalizes

theorem trim_trim (s : String) : trim (trim s) = trim s :=
  trim_of_tight (normalizes_trim.tight s)

theorem foldBlanks_of_words {s t : String} (h : wordRuns s.toList = wordRuns t.toList) :
    foldBlanks s = foldBlanks t := by
  rw [foldBlanks, foldBlanks, h]

end Text

namespace Element

open Text

variable {e : Element} {s : String}

theorem trimmedText_eq_some_iff : e.trimmedText = some s
    ↔ ∃ text, e.text = some text ∧ s ≠ "" ∧ Padded text.toList s.toList ∧ Tight s.toList := by
  refine normalizes_trim.bind_eq_some_iff.trans ?_
  refine exists_congr fun text => and_congr_right fun _ => ?_
  have htrim : trim text = s ↔ Padded text.toList s.toList ∧ Tight s.toList := by
    rw [← strip_eq_iff, trim, ← String.toList_inj, String.toList_ofList]
  rw [htrim]
  refine and_congr_left fun h => ?_
  rw [h.1.wordRuns_eq, Ne, h.2.wordRuns_eq_nil_iff, String.toList_eq_nil_iff]

/-- A condition is the words of a text, at least one, with single spaces between them. -/
theorem conditionText_eq_some_iff : e.conditionText = some s
    ↔ ∃ text words, e.text = some text ∧ words ≠ [] ∧ Words text.toList words
      ∧ Words s.toList words ∧ Tight s.toList ∧ s.toList = List.intercalate [' '] words := by
  refine normalizes_foldBlanks.bind_eq_some_iff.trans ⟨?_, ?_⟩
  · rintro ⟨text, htext, hne, rfl⟩
    exact ⟨text, _, htext, hne, words_wordRuns _,
      wordRuns_eq_iff.1 (normalizes_foldBlanks.words text), normalizes_foldBlanks.tight text,
      toList_foldBlanks text⟩
  · rintro ⟨text, words, htext, hne, hwords, -, -, hs⟩
    obtain rfl := hwords.wordRuns_eq
    exact ⟨text, htext, hne, String.toList_injective ((toList_foldBlanks text).trans hs.symm)⟩

theorem diagnostics_refuseText (suggestion : Option String) (u : SourceUnit) :
    (SourceUnit.refuseText e suggestion u).2.diagnostics = u.diagnostics
      ↔ e.trimmedText = none := by
  rcases h : e.trimmedText with _ | s
  · have hnone : SourceUnit.refuseText e suggestion u = ((), u) := by
      rw [SourceUnit.refuseText, h]
      rfl
    simp [hnone]
  · have hsome : SourceUnit.refuseText e suggestion u
        = SourceUnit.report (.unexpectedText e.name suggestion) e.location u := by
      rw [SourceUnit.refuseText, h]
      rfl
    simp [hsome, SourceUnit.report_eq]

/-- The element with another inner text. -/
def withText (e : Element) (text : Option String) : Element :=
  { e with text := text }

/-- Text is none for one reading exactly if it is for the other, and just then it is not refused.
Trimmed text is what lies between the blanks around it. A condition has the words of the text, with
single spaces between them and no blanks around them. Either reading keeps what it has left, and
trimming first changes no condition. -/
theorem innerText_normal (e : Element) :
    (e.conditionText = none ↔ e.trimmedText = none)
      ∧ (∀ suggestion u, (SourceUnit.refuseText e suggestion u).2.diagnostics = u.diagnostics
          ↔ e.trimmedText = none)
      ∧ (∀ s, e.trimmedText = some s ↔ ∃ text, e.text = some text ∧ s ≠ ""
          ∧ Padded text.toList s.toList ∧ Tight s.toList)
      ∧ (∀ s, e.conditionText = some s ↔ ∃ text words, e.text = some text ∧ words ≠ []
          ∧ Words text.toList words ∧ Words s.toList words ∧ Tight s.toList
          ∧ s.toList = List.intercalate [' '] words)
      ∧ (e.withText e.trimmedText).trimmedText = e.trimmedText
      ∧ (e.withText e.conditionText).conditionText = e.conditionText
      ∧ (e.withText e.trimmedText).conditionText = e.conditionText := by
  have hfold : ∀ s, foldBlanks (foldBlanks s) = foldBlanks s :=
    fun s => foldBlanks_of_words (normalizes_foldBlanks.words s)
  have htrim : ∀ s, foldBlanks (trim s) = foldBlanks s :=
    fun s => foldBlanks_of_words (normalizes_trim.words s)
  refine ⟨?_, diagnostics_refuseText, fun _ => trimmedText_eq_some_iff,
    fun _ => conditionText_eq_some_iff, ?_, ?_, ?_⟩
  · exact normalizes_foldBlanks.bind_eq_none_iff.trans normalizes_trim.bind_eq_none_iff.symm
  · exact normalizes_trim.bind_bind normalizes_trim trim_trim e.text
  · exact normalizes_foldBlanks.bind_bind normalizes_foldBlanks hfold e.text
  · exact normalizes_foldBlanks.bind_bind normalizes_trim htrim e.text

end Element

end InstallerAnalysis

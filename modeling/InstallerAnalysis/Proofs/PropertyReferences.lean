import InstallerAnalysis.Formatted
import Mathlib.Data.List.Basic

/-!
# Property references

A reference ends at a `]`, and whether a `]` ends one is decided by what stands before it: the
latest `[` must be open still, with a name after it (`Unclosed`). The scan keeps the position of
that `[` (`Tracks`), which tells whether the name is empty (`Tracks.named_iff`). So it finds the `]`
that close a name (`Tracks.scan_iff`), and from the start of a text these are the ends of its
references.
-/

namespace InstallerAnalysis.Formatted

/-- The number of bytes that characters take. -/
def width : List Char → Nat
  | [] => 0
  | c :: cs => c.utf8Size + width cs

/-- After `before`, a bracket is open at the end of the text, and `name` is what stands in it. -/
def Unclosed (text before name : List Char) : Prop :=
  text = before ++ '[' :: name ∧ '[' ∉ name ∧ ']' ∉ name

/-- A bracket with something in it is open at the end of the text. -/
def Named (text : List Char) : Prop :=
  ∃ before name, Unclosed text before name ∧ name ≠ []

/-- The position is that of the bracket that is open after the text, if there is one. -/
def Tracks (text : List Char) (start? : Option Nat) : Prop :=
  ∀ start, start? = some start ↔ ∃ before name, Unclosed text before name ∧ width before = start

/-- Some `]` of the rest closes a bracket with a name in it, which may be open from before. -/
def Closes (text rest : List Char) : Prop :=
  ∃ front after, rest = front ++ ']' :: after ∧ Named (text ++ front)

variable {text before name cs : List Char} {c : Char} {start? : Option Nat}

/-! ## Widths -/

@[simp]
theorem width_nil : width [] = 0 :=
  rfl

@[simp]
theorem width_cons (c : Char) (cs : List Char) : width (c :: cs) = c.utf8Size + width cs :=
  rfl

@[simp]
theorem width_append : ∀ cs ds : List Char, width (cs ++ ds) = width cs + width ds
  | [], ds => by simp
  | c :: cs, ds => by
    rw [List.cons_append, width_cons, width_append cs ds, width_cons, Nat.add_assoc]

theorem width_pos_iff : 0 < width cs ↔ cs ≠ [] := by
  rcases cs with _ | ⟨c, cs⟩
  · simp
  · have hc := c.utf8Size_pos
    simp only [width_cons, ne_eq, reduceCtorEq, not_false_eq_true, iff_true]
    omega

/-! ## One more character -/

theorem not_unclosed_nil : ¬ Unclosed [] before name := by
  simp [Unclosed]

/-- A bracket is open after `c` if `c` opens it, or if it was open before and `c` is no bracket. -/
theorem unclosed_concat : Unclosed (text ++ [c]) before name
    ↔ c = '[' ∧ before = text ∧ name = []
      ∨ c ≠ '[' ∧ c ≠ ']' ∧ ∃ front, name = front ++ [c] ∧ Unclosed text before front := by
  constructor
  · rintro ⟨heq, hopen, hclose⟩
    -- `c` is the bracket if the name is empty, and else the last character of the name
    rcases List.eq_nil_or_concat' name with rfl | ⟨front, d, rfl⟩
    · obtain ⟨htext, hc⟩ := List.append_inj' heq rfl
      exact .inl ⟨by simpa using hc, htext.symm, rfl⟩
    · rw [← List.cons_append, ← List.append_assoc] at heq
      obtain ⟨htext, hc⟩ := List.append_inj' heq rfl
      obtain rfl : c = d := by simpa using hc
      simp only [List.mem_append, List.mem_singleton, not_or] at hopen hclose
      exact .inr ⟨Ne.symm hopen.2, Ne.symm hclose.2, front, rfl, htext, hopen.1, hclose.1⟩
  · rintro (⟨rfl, rfl, rfl⟩ | ⟨hopen, hclose, front, rfl, rfl, hfront⟩)
    · simp [Unclosed]
    · simp [Unclosed, hfront, Ne.symm hopen, Ne.symm hclose]

theorem tracks_nil : Tracks [] none := by
  simp [Tracks, not_unclosed_nil]

theorem tracks_opening (text : List Char) : Tracks (text ++ ['[']) (some (width text)) := by
  simp [Tracks, unclosed_concat]

theorem tracks_closing (text : List Char) : Tracks (text ++ [']']) none := by
  simp [Tracks, unclosed_concat]

theorem Tracks.concat (h : Tracks text start?) (hopen : c ≠ '[') (hclose : c ≠ ']') :
    Tracks (text ++ [c]) start? := by
  intro start
  rw [h start]
  constructor
  · rintro ⟨before, name, hname, hstart⟩
    exact ⟨before, name ++ [c], unclosed_concat.2 (.inr ⟨hopen, hclose, name, rfl, hname⟩), hstart⟩
  · rintro ⟨before, name, hname, hstart⟩
    obtain ⟨-, -, front, -, hfront⟩ := (unclosed_concat.1 hname).resolve_left fun h => hopen h.1
    exact ⟨before, front, hfront, hstart⟩

/-! ## The scan -/

/-- `[` takes one byte, so more than that to the end leaves room for a name. -/
theorem Tracks.named_iff (h : Tracks text start?) :
    Named text ↔ start?.any (· + 1 < width text) := by
  have hwidth : ∀ {before name}, Unclosed text before name →
      (width before + 1 < width text ↔ name ≠ []) := by
    intro before name hname
    have hbracket : '['.utf8Size = 1 := rfl
    rw [hname.1, width_append, width_cons, hbracket, ← width_pos_iff]
    omega
  rw [Option.any_eq_true]
  constructor
  · rintro ⟨before, name, hname, hne⟩
    exact ⟨width before, (h _).2 ⟨before, name, hname, rfl⟩, decide_eq_true ((hwidth hname).2 hne)⟩
  · rintro ⟨start, hstart, hlt⟩
    obtain ⟨before, name, hname, rfl⟩ := (h start).1 hstart
    exact ⟨before, name, hname, (hwidth hname).1 (of_decide_eq_true hlt)⟩

theorem not_closes_nil (text : List Char) : ¬ Closes text [] := by
  simp [Closes]

theorem closes_cons :
    Closes text (c :: cs) ↔ c = ']' ∧ Named text ∨ Closes (text ++ [c]) cs := by
  constructor
  · rintro ⟨front, after, heq, hname⟩
    rcases front with _ | ⟨d, front⟩
    · rw [List.append_nil] at hname
      exact .inl ⟨(List.cons.inj heq).1, hname⟩
    · obtain ⟨rfl, rfl⟩ := List.cons.inj heq
      exact .inr ⟨front, after, rfl, by simpa using hname⟩
  · rintro (⟨rfl, hname⟩ | ⟨front, after, rfl, hname⟩)
    · exact ⟨[], cs, rfl, by simpa using hname⟩
    · exact ⟨c :: front, after, rfl, by simpa using hname⟩

theorem Tracks.scan_iff : ∀ (cs : List Char) {text : List Char} {start? : Option Nat},
    Tracks text start? → (scan (width text) start? cs ↔ Closes text cs)
  | [], text, _, _ => iff_of_false Bool.false_ne_true (not_closes_nil text)
  | c :: cs, text, start?, h => by
    -- the text grows by `c`, and the position that goes with it is that of one of the three steps
    have hnext : width text + c.utf8Size = width (text ++ [c]) := by simp
    rw [closes_cons, scan, hnext]
    by_cases hopen : c = '['
    · have hclose : c ≠ ']' := by simp [hopen]
      subst hopen
      rw [if_pos rfl, (tracks_opening text).scan_iff cs]
      simp only [hclose, false_and, false_or]
    · rw [if_neg hopen]
      by_cases hclose : c = ']'
      · subst hclose
        rw [if_pos rfl, Bool.or_eq_true, (tracks_closing text).scan_iff cs, ← h.named_iff]
        simp only [true_and]
      · rw [if_neg hclose, (h.concat hopen hclose).scan_iff cs]
        simp only [hclose, false_and, false_or]

/-- A text holds a property reference exactly if brackets stand in it with at least one character
between them and no further bracket. -/
theorem hasPropertyReference_iff (s : String) : hasPropertyReference s
    ↔ ∃ before name after : String, s = before ++ ("[" ++ name ++ "]") ++ after
      ∧ name ≠ "" ∧ '[' ∉ name.toList ∧ ']' ∉ name.toList := by
  rw [hasPropertyReference, ← width_nil, tracks_nil.scan_iff]
  constructor
  · rintro ⟨front, after, hs, before, name, ⟨rfl, hopen, hclose⟩, hne⟩
    refine ⟨String.ofList before, String.ofList name, String.ofList after, ?_, ?_, ?_⟩
    · apply String.toList_injective
      simp [hs]
    · simpa using hne
    · simpa using ⟨hopen, hclose⟩
  · rintro ⟨before, name, after, rfl, hne, hopen, hclose⟩
    exact ⟨before.toList ++ '[' :: name.toList, after.toList, by simp, before.toList, name.toList,
      ⟨rfl, hopen, hclose⟩, by simpa using hne⟩

example : hasPropertyReference "[[é]" ∧ ¬ hasPropertyReference "[]é]" := by decide

end InstallerAnalysis.Formatted

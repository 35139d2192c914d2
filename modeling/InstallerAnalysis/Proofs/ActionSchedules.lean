import InstallerAnalysis.Proofs.SectionKeys
import InstallerAnalysis.Proofs.SynthesizedIdentifier

/-!
# Which actions are scheduled

The rows of the table of actions are those of the actions that were accepted, in the order of the
calls, and no two of them contradict each other (`Scheduled`). An action that an accepted one
contradicts is dropped with a report (`Scheduled.addAction_dropped`), any other one is accepted
(`Scheduled.addAction_accepted`): the first of its name finds its identifier free, since the
identifiers of actions tell sequence and name.
-/

namespace InstallerAnalysis

namespace Sequence

theorem mem_all (s : Sequence) : s ∈ all := by
  cases s <;> decide

theorem code_inj {a b : Sequence} (h : a.code = b.code) : a = b := by
  have hall : ∀ a ∈ all, ∀ b ∈ all, a.code = b.code → a = b := by decide
  exact hall a a.mem_all b b.mem_all h

theorem text_inj {a b : Sequence} (h : a.text = b.text) : a = b := by
  have hall : ∀ a ∈ all, ∀ b ∈ all, a.text = b.text → a = b := by decide
  exact hall a a.mem_all b b.mem_all h

theorem not_mem_text (s : Sequence) : '/' ∉ s.text.toList := by
  cases s <;> decide

end Sequence

namespace Action.Schedule

open SourceUnit

/-- The row of an action that was accepted. -/
def row (loc : Location) (a : Schedule) : Symbol :=
  ⟨Schema.Action.definition, some ⟨a.access, a.sequence.text ++ "/" ++ a.name⟩, some loc,
    [some (.number a.sequence.code), some (.string a.name), a.condition.map .string,
      a.before.map .string, a.after.map .string, some (.bool a.overridable)]⟩

/-- The reference to an action that another one comes before or after. -/
def targetRow (loc : Location) (sequence : Sequence) (target : String) : Symbol :=
  if isStandard target then
    referenceRow loc Schema.Action.definition.name [sequence.text, target]
  else
    referenceRow loc Schema.CustomAction.definition.name [target]

def targets (a : Schedule) : List String :=
  a.before.toList ++ a.after.toList

/-- Two actions of one name in one sequence. -/
def SameAction (a b : Schedule) : Prop :=
  a.sequence = b.sequence ∧ a.name = b.name

instance (a b : Schedule) : Decidable (a.SameAction b) :=
  inferInstanceAs (Decidable (_ ∧ _))

variable {a b : Schedule} {loc : Location}

theorem fill_blank (a : Schedule) (loc : Location) :
    a.fill (Symbol.blank Schema.Action.definition (some loc) (some a.identifier)) = a.row loc := rfl

theorem table_targetRow (loc : Location) (sequence : Sequence) (target : String) :
    (targetRow loc sequence target).table = Schema.SimpleReference.definition := by
  unfold targetRow
  split_ifs
  · rfl
  · rfl

theorem sameAction_of_identifier (h : a.identifier.id = b.identifier.id) : a.SameAction b := by
  have hl := congrArg String.toList h
  simp only [identifier, String.toList_append, List.append_assoc] at hl
  obtain ⟨hs, hn⟩ := append_inj_of_delimiter (d := '/') a.sequence.not_mem_text
    b.sequence.not_mem_text (by simp) (by simp) hl
  refine ⟨Sequence.text_inj (String.toList_injective hs), String.toList_injective ?_⟩
  simpa using hn

theorem row_sequence (a : Schedule) (loc : Location) (sequence : Sequence) :
    (a.row loc).get? Schema.Action.sequence = some sequence.code ↔ a.sequence = sequence := by
  have hget : (a.row loc).get? Schema.Action.sequence = some a.sequence.code := rfl
  rw [hget, Option.some.injEq]
  exact ⟨Sequence.code_inj, fun h => h ▸ rfl⟩

theorem row_name (a : Schedule) (loc : Location) (name : String) :
    (a.row loc).get? Schema.Action.name = some name ↔ a.name = name := by
  have hget : (a.row loc).get? Schema.Action.name = some a.name := rfl
  rw [hget, Option.some.injEq]

theorem isOverridable_row (a : Schedule) (loc : Location) :
    isOverridable (a.row loc) = a.overridable := rfl

end Action.Schedule

open InstallerAnalysis.Action

/-- The rows of actions are those of the ones that were accepted, of which no two contradict each
other. -/
structure Scheduled (accepted : List (Location × Schedule)) (c : Section) : Prop where
  indexed : c.Indexed
  rows : c.rowsOf Schema.Action.definition.name = accepted.map fun e => e.2.row e.1
  consistent : accepted.Pairwise fun e e' =>
    e.2.SameAction e'.2 → e.2.overridable ∨ e'.2.overridable

namespace SourceUnit

variable {u : SourceUnit} {loc : Location} {a : Schedule}

theorem placeAction_first (hnone : a.earlier u.content = [])
    (hl : u.content.keys.lookup (Schema.Action.definition.name, a.identifier.id) = none) :
    placeAction loc a u = (true, { u with content :=
      (u.content.hold (Schema.Action.definition.name, a.identifier.id)).push (a.row loc) }) := by
  have hkey : (a.row loc).key? = some (Schema.Action.definition.name, a.identifier.id) := rfl
  have ha : u.content.add (a.row loc) = .ok
      ((u.content.hold (Schema.Action.definition.name, a.identifier.id)).push (a.row loc)) := by
    simp only [Section.add, hkey, hl]
  simp only [placeAction, createRow, bind_apply, get_apply, hnone]
  rw [createWith_added rfl (by rwa [a.fill_blank])]
  rfl

theorem placeAction_beside (hne : a.earlier u.content ≠ [])
    (hfind : (a.earlier u.content).find? (fun s => !isOverridable s && !a.overridable) = none) :
    placeAction loc a u = (true, { u with content := u.content.push (a.row loc) }) := by
  simp only [placeAction, bind_apply, get_apply, hfind]
  rfl

theorem placeAction_dropped {first : Symbol}
    (hfind : (a.earlier u.content).find? (fun s => !isOverridable s && !a.overridable)
      = some first) :
    placeAction loc a u
      = (false, (report (.duplicateAction a.name a.sequence first.location) loc u).2) := by
  have hne : a.earlier u.content ≠ [] := by
    intro hnil
    rw [hnil] at hfind
    cases hfind
  simp only [placeAction, bind_apply, get_apply, hfind]
  rfl

theorem referenceAction_eq (loc : Location) (sequence : Sequence) (target : String)
    (u : SourceUnit) : referenceAction loc sequence target u
      = ((), { u with content := u.content.push (Schedule.targetRow loc sequence target) }) := by
  unfold referenceAction Schedule.targetRow
  split_ifs
  · rfl
  · rfl

theorem forM_referenceAction (loc : Location) (sequence : Sequence) :
    ∀ (targets : List String) (u : SourceUnit), ∃ content,
      targets.forM (referenceAction loc sequence) u = ((), { u with content := content })
        ∧ content.symbols
          = u.content.symbols ++ targets.map (Schedule.targetRow loc sequence)
  | [], u => ⟨u.content, rfl, by simp⟩
  | target :: targets, u => by
    obtain ⟨content, hforM, hcontent⟩ := forM_referenceAction loc sequence targets
      { u with content := u.content.push (Schedule.targetRow loc sequence target) }
    refine ⟨content, ?_, by simp [hcontent, Section.push]⟩
    have hcons : (target :: targets).forM (referenceAction loc sequence) u
        = targets.forM (referenceAction loc sequence)
          (referenceAction loc sequence target u).2 := rfl
    rw [hcons, referenceAction_eq]
    exact hforM

theorem addAction_placed {content : Section}
    (h : placeAction loc a u = (true, { u with content := content }))
    (hs : content.symbols = u.content.symbols ++ [a.row loc]) :
    ∃ content', addAction loc a u = (some a.identifier, { u with content := content' })
      ∧ content'.symbols = u.content.symbols
        ++ a.row loc :: a.targets.map (Schedule.targetRow loc a.sequence) := by
  obtain ⟨content', hforM, hcontent⟩ :=
    forM_referenceAction loc a.sequence a.targets { u with content := content }
  refine ⟨content', ?_, by simp [hcontent, hs]⟩
  rw [Schedule.targets] at hforM
  simp only [addAction, bind_apply, h, if_true, hforM]
  rfl

theorem addAction_unplaced {u' : SourceUnit} (h : placeAction loc a u = (false, u')) :
    addAction loc a u = (none, u') := by
  simp only [addAction, bind_apply, h]
  rfl

end SourceUnit

namespace Scheduled

open SourceUnit

variable {accepted : List (Location × Schedule)} {c : Section} {u : SourceUnit} {loc : Location}
  {a : Schedule}

theorem scheduledIn_eq (h : Scheduled accepted c) (sequence : Sequence) : c.scheduledIn sequence
    = (accepted.filter (·.2.sequence = sequence)).map fun e => e.2.row e.1 := by
  rw [Section.scheduledIn, h.rows, List.filter_map]
  refine congrArg _ (List.filter_congr fun e _ => ?_)
  exact decide_eq_decide.2 (e.2.row_sequence e.1 sequence)

theorem earlier_eq (h : Scheduled accepted c) (a : Schedule) :
    a.earlier c = (accepted.filter (·.2.SameAction a)).map fun e => e.2.row e.1 := by
  rw [Schedule.earlier, h.scheduledIn_eq, List.filter_map, List.filter_filter]
  refine congrArg _ (List.filter_congr fun e _ => ?_)
  rw [Function.comp_apply, decide_eq_decide.2 (e.2.row_name e.1 a.name), Bool.and_comm,
    ← Bool.decide_and]
  rfl

theorem length_le_one (h : Scheduled accepted c) (sequence : Sequence) (name : String) :
    ((c.scheduledIn sequence).filter fun s =>
      s.get? Schema.Action.name = some name ∧ isOverridable s = false).length ≤ 1 := by
  have hfilter : ((c.scheduledIn sequence).filter fun s =>
      s.get? Schema.Action.name = some name ∧ isOverridable s = false).length
        = (accepted.filter fun e =>
          (e.2.name = name ∧ e.2.overridable = false) ∧ e.2.sequence = sequence).length := by
    rw [h.scheduledIn_eq, List.filter_map, List.filter_filter, List.length_map]
    refine congrArg _ (List.filter_congr fun e _ => ?_)
    rw [Function.comp_apply, e.2.isOverridable_row, Bool.decide_and (_ ∧ _),
      decide_eq_decide.2 (and_congr_left' (e.2.row_name e.1 name))]
  rw [hfilter]
  -- of two such actions, one would have to be overridable
  have hpairs := h.consistent.sublist (List.filter_sublist (p := fun e =>
    (e.2.name = name ∧ e.2.overridable = false) ∧ e.2.sequence = sequence))
  rcases hrows : accepted.filter _ with _ | ⟨e, _ | ⟨e', rest⟩⟩
  · simp
  · simp
  · have hmem : ∀ x ∈ e :: e' :: rest,
        (x.2.name = name ∧ x.2.overridable = false) ∧ x.2.sequence = sequence := by
      intro x hx
      rw [← hrows] at hx
      exact of_decide_eq_true (List.mem_filter.1 hx).2
    obtain ⟨⟨hn, ho⟩, hs⟩ := hmem e (by simp)
    obtain ⟨⟨hn', ho'⟩, hs'⟩ := hmem e' (by simp)
    rw [hrows, List.pairwise_cons] at hpairs
    have hone := hpairs.1 e' (by simp) ⟨hs.trans hs'.symm, hn.trans hn'.symm⟩
    simp [ho, ho'] at hone

theorem lookup_identifier (h : Scheduled accepted c) (hnone : a.earlier c = []) :
    c.keys.lookup (Schema.Action.definition.name, a.identifier.id) = none := by
  rcases hl : c.keys.lookup (Schema.Action.definition.name, a.identifier.id) with _ | index
  · rfl
  · obtain ⟨s, hs, hk⟩ := h.indexed _ _ hl
    have hrow : s ∈ c.rowsOf Schema.Action.definition.name := by
      rw [Section.rowsOf, List.mem_filter]
      exact ⟨List.mem_of_getElem? hs, by simpa using (Section.key?_eq_some hk).symm⟩
    rw [h.rows, List.mem_map] at hrow
    obtain ⟨e, he, rfl⟩ := hrow
    have hid : e.2.identifier.id = a.identifier.id := congrArg Prod.snd (Option.some.inj hk)
    rw [h.earlier_eq, List.map_eq_nil_iff, List.filter_eq_nil_iff] at hnone
    exact absurd (Schedule.sameAction_of_identifier hid) (by simpa using hnone e he)

/-- The row that an action is dropped for is that of the first accepted one that may not be
overridden either. -/
theorem find?_earlier (h : Scheduled accepted c) (a : Schedule) :
    (a.earlier c).find? (fun s => !isOverridable s && !a.overridable)
      = if a.overridable then none
        else (accepted.find? fun e => e.2.SameAction a ∧ e.2.overridable = false).map
          fun e => e.2.row e.1 := by
  rw [h.earlier_eq, List.find?_map, List.find?_filter]
  rcases ha : a.overridable
  · simp [Schedule.isOverridable_row]
  · simp

theorem addAction_accepted (h : Scheduled accepted u.content) (loc : Location)
    (ha : a.overridable ∨ ∀ e ∈ accepted, e.2.SameAction a → e.2.overridable) :
    ∃ content, addAction loc a u = (some a.identifier, { u with content := content })
      ∧ content.symbols = u.content.symbols
        ++ a.row loc :: a.targets.map (Schedule.targetRow loc a.sequence) := by
  by_cases hnone : a.earlier u.content = []
  · exact addAction_placed (placeAction_first hnone (h.lookup_identifier hnone)) rfl
  · refine addAction_placed (placeAction_beside hnone ?_) rfl
    rw [h.find?_earlier]
    split_ifs with ho
    · rfl
    · rw [Option.map_eq_none_iff, List.find?_eq_none]
      intro e he hclash
      obtain ⟨hsame, hfalse⟩ := of_decide_eq_true hclash
      rw [ha.resolve_left ho e he hsame] at hfalse
      cases hfalse

theorem addAction_dropped (h : Scheduled accepted u.content) (loc : Location)
    (ha : ¬ (a.overridable ∨ ∀ e ∈ accepted, e.2.SameAction a → e.2.overridable)) :
    ∃ e d, accepted.find? (fun e => e.2.SameAction a ∧ e.2.overridable = false) = some e
      ∧ d.Conflict "E101" loc e.1
      ∧ addAction loc a u = (none, u.withReports [d]) := by
  push Not at ha
  obtain ⟨ho, e', he', hsame, hfalse⟩ := ha
  obtain ⟨e, he⟩ : ∃ e, accepted.find? (fun e => e.2.SameAction a ∧ e.2.overridable = false)
      = some e := by
    rw [← Option.isSome_iff_exists, List.find?_isSome]
    exact ⟨e', he', decide_eq_true ⟨hsame, by simpa using hfalse⟩⟩
  have hfind := h.find?_earlier a
  rw [if_neg ho, he] at hfind
  exact ⟨e, (Problem.duplicateAction a.name a.sequence (some e.1)).report loc, he, ⟨rfl, rfl, rfl⟩,
    addAction_unplaced (placeAction_dropped hfind)⟩

theorem writes {u' : SourceUnit} {paths : List (String × String)}
    (h : Scheduled accepted u.content) (hw : Writes loc paths u u')
    (hrows : u'.content.rowsOf Schema.Action.definition.name
      = u.content.rowsOf Schema.Action.definition.name) : Scheduled accepted u'.content := by
  obtain ⟨rows, hg, -⟩ := hw.content
  exact ⟨h.indexed.grows hg, hrows.trans h.rows, h.consistent⟩

theorem addAction (h : Scheduled accepted u.content) (loc : Location)
    (ha : a.overridable ∨ ∀ e ∈ accepted, e.2.SameAction a → e.2.overridable) :
    Scheduled (accepted ++ [(loc, a)]) (SourceUnit.addAction loc a u).2.content := by
  obtain ⟨content, heq, hsymbols⟩ := h.addAction_accepted loc ha
  have hw : Writes loc [] u (SourceUnit.addAction loc a u).2 := writing_addAction a u
  obtain ⟨rows, hg, -⟩ := hw.content
  rw [heq] at hg ⊢
  refine ⟨h.indexed.grows hg, ?_, ?_⟩
  · have htargets : (a.targets.map (Schedule.targetRow loc a.sequence)).filter
        (·.table.name = Schema.Action.definition.name) = [] := by
      refine List.filter_eq_nil_iff.2 fun s hs => ?_
      obtain ⟨target, -, rfl⟩ := List.mem_map.1 hs
      rw [Schedule.table_targetRow]
      decide
    rw [Section.rowsOf, hsymbols, List.filter_append, List.filter_cons_of_pos (by rfl), htargets,
      List.map_append, ← h.rows]
    rfl
  · refine List.pairwise_append.2 ⟨h.consistent, List.pairwise_singleton _ _, ?_⟩
    intro e he e' he' hsame
    rw [List.mem_singleton.1 he'] at hsame ⊢
    rcases ha with ha | ha
    · exact .inr ha
    · exact .inl (ha e he hsame)

end Scheduled

namespace Operation

open SourceUnit

def IsAction : Operation → Prop
  | action .. => True
  | _ => False

/-- The action that an operation schedules, unless it is dropped. -/
def accepted (op : Operation) (u : SourceUnit) : List (Location × Schedule) :=
  match op with
  | action loc a => if (addAction loc a u).1.isSome then [(loc, a)] else []
  | _ => []

/-- The actions that a run schedules, less those that are dropped, in the order of the calls. -/
def acceptedAll : List Operation → SourceUnit → List (Location × Schedule)
  | [], _ => []
  | op :: ops, u => op.accepted u ++ acceptedAll ops (op.perform u)

variable {op : Operation} {accepted : List (Location × Schedule)} {u : SourceUnit}

theorem scheduled_perform (h : Scheduled accepted u.content)
    (hop : op.IsAction ∨ (op.perform u).content.rowsOf Schema.Action.definition.name
      = u.content.rowsOf Schema.Action.definition.name) :
    Scheduled (accepted ++ op.accepted u) (op.perform u).content := by
  by_cases hi : op.IsAction
  · cases op with
    | action loc a =>
      by_cases ha : a.overridable ∨ ∀ e ∈ accepted, e.2.SameAction a → e.2.overridable
      · obtain ⟨content, heq, -⟩ := h.addAction_accepted loc ha
        rw [Operation.accepted, heq]
        exact h.addAction loc ha
      · obtain ⟨e, d, -, -, heq⟩ := h.addAction_dropped loc ha
        rw [Operation.accepted, Operation.perform, heq, if_neg (by simp), List.append_nil]
        exact h
    | _ => exact hi.elim
  · have hnil : op.accepted u = [] := by
      cases op with
      | action => exact absurd trivial hi
      | _ => rfl
    obtain ⟨paths, hw⟩ := writes_perform_any op u
    rw [hnil, List.append_nil]
    exact h.writes hw (hop.resolve_left hi)

theorem scheduled_performAll : ∀ {ops : List Operation} {accepted : List (Location × Schedule)}
    {u : SourceUnit}, Scheduled accepted u.content →
    RowsOnlyFrom Schema.Action.definition.name IsAction ops u →
    Scheduled (accepted ++ acceptedAll ops u) (performAll ops u).content
  | [], accepted, u, h, _ => by rwa [acceptedAll, List.append_nil]
  | op :: ops, accepted, u, h, hrun => by
    rw [acceptedAll, ← List.append_assoc]
    exact scheduled_performAll (scheduled_perform h hrun.1) hrun.2

/-- An action is accepted if it is overridable or no accepted one of its sequence and name forbids
it. Then its row and the references to its targets are added, and otherwise one error is reported
that shows the place of the first one that forbids it. So no two rows of a sequence and a name may
not be overridden, and the rows of a sequence are those of the accepted actions in order. -/
theorem addAction_performAll {ops : List Operation} (hi : u.content.Indexed)
    (hnone : u.content.rowsOf Schema.Action.definition.name = [])
    (hrun : RowsOnlyFrom Schema.Action.definition.name IsAction ops u) :
    let v := performAll ops u
    (∀ loc a,
        ((addAction loc a v).1.isSome
          ↔ a.overridable ∨ ∀ e ∈ acceptedAll ops u, e.2.SameAction a → e.2.overridable)
        ∧ (∀ id, (addAction loc a v).1 = some id →
            id = ⟨a.access, a.sequence.text ++ "/" ++ a.name⟩
            ∧ ∃ content, (addAction loc a v).2 = { v with content := content }
              ∧ content.symbols = v.content.symbols
                ++ a.row loc :: a.targets.map (Schedule.targetRow loc a.sequence))
        ∧ ((addAction loc a v).1 = none →
            ∃ e d, (acceptedAll ops u).find?
                (fun e => e.2.SameAction a ∧ e.2.overridable = false) = some e
              ∧ d.Conflict "E101" loc e.1
              ∧ (addAction loc a v).2 = v.withReports [d]))
      ∧ (∀ sequence name, ((v.content.scheduledIn sequence).filter fun s =>
          s.get? Schema.Action.name = some name ∧ isOverridable s = false).length ≤ 1)
      ∧ ∀ sequence, v.content.scheduledIn sequence
        = ((acceptedAll ops u).filter (·.2.sequence = sequence)).map fun e => e.2.row e.1 := by
  intro v
  have hstart : Scheduled [] u.content := ⟨hi, hnone, .nil⟩
  have h : Scheduled (acceptedAll ops u) v.content := scheduled_performAll hstart hrun
  refine ⟨fun loc a => ?_, h.length_le_one, h.scheduledIn_eq⟩
  by_cases ha : a.overridable ∨ ∀ e ∈ acceptedAll ops u, e.2.SameAction a → e.2.overridable
  · obtain ⟨content, heq, hsymbols⟩ := h.addAction_accepted loc ha
    rw [heq]
    refine ⟨⟨fun _ => ha, fun _ => rfl⟩, ?_, nofun⟩
    intro id hid
    exact ⟨(Option.some.inj hid).symm, content, rfl, hsymbols⟩
  · obtain ⟨e, d, he, hd, heq⟩ := h.addAction_dropped loc ha
    rw [heq]
    exact ⟨⟨nofun, fun hadmitted => absurd hadmitted ha⟩, nofun, fun _ => ⟨e, d, he, hd, rfl⟩⟩

section Overridden

def lineOf (line : Nat) : Location := ⟨"setup.xml", some line⟩

def greeting : Schedule := { sequence := .installUI, name := "Greet", after := some "CostFinalize" }

/-- An action that may not be overridden comes between two that may. -/
def overriddenRun : List Operation :=
  [action (lineOf 1) { greeting with overridable := true },
    reference (lineOf 2) "Feature" ["Main"],
    action (lineOf 3) greeting,
    action (lineOf 4) { greeting with overridable := true }]

def emptyUnit : SourceUnit := { catalog := Catalog.empty, content := { id := "Main" } }

theorem overriddenRun_accepted : acceptedAll overriddenRun emptyUnit
    = [(lineOf 1, { greeting with overridable := true }), (lineOf 3, greeting),
      (lineOf 4, { greeting with overridable := true })] := by
  decide +kernel

theorem addAction_performAll_overriddenRun :
    let v := performAll overriddenRun emptyUnit
    (∃ d, d.Conflict "E101" (lineOf 5) (lineOf 3)
        ∧ addAction (lineOf 5) greeting v
          = (none, v.withReports [d]))
      ∧ (v.content.scheduledIn .installUI).length = 3 := by
  have hstart : emptyUnit.content.Indexed := (Section.tidy_empty _ _).indexed
  obtain ⟨hadd, -, hrows⟩ := addAction_performAll hstart rfl
    (show RowsOnlyFrom _ _ overriddenRun emptyUnit from
      ⟨.inl trivial, .inr rfl, .inl trivial, .inl trivial, trivial⟩)
  rw [overriddenRun_accepted] at hadd hrows
  obtain ⟨hsome, -, hnone⟩ := hadd (lineOf 5) greeting
  have hrefused : (addAction (lineOf 5) greeting (performAll overriddenRun emptyUnit)).1 = none :=
    Option.not_isSome_iff_eq_none.1 (mt hsome.1 (by decide))
  obtain ⟨e, d, he, hd, hafter⟩ := hnone hrefused
  obtain rfl : (lineOf 3, greeting) = e := Option.some.inj he
  refine ⟨⟨d, hd, Prod.ext hrefused hafter⟩, ?_⟩
  rw [hrows]
  rfl

end Overridden

end Operation

end InstallerAnalysis

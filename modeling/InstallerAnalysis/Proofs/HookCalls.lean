import InstallerAnalysis.Extension.Dispatch
import InstallerAnalysis.Proofs.CoercionReports

/-!
# Which hooks are called

Extensions are watched by having each hook record its call, with the host it finds, before it does
what it always does (`watch`). The record of a watched run shows who was asked: the extensions of
the namespace in their order, each on what the one before it left, up to the first that accepts
(`FirstClaim`). `firstAccept_watch` says this of any hook, and `offers_first_claim` of attributes,
elements and key paths as they are offered.
-/

namespace InstallerAnalysis

variable {σ α β : Type}

/-- Between two hosts one error is reported, and nothing else happens. -/
def Host.Reported (code : String) (loc : Location) (h h' : Host σ) : Prop :=
  ∃ d : Diagnostic, d.isError ∧ d.code.map Code.text = some code ∧ d.location? = some loc
    ∧ h' = { h with unit := h.unit.withReports [d] }

theorem Hosted.bind_apply (x : Hosted σ α) (f : α → Hosted σ β) (h : Host σ) :
    (x >>= f) h = f (x h).1 (x h).2 := rfl

theorem Hosted.reported_analyze {p : Problem} (hp : p.severity = .error) (loc : Location)
    (h : Host σ) :
    h.Reported p.wording.code.text loc (Hosted.analyze (SourceUnit.report p loc) h).2 :=
  ⟨p.report loc, by simp [Diagnostic.isError, Problem.report, hp], rfl, p.report_location? loc, rfl⟩

/-- The name of a namespace declaration, or one in a namespace of the markup standards. -/
def QName.Standard (q : QName) : Prop :=
  (q.space = none ∧ (q.name = "xmlns" ∨ "xmlns:".toList <+: q.name.toList))
    ∨ ∃ space, q.space = some space ∧ "http://www.w3.org/".toList <+: space.toList

theorem QName.isMarkupOnly_iff (q : QName) : q.isMarkupOnly ↔ q.Standard := by
  unfold isMarkupOnly Standard
  rcases q.space with _ | space <;> simp [standardSpace]

namespace Extension

/-! ## Watching hooks -/

/-- What a hook is offered. -/
inductive Offer where
  | attribute (e : Element) (a : Attribute)
  | element (parent e : Element)
  | keyPath (parent e : Element)

/-- A call of a hook: the position of its extension, what it was offered and the host it found. -/
structure HookCall (σ : Type) where
  position : Nat
  offer : Offer
  seen : Host σ

/-- What extensions remember, and the calls of their hooks. -/
structure Watched (σ : Type) where
  memory : σ
  calls : List (HookCall σ)

/-- The host as watched extensions find it after some calls. -/
def watchedHost (h : Host σ) (calls : List (HookCall σ)) : Host (Watched σ) :=
  ⟨h.unit, h.memory, calls⟩

/-- A hook that records its call and then does what it did before. -/
def watchHook (call : Host σ → HookCall σ) (x : Hosted σ α) : Hosted (Watched σ) α := fun host =>
  let seen : Host σ := ⟨host.unit, host.memory.memory⟩
  ((x seen).1, watchedHost (x seen).2 (host.memory.calls ++ [call seen]))

def watch (x : Extension σ) (position : Nat) : Extension (Watched σ) where
  space := x.space
  onAttribute accepted e a context :=
    watchHook (⟨position, .attribute e a, ·⟩) (x.onAttribute accepted e a context)
  onElement accepted parent e context :=
    watchHook (⟨position, .element parent e, ·⟩) (x.onElement accepted parent e context)
  onKeyPath accepted parent e context :=
    watchHook (⟨position, .keyPath parent e, ·⟩) (x.onKeyPath accepted parent e context)

/-- The second of two ways to ask extensions is the first one under watch. -/
def Watches (offer : Offer) (ask : Extension σ → Hosted σ (Reply α))
    (ask' : Extension (Watched σ) → Hosted (Watched σ) (Reply α)) : Prop :=
  ∀ x position, ask' (watch x position) = watchHook (⟨position, offer, ·⟩) (ask x)

def watchAll (extensions : List (Extension σ)) : List (Extension (Watched σ)) :=
  extensions.zipIdx.map fun (x, position) => x.watch position

/-- The extensions that own a namespace, with their positions. -/
def candidates (extensions : List (Extension σ)) (space : Option String) :
    List (Extension σ × Nat) :=
  extensions.zipIdx.filter fun (x, _) => space = some x.space

theorem owning_eq (extensions : List (Extension σ)) (space : Option String) :
    owning extensions space = (candidates extensions space).map (·.1) := by
  have hfilter : (candidates extensions space).map (·.1)
      = (extensions.zipIdx.map (·.1)).filter fun x => space = some x.space := by
    rw [List.filter_map]
    rfl
  rw [hfilter, List.zipIdx_map_fst, owning]

theorem owning_watchAll (extensions : List (Extension σ)) (space : Option String) :
    owning (watchAll extensions) space
      = (candidates extensions space).map fun (x, position) => x.watch position := by
  rw [owning, watchAll, List.filter_map]
  rfl

/-! ## The first claim -/

/-- A call of a hook, and what came of it. -/
structure Answer (σ α : Type) where
  extension : Extension σ
  position : Nat
  seen : Host σ
  reply : Reply α
  left : Host σ

def Answer.call (offer : Offer) (a : Answer σ α) : HookCall σ :=
  ⟨a.position, offer, a.seen⟩

/-- Extensions are asked in their order, each on the host that the one before it left, until one
accepts or all have been asked. -/
structure FirstClaim (ask : Extension σ → Hosted σ (Reply α)) (owners : List (Extension σ × Nat))
    (start : Host σ) (answers : List (Answer σ α)) (result : Option α) (finish : Host σ) :
    Prop where
  replies : ∀ a ∈ answers, ask a.extension a.seen = (a.reply, a.left)
  inOrder : answers.map (fun a => (a.extension, a.position)) <+: owners
  threaded : start :: answers.map (·.left) = answers.map (·.seen) ++ [finish]
  outcome : (result = none ∧ answers.length = owners.length ∧ ∀ a ∈ answers, a.reply = .pass)
    ∨ ∃ earlier last value, answers = earlier ++ [last] ∧ (∀ a ∈ earlier, a.reply = .pass)
      ∧ last.reply = .accept value ∧ result = some value

section FirstClaim

variable {ask : Extension σ → Hosted σ (Reply α)} {owners : List (Extension σ × Nat)}
  {x : Extension σ} {position : Nat} {h h' finish : Host σ} {answers : List (Answer σ α)}
  {result : Option α}

theorem firstClaim_nil (ask : Extension σ → Hosted σ (Reply α)) (h : Host σ) :
    FirstClaim ask [] h [] none h :=
  ⟨by simp, by simp, rfl, .inl ⟨rfl, rfl, by simp⟩⟩

theorem firstClaim_accept {value : α} (hask : ask x h = (.accept value, h')) :
    FirstClaim ask ((x, position) :: owners) h [⟨x, position, h, .accept value, h'⟩] (some value)
      h' where
  replies := by simpa using hask
  inOrder := ⟨owners, rfl⟩
  threaded := rfl
  outcome := .inr ⟨[], _, value, rfl, by simp, rfl, rfl⟩

theorem FirstClaim.pass (hask : ask x h = (.pass, h'))
    (hc : FirstClaim ask owners h' answers result finish) :
    FirstClaim ask ((x, position) :: owners) h (⟨x, position, h, .pass, h'⟩ :: answers) result
      finish where
  replies := by
    simp only [List.mem_cons, forall_eq_or_imp]
    exact ⟨hask, hc.replies⟩
  inOrder := by
    rw [List.map_cons, List.cons_prefix_cons]
    exact ⟨rfl, hc.inOrder⟩
  threaded := by
    rw [List.map_cons, List.map_cons, List.cons_append, ← hc.threaded]
  outcome := by
    rcases hc.outcome with ⟨hnone, hlength, hpass⟩ | ⟨earlier, last, value, rfl, hpass, hrest⟩
    · refine .inl ⟨hnone, by simp [hlength], ?_⟩
      simpa using hpass
    · refine .inr ⟨_ :: earlier, last, value, rfl, ?_, hrest⟩
      simpa using hpass

theorem firstAccept_accept {xs : List (Extension σ)} {value : α}
    (hask : ask x h = (.accept value, h')) : firstAccept ask (x :: xs) h = (some value, h') := by
  rw [firstAccept, Hosted.bind_apply, hask]
  rfl

theorem firstAccept_pass {xs : List (Extension σ)} (hask : ask x h = (.pass, h')) :
    firstAccept ask (x :: xs) h = firstAccept ask xs h' := by
  rw [firstAccept, Hosted.bind_apply, hask]

/-- Watching changes nothing but the record, and the record shows the calls up to the first
claim. -/
theorem firstAccept_watch {offer : Offer}
    {ask' : Extension (Watched σ) → Hosted (Watched σ) (Reply α)}
    (hwatch : Watches offer ask ask') :
    ∀ (owners : List (Extension σ × Nat)) (h : Host σ) (calls : List (HookCall σ)),
      ∃ answers, FirstClaim ask owners h answers (firstAccept ask (owners.map (·.1)) h).1
          (firstAccept ask (owners.map (·.1)) h).2
        ∧ firstAccept ask' (owners.map fun (x, position) => x.watch position)
            (watchedHost h calls)
          = ((firstAccept ask (owners.map (·.1)) h).1,
            watchedHost (firstAccept ask (owners.map (·.1)) h).2
              (calls ++ answers.map (Answer.call offer)))
  | [], h, calls => by
    refine ⟨[], firstClaim_nil ask h, ?_⟩
    simp only [List.map_nil, List.append_nil]
    rfl
  | (x, position) :: owners, h, calls => by
    have hcall : ask' (x.watch position) (watchedHost h calls)
        = ((ask x h).1, watchedHost (ask x h).2 (calls ++ [⟨position, offer, h⟩])) := by
      rw [hwatch]
      rfl
    rcases hask : ask x h with ⟨_ | value, h'⟩ <;> rw [hask] at hcall
    · obtain ⟨answers, hclaim, hrun⟩ :=
        firstAccept_watch hwatch owners h' (calls ++ [⟨position, offer, h⟩])
      refine ⟨⟨x, position, h, .pass, h'⟩ :: answers, ?_, ?_⟩
      · rw [List.map_cons, firstAccept_pass hask]
        exact hclaim.pass hask
      · rw [List.map_cons, List.map_cons, firstAccept_pass hcall, firstAccept_pass hask, hrun]
        simp [Answer.call]
    · refine ⟨[⟨x, position, h, .accept value, h'⟩], ?_, ?_⟩
      · rw [List.map_cons, firstAccept_accept hask]
        exact firstClaim_accept hask
      · rw [List.map_cons, List.map_cons, firstAccept_accept hcall, firstAccept_accept hask]
        rfl

end FirstClaim

/-! ## Offers -/

/-- Asks extensions and reports a problem unless one of them accepts. -/
def route (ask : Extension σ → Hosted σ (Reply α)) (space : Option String) (p : Problem)
    (loc : Location) (give : Option α → β) (extensions : List (Extension σ)) : Hosted σ β := do
  let result ← firstAccept ask (owning extensions space)
  if result.isNone then Hosted.analyze (SourceUnit.report p loc)
  return give result

/-- What happens when something in a namespace is offered: the hooks of the first claim are called,
and if nobody accepts, one error is reported at the end. -/
def Routed (ask : Extension σ → Hosted σ (Reply α)) (extensions : List (Extension σ))
    (space : Option String) (offer : Offer) (code : String) (loc : Location) (start : Host σ)
    (calls : List (HookCall σ)) (result : Option α) (finish : Host σ) : Prop :=
  ∃ answers asked, FirstClaim ask (candidates extensions space) start answers result asked
    ∧ calls = answers.map (Answer.call offer)
    ∧ ((result.isSome ∧ finish = asked) ∨ (result = none ∧ asked.Reported code loc finish))

theorem routed_route {offer : Offer} {ask : Extension σ → Hosted σ (Reply α)}
    {ask' : Extension (Watched σ) → Hosted (Watched σ) (Reply α)} {p : Problem}
    (hp : p.severity = .error) (hwatch : Watches offer ask ask') (space : Option String)
    (loc : Location) (give : Option α → β) (extensions : List (Extension σ)) (h : Host σ)
    (calls : List (HookCall σ)) :
    ∃ made result finish, Routed ask extensions space offer p.wording.code.text loc h made result
        finish
      ∧ route ask space p loc give extensions h = (give result, finish)
      ∧ route ask' space p loc give (watchAll extensions) (watchedHost h calls)
        = (give result, watchedHost finish (calls ++ made)) := by
  obtain ⟨answers, hclaim, hrun⟩ :=
    firstAccept_watch hwatch (candidates extensions space) h calls
  rw [← owning_watchAll] at hrun
  rw [← owning_eq] at hclaim hrun
  simp only [route, Hosted.bind_apply, hrun]
  rcases hasked : firstAccept ask (owning extensions space) h with ⟨_ | value, asked⟩
  · rw [hasked] at hclaim
    exact ⟨_, none, _, ⟨answers, asked, hclaim, rfl, .inr ⟨rfl, Hosted.reported_analyze hp loc _⟩⟩,
      rfl, rfl⟩
  · rw [hasked] at hclaim
    exact ⟨_, some value, asked, ⟨answers, asked, hclaim, rfl, .inl ⟨rfl, rfl⟩⟩, rfl, rfl⟩

section Offers

variable (extensions : List (Extension σ)) (accepted : Intermediate) (parent e : Element)
  (a : Attribute) (context : Context)

theorem watches_onAttribute : Watches (σ := σ) (.attribute e a)
    (·.onAttribute accepted e a context) (·.onAttribute accepted e a context) :=
  fun _ _ => rfl

theorem watches_onElement : Watches (σ := σ) (.element parent e)
    (·.onElement accepted parent e context) (·.onElement accepted parent e context) :=
  fun _ _ => rfl

theorem watches_onKeyPath : Watches (σ := σ) (.keyPath parent e)
    (·.onKeyPath accepted parent e context) (·.onKeyPath accepted parent e context) :=
  fun _ _ => rfl

theorem offerAttribute_skipped (ha : a.name.isMarkupOnly) (h : Host σ) :
    offerAttribute extensions accepted e context a h = ((), h) := by
  rw [offerAttribute, if_pos ha]
  rfl

theorem offerAttribute_eq (ha : ¬ a.name.isMarkupOnly) :
    offerAttribute extensions accepted e context a
      = route (·.onAttribute accepted e a context) a.name.space
        (.unexpectedAttribute e.name a.name) e.location (fun _ => ()) extensions := by
  have hrefuse : SourceUnit.refuseAttribute e a
      = SourceUnit.report (.unexpectedAttribute e.name a.name) e.location := if_neg ha
  rw [offerAttribute, if_neg ha, hrefuse]
  rfl

theorem offerElement_eq : offerElement extensions accepted parent context e
    = route (·.onElement accepted parent e context) e.name.space
      (.unhandledElement parent.name e.name) e.location (fun _ => ()) extensions := rfl

theorem offerKeyPath_eq : offerKeyPath extensions accepted parent context e
    = route (·.onKeyPath accepted parent e context) e.name.space
      (.unhandledElement parent.name e.name) e.location Option.join extensions := by
  funext h
  simp only [offerKeyPath, route, Hosted.bind_apply]
  rcases (firstAccept _ _ h).1 with _ | keyPath <;> rfl

end Offers

/-! ## Children -/

/-- A child, the host before and after it is dealt with, and the calls that are made for it. -/
structure Visit (σ : Type) where
  child : Element
  seen : Host σ
  calls : List (HookCall σ)
  left : Host σ

/-- A child in the namespace of its parent is refused, and any other one is offered. -/
def Visit.Lawful (extensions : List (Extension σ)) (accepted : Intermediate) (parent : Element)
    (context : Context) (v : Visit σ) : Prop :=
  (v.child.name.space = parent.name.space ∧ v.calls = []
      ∧ v.seen.Reported "E201" v.child.location v.left)
    ∨ (v.child.name.space ≠ parent.name.space
      ∧ ∃ result, Routed (·.onElement accepted parent v.child context) extensions
        v.child.name.space (.element parent v.child) "E202" v.child.location v.seen v.calls result
        v.left)

section Children

variable (extensions : List (Extension σ)) (accepted : Intermediate) (parent : Element)
  (context : Context)

/-- What is done with one child. -/
def offerChild (child : Element) : Hosted σ Unit :=
  if child.name.space = parent.name.space then
    Hosted.analyze (SourceUnit.refuseElement parent child)
  else offerElement extensions accepted parent context child

theorem offerChild_watch (child : Element) (h : Host σ) (calls : List (HookCall σ)) :
    ∃ v : Visit σ, v.Lawful extensions accepted parent context ∧ v.child = child ∧ v.seen = h
      ∧ offerChild extensions accepted parent context child h = ((), v.left)
      ∧ offerChild (watchAll extensions) accepted parent context child (watchedHost h calls)
        = ((), watchedHost v.left (calls ++ v.calls)) := by
  unfold offerChild
  by_cases hspace : child.name.space = parent.name.space
  · simp only [if_pos hspace]
    refine ⟨⟨child, h, [], _⟩, .inl ⟨hspace, rfl, ?_⟩, rfl, rfl, rfl, ?_⟩
    · exact Hosted.reported_analyze (p := .unexpectedElement parent.name child.name) rfl _ h
    · rw [List.append_nil]
      rfl
  · simp only [if_neg hspace, offerElement_eq]
    obtain ⟨made, result, finish, hrouted, hplain, hwatched⟩ :=
      routed_route (p := .unhandledElement parent.name child.name) rfl
        (watches_onElement accepted parent child context) child.name.space child.location
        (fun _ => ()) extensions h calls
    exact ⟨⟨child, h, made, finish⟩, .inr ⟨hspace, result, hrouted⟩, rfl, rfl, hplain, hwatched⟩

theorem forM_cons_apply (f : Element → Hosted σ Unit) (child : Element) (children : List Element)
    (h : Host σ) : (child :: children).forM f h = children.forM f (f child h).2 := rfl

theorem forM_offerChild_watch : ∀ (children : List Element) (h : Host σ)
    (calls : List (HookCall σ)), ∃ visits : List (Visit σ), ∃ finish,
      visits.map (·.child) = children
      ∧ (∀ v ∈ visits, v.Lawful extensions accepted parent context)
      ∧ h :: visits.map (·.left) = visits.map (·.seen) ++ [finish]
      ∧ children.forM (offerChild extensions accepted parent context) h = ((), finish)
      ∧ children.forM (offerChild (watchAll extensions) accepted parent context)
          (watchedHost h calls)
        = ((), watchedHost finish (calls ++ visits.flatMap (·.calls)))
  | [], h, calls => by
    refine ⟨[], h, rfl, by simp, rfl, rfl, ?_⟩
    rw [List.flatMap_nil, List.append_nil]
    rfl
  | child :: children, h, calls => by
    obtain ⟨v, hlawful, rfl, rfl, hplain, hwatched⟩ :=
      offerChild_watch extensions accepted parent context child h calls
    obtain ⟨visits, finish, rfl, hvisits, hthreaded, hrest, hrest'⟩ :=
      forM_offerChild_watch children v.left (calls ++ v.calls)
    refine ⟨v :: visits, finish, rfl, ?_, ?_, ?_, ?_⟩
    · simpa using ⟨hlawful, hvisits⟩
    · rw [List.map_cons, List.map_cons, List.cons_append, ← hthreaded]
    · rw [forM_cons_apply, hplain]
      exact hrest
    · rw [forM_cons_apply, hwatched, List.flatMap_cons, ← List.append_assoc]
      exact hrest'

end Children

/-- The children of an element are dealt with one after the other: one in the element's namespace
is refused without a call, any other one goes to the extensions of its namespace until one accepts
it, and is reported if none does. Attributes, elements and elements that may give a key path are
offered in the same way, except that the attributes of the markup standards are passed over. -/
theorem offers_first_claim (extensions : List (Extension σ)) (accepted : Intermediate)
    (context : Context) (e : Element) (h : Host σ) :
    (∃ visits : List (Visit σ), ∃ finish, visits.map (·.child) = e.children
        ∧ (∀ v ∈ visits, v.Lawful extensions accepted e context)
        ∧ h :: visits.map (·.left) = visits.map (·.seen) ++ [finish]
        ∧ offerChildren extensions accepted e context h = ((), finish)
        ∧ offerChildren (watchAll extensions) accepted e context (watchedHost h [])
          = ((), watchedHost finish (visits.flatMap (·.calls))))
      ∧ (∀ a : Attribute,
        (a.name.Standard → offerAttribute extensions accepted e context a h = ((), h)
          ∧ offerAttribute (watchAll extensions) accepted e context a (watchedHost h [])
            = ((), watchedHost h []))
        ∧ (¬ a.name.Standard → ∃ calls result finish,
          Routed (·.onAttribute accepted e a context) extensions a.name.space (.attribute e a)
            "E200" e.location h calls result finish
          ∧ offerAttribute extensions accepted e context a h = ((), finish)
          ∧ offerAttribute (watchAll extensions) accepted e context a (watchedHost h [])
            = ((), watchedHost finish calls)))
      ∧ ∀ parent : Element,
        (∃ calls result finish,
          Routed (·.onElement accepted parent e context) extensions e.name.space
            (.element parent e) "E202" e.location h calls result finish
          ∧ offerElement extensions accepted parent context e h = ((), finish)
          ∧ offerElement (watchAll extensions) accepted parent context e (watchedHost h [])
            = ((), watchedHost finish calls))
        ∧ ∃ calls result finish,
          Routed (·.onKeyPath accepted parent e context) extensions e.name.space
            (.keyPath parent e) "E202" e.location h calls result finish
          ∧ offerKeyPath extensions accepted parent context e h = (result.join, finish)
          ∧ offerKeyPath (watchAll extensions) accepted parent context e (watchedHost h [])
            = (result.join, watchedHost finish calls) := by
  refine ⟨forM_offerChild_watch extensions accepted e context e.children h [],
    fun a => ⟨fun ha => ?_, fun ha => ?_⟩, fun parent => ⟨?_, ?_⟩⟩
  · rw [← QName.isMarkupOnly_iff] at ha
    exact ⟨offerAttribute_skipped _ _ _ _ _ ha h, offerAttribute_skipped _ _ _ _ _ ha _⟩
  · rw [← QName.isMarkupOnly_iff] at ha
    rw [offerAttribute_eq _ _ _ _ _ ha, offerAttribute_eq _ _ _ _ _ ha]
    exact routed_route (p := .unexpectedAttribute e.name a.name) rfl
      (watches_onAttribute accepted e a context) a.name.space e.location _ extensions h []
  · rw [offerElement_eq, offerElement_eq]
    exact routed_route (p := .unhandledElement parent.name e.name) rfl
      (watches_onElement accepted parent e context) e.name.space e.location _ extensions h []
  · rw [offerKeyPath_eq, offerKeyPath_eq]
    exact routed_route (p := .unhandledElement parent.name e.name) rfl
      (watches_onKeyPath accepted parent e context) e.name.space e.location _ extensions h []

end Extension

end InstallerAnalysis

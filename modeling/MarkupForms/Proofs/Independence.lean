import MarkupForms.Proofs.Counting
import MarkupForms.Proofs.Handling
import MarkupForms.Session
import Mathlib.Data.List.Forall2

/-!
# Calls are independent

The calls of a session work on contexts that are made of data.  Such a context is a root: it takes
no new names and cannot be closed, so no handler gets at it, whatever frames it opens or closes and
wherever it binds names.  The count of nested calls, which all calls share, is back at zero after
each of them.  Hence calls leave no traces, and each of them is answered as if it were the only one,
also after calls that failed.

* `Context.Permission.shape` : names may be bound anywhere, but the root and the number of frames
  stay.
* `Renderer.closesWithin_shape` : that is all that handlers can do, whatever frames they close.
* `Session.allows_answer` : so no call for an evaluation does more.
* `Session.counts_answer` : the count is back after a call.
* `Session.perform_step`, `Session.performAll_run` : one call, and a sequence of calls, leave a
  session as it is.
* `Session.calls_independent` : every call is answered as if it were the only one.
-/

namespace MarkupForms

open Eval Eval.Logic

/-! ## Roots -/

/-- Whether two contexts have the same root and as many frames. -/
def Context.SameShape (c d : Context) : Prop :=
  d.root = c.root ∧ d.opened.length = c.opened.length

namespace Context

/-- Whether a context has no frame but its root. -/
def IsRoot (c : Context) : Prop :=
  c.opened = []

theorem SameShape.trans {c d e : Context} (h : c.SameShape d) (h' : d.SameShape e) :
    c.SameShape e :=
  ⟨h'.1.trans h.1, h'.2.trans h.2⟩

theorem SameShape.eq_of_isRoot {c d : Context} (h : c.SameShape d) (hc : c.IsRoot) : d = c := by
  obtain ⟨hroot, hlength⟩ := h
  have hopened : d.opened = [] := by
    rw [hc] at hlength
    exact List.length_eq_zero_iff.1 hlength
  cases c
  cases d
  simp_all [IsRoot]

/-- Names may be bound in any frame, but the root and the number of frames stay. -/
def Permission.shape : Permission where
  Outside := SameShape
  Inside := SameShape
  refl _ := ⟨rfl, rfl⟩
  trans := .trans
  inside_trans := .trans
  inside_of_outside h := h
  close f h := ⟨h.1, by simp [h.2, pushFrame]⟩
  bind h := by
    unfold Context.bind at h
    split at h
    · cases h
    · rename_i f outer hopened
      cases h
      exact ⟨rfl, by simp [hopened]⟩

/-- Frames that are closed for a while are opened again. -/
theorem Permission.allows_popping {α : Type} {m : Eval α} (h : shape.inside.Allows m)
    (times : Nat) : shape.inside.Allows (popping times m) := by
  refine fun c => ⟨?_, fun _ _ => trivial⟩
  show c.SameShape ((popping times m).run c).2
  rw [context_popping]
  split
  · rename_i hle
    have hbelow := (h { c with opened := c.opened.drop times }).1
    refine ⟨hbelow.1, ?_⟩
    rw [List.length_append, hbelow.2, ← List.length_append, List.take_append_drop]
  · exact ⟨rfl, rfl⟩

end Context

namespace Renderer

open Context.Permission

theorem closesWithin_shape (r : Renderer) : r.ClosesWithin .shape := by
  intro tag times bound _ h hh children
  have hrules := Handler.rules_permission .shape
  refine allows_popping (Allows.andThen (Handler.allows_bindIf hrules bound) fun _ => ?_) _
  exact allows_inside (Handler.allows_content fun n _ => hh.meaning n)

theorem respects_shape (r : Renderer) : r.top.Respects .shape :=
  respects_handle r.closesWithin_shape _

end Renderer

/-! ## Answers -/

namespace Session

open Context.Permission

theorem allows_toNode (L : Eval.Logic) (subject : Subject) : L.Allows subject.toNode := by
  cases subject with
  | node n => exact allows_pure _
  | source s => exact (allows_ofExcept L _ _).andThen fun _ => allows_pure _

theorem allows_onSubject {L : Eval.Logic} {α : Type} {f : Node → Eval α} {k : α → Answer}
    (subject : Subject) (hf : ∀ n, L.Allows (f n)) :
    L.Allows (do return k (← f (← subject.toNode))) :=
  (allows_toNode L subject).andThen fun n => (hf n).andThen fun _ => allows_pure _

/-- Whatever a call asks for, the root and the number of frames stay. -/
theorem allows_answer (r : Renderer) (call : Call) :
    Context.Permission.shape.outside.Allows (answer r call) := by
  have hr := r.respects_shape
  cases call with
  | render name =>
    rw [answer]
    split
    · exact Eval.Logic.throw _ _
    · exact (hr.render _).andThen fun _ => allows_pure _
  | renderText s =>
    refine Allows.andThen ?_ fun _ => allows_pure _
    exact (allows_ofExcept _ _ _).andThen fun form => hr.render form
  | renderNode n =>
    rw [answer]
    split
    · exact Eval.Logic.throw _ _
    · exact (hr.render _).andThen fun _ => allows_pure _
  | evaluate subject =>
    exact allows_onSubject subject fun n => allows_of_holds (hr.meaning n).evaluate
  | evaluateNodes ns =>
    have hall := allows_of_holds (holds_evaluateAll (Handler.obeys_children hr ns))
    exact hall.andThen fun _ => allows_pure _
  | text subject =>
    exact allows_onSubject subject fun n => allows_joined (allows_of_holds (hr.meaning n).evaluate)
  | operand subject => exact allows_onSubject subject fun n => (hr.meaning n).operand
  | attributeText subject escaping =>
    exact allows_onSubject subject fun n => (hr.meaning n).attributeText escaping
  | test subject => exact allows_onSubject subject fun n => (hr.meaning n).test
  | interpolate s escaping =>
    have hinterpolate :=
      allows_interpolate (r := r) (every_allowed (p := .shape) (.text s)).self escaping
    exact hinterpolate.andThen fun _ => allows_pure _
  | scalar name => exact (reads name).allows_scalar.andThen fun _ => allows_pure _
  | attributeOf attributes key =>
    refine Allows.andThen ?_ fun _ => allows_pure _
    unfold Renderer.attributeOf
    split
    · exact allows_pure _
    · exact ((hr.meaning _).attributeText true).andThen fun _ => allows_pure _
  | extend functions => exact allows_pure _

theorem counts_toNode (subject : Subject) : Counts 0 Eq subject.toNode subject.toNode := by
  cases subject with
  | node n => exact counts_pure rfl
  | source s => exact Pairing.andThen (R := counting 0) (counts_ofExcept _) fun _ => counts_pure rfl

theorem counts_onSubject {α : Type} {f : Node → EvalOn Counted α} {f' : Node → Eval α}
    {k : α → Answer} (subject : Subject) (hf : ∀ n, Counts 0 Eq (f n) (f' n)) :
    Counts 0 Eq (do return k (← f (← subject.toNode))) (do return k (← f' (← subject.toNode))) := by
  refine Pairing.andThen (R := counting 0) (counts_toNode subject) fun n => ?_
  exact Pairing.andThen (R := counting 0) (hf n) fun _ => counts_pure rfl

/-- Whatever a call asks for, outside of all calls it is answered with a count as it is without one,
and the count is back. -/
theorem counts_answer (r : Renderer) (call : Call) :
    Counts 0 Eq (answer r call) (answer r call) := by
  have hr := r.counts_top 0
  have hthen {α : Type} {m : EvalOn Counted α} {m' : Eval α} {k : α → Answer}
      (h : Counts 0 Eq m m') : Counts 0 Eq (do return k (← m)) (do return k (← m')) :=
    Pairing.andThen (R := counting 0) h fun _ => counts_pure rfl
  cases call with
  | render name =>
    rw [answer, answer]
    split
    · exact counts_throw _
    · exact hthen (hr.render _)
  | renderText s =>
    refine hthen (Pairing.andThen (R := counting 0) (counts_ofExcept _) fun form => ?_)
    exact hr.render form
  | renderNode n =>
    rw [answer, answer]
    split
    · exact counts_throw _
    · exact hthen (hr.render _)
  | evaluate subject => exact counts_onSubject subject fun n => (hr.meaning n).evaluate
  | evaluateNodes ns =>
    exact hthen (pairs_evaluateAll (R := counting 0) (W := .same) (.map fun n _ => hr.meaning n))
  | text subject =>
    exact counts_onSubject subject fun n =>
      Pairing.joined_eq (R := counting 0) (hr.meaning n).evaluate
  | operand subject => exact counts_onSubject subject fun n => (hr.meaning n).operand trivial
  | attributeText subject escaping =>
    refine counts_onSubject subject fun n => ?_
    cases escaping with
    | true => exact (hr.meaning n).attributeText
    | false => exact (hr.meaning n).raw trivial
  | test subject => exact counts_onSubject subject fun n => (hr.meaning n).test
  | interpolate s escaping => exact hthen (Pairing.interpolate (R := counting 0) rfl escaping s)
  | scalar name => exact hthen (Pairing.scalar_eq (R := counting 0) name)
  | attributeOf attributes key =>
    refine hthen ?_
    unfold Renderer.attributeOf
    split
    · exact counts_pure rfl
    · exact Pairing.andThen (R := counting 0) (hr.meaning _).attributeText fun _ => counts_pure rfl
  | extend functions => exact counts_pure rfl

/-! ## One call -/

/-- Whether a call asks for an evaluation. -/
def Call.Evaluates : Call → Prop
  | .extend _ => False
  | _ => True

instance (call : Call) : Decidable call.Evaluates := by
  cases call <;> unfold Call.Evaluates <;> infer_instance

theorem perform_of_evaluates (s : Session) (slot : Option String) {call : Call}
    (h : call.Evaluates) :
    s.perform slot call =
      (s.putBack slot ((answer s.renderer call).run (s.stateFor slot)).2,
        ((answer s.renderer call).run (s.stateFor slot)).1.mapError .failure) := by
  cases call with
  | extend functions => exact h.elim
  | _ => simp only [perform]

/-- Whether no call is under way in a session and all its contexts are roots. -/
structure AtRest (s : Session) : Prop where
  /-- No call is nested. -/
  nested : s.nested = 0
  /-- All contexts are roots. -/
  roots : ∀ slot, (s.contextOf slot).IsRoot

/-- Whether two sessions have the same renderer, the same contexts and the same count. -/
structure Same (s t : Session) : Prop where
  /-- They have the same renderer. -/
  renderer : t.renderer = s.renderer
  /-- They have the same contexts. -/
  contexts : ∀ slot, t.contextOf slot = s.contextOf slot
  /-- They have the same count of nested calls. -/
  nested : t.nested = s.nested

theorem Same.refl (s : Session) : s.Same s :=
  ⟨rfl, fun _ => rfl, rfl⟩

theorem Same.trans {s t u : Session} (h : s.Same t) (h' : t.Same u) : s.Same u :=
  ⟨h'.renderer.trans h.renderer, fun slot => (h'.contexts slot).trans (h.contexts slot),
    h'.nested.trans h.nested⟩

theorem AtRest.of_same {s t : Session} (hs : s.AtRest) (h : s.Same t) : t.AtRest :=
  ⟨h.nested.trans hs.nested, fun slot => by rw [h.contexts slot]; exact hs.roots slot⟩

/-- Putting back what a call has found changes nothing. -/
theorem same_putBack (s : Session) (slot : Option String) :
    s.Same (s.putBack slot (s.stateFor slot)) := by
  refine ⟨rfl, fun other => ?_, rfl⟩
  cases slot with
  | none => rfl
  | some name =>
    cases other with
    | none => rfl
    | some n =>
      show ((Entries.put name _ s.contexts).lookup n).getD .empty = _
      rw [Entries.lookup_put]
      split
      · rename_i hn
        rw [hn]
        rfl
      · rfl

/-- A call leaves what it works on as it is, if this is a root and no call is nested. -/
theorem run_answer {s : Session} (hs : s.AtRest) (slot : Option String) (call : Call) :
    ((answer s.renderer call).run (s.stateFor slot)).2 = s.stateFor slot := by
  rw [stateFor, hs.nested, (counts_answer s.renderer call).run_eq,
    ((allows_answer s.renderer call _).1).eq_of_isRoot (hs.roots slot)]

/-- **One call.**  A call for an evaluation leaves a session as it is, with its contexts and its
count of nested calls, as long as no call is under way and the contexts are roots. -/
theorem perform_step {s : Session} (hs : s.AtRest) (slot : Option String) {call : Call}
    (h : call.Evaluates) : s.Same (s.perform slot call).1 := by
  rw [perform_of_evaluates s slot h, run_answer hs]
  exact s.same_putBack slot

/-! ## Sequences of calls -/

/-- Make calls one after the other. -/
def performAll (s : Session) : List (Option String × Call) → Session × List (Except Problem Answer)
  | [] => (s, [])
  | (slot, call) :: rest =>
      let (after, a) := s.perform slot call
      let (last, as) := after.performAll rest
      (last, a :: as)

/-- **A sequence of calls.**  Calls for evaluations leave a session as it is. -/
theorem performAll_run {s : Session} (hs : s.AtRest) {calls : List (Option String × Call)}
    (h : ∀ c ∈ calls, c.2.Evaluates) : s.Same (s.performAll calls).1 := by
  induction calls generalizing s with
  | nil => exact .refl s
  | cons c calls ih =>
    obtain ⟨slot, call⟩ := c
    have hfirst := perform_step hs slot (h _ List.mem_cons_self)
    exact hfirst.trans (ih (hs.of_same hfirst) fun c hc => h c (List.mem_cons_of_mem _ hc))

/-- The answer to a call depends on the renderer, on the context that it works on and on the count
of nested calls. -/
theorem perform_answer_congr {s t : Session} {slot : Option String} {call : Call}
    (h : call.Evaluates) (hrenderer : t.renderer = s.renderer)
    (hstate : t.stateFor slot = s.stateFor slot) :
    (t.perform slot call).2 = (s.perform slot call).2 := by
  rw [perform_of_evaluates t slot h, perform_of_evaluates s slot h, hrenderer, hstate]

/-- Calls are answered as if each of them were the first. -/
theorem answers_performAll {s t : Session} (hs : s.AtRest) (hst : s.Same t)
    {calls : List (Option String × Call)} (h : ∀ c ∈ calls, c.2.Evaluates) :
    (t.performAll calls).2 = calls.map fun c => (s.perform c.1 c.2).2 := by
  induction calls generalizing t with
  | nil => rfl
  | cons c calls ih =>
    obtain ⟨slot, call⟩ := c
    have hcall : call.Evaluates := h _ List.mem_cons_self
    have hstate : t.stateFor slot = s.stateFor slot := by
      rw [stateFor, stateFor, hst.contexts, hst.nested]
    have hafter := perform_step (hs.of_same hst) slot hcall
    have hrest := ih (hst.trans hafter) fun c hc => h c (List.mem_cons_of_mem _ hc)
    rw [List.map_cons, ← perform_answer_congr hcall hst.renderer hstate, ← hrest]
    rfl

/-! ## Contexts that are made of data -/

/-- The contexts that are made of data, under their names. -/
def contextsOf? : List (String × Pairs) → Except DataError (List (String × Context))
  | [] => .ok []
  | (name, pairs) :: rest => do
      let c ← Context.ofPairs? pairs
      return (name, c) :: (← contextsOf? rest)

/-- The session with contexts that are made of data. -/
def ofData? (r : Renderer) (data : List (String × Pairs)) : Except DataError Session :=
  (contextsOf? data).map fun contexts => { renderer := r, contexts }

/-- The data for the one context that a call works on. -/
def dataFor (data : List (String × Pairs)) (slot : Option String) : List (String × Pairs) :=
  (slot.bind fun name => (data.lookup name).map fun pairs => (name, pairs)).toList

theorem ofData?_single (r : Renderer) (name : String) {pairs : Pairs} {c : Context}
    (hc : Context.ofPairs? pairs = .ok c) :
    ofData? r [(name, pairs)] = .ok ⟨r, [(name, c)], 0⟩ := by
  rw [ofData?, contextsOf?, hc]
  rfl

theorem contextsOf?_cons {name : String} {pairs : Pairs} {rest : List (String × Pairs)}
    {contexts : List (String × Context)} (h : contextsOf? ((name, pairs) :: rest) = .ok contexts) :
    ∃ c more, Context.ofPairs? pairs = .ok c ∧ contextsOf? rest = .ok more ∧
      contexts = (name, c) :: more := by
  rw [contextsOf?] at h
  cases hc : Context.ofPairs? pairs with
  | error e => rw [hc] at h; cases h
  | ok c =>
    cases hmore : contextsOf? rest with
    | error e => rw [hc, hmore] at h; cases h
    | ok more =>
      rw [hc, hmore] at h
      cases h
      exact ⟨c, more, rfl, rfl, rfl⟩

/-- A name has a context exactly when it has data, and the context is made of that data. -/
theorem lookup_contextsOf? {data : List (String × Pairs)} {contexts : List (String × Context)}
    (h : contextsOf? data = .ok contexts) (name : String) :
    (data.lookup name = none ∧ contexts.lookup name = none) ∨
      ∃ pairs c, data.lookup name = some pairs ∧ contexts.lookup name = some c ∧
        Context.ofPairs? pairs = .ok c := by
  induction data generalizing contexts with
  | nil =>
    cases h
    exact .inl ⟨rfl, rfl⟩
  | cons e data ih =>
    obtain ⟨c, more, hc, hmore, rfl⟩ := contextsOf?_cons h
    rw [Entries.lookup_cons_eq, Entries.lookup_cons_eq]
    split
    · exact .inr ⟨e.2, c, rfl, rfl, hc⟩
    · exact ih hmore

theorem isRoot_of_ofPairs? {pairs : Pairs} {c : Context} (h : Context.ofPairs? pairs = .ok c) :
    c.IsRoot := by
  unfold Context.ofPairs? at h
  cases hentries : Data.toEntries? pairs with
  | error e => rw [hentries] at h; cases h
  | ok entries =>
    rw [hentries] at h
    cases h
    rfl

/-- No call is under way in a session that is made of data, and its contexts are roots. -/
theorem atRest_of_ofData? {r : Renderer} {data : List (String × Pairs)} {s : Session}
    (hs : ofData? r data = .ok s) : s.AtRest := by
  unfold ofData? at hs
  cases hcontexts : contextsOf? data with
  | error e => rw [hcontexts] at hs; cases hs
  | ok contexts =>
    rw [hcontexts] at hs
    cases hs
    refine ⟨rfl, fun slot => ?_⟩
    match slot with
    | none => rfl
    | some name =>
      rcases lookup_contextsOf? hcontexts name with ⟨-, hnone⟩ | ⟨pairs, c, -, hsome, hc⟩
      · simp [contextOf, hnone, Context.IsRoot, Context.empty]
      · simp [contextOf, hsome, isRoot_of_ofPairs? hc]

/-- What a call works on is made of the data for it alone. -/
theorem exists_fresh {r : Renderer} {data : List (String × Pairs)} {s : Session}
    (hs : ofData? r data = .ok s) (slot : Option String) :
    ∃ fresh, ofData? r (dataFor data slot) = .ok fresh ∧ fresh.renderer = s.renderer ∧
      fresh.stateFor slot = s.stateFor slot := by
  unfold ofData? at hs
  cases hcontexts : contextsOf? data with
  | error e => rw [hcontexts] at hs; cases hs
  | ok contexts =>
    rw [hcontexts] at hs
    cases hs
    match slot with
    | none => exact ⟨⟨r, [], 0⟩, rfl, rfl, rfl⟩
    | some name =>
      rcases lookup_contextsOf? hcontexts name with ⟨hdata, hnone⟩ | ⟨pairs, c, hdata, hsome, hc⟩
      · refine ⟨⟨r, [], 0⟩, ?_, rfl, ?_⟩
        · rw [dataFor, Option.bind_some, hdata]
          rfl
        · simp [stateFor, contextOf, hnone]
      · refine ⟨⟨r, [(name, c)], 0⟩, ?_, rfl, ?_⟩
        · rw [dataFor, Option.bind_some, hdata]
          exact ofData?_single r name hc
        · simp [stateFor, contextOf, hsome]

/-- **Independence.**  In a session with contexts that are made of data, with any handlers, each of
a sequence of calls for evaluations is answered as it is when it is the only call, with a context
that is made of the same data; and after each of them, however it ended, all contexts and the count
of nested calls are as they were. -/
theorem calls_independent {r : Renderer} {data : List (String × Pairs)} {s : Session}
    (hs : ofData? r data = .ok s) {calls : List (Option String × Call)}
    (h : ∀ c ∈ calls, c.2.Evaluates) :
    List.Forall₂ (fun c a => ∃ fresh, ofData? r (dataFor data c.1) = .ok fresh ∧
        a = (fresh.perform c.1 c.2).2) calls (s.performAll calls).2 ∧
      ∀ before after, calls = before ++ after →
        (s.performAll before).1.nested = s.nested ∧
          ∀ slot, (s.performAll before).1.contextOf slot = s.contextOf slot := by
  have hrest : s.AtRest := atRest_of_ofData? hs
  constructor
  · rw [answers_performAll hrest (.refl s) h, List.forall₂_map_right_iff]
    refine List.forall₂_same.2 fun c hc => ?_
    obtain ⟨fresh, hfresh, hrenderer, hstate⟩ := exists_fresh hs c.1
    exact ⟨fresh, hfresh, (perform_answer_congr (h c hc) hrenderer hstate).symm⟩
  · rintro before after rfl
    have hbefore : ∀ c ∈ before, c.2.Evaluates := fun c hc => h c (List.mem_append_left after hc)
    have hsame := performAll_run hrest hbefore
    exact ⟨hsame.nested, hsame.contexts⟩

/-- A renderer with a handler that closes two frames and binds `x` then. -/
def leaking : Renderer where
  config := .standard
  registry := ⟨[("leak", .popping 2 (some ("x", .ok (.text "2")))), ("try", .catching)], by decide⟩
  templates := []

/-- Three calls with the same context. -/
def leakingCalls : List (Option String × Call) :=
  [(some "page", .evaluate (.node (.tag "try" none [.tag "leak" none []]))),
    (some "page", .test (.node (.var "x"))), (some "page", .text (.node (.var "x")))]

/-- The first call fails on the way, the second one fails, and the third one still finds the value
of `x`. -/
theorem leakingCalls_independent :
    ∃ s, ofData? leaking [("page", [(.text "x", .text "1")])] = .ok s ∧
      (s.performAll leakingCalls).2 = [.ok (.texts ["[", "HandlerError", "]"]),
        .error (.failure (.render (.invalidCondition "$x"))), .ok (.text (some "1"))] ∧
      List.Forall₂ (fun c a =>
        ∃ fresh, ofData? leaking (dataFor [("page", [(.text "x", .text "1")])] c.1) = .ok fresh ∧
          a = (fresh.perform c.1 c.2).2) leakingCalls (s.performAll leakingCalls).2 :=
  ⟨⟨leaking, [("page", .ofList [("x", .scalar "1")])], 0⟩, rfl, rfl,
    (calls_independent rfl (by decide)).1⟩

end Session

end MarkupForms

import MarkupForms.Proofs.Calling

/-!
# Two runs that end alike

Two evaluations are run in the same context.  Either both yield related results, or both fail with
failures that they may share, and the context afterwards is the same; or the first one ends in a
failure that stops it, and nothing is said of the second one.  Which failures are of which kind is
up to the endings.

A handler works through a handle.  Two calls of it end alike if what it may ask of the two handles
does: the meanings of its attributes and children, and the form that it may have rendered.  Inside
of a call faults are possible that never leave it, so a call has endings of its own.

* `Eval.Endings`, `Eval.Runs` : two runs that end alike; `Eval.Endings.pairing` : a pairing.
* `Handler.runs_call` : two calls of a handler.
* `Handle.Alike`, `Renderer.Nests` : two handles that give the same, and calls nested in them.
-/

namespace MarkupForms

namespace Eval

/-! ## Endings -/

/-- How two runs may end without results. -/
structure Endings where
  /-- The first run ends in this failure, and nothing is said of the second one. -/
  stops : Failure → Prop
  /-- The two runs end in these failures. -/
  shared : Failure → Failure → Prop
  /-- Errors that blame no handler are shared. -/
  unblamed : ∀ {e : RenderError}, e.blamed? = none → shared (.render e) (.render e)
  /-- The nodes that the two runs come upon. -/
  Visits : Node → Prop := fun _ => True

/-- Whether two runs end alike. -/
inductive Endings.Meet (E : Endings) {α β : Type} (P : α → β → Prop) :
    Except Failure α × Context → Except Failure β × Context → Prop where
  /-- Both yield results. -/
  | ok {a : α} {b : β} {c : Context} (h : P a b) : Meet E P (.ok a, c) (.ok b, c)
  /-- Both fail. -/
  | failed {f f' : Failure} {c : Context} (h : E.shared f f') :
      Meet E P (.error f, c) (.error f', c)
  /-- The first one is stopped. -/
  | stopped {f : Failure} {c : Context} {o : Except Failure β × Context} (h : E.stops f) :
      Meet E P (.error f, c) o

/-- Whether two computations end alike in every context. -/
def Runs (E : Endings) {α β : Type} (P : α → β → Prop) (m : Eval α) (m' : Eval β) : Prop :=
  ∀ c, E.Meet P (m.run c) (m'.run c)

variable {E E' : Endings} {α β γ δ : Type} {P : α → β → Prop} {Q : γ → δ → Prop} {m : Eval α}
  {m' : Eval β}

theorem runs_pure {a : α} {b : β} (h : P a b) : Runs E P (pure a) (pure b) :=
  fun _ => .ok h

theorem runs_throw {f f' : Failure} (h : E.shared f f') : Runs E P (throw f) (throw f') :=
  fun _ => .failed h

theorem Runs.bind {k : α → Eval γ} {k' : β → Eval δ} (h : Runs E P m m')
    (hk : ∀ a b, P a b → Runs E Q (k a) (k' b)) : Runs E Q (m >>= k) (m' >>= k') := by
  intro c
  rw [run_bind, run_bind]
  have hc := h c
  generalize m.run c = x at hc
  generalize m'.run c = y at hc
  cases hc with
  | ok hab => exact hk _ _ hab _
  | failed hf => exact .failed hf
  | stopped hf => exact .stopped hf

theorem Runs.andThen {k : α → Eval γ} {k' : α → Eval δ} {m m' : Eval α} (h : Runs E Eq m m')
    (hk : ∀ a, Runs E Q (k a) (k' a)) : Runs E Q (m >>= k) (m' >>= k') := by
  refine h.bind fun a b hab => ?_
  subst hab
  exact hk a

/-- A computation that only fails as two runs may fail ends like itself. -/
theorem runs_self {m : Eval α} (h : ∀ c f, (m.run c).1 = .error f → E.shared f f) :
    Runs E Eq m m := by
  intro c
  have hc := h c
  generalize m.run c = x at hc
  obtain ⟨o, after⟩ := x
  cases o with
  | ok a => exact .ok rfl
  | error f => exact .failed (hc f rfl)

/-- A computation that never fails ends like itself. -/
theorem runs_of_ok {m : Eval α} (h : ∀ c, ∃ a, (m.run c).1 = .ok a) : Runs E Eq m m := by
  refine runs_self fun c f hf => ?_
  obtain ⟨a, ha⟩ := h c
  cases ha.symm.trans hf

theorem runs_context : Runs E Eq context context :=
  runs_of_ok fun c => ⟨c, rfl⟩

theorem runs_ofExcept {ε : Type} {wrap : ε → Failure} (h : ∀ e, E.shared (wrap e) (wrap e))
    (o : Except ε α) : Runs E Eq (ofExcept wrap o) (ofExcept wrap o) := by
  cases o with
  | ok a => exact runs_pure rfl
  | error e => exact runs_throw (h e)

/-- What is known of the results of two runs that end alike. -/
theorem Runs.imp {P' : α → β → Prop} (h : Runs E P m m')
    (hP : ∀ c d a b, m.run c = (.ok a, d) → m'.run c = (.ok b, d) → P a b → P' a b) :
    Runs E P' m m' := by
  intro c
  have hc := h c
  have himp := hP c
  generalize m.run c = x at hc himp
  generalize m'.run c = y at hc himp
  cases hc with
  | ok hab => exact .ok (himp _ _ _ rfl rfl hab)
  | failed hf => exact .failed hf
  | stopped hf => exact .stopped hf

/-! ## Frames and failures -/

theorem Runs.inChild (h : Runs E P m m') (f : Frame) :
    Runs E P (Eval.inChild f m) (Eval.inChild f m') := by
  intro c
  rw [run_inChild, run_inChild]
  have hc := h (c.pushFrame f)
  generalize m.run (c.pushFrame f) = x at hc
  generalize m'.run (c.pushFrame f) = y at hc
  cases hc with
  | ok hab => exact .ok hab
  | failed hf => exact .failed hf
  | stopped hf => exact .stopped hf

theorem Runs.within (h : Runs E P m m') (other : Context) :
    Runs E P (Eval.within other m) (Eval.within other m') := by
  intro c
  rw [run_within, run_within]
  have hc := h other
  generalize m.run other = x at hc
  generalize m'.run other = y at hc
  cases hc with
  | ok hab => exact .ok hab
  | failed hf => exact .failed hf
  | stopped hf => exact .stopped hf

theorem run_popping (times : Nat) (m : Eval α) (c : Context) :
    (popping times m).run c =
      if times ≤ c.opened.length then
        ((m.run { c with opened := c.opened.drop times }).1,
          { (m.run { c with opened := c.opened.drop times }).2 with
            opened := c.opened.take times ++
              (m.run { c with opened := c.opened.drop times }).2.opened })
      else (.error (.fault (.scope .atRoot)), c) := rfl

theorem Runs.popping (h : Runs E P m m') (hfault : ∀ f, E.shared (.fault f) (.fault f))
    (times : Nat) : Runs E P (Eval.popping times m) (Eval.popping times m') := by
  intro c
  rw [run_popping, run_popping]
  split
  · have hc := h { c with opened := c.opened.drop times }
    generalize m.run { c with opened := c.opened.drop times } = x at hc
    generalize m'.run { c with opened := c.opened.drop times } = y at hc
    cases hc with
    | ok hab => exact .ok hab
    | failed hf => exact .failed hf
    | stopped hf => exact .stopped hf
  · exact .failed (hfault _)

/-- A call of a handler: what its failures are once they have left it. -/
theorem Runs.guarded (h : Runs E' P m m') {tag : String}
    (hstops : ∀ {f}, E'.stops f → E.stops (f.leaving tag))
    (hshared : ∀ {c d f f'}, m.run c = (.error f, d) → m'.run c = (.error f', d) → E'.shared f f' →
      E.shared (f.leaving tag) (f'.leaving tag)) :
    Runs E P (Eval.guarded tag m) (Eval.guarded tag m') := by
  intro c
  rw [Eval.guarded, Eval.guarded, run_tryCatch, run_tryCatch]
  have hc := h c
  have hleave := @hshared c
  generalize m.run c = x at hc hleave
  generalize m'.run c = y at hc hleave
  cases hc with
  | ok hab => exact .ok hab
  | failed hf => exact .failed (hleave rfl rfl hf)
  | stopped hf => exact .stopped (hstops hf)

/-! ## Calls inside of evaluations -/

/-- Whether endings are those of calls of handlers, in which other evaluations take place: what
may end these may end the call, and so may any fault. -/
structure Endings.Called (E E' : Endings) : Prop where
  /-- What stops an evaluation stops the call. -/
  stops : ∀ {f}, E.stops f → E'.stops f
  /-- Evaluations may end the call. -/
  shared : ∀ {f f'}, E.shared f f' → E'.shared f f'
  /-- Faults may end the call. -/
  fault : ∀ f, E'.shared (.fault f) (.fault f)

/-- An evaluation in a call. -/
theorem Runs.called (h : Runs E P m m') (hE : E.Called E') : Runs E' P m m' := by
  intro c
  have hc := h c
  generalize m.run c = x at hc
  generalize m'.run c = y at hc
  cases hc with
  | ok hab => exact .ok hab
  | failed hf => exact .failed (hE.shared hf)
  | stopped hf => exact .stopped (hE.stops hf)

/-- The pairing of runs that end alike. -/
def Endings.pairing (E : Endings) : Pairing where
  Pairs := Runs E
  Known _ := True
  Legible n :=
    E.Visits n ∧ (n.toText? = none → E.shared (.fault .unprintable) (.fault .unprintable))
  pure h := runs_pure h
  bind h hk := h.bind hk
  fail h := runs_throw (E.unblamed h)
  inChild _ h := h.inChild _
  resolve path := by
    have hofPath (e : PathError) : (RenderError.ofPath e).blamed? = none := by cases e <;> rfl
    have hresolve : Runs E Eq (Eval.resolve path) (Eval.resolve path) :=
      runs_context.andThen fun c => runs_ofExcept (fun e => E.unblamed (hofPath e)) _
    exact hresolve.imp fun _ _ _ _ _ _ hvw => ⟨hvw, trivial⟩
  isSet name := runs_of_ok fun c => ⟨c.isSet name, rfl⟩
  written {n} hn := by
    unfold Eval.written
    cases h : n.toText? with
    | some s => exact runs_pure rfl
    | none => exact runs_throw (hn.2 h)
  item _ _ _ := trivial
  entry _ _ _ := ⟨trivial, trivial⟩
  number _ := trivial

/-! ## Endings that leaving a handler does not change -/

/-- Whether it makes no difference to endings that failures leave handlers, and any fault may end an
evaluation. -/
structure Endings.Closed (E : Endings) : Prop where
  /-- The runs may come upon every node. -/
  visits : ∀ n, E.Visits n
  /-- Every fault may be shared. -/
  fault : ∀ f, E.shared (.fault f) (.fault f)
  /-- What stops a run stops it outside of a handler. -/
  stops : ∀ {f}, E.stops f → ∀ tag, E.stops (f.leaving tag)
  /-- What is shared is shared outside of a handler. -/
  shared : ∀ {f f'}, E.shared f f' → ∀ tag, E.shared (f.leaving tag) (f'.leaving tag)

namespace Endings.Closed

variable (hE : E.Closed)
include hE

theorem called : E.Called E :=
  ⟨id, id, hE.fault⟩

/-- All trees may be shown. -/
theorem every_suits (n : Node) : n.Every (Node.Suits E.pairing .same) := fun _ _ =>
  ⟨⟨hE.visits _, fun _ => hE.fault _⟩, fun _ _ _ _ _ _ _ => trivial,
    fun _ _ _ _ _ _ _ => trivial, fun _ _ _ _ _ _ => trivial⟩

theorem runs_guarded {P : α → β → Prop} {m : Eval α} {m' : Eval β} (h : Runs E P m m')
    (tag : String) : Runs E P (Eval.guarded tag m) (Eval.guarded tag m') :=
  h.guarded (fun hf => hE.stops hf tag) fun _ _ hf => hE.shared hf tag

end Endings.Closed

/-! ## Runs that do not differ -/

/-- The two runs do not differ at all. -/
def Endings.exact : Endings where
  stops _ := False
  shared := Eq
  unblamed _ := rfl

theorem Runs.eq {α : Type} {m m' : Eval α} (h : Runs .exact Eq m m') : m = m' := by
  funext c
  have hmeet := h c
  show m.run c = m'.run c
  generalize m.run c = x at hmeet
  generalize m'.run c = y at hmeet
  cases hmeet with
  | ok hab => rw [hab]
  | failed hf => rw [show _ = _ from hf]
  | stopped hf => exact hf.elim

theorem runs_refl {α : Type} (m : Eval α) : Runs .exact Eq m m :=
  runs_self fun _ _ _ => rfl

end Eval

open Eval

theorem Meaning.paired_refl (m : Meaning) : m.Paired Endings.exact.pairing .same m where
  node := rfl
  legible := ⟨trivial, fun _ => rfl⟩
  evaluate := runs_refl _
  attributeText := runs_refl _
  raw _ := runs_refl _
  test := runs_refl _
  arm _ _ _ := by
    cases m.arm with
    | none => exact .none
    | some arm => exact .some ⟨runs_refl _, runs_refl _⟩

theorem Eval.runs_scalar {E : Endings} (path : String) : Runs E Eq (scalar path) (scalar path) :=
  Pairing.scalar_eq (R := E.pairing) path

/-! ## Handlers -/

/-- The judgement on calls. -/
theorem Eval.Endings.Called.pairing {E E' : Endings} (hE : E.Called E') :
    E.pairing.Called E'.pairing where
  context := runs_context
  enter h := h.called hE
  fault f := runs_throw (hE.fault f)
  bindValue name v := by
    refine runs_self fun c f hf => ?_
    rw [run_bindValue] at hf
    cases hbind : c.bind name v with
    | ok after => rw [hbind] at hf; cases hf
    | error e =>
      rw [hbind] at hf
      cases hf
      exact hE.fault _
  inChild f h := h.inChild f
  popping times h := h.popping hE.fault times
  within other h := h.within other

/-- Whether the two runs never end in different failures. -/
structure Eval.Endings.AreEqual (E : Endings) : Prop where
  /-- Neither run is stopped. -/
  goes_on : ∀ f, ¬ E.stops f
  /-- Failures are the same. -/
  eq : ∀ {f f'}, E.shared f f' → f = f'

/-- Errors are caught on both sides if the two runs end in the same ones. -/
theorem Eval.Endings.AreEqual.attempts {E : Endings} (hE : E.AreEqual) : E.pairing.Attempts := by
  intro α m m' hm c
  have hok : Runs E Eq (do return Except.ok (ε := RenderError) (← m))
      (do return Except.ok (← m')) := hm.andThen fun _ => runs_pure rfl
  rw [attempt, attempt, run_tryCatch, run_tryCatch]
  have hc := hok c
  generalize EvalOn.run _ c = x at hc
  generalize EvalOn.run _ c = y at hc
  cases hc with
  | ok hab => exact .ok hab
  | stopped hf => exact absurd hf (hE.goes_on _)
  | @failed f f' _ hf =>
    obtain rfl := hE.eq hf
    cases f with
    | render e => exact .ok rfl
    | fault f => exact .failed hf

namespace Handler

variable {E E' : Endings} {r r' : Renderer} {handler : Handler} {attributes : Attributes}
  {children : List Node} {h h' : Handle}

/-- Two truth values of a predicate. -/
theorem runs_holds {ms ms' : List Meaning} (hms : AllPaired E.pairing .same ms ms')
    (hE : E.Called E') {p : Predicate}
    (hraises : ∀ e, p = .raising (.render e) → E'.shared (.render e) (.render e)) :
    Runs E' Eq (p.holds ms) (p.holds ms') :=
  pairs_holds hE.pairing hms fun e he => runs_throw (hraises e he)

/-- Two calls of a handler end alike if what it may ask of the two handles does. -/
theorem runs_call (hasks : Asks E.pairing r handler attributes children h h') (hE : E.Called E')
    (htemplates : r'.templates = r.templates)
    (hraises : ∀ e, handler.Raises e → E'.shared (.render e) (.render e))
    (hcatches : handler.Catches → E'.AreEqual) :
    Runs E' Eq (handler.call r h attributes children) (handler.call r' h' attributes children) :=
  pairs_call hE.pairing hasks htemplates (fun e he => runs_throw (hraises e he))
    fun h => (hcatches h).attempts

end Handler

/-! ## Nested calls -/

/-- Whether whatever two handles give ends alike, on trees that may be shown. -/
structure Handle.Alike (E : Endings) (h h' : Handle) : Prop where
  /-- Meanings of nodes. -/
  meaning : h.Paired E.pairing .same h'
  /-- Forms that are rendered. -/
  render : ∀ form : Form, form.toNode.Every (Node.Suits E.pairing .same) →
    Runs E Eq (h.render form) (h'.render form)

/-- What a handler may ask of two handles that give the same, if the nodes and forms that it may ask
about may be shown. -/
theorem Handle.Alike.asks {E : Endings} {r : Renderer} {h h' : Handle} (hh : h.Alike E h')
    {tag : String} {attributes : Option Attributes} {children : List Node}
    (hn : (Node.tag tag attributes children).Every (Node.Suits E.pairing .same)) {handler : Handler}
    (hforms : ∀ form ∈ handler.forms r (attributes.getD []) children,
      form.toNode.Every (Node.Suits E.pairing .same))
    (hnodes : ∀ n ∈ handler.nodes (attributes.getD []) children,
      n.Every (Node.Suits E.pairing .same)) :
    handler.Asks E.pairing r (attributes.getD []) children h h' where
  form form hform := hh.render form (hforms form hform)
  node n hmem := hh.meaning.meaning n (hnodes n hmem)
  children := .map fun n hmem => hh.meaning.meaning n (hn.child hmem)
  attributes a ha := hh.meaning.meaning a.2 (hn.value ha)

namespace Renderer

variable {E E' : Endings} {r r' : Renderer} {inner inner' : Option Handle}

/-- How two renderers may nest calls. -/
inductive Nests (E : Endings) (r r' : Renderer) : Option Handle → Option Handle → Prop where
  /-- There is room on both sides. -/
  | room {h h' : Handle} (hh : h.Alike E h') : Nests E r r' (some h) (some h')
  /-- There is no room on both sides. -/
  | full (hlimit : ∀ tag, E.shared (.render (.recursionLimit r.config.limit tag))
      (.render (.recursionLimit r'.config.limit tag))) : Nests E r r' none none
  /-- That there is no room stops the first one. -/
  | stopped {inner' : Option Handle}
      (hlimit : ∀ tag, E.stops (.render (.recursionLimit r.config.limit tag))) :
      Nests E r r' none inner'

/-- Nested calls that end alike. -/
theorem Nests.runs {α : Type} {P : α → α → Prop} (hnest : Nests E r r' inner inner')
    (hE : ∀ {f f'}, E.shared f f' → E'.shared f f') (hstops : ∀ {f}, E.stops f → E'.stops f)
    (tag : String) {body body' : Handle → Eval α}
    (hbody : ∀ h ∈ inner, ∀ h' ∈ inner', h.Alike E h' → Runs E' P (body h) (body' h')) :
    Runs E' P (r.nested inner tag body) (r'.nested inner' tag body') := by
  cases hnest with
  | room hh => exact hbody _ rfl _ rfl hh
  | full hlimit => exact runs_throw (hE (hlimit tag))
  | stopped hlimit => exact fun c => .stopped (hstops (hlimit tag))

/-- Rendering a form. -/
theorem Nests.runs_render (hnest : Nests E r r' inner inner')
    (hdoctype : r'.config.doctype = r.config.doctype) {form : Form}
    (hform : form.toNode.Every (Node.Suits E.pairing .same)) :
    Runs E Eq ((r.layer fun _ => inner).render form) ((r'.layer fun _ => inner').render form) := by
  refine hnest.runs id id form.tag fun h _ h' _ hh => ?_
  have htext := Pairing.joined (R := E.pairing) (W := .same) (hh.meaning.meaning _ hform).evaluate
  refine Runs.andThen htext fun text => runs_pure ?_
  rw [preamble, preamble, hdoctype]

/-- The fragments of a reply. -/
theorem runs_fragments {tag : String} {reply : Reply}
    (hforeign : ∀ (ss : List String) typeName ps,
      reply = .parts (ss.map .text ++ .foreign typeName :: ps) →
        E.shared (.render (.handlerFailed tag (.fault (.notText typeName))))
          (.render (.handlerFailed tag (.fault (.notText typeName)))))
    (hnumber : reply = .number →
      E.shared (.fault (.notIterable "int")) (.fault (.notIterable "int"))) :
    Runs E Eq (reply.fragments tag) (reply.fragments tag) :=
  pairs_fragments (R := E.pairing) (fun ss typeName ps h => runs_throw (hforeign ss typeName ps h))
    fun h => runs_throw (hnumber h)

/-! ## Renderers whose evaluations end alike -/

/-- Whether the handlers and the configurations of two renderers suit certain endings. -/
structure Agrees (E : Endings) (r r' : Renderer) : Prop where
  /-- They have the same handlers. -/
  registry : r'.registry = r.registry
  /-- They have the same templates. -/
  templates : r'.templates = r.templates
  /-- The same tags have no body. -/
  isVoid : ∀ tag, r'.config.isVoid tag = r.config.isVoid tag
  /-- Both escape values, or neither does. -/
  autoescape : r'.config.autoescape = r.config.autoescape
  /-- They write the same in front of a document. -/
  doctype : r'.config.doctype = r.config.doctype
  /-- The errors that handlers raise by themselves may be shared. -/
  raises : ∀ tag handler e, r.registry.get? tag = some handler → handler.Raises e →
    E.shared (.render e) (.render e)
  /-- Where a handler may catch errors, the two runs end in the same ones. -/
  catching : ∀ tag handler, r.registry.get? tag = some handler → handler.Catches → E.AreEqual

/-- What two renderers do by themselves ends alike. -/
theorem Agrees.paired (hr : Agrees E r r') (hE : E.Closed) (hnest : Nests E r r' inner inner') :
    Renderer.Paired E.pairing .same r r' inner inner' where
  registry := hr.registry
  isVoid := hr.isVoid
  framed := Rewriting.framed_same
  text _ hs := Meaning.paired_ofText hr.autoescape hs
  var _ hn := Meaning.paired_ofVar hr.autoescape hn
  hole hn := Meaning.paired_ofHole (runs_throw (hE.fault _)) hn
  call tag handler attributes children hget _ := by
    have hbody : Runs E Eq
        (r.nested inner tag fun h => handler.call r h (attributes.getD []) children)
        (r'.nested inner' tag fun h' => handler.call r' h' (attributes.getD []) children) := by
      refine hnest.runs id id tag fun h _ h' _ hh => ?_
      have hasks : handler.Asks E.pairing r (attributes.getD []) children h h' :=
        hh.asks (hE.every_suits (.tag tag attributes children)) (fun _ _ => hE.every_suits _)
          fun _ _ => hE.every_suits _
      exact Handler.runs_call hasks hE.called hr.templates (fun e => hr.raises tag handler e hget)
        (hr.catching tag handler hget)
    refine ((hE.runs_guarded hbody tag).inChild _).andThen fun reply => ?_
    exact runs_fragments (fun _ _ _ _ => hE.shared (hE.fault _) tag) fun _ => hE.fault _
  condition tag p _ _ hp _ hms := by
    have hraises : ∀ e, p = .raising (.render e) → E.shared (.render e) (.render e) :=
      fun e he => hr.raises tag _ e (Registry.get?_of_predicate? hp) (by rw [he]; rfl)
    exact (hE.runs_guarded (Handler.runs_holds hms hE.called hraises) tag).inChild _

/-- Two renderers end alike if what they nest does. -/
theorem Agrees.alike_layer (hr : Agrees E r r') (hE : E.Closed)
    (hnest : Nests E r r' inner inner') :
    (r.layer fun _ => inner).Alike E (r'.layer fun _ => inner') where
  meaning := ⟨node_denote _ _, paired_denote (hr.paired hE hnest)⟩
  render _ hform := hnest.runs_render hr.doctype hform

end Renderer

end MarkupForms

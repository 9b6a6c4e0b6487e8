import MarkupForms.Proofs.Pairing

/-!
# Two calls side by side

A handler works through a handle.  Two calls of it are judged together once it is known how what it
may ask of the two handles is judged: the meanings of its attributes and children, those of other
nodes that it asks about, and the forms that it may have rendered.  Inside of a call faults are
possible that never leave it and names are bound, so calls have a judgement of their own.

What two renderers make of texts and variables only depends on whether they escape values.

* `Eval.Pairing.Called` : what is asked of a judgement on calls.
* `Handler.pairs_run` : the steps of a program on both sides.
* `Handler.Asks`, `Handler.pairs_call` : two calls of a handler.
* `Renderer.pairs_fragments` : the fragments of a reply.
* `Meaning.paired_ofText`, `Meaning.paired_ofVar` : leaves.
-/

namespace MarkupForms

variable {σ τ : Type} [Carrier σ] [Carrier τ]

/-! ## Judgements on calls -/

namespace Eval.Pairing

/-- Whether a judgement suits the calls of handlers, in which other evaluations take place: any
fault may occur, names are bound, and frames are opened and closed. -/
structure Called (R R' : Pairing σ τ) : Prop where
  /-- The context may be looked at. -/
  context : R.Pairs Eq Eval.context Eval.context
  /-- An evaluation in a call. -/
  enter : ∀ {α β : Type} {P : α → β → Prop} {m : EvalOn σ α} {m' : EvalOn τ β},
    R.Pairs P m m' → R'.Pairs P m m'
  /-- A fault. -/
  fault : ∀ {α β : Type} {P : α → β → Prop} (f : Fault),
    R'.Pairs P (Eval.fault f) (Eval.fault f)
  /-- A name is bound. -/
  bindValue : ∀ name v, R'.Pairs Eq (Eval.bindValue name v) (Eval.bindValue name v)
  /-- A frame is opened. -/
  inChild : ∀ {α β : Type} {P : α → β → Prop} {m : EvalOn σ α} {m' : EvalOn τ β} (f : Frame),
    R'.Pairs P m m' → R'.Pairs P (Eval.inChild f m) (Eval.inChild f m')
  /-- Frames are closed. -/
  popping : ∀ {α β : Type} {P : α → β → Prop} {m : EvalOn σ α} {m' : EvalOn τ β} (times : Nat),
    R'.Pairs P m m' → R'.Pairs P (Eval.popping times m) (Eval.popping times m')
  /-- Another context takes the place of this one. -/
  within : ∀ {α β : Type} {P : α → β → Prop} {m : EvalOn σ α} {m' : EvalOn τ β} (other : Context),
    R'.Pairs P m m' → R'.Pairs P (Eval.within other m) (Eval.within other m')

/-- Whether computations that go on after render errors are judged alike. -/
def Attempts (R : Pairing σ τ) : Prop :=
  ∀ ⦃α : Type⦄ ⦃m : EvalOn σ α⦄ ⦃m' : EvalOn τ α⦄, R.Pairs Eq m m' →
    R.Pairs Eq (Eval.attempt m) (Eval.attempt m')

variable {R R' : Pairing σ τ}

/-- Items with the same fragments, one by one. -/
theorem pairs_forEach_eq {α : Type} {body : α → EvalOn σ (List String)}
    {body' : α → EvalOn τ (List String)} {xs : List α}
    (hbody : ∀ x ∈ xs, R.Pairs Eq (body x) (body' x)) :
    R.Pairs Eq (Eval.forEach body xs) (Eval.forEach body' xs) :=
  pairs_forEach (W := .same) (List.forall₂_same.2 hbody)

theorem joined_eq {m : EvalOn σ (List String)} {m' : EvalOn τ (List String)}
    (h : R.Pairs Eq m m') : R.Pairs Eq (Eval.joined m) (Eval.joined m') :=
  joined (W := .same) h

namespace Called

variable (hR : R.Called R')
include hR

theorem ofExcept {α ε : Type} (wrap : ε → Fault) (o : Except ε α) :
    R'.Pairs Eq (Eval.ofExcept (fun e => .fault (wrap e)) o)
      (Eval.ofExcept (fun e => .fault (wrap e)) o) := by
  cases o with
  | ok a => exact R'.pure rfl
  | error e => exact hR.fault (wrap e)

/-- A node as it is written. -/
theorem written (n : Node) : R'.Pairs Eq (Eval.written n) (Eval.written n) := by
  unfold Eval.written
  split
  · exact R'.pure rfl
  · exact hR.fault _

theorem writtenBlock (attributes : Attributes) :
    R'.Pairs Eq (Eval.writtenBlock attributes) (Eval.writtenBlock attributes) := by
  unfold Eval.writtenBlock
  split
  · exact R'.pure rfl
  · exact hR.fault _

/-- A name is bound to data. -/
theorem bindData (name : String) (d : Data) :
    R'.Pairs Eq (Eval.bindData name d) (Eval.bindData name d) := by
  have hvalue : R'.Pairs Eq
      (do Eval.bindValue name (← Eval.ofExcept (fun e => .fault (.data e)) d.toValue?))
      (do Eval.bindValue name (← Eval.ofExcept (fun e => .fault (.data e)) d.toValue?)) :=
    andThen (hR.ofExcept Fault.data _) fun v => hR.bindValue name v
  refine andThen (hR.enter hR.context) fun c => ?_
  split
  · exact andThen (hR.fault _) fun _ => hvalue
  · exact hvalue

end Called

end Eval.Pairing

open Eval.Pairing

/-! ## Handlers -/

namespace Handler

/-- Whether a handler may raise a render error by itself. -/
def Raises (e : RenderError) : Handler → Prop
  | .raising f | .predicate (.raising f) => f = .render e
  | .program p => p.Raises e
  | _ => False

/-- Whether whatever a handler may ask of two handles is judged. -/
structure Asks (R : Eval.Pairing σ τ) (r : Renderer) (handler : Handler) (attributes : Attributes)
    (children : List Node) (h : Handle σ) (h' : Handle τ) : Prop where
  /-- The forms that it may have rendered. -/
  form : ∀ form ∈ handler.forms r attributes children, R.Pairs Eq (h.render form) (h'.render form)
  /-- The meanings of nodes that it may ask about besides those of its tag. -/
  node : ∀ n ∈ handler.nodes attributes children, (h.meaning n).Paired R .same (h'.meaning n)
  /-- The meanings of its children. -/
  children : AllPaired R .same (children.map h.meaning) (children.map h'.meaning)
  /-- The meanings of its attributes. -/
  attributes : ∀ a ∈ attributes, (h.meaning a.2).Paired R .same (h'.meaning a.2)

variable {R R' : Eval.Pairing σ τ} {r r' : Renderer} {handler : Handler} {attributes : Attributes}
  {children : List Node} {h : Handle σ} {h' : Handle τ}

theorem pairs_attributeTexts
    (ha : ∀ a ∈ attributes, (h.meaning a.2).Paired R .same (h'.meaning a.2)) :
    R.Pairs Eq (attributeTexts h attributes) (attributeTexts h' attributes) := by
  induction attributes with
  | nil => exact R.pure rfl
  | cons a rest ih =>
    refine andThen (ha a List.mem_cons_self).attributeText fun text => ?_
    refine andThen (ih fun b hb => ha b (List.mem_cons_of_mem a hb)) fun texts => ?_
    exact R.pure rfl

/-- Texts of meanings. -/
theorem pairs_eachText {f : Meaning σ → EvalOn σ String} {f' : Meaning τ → EvalOn τ String}
    {ms : List (Meaning σ)} {ms' : List (Meaning τ)}
    (hms : List.Forall₂ (fun m m' => R.Pairs Eq (f m) (f' m')) ms ms') :
    R.Pairs Eq (eachText f ms) (eachText f' ms') := by
  refine pairs_forEach (W := .same) (hms.imp fun m m' hm => ?_)
  exact andThen hm fun _ => R.pure rfl

/-- The answers to a question about nodes and forms that are judged. -/
theorem pairs_ask {nodes : List Node} {forms : List Form}
    (hnodes : ∀ n ∈ nodes, (h.meaning n).Paired R .same (h'.meaning n))
    (hforms : ∀ form ∈ forms, R.Pairs Eq (h.render form) (h'.render form)) {q : Query}
    (hq : q.IsAbout nodes forms) : R.Pairs Eq (h.ask q) (h'.ask q) := by
  cases q with
  | nodes ns => exact pairs_evaluateAll (.map fun n hn => hnodes n (hq hn))
  | node n => exact (hnodes n hq).evaluate
  | text n escaping =>
    cases escaping with
    | true => exact (hnodes n hq).attributeText
    | false => exact (hnodes n hq).raw trivial
  | operand n => exact (hnodes n hq).operand trivial
  | truth n => exact (hnodes n hq).test
  | rendering form => exact hforms form hq

section

variable (hR : R.Called R')
include hR

/-- The steps of a program on both sides. -/
theorem pairs_run {nodes : List Node} {forms : List Form} (p : Program nodes forms)
    (hnodes : ∀ n ∈ nodes, (h.meaning n).Paired R .same (h'.meaning n))
    (hforms : ∀ form ∈ forms, R.Pairs Eq (h.render form) (h'.render form))
    (hraises : ∀ e, p.Raises e → ∀ {α : Type}, R'.Pairs (Eq (α := α)) (Eval.fail e) (Eval.fail e))
    (hcatches : p.Catches → R'.Attempts) : R'.Pairs Eq (p.run h) (p.run h') := by
  induction p with
  | reply parts => exact R'.pure rfl
  | raise f =>
    cases f with
    | render e => exact hraises e rfl
    | fault f => exact hR.fault f
  | ask q hq next ih =>
    refine andThen (hR.enter (pairs_ask hnodes hforms hq)) fun answer => ?_
    exact ih answer (fun e he => hraises e ⟨answer, he⟩) fun h => hcatches ⟨answer, h⟩
  | look next ih =>
    refine andThen (hR.enter hR.context) fun c => ?_
    exact ih c (fun e he => hraises e ⟨c, he⟩) fun h => hcatches ⟨c, h⟩
  | bind name data next ih => exact andThen (hR.bindData name data) fun _ => ih hraises hcatches
  | inChild f body next ihbody ih =>
    have hbody := ihbody (fun e he => hraises e (.inl he)) fun h => hcatches (.inl h)
    refine andThen (hR.inChild f hbody) fun parts => ?_
    exact ih parts (fun e he => hraises e (.inr ⟨parts, he⟩)) fun h => hcatches (.inr ⟨parts, h⟩)
  | within other body next ihbody ih =>
    have hbody := ihbody (fun e he => hraises e (.inl he)) fun h => hcatches (.inl h)
    refine andThen (hR.within other hbody) fun parts => ?_
    exact ih parts (fun e he => hraises e (.inr ⟨parts, he⟩)) fun h => hcatches (.inr ⟨parts, h⟩)
  | attempt body next ihbody ih =>
    have hattempts := hcatches trivial
    have hbody := ihbody (fun e he => hraises e (.inl he)) fun _ => hattempts
    refine andThen (hattempts hbody) fun result => ?_
    exact ih result (fun e he => hraises e (.inr ⟨result, he⟩)) fun _ => hattempts

theorem pairs_bindOffered (name : String) (offer : Offered Data) :
    R'.Pairs Eq (bindOffered name offer) (bindOffered name offer) :=
  andThen (hR.ofExcept Fault.data offer) fun d => hR.bindData name d

theorem pairs_bindIf (bound : Option (String × Offered Data)) :
    R'.Pairs Eq (bindIf bound) (bindIf bound) := by
  match bound with
  | none => exact R'.pure rfl
  | some (name, offer) => exact pairs_bindOffered hR name offer

theorem pairs_renderNamed (htemplates : r'.templates = r.templates) (name : String)
    {render : Form → EvalOn σ String} {render' : Form → EvalOn τ String}
    (hrender : ∀ form ∈ ((r.templates.lookup name).map Template.root).toList,
      R'.Pairs Eq (render form) (render' form)) :
    R'.Pairs Eq (renderNamed r name render) (renderNamed r' name render') := by
  rw [renderNamed, renderNamed, htemplates]
  cases hlookup : r.templates.lookup name with
  | none => exact hR.fault _
  | some t =>
    have hroot : t.root ∈ ((r.templates.lookup name).map Template.root).toList := by
      rw [hlookup]
      exact List.mem_singleton.2 rfl
    exact andThen (hrender t.root hroot) fun _ => R'.pure rfl

/-- Two truth values of a predicate. -/
theorem pairs_holds {ms : List (Meaning σ)} {ms' : List (Meaning τ)}
    (hms : AllPaired R .same ms ms') {p : Predicate}
    (hraises : ∀ e, p = .raising (.render e) →
      R'.Pairs (Eq (α := Bool)) (Eval.fail e) (Eval.fail e)) :
    R'.Pairs Eq (p.holds ms) (p.holds ms') := by
  by_cases hp : ∃ f, p = .raising f
  · obtain ⟨f, rfl⟩ := hp
    cases f with
    | render e => exact hraises e rfl
    | fault f => exact hR.fault f
  · refine hR.enter ?_
    refine Predicate.pairs_holds (W := .same) p hms (fun _ _ _ => trivial) (fun _ _ => ?_)
      (fun f hf => absurd ⟨f, hf⟩ hp) fun _ name => ?_
    · exact joined_eq (pairs_evaluateAll hms)
    · exact andThen hR.context fun c => R.pure rfl

section

variable (hasks : Asks R r handler attributes children h h')
include hasks

theorem pairs_inner : R'.Pairs Eq (call.inner h children) (call.inner h' children) :=
  hR.enter (pairs_evaluateAll hasks.children)

theorem pairs_content : R'.Pairs Eq (call.content h children) (call.content h' children) :=
  andThen (pairs_inner hR hasks) fun _ => R'.pure rfl

theorem pairs_attributeContext : R'.Pairs Eq (attributeContext h attributes children)
    (attributeContext h' attributes children) := by
  refine andThen (hR.enter (pairs_attributeTexts hasks.attributes)) fun pairs => ?_
  refine andThen (hR.enter ?_) fun body => R'.pure rfl
  exact joined_eq (pairs_evaluateAll hasks.children)

/-- A form that a handler may have rendered. -/
theorem pairs_form {form : Form} (hmem : form ∈ handler.forms r attributes children) :
    R'.Pairs Eq (h.render form) (h'.render form) :=
  hR.enter (hasks.form form hmem)

end

/-- A named template, with whatever names it is rendered. -/
theorem pairs_template {name : String} {sharing : Sharing}
    (hasks : Asks R r (.template name sharing) attributes children h h')
    (htemplates : r'.templates = r.templates) :
    R'.Pairs Eq ((Handler.template name sharing).call r h attributes children)
      ((Handler.template name sharing).call r' h' attributes children) := by
  have hapart (other : Context) : R'.Pairs Eq
      (renderNamed r name fun form => Eval.within other (h.render form))
      (renderNamed r' name fun form => Eval.within other (h'.render form)) :=
    pairs_renderNamed hR htemplates name fun _ hmem => hR.within other (pairs_form hR hasks hmem)
  cases sharing with
  | isolated => exact hapart .empty
  | shared => exact pairs_renderNamed hR htemplates name fun _ => pairs_form hR hasks
  | attributes => exact andThen (pairs_attributeContext hR hasks) hapart

/-- A text that is read and rendered. -/
theorem pairs_parsing {s : String} (hasks : Asks R r (.parsing s) attributes children h h') :
    R'.Pairs Eq ((Handler.parsing s).call r h attributes children)
      ((Handler.parsing s).call r' h' attributes children) := by
  rw [call, call]
  cases hparse : Form.ofText? s with
  | error e => exact R'.bind (P := fun _ _ => False) (hR.fault _) fun _ _ h => h.elim
  | ok form =>
    have hmem : form ∈ (Handler.parsing s).forms r attributes children := by
      rw [forms, hparse]
      exact List.mem_singleton.2 rfl
    rw [Eval.ofExcept, Eval.ofExcept, pure_bind, pure_bind]
    exact andThen (pairs_form hR hasks hmem) fun _ => R'.pure rfl

/-- Two calls of a handler are judged if what it may ask of the two handles is. -/
theorem pairs_call (hasks : Asks R r handler attributes children h h')
    (htemplates : r'.templates = r.templates)
    (hraises : ∀ e, handler.Raises e → ∀ {α : Type},
      R'.Pairs (Eq (α := α)) (Eval.fail e) (Eval.fail e))
    (hcatches : handler.Catches → R'.Attempts) :
    R'.Pairs Eq (handler.call r h attributes children)
      (handler.call r' h' attributes children) := by
  have hinner := pairs_inner hR hasks
  have hcontent := pairs_content hR hasks
  cases handler with
  | predicate p =>
    refine andThen (pairs_holds hR hasks.children fun e he => hraises e ?_) fun _ => R'.pure rfl
    rw [he]
    rfl
  | content isObject => exact hcontent
  | fragments parts => exact R'.pure rfl
  | text s => exact R'.pure rfl
  | nothing => exact R'.pure rfl
  | foreign typeName => exact R'.pure rfl
  | number => exact R'.pure rfl
  | raising f =>
    cases f with
    | render e => exact hraises e rfl
    | fault f => exact hR.fault f
  | listAttributes =>
    refine andThen (pairs_forEach_eq fun a _ => andThen ?_ fun _ => R'.pure rfl)
      fun _ => R'.pure rfl
    unfold listed
    split
    · exact R'.pure rfl
    · exact hR.fault _
  | source =>
    refine andThen (hR.writtenBlock attributes) fun block => ?_
    refine andThen (pairs_forEach_eq fun n _ => ?_) fun _ => R'.pure rfl
    exact andThen (hR.written n) fun _ => R'.pure rfl
  | counts => exact R'.pure rfl
  | attributeValue key =>
    rw [call, call]
    split
    · exact R'.pure rfl
    · rename_i n hn
      have hmem : (key, n) ∈ attributes := Entries.mem_of_lookup hn
      refine andThen (hR.enter (hasks.attributes _ hmem).attributeText) fun _ => ?_
      exact R'.pure rfl
  | binding name offer => exact andThen (pairs_bindOffered hR name offer) fun _ => hcontent
  | pushing name offer =>
    exact hR.inChild _ (andThen (pairs_bindOffered hR name offer) fun _ => hcontent)
  | popping times bound =>
    exact hR.popping times (andThen (pairs_bindIf hR bound) fun _ => hcontent)
  | attributeScope =>
    refine andThen (hR.enter (pairs_attributeTexts hasks.attributes)) fun pairs => ?_
    exact hR.inChild _ hcontent
  | fresh offer =>
    exact andThen (hR.ofExcept Fault.data _) fun other => hR.within other hcontent
  | repeating times => exact andThen hinner fun _ => R'.pure rfl
  | texts =>
    refine andThen (hR.enter (pairs_eachText ?_)) fun _ => R'.pure rfl
    exact hasks.children.imp fun _ _ hm => joined_eq hm.evaluate
  | operands =>
    refine andThen (hR.enter (pairs_eachText ?_)) fun _ => R'.pure rfl
    exact hasks.children.imp fun _ _ hm => hm.operand trivial
  | tests =>
    refine andThen (hR.enter (pairs_eachText ?_)) fun _ => R'.pure rfl
    exact hasks.children.imp fun _ _ hm => andThen hm.test fun _ => R.pure rfl
  | template name sharing => exact pairs_template hR hasks htemplates
  | parsing s => exact pairs_parsing hR hasks
  | visibleNames => exact andThen (hR.enter hR.context) fun _ => R'.pure rfl
  | catching =>
    refine andThen (andThen (hcatches trivial hinner) fun result => ?_) fun _ => R'.pure rfl
    cases result <;> exact R'.pure rfl
  | program p =>
    have hrun := pairs_run hR (p.program attributes children) hasks.node hasks.form
      (fun e he => hraises e ⟨attributes, children, he⟩)
      fun h => hcatches ⟨attributes, children, h⟩
    exact andThen hrun fun _ => R'.pure rfl

end

end Handler

/-! ## Replies -/

/-- The fragments of a reply. -/
theorem Renderer.pairs_fragments {R : Eval.Pairing σ τ} {tag : String} {reply : Reply}
    (hforeign : ∀ (ss : List String) typeName ps,
      reply = .parts (ss.map .text ++ .foreign typeName :: ps) →
        R.Pairs Eq (Eval.fail (α := List String) (.handlerFailed tag (.fault (.notText typeName))))
          (Eval.fail (.handlerFailed tag (.fault (.notText typeName)))))
    (hnumber : reply = .number → R.Pairs Eq (Eval.fault (α := List String) (.notIterable "int"))
      (Eval.fault (.notIterable "int"))) :
    R.Pairs Eq (reply.fragments tag) (reply.fragments tag) := by
  cases reply with
  | nothing => exact R.pure rfl
  | text s => exact R.pure rfl
  | number => exact hnumber rfl
  | parts ps =>
    have hparts : ∀ (ss : List String) typeName rest,
        ps = ss.map .text ++ .foreign typeName :: rest →
          R.Pairs Eq (Eval.fail (α := List String)
          (.handlerFailed tag (.fault (.notText typeName))))
            (Eval.fail (.handlerFailed tag (.fault (.notText typeName)))) :=
      fun ss typeName rest h => hforeign ss typeName rest (congrArg Reply.parts h)
    clear hforeign hnumber
    rw [Reply.fragments, Reply.fragments]
    induction ps with
    | nil => exact R.pure rfl
    | cons part ps ih =>
      cases part with
      | text s =>
        refine andThen (ih fun ss typeName rest h => ?_) fun _ => R.pure rfl
        exact hparts (s :: ss) typeName rest (congrArg (List.cons (.text s)) h)
      | foreign typeName => exact hparts [] typeName ps rfl

/-! ## Leaves -/

section

variable {R : Eval.Pairing σ τ} {r r' : Renderer}

theorem Eval.Pairing.scalar_eq (path : String) :
    R.Pairs Eq (Eval.scalar path) (Eval.scalar path) :=
  mono (scalar path) fun _ _ h => h.1

theorem Renderer.output_eq (h : r'.config.autoescape = r.config.autoescape) (text : String) :
    r'.output text = r.output text := by
  rw [output, output, h]

theorem Renderer.outputIf_eq (h : r'.config.autoescape = r.config.autoescape) (escaping : Bool)
    (text : String) : r'.outputIf escaping text = r.outputIf escaping text := by
  rw [outputIf, outputIf, output_eq h]

theorem Eval.Pairing.interpolate (h : r'.config.autoescape = r.config.autoescape) (escaping : Bool)
    (text : String) :
    R.Pairs Eq (Eval.interpolate r escaping text) (Eval.interpolate r' escaping text) := by
  have hsegment (s : Segment) :
      R.Pairs Eq (Eval.segment r escaping s) (Eval.segment r' escaping s) := by
    cases s with
    | char c => exact R.pure rfl
    | sign => exact R.pure rfl
    | reference path =>
      refine andThen (scalar_eq _) fun value => R.pure ?_
      rw [Renderer.outputIf_eq h]
  refine joined_eq (pairs_forEach_eq fun s _ => ?_)
  exact andThen (hsegment s) fun _ => R.pure rfl

namespace Meaning

theorem paired_ofText (h : r'.config.autoescape = r.config.autoescape) {s : String}
    (hs : R.Legible (.text s)) : (ofText r s).Paired R .same (ofText r' s) where
  node := rfl
  legible := hs
  evaluate := andThen (Eval.Pairing.interpolate h true s) fun _ => R.pure rfl
  attributeText := Eval.Pairing.interpolate h true s
  raw _ := Eval.Pairing.interpolate h false s
  test := invalidCondition hs
  arm _ _ hnode := by cases hnode

theorem paired_ofVar (h : r'.config.autoescape = r.config.autoescape) {name : String}
    (hn : R.Legible (.var name)) : (ofVar r name).Paired R .same (ofVar r' name) where
  node := rfl
  legible := hn
  evaluate := andThen (scalar_eq name) fun value =>
    R.pure (congrArg (fun text => [text]) (Renderer.output_eq h value).symm)
  attributeText := andThen (scalar_eq name) fun value =>
    R.pure (Renderer.outputIf_eq h true value).symm
  raw _ := andThen (scalar_eq name) fun value => R.pure rfl
  test := invalidCondition hn
  arm _ _ hnode := by cases hnode

theorem paired_ofHole
    (hfault : ∀ {α : Type}, R.Pairs (Eq (α := α)) (Eval.fault .hole) (Eval.fault .hole))
    (hn : R.Legible .hole) : ofHole.Paired R .same ofHole where
  node := rfl
  legible := hn
  evaluate := hfault
  attributeText := hfault
  raw _ := hfault
  test := invalidCondition hn
  arm _ _ hnode := by cases hnode

end Meaning

end

end MarkupForms

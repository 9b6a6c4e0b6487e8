import MarkupForms.Proofs.Logic

/-!
# What evaluation does to its context

Evaluation may bind names, but only in frames that it has opened itself: loops open one for each
round, and every call of a handler has one of its own.  The one exception is a handler that closes
more frames than it has opened and binds a name then: the name lands in a frame of the caller.

What computations may do to a context is a permission; calls of handlers have one of their own.

* `Context.Permission` : what is asked of permissions.
* `Handler.Rules`, `Handler.allows_run`, `Handler.allows_call` : what a handler does is allowed if
  that holds of the few things that handlers do to contexts.
* `Renderer.respects_handle` : whole trees stay within a permission as long as those handlers do
  that close frames.
* `Eval.Keeps` : a computation changes nothing but the bindings in the innermost frames.
* `Renderer.keeps_handle` : what a handler does stays in the frame of its call.
* `Renderer.evaluate_keeps_iff` : evaluation leaves every context as it is exactly when no handler
  reaches out of its call.
-/

namespace MarkupForms

/-! ## Computations -/

namespace Eval

variable {α β : Type}

/-- The context after some frames were closed for a while. -/
theorem context_popping (times : Nat) (m : Eval α) (c : Context) :
    ((popping times m).run c).2 =
      if times ≤ c.opened.length then
        let after := (m.run { c with opened := c.opened.drop times }).2
        { after with opened := c.opened.take times ++ after.opened }
      else c := by
  show (if times ≤ c.opened.length then _ else _ : Except Failure α × Context).2 = _
  split <;> rfl

/-- The judgement that a computation does to a context what a relation says. -/
def Logic.preserving (S : Context → Context → Prop) (refl : ∀ c, S c c)
    (trans : ∀ {c d e}, S c d → S d e → S c e)
    (close : ∀ {c d} (f : Frame), S (c.pushFrame f) d →
      S c { d with opened := d.opened.tail }) : Logic where
  Holds P m := ∀ c, S c (m.run c).2 ∧ ∀ a, (m.run c).1 = .ok a → P a
  pure h c := ⟨refl c, fun a ha => by cases ha; exact h⟩
  throw f c := ⟨refl c, fun a ha => by cases ha⟩
  bind {α β P Q m k} hm hk c := by
    obtain ⟨hfirst, hresult⟩ := hm c
    rw [run_bind]
    rcases hrun : m.run c with ⟨r, after⟩
    rw [hrun] at hfirst hresult
    cases r with
    | error f => exact ⟨hfirst, fun b hb => by cases hb⟩
    | ok a =>
      obtain ⟨hrest, hlast⟩ := hk a (hresult a rfl) after
      exact ⟨trans hfirst hrest, hlast⟩
  tryCatch {α P m handler} hm hh c := by
    obtain ⟨hfirst, hresult⟩ := hm c
    rw [run_tryCatch]
    rcases hrun : m.run c with ⟨r, after⟩
    rw [hrun] at hfirst hresult
    cases r with
    | ok a => exact ⟨hfirst, hresult⟩
    | error f =>
      obtain ⟨hrest, hlast⟩ := hh f after
      exact ⟨trans hfirst hrest, hlast⟩
  inChild f hm c := by
    rw [run_inChild]
    obtain ⟨hinside, hresult⟩ := hm (c.pushFrame f)
    exact ⟨close f hinside, hresult⟩

end Eval

/-! ## Permissions -/

/-- What evaluation may do to a context: outside of calls, and in the frame of a call, where a
handler may bind names. -/
structure Context.Permission where
  /-- What may be done outside of calls. -/
  Outside : Context → Context → Prop
  /-- What may be done in the frame of a call. -/
  Inside : Context → Context → Prop
  /-- Nothing need be done. -/
  refl : ∀ c, Outside c c
  /-- One thing after another. -/
  trans : ∀ {c d e}, Outside c d → Outside d e → Outside c e
  /-- One thing after another, in the frame of a call. -/
  inside_trans : ∀ {c d e}, Inside c d → Inside d e → Inside c e
  /-- What may be done outside may be done inside. -/
  inside_of_outside : ∀ {c d}, Outside c d → Inside c d
  /-- What is done in a frame ends with it. -/
  close : ∀ {c d} (f : Frame), Inside (c.pushFrame f) d →
    Outside c { d with opened := d.opened.tail }
  /-- In the frame of a call names may be bound. -/
  bind : ∀ {c d name v}, c.bind name v = .ok d → Inside c d

namespace Context.Permission

open Eval Eval.Logic

variable (p : Permission)

/-- The judgement that a computation does what may be done outside of calls. -/
def outside : Eval.Logic :=
  .preserving p.Outside p.refl p.trans fun f h => p.close f (p.inside_of_outside h)

/-- The judgement that a computation does what may be done in the frame of a call. -/
def inside : Eval.Logic :=
  .preserving p.Inside (fun c => p.inside_of_outside (p.refl c)) p.inside_trans
    fun f h => p.inside_of_outside (p.close f h)

variable {p} {α : Type} {P : α → Prop} {m : Eval α}

theorem holds_inside (h : p.outside.Holds P m) : p.inside.Holds P m :=
  fun c => ⟨p.inside_of_outside (h c).1, (h c).2⟩

theorem allows_inside (h : p.outside.Allows m) : p.inside.Allows m :=
  holds_inside h

theorem holds_inChild (f : Frame) (h : p.inside.Holds P m) : p.outside.Holds P (inChild f m) := by
  intro c
  obtain ⟨hinside, hresult⟩ := h (c.pushFrame f)
  rw [run_inChild]
  exact ⟨p.close f hinside, hresult⟩

theorem holds_within (other : Context) (h : p.inside.Holds P m) :
    p.outside.Holds P (within other m) :=
  fun c => ⟨p.refl c, (h other).2⟩

theorem allows_context : p.outside.Allows context :=
  fun c => ⟨p.refl c, fun _ _ => trivial⟩

theorem reads (name : String) : p.outside.Reads name := by
  refine ⟨allows_context.andThen fun c => ?_, allows_context.andThen fun _ => allows_pure _⟩
  cases c.resolve name with
  | ok v => exact allows_pure v
  | error e => exact p.outside.throw _

/-- Under a permission all nodes are allowed. -/
theorem every_allowed (n : Node) : n.Every (Node.Allowed p.outside .any) := by
  intro m _
  cases m with
  | text s => exact ⟨fun _ _ => trivial, fun _ _ => reads _⟩
  | var name => exact reads name
  | tag name attributes children =>
    exact ⟨Writing.frames_any name _, fun _ _ => .inr fun _ => trivial⟩
  | hole => trivial

theorem allows_bindValue (name : String) (v : Value) : p.inside.Allows (bindValue name v) := by
  intro c
  refine ⟨?_, fun _ _ => trivial⟩
  cases hbind : c.bind name v with
  | ok after =>
    have hafter : ((bindValue name v).run c).2 = after := by
      rw [run_bindValue, hbind]
    rw [hafter]
    exact p.bind hbind
  | error e =>
    have hafter : ((bindValue name v).run c).2 = c := by
      rw [run_bindValue, hbind]
    rw [hafter]
    exact p.inside_of_outside (p.refl c)

theorem allows_ofExcept {ε : Type} (L : Eval.Logic) (wrap : ε → Failure) (r : Except ε α) :
    L.Allows (ofExcept wrap r) := by
  cases r with
  | ok a => exact allows_pure a
  | error e => exact L.throw _

theorem allows_bindData (name : String) (d : Data) : p.inside.Allows (bindData name d) := by
  refine (allows_inside allows_context).andThen fun c => ?_
  have hbind : p.inside.Allows (do
      let v ← ofExcept (fun e => .fault (.data e)) d.toValue?
      bindValue name v) :=
    (allows_ofExcept _ _ _).andThen fun v => allows_bindValue name v
  split
  · exact Allows.andThen (p.inside.throw _) fun _ => hbind
  · exact hbind

end Context.Permission

open Eval Eval.Logic

/-! ## Handlers -/

/-- Whether a handle stays within a permission. -/
structure Handle.Respects (p : Context.Permission) (h : Handle) : Prop where
  /-- The meanings of nodes do. -/
  meaning : ∀ n, (h.meaning n).Obeys p.outside .any
  /-- Rendering a form does. -/
  render : ∀ form, p.outside.Allows (h.render form)

namespace Handler

open Context.Permission

variable {p : Context.Permission} {h : Handle}

theorem allows_textsOf (L : Eval.Logic) (tag : String) (ps : List Part) :
    L.Allows (Reply.textsOf tag ps) := by
  induction ps with
  | nil => exact allows_pure _
  | cons part ps ih =>
    cases part with
    | text s => exact ih.andThen fun _ => allows_pure _
    | foreign typeName => exact L.throw _

theorem allows_fragments (L : Eval.Logic) (tag : String) (reply : Reply) :
    L.Allows (reply.fragments tag) := by
  cases reply with
  | nothing => exact allows_pure _
  | text s => exact allows_pure _
  | parts ps => exact allows_textsOf L tag ps
  | number => exact L.throw _

theorem allows_listed (L : Eval.Logic) (a : String × Node) : L.Allows (listed a) := by
  unfold listed
  split
  · exact allows_pure _
  · exact L.throw _

theorem allows_writtenBlock (L : Eval.Logic) (attributes : Attributes) :
    L.Allows (writtenBlock attributes) := by
  unfold writtenBlock
  split
  · exact allows_pure _
  · exact L.throw _

theorem allows_eachText {L : Eval.Logic} {f : Meaning → Eval String} {ms : List Meaning}
    (hf : ∀ m ∈ ms, L.Allows (f m)) : L.Allows (eachText f ms) :=
  allows_forEach fun m hm => (hf m hm).andThen fun _ => allows_pure _

theorem allows_renderNamed {L : Eval.Logic} {r : Renderer} {name : String}
    {render : Form → Eval String}
    (hrender : ∀ t, r.templates.lookup name = some t → L.Allows (render t.root)) :
    L.Allows (renderNamed r name render) := by
  unfold renderNamed
  split
  · exact L.throw _
  · rename_i t ht
    exact (hrender t ht).andThen fun _ => allows_pure _

theorem allows_attempt {L : Eval.Logic} {α : Type} {m : Eval α} (hm : L.Allows m) :
    L.Allows (attempt m) := by
  refine L.tryCatch (hm.andThen fun _ => allows_pure _) fun f => ?_
  cases f with
  | render e => exact L.pure trivial
  | fault f => exact L.throw _

theorem allows_caught {L : Eval.Logic} {m : Eval (List String)} (hm : L.Allows m) :
    L.Allows (caught m) := by
  refine (allows_attempt hm).andThen fun result => ?_
  cases result <;> exact allows_pure _

/-- What two judgements have to allow, that on computations outside of calls and that on those in
the frame of a call, where some contexts are not to be told apart. -/
structure Rules (Same : Context → Context → Prop) (outside inside : Eval.Logic) : Prop where
  /-- What is allowed outside is allowed inside. -/
  enter : ∀ {α : Type} {P : α → Prop} {m : Eval α}, outside.Holds P m → inside.Holds P m
  /-- What is done in a new frame ends with it. -/
  leave : ∀ {α : Type} {P : α → Prop} {m : Eval α} (f : Frame), inside.Holds P m →
    outside.Holds P (Eval.inChild f m)
  /-- Work on another context. -/
  within : ∀ {α : Type} {P : α → Prop} {m : Eval α} (other : Context), inside.Holds P m →
    outside.Holds P (Eval.within other m)
  /-- Binding a name. -/
  bind : ∀ name data, inside.Allows (Eval.bindData name data)
  /-- Looking at the context without telling apart what is not to be told apart. -/
  look : ∀ {α : Type} {P : α → Prop} {k : Context → Eval α}, (∀ c d, Same c d → k c = k d) →
    (∀ c, inside.Holds P (k c)) → inside.Holds P (Eval.context >>= k)
  /-- The same names are visible in contexts that are not to be told apart. -/
  names : ∀ c d, Same c d → c.names = d.names
  /-- They have as many frames. -/
  depth : ∀ c d, Same c d → c.depth = d.depth

/-- A judgement on whatever a handler may ask of a handle. -/
structure Serves (Same : Context → Context → Prop) (L : Eval.Logic) (r : Renderer) (h : Handle)
    (handler : Handler) (attributes : Attributes) (children : List Node) : Prop where
  /-- The meanings of its children. -/
  child : ∀ n ∈ children, (h.meaning n).Obeys L .any
  /-- The meanings of its attributes. -/
  value : ∀ a ∈ attributes, (h.meaning a.2).Obeys L .any
  /-- The names that it looks up by itself. -/
  nonempty : handler = .predicate .nonempty → ∀ n ∈ children, ∀ name,
    (h.meaning n).node = .var name →
      L.Allows (do return Predicate.hasContent ((← Eval.context).lookup name))
  /-- The forms that it may have rendered. -/
  form : ∀ form ∈ handler.forms r attributes children, L.Allows (h.render form)
  /-- The meanings of other nodes that it may ask about. -/
  node : ∀ n ∈ handler.nodes attributes children, (h.meaning n).Obeys L .any
  /-- What it sees of the context. -/
  overlooks : ∀ p, handler = .program p → (p.program attributes children).Overlooks Same

section

variable {L : Eval.Logic} {attributes : Attributes} {children : List Node}

theorem allows_attributeTexts (ha : ∀ a ∈ attributes, (h.meaning a.2).Obeys L .any) :
    L.Allows (attributeTexts h attributes) := by
  induction attributes with
  | nil => exact allows_pure _
  | cons a rest ih =>
    refine ((ha a List.mem_cons_self).attributeText true).andThen fun _ => ?_
    exact (ih fun b hb => ha b (List.mem_cons_of_mem a hb)).andThen fun _ => allows_pure _

theorem obeys_map (hn : ∀ n ∈ children, (h.meaning n).Obeys L .any) :
    ∀ m ∈ children.map h.meaning, m.Obeys L .any := by
  intro m hm
  obtain ⟨n, hmem, rfl⟩ := List.mem_map.1 hm
  exact hn n hmem

/-- A question about nodes and forms that are judged. -/
theorem allows_ask {nodes : List Node} {forms : List Form}
    (hnodes : ∀ n ∈ nodes, (h.meaning n).Obeys L .any)
    (hforms : ∀ form ∈ forms, L.Allows (h.render form)) {q : Query} (hq : q.IsAbout nodes forms) :
    L.Allows (h.ask q) := by
  cases q with
  | nodes ns =>
    exact allows_of_holds (holds_evaluateAll (obeys_map fun n hn => hnodes n (hq hn)))
  | node n => exact allows_of_holds (hnodes n hq).evaluate
  | text n escaping => exact (hnodes n hq).attributeText escaping
  | operand n => exact (hnodes n hq).operand
  | truth n => exact (hnodes n hq).test
  | rendering form => exact hforms form hq

theorem allows_inner (hn : ∀ n ∈ children, (h.meaning n).Obeys L .any) :
    L.Allows (call.inner h children) :=
  allows_of_holds (holds_evaluateAll (obeys_map hn))

theorem allows_content (hn : ∀ n ∈ children, (h.meaning n).Obeys L .any) :
    L.Allows (call.content h children) :=
  (allows_inner hn).andThen fun _ => allows_pure _

end

section

variable {Same : Context → Context → Prop} {outside inside : Eval.Logic}
  (hrules : Rules Same outside inside)
include hrules

theorem allows_bindOffered (name : String) (offer : Offered Data) :
    inside.Allows (bindOffered name offer) :=
  (allows_ofExcept _ _ _).andThen (hrules.bind name)

theorem allows_bindIf (bound : Option (String × Offered Data)) : inside.Allows (bindIf bound) := by
  match bound with
  | none => exact allows_pure _
  | some (name, offer) => exact allows_bindOffered hrules name offer

/-- The steps of a program are allowed in the frame of a call, if that holds of whatever it may ask
for. -/
theorem allows_run {nodes : List Node} {forms : List Form} (p : Program nodes forms)
    (hp : p.Overlooks Same) (hnodes : ∀ n ∈ nodes, (h.meaning n).Obeys outside .any)
    (hforms : ∀ form ∈ forms, outside.Allows (h.render form)) : inside.Allows (p.run h) := by
  induction p with
  | reply parts => exact allows_pure _
  | raise f => exact inside.throw f
  | ask q hq next ih =>
    exact Allows.andThen (hrules.enter (allows_ask hnodes hforms hq)) fun answer =>
      ih answer (hp answer)
  | look next ih =>
    exact hrules.look (fun c d hsame => by rw [hp.1 c d hsame]) fun c => ih c (hp.2 c)
  | bind name data next ih => exact (hrules.bind name data).andThen fun _ => ih hp
  | inChild f body next ihbody ih =>
    exact Allows.andThen (hrules.enter (hrules.leave f (ihbody hp.1))) fun parts =>
      ih parts (hp.2 parts)
  | within other body next ihbody ih =>
    exact Allows.andThen (hrules.enter (hrules.within other (ihbody hp.1))) fun parts =>
      ih parts (hp.2 parts)
  | attempt body next ihbody ih =>
    exact (allows_attempt (ihbody hp.1)).andThen fun result => ih result (hp.2 result)

/-- A named template, with whatever names it is rendered. -/
theorem allows_template {r : Renderer} {name : String} {sharing : Sharing} {attributes : Attributes}
    {children : List Node}
    (hserves : Serves Same outside r h (.template name sharing) attributes children) :
    inside.Allows ((Handler.template name sharing).call r h attributes children) := by
  have hrender (t : Template) (ht : r.templates.lookup name = some t) :
      outside.Allows (h.render t.root) := hserves.form t.root (by simp [forms, ht])
  have hapart (other : Context) : outside.Allows
      (renderNamed r name fun form => Eval.within other (h.render form)) :=
    allows_renderNamed fun t ht => hrules.within other (hrules.enter (hrender t ht))
  cases sharing with
  | isolated => exact hrules.enter (hapart .empty)
  | shared => exact hrules.enter (allows_renderNamed hrender)
  | attributes =>
    refine hrules.enter (Allows.andThen ?_ hapart)
    refine (allows_attributeTexts hserves.value).andThen fun pairs => ?_
    exact (allows_joined (allows_inner hserves.child)).andThen fun _ => allows_pure _

/-- A text that is read and rendered. -/
theorem allows_parsing {r : Renderer} {source : String} {attributes : Attributes}
    {children : List Node}
    (hserves : Serves Same outside r h (.parsing source) attributes children) :
    inside.Allows ((Handler.parsing source).call r h attributes children) := by
  rw [call]
  cases hparse : Form.ofText? source with
  | error e => exact Logic.bind (P := fun _ => False) _ (inside.throw _) fun _ h => h.elim
  | ok form =>
    rw [Eval.ofExcept, pure_bind]
    have hform := hserves.form form (by simp [forms, hparse, Except.toOption])
    exact hrules.enter (hform.andThen fun _ => allows_pure _)

/-- What a handler does is allowed in the frame of its call, if that holds of whatever it asks for
and of handlers that close frames. -/
theorem allows_call {handler : Handler} {r : Renderer} {attributes : Attributes}
    {children : List Node} (hserves : Serves Same outside r h handler attributes children)
    (hpopping : ∀ times bound, handler = .popping (times + 1) bound →
      inside.Allows (Eval.popping (times + 1) do
        bindIf bound
        call.content h children)) : inside.Allows (handler.call r h attributes children) := by
  have hmeanings := obeys_map hserves.child
  have hcontent := allows_content hserves.child
  have hinner := allows_inner hserves.child
  cases handler with
  | predicate q =>
    have hlookup : q = .nonempty → ∀ m ∈ children.map h.meaning, ∀ name, m.node = .var name →
        outside.Allows (do return Predicate.hasContent ((← Eval.context).lookup name)) := by
      rintro rfl m hm name hnode
      obtain ⟨n, hn, rfl⟩ := List.mem_map.1 hm
      exact hserves.nonempty rfl n hn name hnode
    exact hrules.enter ((q.allows_holds hlookup hmeanings).andThen fun _ => allows_pure _)
  | content isObject => exact hrules.enter hcontent
  | fragments parts => exact allows_pure _
  | text s => exact allows_pure _
  | nothing => exact allows_pure _
  | foreign typeName => exact allows_pure _
  | number => exact allows_pure _
  | raising failure => exact inside.throw _
  | listAttributes =>
    refine Allows.andThen (allows_forEach fun a _ => ?_) fun _ => allows_pure _
    exact (allows_listed _ a).andThen fun _ => allows_pure _
  | source =>
    refine (allows_writtenBlock _ attributes).andThen fun block => ?_
    refine Allows.andThen (allows_forEach fun n _ => ?_) fun _ => allows_pure _
    exact (allows_written n).andThen fun _ => allows_pure _
  | counts => exact allows_pure _
  | attributeValue key =>
    rw [call]
    split
    · exact allows_pure _
    · rename_i n hn
      have hvalue := hserves.value (key, n) (Entries.mem_of_lookup hn)
      exact hrules.enter ((hvalue.attributeText true).andThen fun _ => allows_pure _)
  | binding name data =>
    exact (allows_bindOffered hrules name data).andThen fun _ => hrules.enter hcontent
  | pushing name data =>
    rw [call]
    refine hrules.enter (hrules.leave .empty ?_)
    exact (allows_bindOffered hrules name data).andThen fun _ => hrules.enter hcontent
  | popping times bound =>
    cases times with
    | zero =>
      have hnone : Eval.popping 0 (do bindIf bound; call.content h children) =
          (do bindIf bound; call.content h children) := funext fun c => run_popping_zero _ c
      rw [call, hnone]
      exact (allows_bindIf hrules bound).andThen fun _ => hrules.enter hcontent
    | succ times => exact hpopping times bound rfl
  | attributeScope =>
    refine hrules.enter ((allows_attributeTexts hserves.value).andThen fun pairs => ?_)
    exact outside.inChild _ hcontent
  | fresh pairs =>
    exact (allows_ofExcept _ _ _).andThen fun _ =>
      hrules.enter (hrules.within _ (hrules.enter hcontent))
  | repeating times => exact hrules.enter (hinner.andThen fun _ => allows_pure _)
  | texts =>
    refine hrules.enter (Allows.andThen (allows_eachText fun m hm => ?_) fun _ => allows_pure _)
    exact allows_joined (allows_of_holds (hmeanings m hm).evaluate)
  | operands =>
    refine hrules.enter (Allows.andThen (allows_eachText fun m hm => ?_) fun _ => allows_pure _)
    exact (hmeanings m hm).operand
  | tests =>
    refine hrules.enter (Allows.andThen (allows_eachText fun m hm => ?_) fun _ => allows_pure _)
    refine (hmeanings m hm).test.andThen fun b => ?_
    split <;> exact allows_pure _
  | template name sharing => exact allows_template hrules hserves
  | parsing source => exact allows_parsing hrules hserves
  | visibleNames =>
    refine hrules.look (fun c d hsame => ?_) fun c => allows_pure _
    rw [hrules.names c d hsame, hrules.depth c d hsame]
  | catching => exact hrules.enter ((allows_caught hinner).andThen fun _ => allows_pure _)
  | program p =>
    have hrun := allows_run hrules (p.program attributes children) (hserves.overlooks p rfl)
      hserves.node hserves.form
    exact hrun.andThen fun _ => allows_pure _

end

theorem obeys_children (hh : h.Respects p) (children : List Node) :
    ∀ m ∈ children.map h.meaning, m.Obeys p.outside .any :=
  obeys_map fun n _ => hh.meaning n

/-- The rules of a permission, under which all contexts may be told apart. -/
theorem rules_permission (p : Context.Permission) : Rules Eq p.outside p.inside where
  enter := holds_inside
  leave := holds_inChild
  within := holds_within
  bind := allows_bindData
  look _ hk := (allows_inside allows_context).andThen hk
  names _ _ h := congrArg Context.names h
  depth _ _ h := congrArg Context.depth h

/-- A handle that stays within a permission serves all handlers. -/
theorem serves_of_respects (hh : h.Respects p) (r : Renderer) (handler : Handler)
    (attributes : Attributes) (children : List Node) :
    Serves Eq p.outside r h handler attributes children where
  child n _ := hh.meaning n
  value a _ := hh.meaning a.2
  nonempty _ _ _ _ _ := allows_context.andThen fun _ => allows_pure _
  form form _ := hh.render form
  node n _ := hh.meaning n
  overlooks _ _ := Program.overlooks_eq _

end Handler

/-! ## Trees -/

namespace Renderer

open Context.Permission

variable {r : Renderer} {p : Context.Permission}

/-- Whether the handlers of a renderer that close frames stay within a permission. -/
def ClosesWithin (r : Renderer) (p : Context.Permission) : Prop :=
  ∀ tag times bound, r.registry.get? tag = some (.popping (times + 1) bound) →
    ∀ h : Handle, h.Respects p → ∀ children,
      p.inside.Allows (popping (times + 1) do
        Handler.bindIf bound
        Handler.call.content h children)

theorem allows_nested {L : Eval.Logic} {α : Type} (r : Renderer) {inner : Option Handle}
    (tag : String) {body : Handle → Eval α} (hbody : ∀ h ∈ inner, L.Allows (body h)) :
    L.Allows (r.nested inner tag body) := by
  cases inner with
  | none => exact L.throw _
  | some h => exact hbody h rfl

/-- A call is allowed if what its handler does is allowed in the frame of the call. -/
theorem allows_call {Same : Context → Context → Prop} {outside inside : Eval.Logic}
    (hrules : Handler.Rules Same outside inside) {inner : Option Handle} {handler : Handler}
    {attributes : Option Attributes} {children : List Node} (tag : String)
    (hcall : ∀ h ∈ inner, inside.Allows (handler.call r h (attributes.getD []) children)) :
    outside.Allows (r.call inner handler tag attributes children) :=
  Allows.andThen (hrules.leave .empty (holds_guarded tag (r.allows_nested tag hcall)))
    fun reply => Handler.allows_fragments _ tag reply

/-- Rendering a form is allowed if evaluating it is, one deeper. -/
theorem allows_render {L : Eval.Logic} {inner : Unit → Option Handle} {form : Form}
    (hform : ∀ h ∈ inner (), (h.meaning form.toNode).Obeys L .any) :
    L.Allows ((r.layer inner).render form) := by
  refine r.allows_nested form.tag fun h hh => ?_
  exact (allows_joined (allows_of_holds (hform h hh).evaluate)).andThen fun _ => allows_pure _

theorem obeys_of_closesWithin (hr : r.ClosesWithin p) {inner : Option Handle}
    (hinner : ∀ h ∈ inner, h.Respects p) : r.Obeys p.outside .any inner where
  output _ := trivial
  nonempty _ _ _ _ _ _ _ := allows_context.andThen fun _ => allows_pure _
  call tag handler attributes children hget _ := by
    refine allows_call (Handler.rules_permission p) tag fun h hh => ?_
    refine Handler.allows_call (Handler.rules_permission p)
      (Handler.serves_of_respects (hinner h hh) r handler _ children) fun times bound he => ?_
    exact hr tag times bound (he ▸ hget) h (hinner h hh) children

theorem respects_layer (hr : r.ClosesWithin p) {inner : Unit → Option Handle}
    (hinner : ∀ h ∈ inner (), h.Respects p) : (r.layer inner).Respects p := by
  exact ⟨fun n => obeys_denote (obeys_of_closesWithin hr hinner) (fun _ h => h) n
    (every_allowed n), fun form => allows_render fun h hh => (hinner h hh).meaning form.toNode⟩

/-- A renderer stays within a permission, however much room it has. -/
theorem respects_handle (hr : r.ClosesWithin p) (room : Nat) : (r.handle room).Respects p := by
  induction room with
  | zero => exact respects_layer hr fun h hh => by cases hh
  | succ room ih =>
    rw [handle_succ]
    exact respects_layer hr fun h hh => Option.some.inj hh ▸ ih

end Renderer

/-! ## Contexts that agree outside of some frames -/

/-- Whether two contexts have as many frames, and the same ones outside of the innermost ones. -/
structure Context.SameBelow (n : Nat) (c d : Context) : Prop where
  /-- The roots are the same. -/
  root : d.root = c.root
  /-- There are as many frames. -/
  length : d.opened.length = c.opened.length
  /-- The outer frames are the same. -/
  outer : d.opened.drop n = c.opened.drop n

namespace Context.SameBelow

variable {n : Nat} {c d e : Context}

theorem refl (n : Nat) (c : Context) : c.SameBelow n c :=
  ⟨rfl, rfl, rfl⟩

theorem trans (h : c.SameBelow n d) (h' : d.SameBelow n e) : c.SameBelow n e :=
  ⟨h'.root.trans h.root, h'.length.trans h.length, h'.outer.trans h.outer⟩

theorem mono {m : Nat} (h : c.SameBelow n d) (hle : n ≤ m) : c.SameBelow m d := by
  refine ⟨h.root, h.length, ?_⟩
  obtain ⟨k, rfl⟩ := Nat.exists_eq_add_of_le hle
  rw [← List.drop_drop, ← List.drop_drop, h.outer]

theorem eq (h : c.SameBelow 0 d) : d = c := by
  obtain ⟨hroot, -, houter⟩ := h
  cases c
  cases d
  simp_all

/-- What happens in a new frame ends with it. -/
theorem close (f : Frame) (h : (c.pushFrame f).SameBelow (n + 1) d) :
    c.SameBelow n { d with opened := d.opened.tail } := by
  refine ⟨h.root, ?_, ?_⟩
  · rw [List.length_tail, h.length]
    rfl
  · simpa [Context.pushFrame, List.drop_tail] using h.outer

theorem of_bind {name : String} {v : Value} (h : c.bind name v = .ok d) :
    c.SameBelow (n + 1) d := by
  unfold Context.bind at h
  split at h
  · cases h
  · rename_i f outer hopened
    cases h
    exact ⟨rfl, by simp [hopened], by simp [hopened]⟩

end Context.SameBelow

/-- Outside of calls nothing may change, in the frame of a call the bindings in this frame. -/
def Context.Permission.ownFrame : Context.Permission where
  Outside := SameBelow 0
  Inside := SameBelow 1
  refl := .refl 0
  trans := .trans
  inside_trans := .trans
  inside_of_outside h := h.mono (Nat.zero_le 1)
  close f h := h.close f
  bind h := .of_bind h

namespace Eval

variable {α β : Type} {n : Nat} {m : Eval α}

/-- Whether a computation changes nothing but the bindings in a number of innermost frames. -/
def Keeps (n : Nat) (m : Eval α) : Prop :=
  ∀ c : Context, c.SameBelow n (m.run c).2

theorem Keeps.mono (h : Keeps 0 m) : Keeps n m :=
  fun c => (h c).mono (Nat.zero_le n)

theorem Keeps.run_eq (h : Keeps 0 m) (c : Context) : (m.run c).2 = c :=
  (h c).eq

/-- A computation that is allowed by all judgements keeps all frames. -/
theorem keeps_of_allows (h : ∀ L : Logic, L.Allows m) : Keeps n m :=
  Keeps.mono fun c => (h Context.Permission.ownFrame.outside c).1

theorem keeps_interpolate (r : Renderer) (escaping : Bool) (s : String) :
    Keeps n (interpolate r escaping s) :=
  Keeps.mono fun c => (allows_interpolate
    (Context.Permission.every_allowed (p := .ownFrame) (.text s)).self escaping c).1

/-- What keeps all frames also keeps those that are left when some are closed. -/
theorem Keeps.popping (hm : Keeps 0 m) (times : Nat) : Keeps n (popping times m) := by
  intro c
  rw [context_popping]
  split
  · rw [hm.run_eq]
    simp only [List.take_append_drop]
    exact .refl n c
  · exact .refl n c

end Eval

namespace Handler

/-- Whether a handler binds a name after it has closed the frame of its call. -/
def ReachesOut : Handler → Prop
  | .popping (_ + 1) (some (_, .ok data)) => ∃ v, data.toValue? = .ok v
  | _ => False

theorem exists_of_reachesOut {handler : Handler} (hreach : handler.ReachesOut) :
    ∃ times name data v, handler = .popping (times + 1) (some (name, .ok data)) ∧
      data.toValue? = .ok v := by
  unfold ReachesOut at hreach
  split at hreach
  · obtain ⟨v, hv⟩ := hreach
    exact ⟨_, _, _, v, rfl, hv⟩
  · exact hreach.elim

/-- A handler that does not reach out binds nothing once its frame is closed. -/
theorem allows_bindIf_of_not_reachesOut {times : Nat} {bound : Option (String × Offered Data)}
    (hreach : ¬ (popping (times + 1) bound).ReachesOut) :
    Context.Permission.ownFrame.outside.Allows (bindIf bound) := by
  match bound with
  | none => exact allows_pure _
  | some (name, .error e) =>
    exact Logic.bind (P := fun _ => False) _ (Logic.throw _ _) fun _ hfalse => hfalse.elim
  | some (name, .ok data) =>
    have hdata : ∃ e, data.toValue? = .error e := by
      cases hvalue : data.toValue? with
      | error e => exact ⟨e, rfl⟩
      | ok v => exact absurd ⟨v, hvalue⟩ hreach
    obtain ⟨e, he⟩ := hdata
    show Context.Permission.ownFrame.outside.Allows (bindData name data)
    refine Context.Permission.allows_context.andThen fun c => ?_
    rw [he]
    split
    · exact Allows.andThen (Logic.throw _ _) fun _ => Logic.throw _ _
    · exact Logic.throw _ _

end Handler

namespace Renderer

variable {r : Renderer}

/-- Whether no handler of a renderer reaches out of its call. -/
def IsContained (r : Renderer) : Prop :=
  ∀ name handler, r.registry.get? name = some handler → ¬ handler.ReachesOut

theorem closesWithin_ownFrame (hr : r.IsContained) : r.ClosesWithin .ownFrame := by
  intro tag times bound hget h hh children c
  have hbody : Context.Permission.ownFrame.outside.Allows (do
      Handler.bindIf bound
      Handler.call.content h children) :=
    (Handler.allows_bindIf_of_not_reachesOut (hr tag _ hget)).andThen fun _ =>
      Handler.allows_content fun n _ => hh.meaning n
  exact ⟨Keeps.popping (fun d => (hbody d).1) (times + 1) c, fun _ _ => trivial⟩

/-- A renderer changes no context, however much room it has. -/
theorem keeps_handle (hr : r.IsContained) (room : Nat) : (r.handle room).Respects .ownFrame :=
  respects_handle (closesWithin_ownFrame hr) room

/-! ## Handlers that reach out -/

theorem ofName?_of_get? {registry : Registry} {name : String} {handler : Handler}
    (h : registry.get? name = some handler) : ControlForm.ofName? name = none :=
  registry.noControlForm (name, handler) (Registry.mem_of_get? h)

/-- The context after a call is the context after its handler, without the frame of the call. -/
theorem context_call (r : Renderer) (h : Handle) (handler : Handler) (tag : String)
    (attributes : Option Attributes) (children : List Node) (c : Context) :
    ((r.call (some h) handler tag attributes children).run c).2 =
      let after := ((handler.call r h (attributes.getD []) children).run (c.pushFrame .empty)).2
      { after with opened := after.opened.tail } := by
  rw [call, run_bind, run_inChild, guarded, run_tryCatch, nested_eq]
  rcases (handler.call r h (attributes.getD []) children).run (c.pushFrame .empty) with ⟨r', after⟩
  cases r' with
  | error f => rfl
  | ok reply =>
    have hkeeps : Keeps 0 (reply.fragments tag) :=
      keeps_of_allows fun L => Handler.allows_fragments L tag reply
    exact hkeeps.run_eq _

theorem run_bindOffered (name : String) {data : Data} {v : Value} (hv : data.toValue? = .ok v)
    (f : Frame) (outer : List Frame) (root : Frame) :
    (Handler.bindOffered name (.ok data)).run ⟨f :: outer, root⟩ =
      (.ok (), ⟨f.bind (Context.normalize name) v :: outer, root⟩) := by
  show (Eval.bindData name data).run ⟨f :: outer, root⟩ = _
  rw [Eval.bindData, run_bind, run_context, hv]
  rfl

/-- The context after a handler has closed frames and bound a name in the one below them. -/
theorem context_popping_bind (r : Renderer) (h : Handle) (name : String) {data : Data} {v : Value}
    (hv : data.toValue? = .ok v) (attributes : Attributes) (closed : List Frame) (f root : Frame) :
    (((Handler.popping closed.length (some (name, .ok data))).call r h attributes []).run
        ⟨closed ++ [f], root⟩).2 =
      ⟨closed ++ [f.bind (Context.normalize name) v], root⟩ := by
  have hle : closed.length ≤ (closed ++ [f]).length := by simp
  rw [Handler.call, context_popping, if_pos hle]
  simp only [List.drop_left, List.take_left, run_bind, Handler.bindIf, run_bindOffered name hv]
  rfl

/-- A handler that reaches out changes a context in which all frames are empty. -/
theorem exists_changed {tag : String} {handler : Handler}
    (hget : r.registry.get? tag = some handler) (hreach : handler.ReachesOut) :
    ∃ n c, ((r.evaluate n).run c).2 ≠ c := by
  obtain ⟨times, name, data, v, rfl, hv⟩ := Handler.exists_of_reachesOut hreach
  obtain ⟨room, hroom⟩ := Nat.exists_eq_succ_of_ne_zero (Nat.ne_of_gt r.config.limit_pos)
  let closed := List.replicate times Frame.empty
  refine ⟨.tag tag none [], ⟨closed ++ [.empty], .empty⟩, ?_⟩
  intro hsame
  rw [evaluate, top, hroom, handle_succ] at hsame
  change ((r.tagFragments (some (r.handle room)) tag none [] none []).run _).2 = _ at hsame
  rw [tagFragments, ofName?_of_get? hget, hget] at hsame
  dsimp only at hsame
  have hlength : times + 1 = (Frame.empty :: closed).length := by simp [closed]
  rw [context_call, hlength, Context.pushFrame, ← List.cons_append, Option.getD_none,
    context_popping_bind r (r.handle room) name hv] at hsame
  have hopened := congrArg Context.opened hsame
  simp [Frame.bind, Frame.empty, Entries.put] at hopened

/-- Evaluation leaves every context as it is exactly when no handler closes the frame of its call,
or more, and binds a name then. -/
theorem evaluate_keeps_iff (r : Renderer) :
    (∀ n c, ((r.evaluate n).run c).2 = c) ↔ r.IsContained := by
  constructor
  · intro hall tag handler hget hreach
    obtain ⟨n, c, hne⟩ := exists_changed hget hreach
    exact hne (hall n c)
  · intro hr n c
    exact ((((keeps_handle hr _).meaning n).evaluate c).1).eq

end Renderer

end MarkupForms

import MarkupForms.Proofs.Endings
import MarkupForms.Proofs.Balance
import MarkupForms.Proofs.Restoration

/-!
# Failures name their handler

A fault that ends the call of a handler becomes an error that names the handler's tag.  The fault is
the handler's own, because what it evaluates never ends in a fault: nested calls have turned theirs
into errors before, and errors pass through every handler as they are.

There is one gap.  A reply is looked at after the call is over, and that a number has no fragments
is a fault there, which no error names.  It gets out of the rendering, or out of the handler around
it, which is named in its place.

* `Renderer.GoesWrong`, `Renderer.FailsToHold` : a call, or a condition, ends in a fault.
* `Renderer.Blames` : what an error that names a tag goes back to.
* `Renderer.alike_blaming` : evaluations end in errors that name the right tags.
* `Renderer.failures_name_their_handler` : faults get out only by way of numbers, and errors name
  the tags of handlers that went wrong.
* `Renderer.not_blames_of_content` : a handler that only evaluates its children is never named.
-/

namespace MarkupForms

open Eval

/-! ## Replies -/

namespace Eval

/-- What is known of the results of a computation, in every context. -/
def Yields {α : Type} (P : α → Prop) (m : Eval α) : Prop :=
  ∀ c a, (m.run c).1 = .ok a → P a

variable {α β : Type} {P : α → Prop} {m : Eval α}

theorem yields_pure {a : α} (h : P a) : Yields P (pure a) := by
  intro c b hrun
  cases hrun
  exact h

theorem yields_throw (f : Failure) : Yields P (throw f) := by
  intro c a hrun
  cases hrun

theorem yields_bind {Q : β → Prop} {k : α → Eval β} (hk : ∀ a, Yields Q (k a)) :
    Yields Q (m >>= k) := by
  intro c b hrun
  rw [run_bind] at hrun
  generalize m.run c = x at hrun
  obtain ⟨o, after⟩ := x
  cases o with
  | ok a => exact hk a after b hrun
  | error f => cases hrun

theorem Yields.inChild (h : Yields P m) (f : Frame) : Yields P (inChild f m) :=
  fun c a hrun => h (c.pushFrame f) a hrun

theorem Yields.within (h : Yields P m) (other : Context) : Yields P (within other m) :=
  fun _ a hrun => h other a hrun

theorem Yields.popping (h : Yields P m) (times : Nat) : Yields P (popping times m) := by
  intro c a hrun
  rw [run_popping] at hrun
  split at hrun
  · exact h _ a hrun
  · cases hrun

end Eval

/-- Only a handler that is there for it replies a number. -/
theorem Handler.yields_call (r : Renderer) (h : Handle) (attributes : Attributes)
    (children : List Node) (handler : Handler) :
    Yields (fun reply => reply = .number → handler = .number)
      (handler.call r h attributes children) := by
  have htexts (ss : List String) {P : Prop} (hss : Reply.ofTexts ss = .number) : P := by cases hss
  have hcontent : Yields (fun reply => reply = .number → handler = .number)
      (call.content h children) := yields_bind fun _ => yields_pure (htexts _)
  have hnamed (name : String) (render : Form → Eval String) :
      Yields (fun reply => reply = .number → handler = .number) (renderNamed r name render) := by
    unfold renderNamed
    split
    · exact yields_throw _
    · exact yields_bind fun _ => yields_pure (htexts _)
  cases handler with
  | number => exact yields_pure fun _ => rfl
  | raising f => exact yields_throw f
  | text s | nothing | foreign typeName => exact yields_pure (by simp)
  | fragments parts => exact yields_pure (htexts _)
  | counts => exact yields_pure (htexts _)
  | content isObject => exact hcontent
  | binding name offer => exact yields_bind fun _ => hcontent
  | pushing name offer => exact Yields.inChild (yields_bind fun _ => hcontent) .empty
  | popping times bound => exact (yields_bind fun _ => hcontent).popping _
  | attributeScope => exact yields_bind fun _ => hcontent.inChild _
  | fresh offer => exact yields_bind fun _ => hcontent.within _
  | predicate p | listAttributes | repeating times | tests | visibleNames | catching =>
    exact yields_bind fun _ => yields_pure (htexts _)
  | source | parsing s => exact yields_bind fun _ => yields_bind fun _ => yields_pure (htexts _)
  | texts | operands | program p => exact yields_bind fun _ => yields_pure (by simp)
  | attributeValue key =>
    rw [call]
    split
    · exact yields_pure (htexts _)
    · exact yields_bind fun _ => yields_pure (htexts _)
  | template name sharing =>
    cases sharing with
    | isolated => exact hnamed name fun form => within .empty (h.render form)
    | shared => exact hnamed name _
    | attributes => exact yields_bind fun _ => hnamed name _

/-! ## What may be blamed -/

theorem Node.mem_subtrees_trans {k m n : Node} (hm : m ∈ n.subtrees) (hk : k ∈ m.subtrees) :
    k ∈ n.subtrees := by
  induction n using Node.induction with
  | text s | var name | hole =>
    obtain rfl : m = _ := by simpa [subtrees] using hm
    exact hk
  | tag name attributes children hattributes hchildren =>
    rcases mem_subtrees_tag.1 hm with rfl | ⟨e, he, hsub⟩ | ⟨n, hn, hsub⟩
    · exact hk
    · exact mem_subtrees_tag.2 (.inr (.inl ⟨e, he, hattributes e he hsub⟩))
    · exact mem_subtrees_tag.2 (.inr (.inr ⟨n, hn, hchildren n hn hsub⟩))

namespace Renderer

variable {r : Renderer} {root : Form}

/-- Whether a node is visited when a form is rendered.  It is in that form, or a handler is called
for a tag that is visited, and the node is in a form that the handler has rendered or in a node that
it asks about. -/
inductive Visits (r : Renderer) (root : Form) : Node → Prop where
  /-- It is in the form. -/
  | root {n : Node} (h : n ∈ root.toNode.subtrees) : Visits r root n
  /-- It is in a form that a handler has rendered. -/
  | rendered {tag : String} {attributes : Option Attributes} {children : List Node}
      {handler : Handler} {form : Form} {n : Node}
      (hsite : Visits r root (.tag tag attributes children))
      (hget : r.registry.get? tag = some handler)
      (hform : form ∈ handler.forms r (attributes.getD []) children)
      (h : n ∈ form.toNode.subtrees) : Visits r root n
  /-- It is in a node that a handler asks about. -/
  | asked {tag : String} {attributes : Option Attributes} {children : List Node}
      {handler : Handler} {m n : Node} (hsite : Visits r root (.tag tag attributes children))
      (hget : r.registry.get? tag = some handler)
      (hm : m ∈ handler.nodes (attributes.getD []) children) (h : n ∈ m.subtrees) :
      Visits r root n

/-- What is in a tag that is visited is visited. -/
theorem Visits.every {n : Node} (h : r.Visits root n) : n.Every (r.Visits root) := by
  intro m hm
  cases h with
  | root h => exact .root (Node.mem_subtrees_trans h hm)
  | rendered hsite hget hform h => exact .rendered hsite hget hform (Node.mem_subtrees_trans h hm)
  | asked hsite hget hk h => exact .asked hsite hget hk (Node.mem_subtrees_trans h hm)

/-- Whether whatever a renderer takes up besides a tree can be written if the tree can: the
templates that it knows, and the nodes and forms that the programs of handlers ask about. -/
structure KeepsWritable (r : Renderer) : Prop where
  /-- Templates. -/
  template : ∀ name t, r.templates.lookup name = some t → t.root.toNode.Writable
  /-- Nodes and forms. -/
  routine : ∀ tag p attributes children, r.registry.get? tag = some (.program p) →
    (Node.tag tag attributes children).Writable →
      (∀ n ∈ p.nodes (attributes.getD []) children, n.Writable) ∧
        ∀ form ∈ p.forms (attributes.getD []) children, form.toNode.Writable

/-- What a handler has rendered can be written, if its tag can. -/
theorem KeepsWritable.form (hr : r.KeepsWritable) {tag : String} {attributes : Option Attributes}
    {children : List Node} {handler : Handler} (hget : r.registry.get? tag = some handler)
    (htag : (Node.tag tag attributes children).Writable) :
    ∀ form ∈ handler.forms r (attributes.getD []) children, form.toNode.Writable := by
  intro form hform
  cases handler with
  | template name sharing =>
    obtain ⟨t, ht, rfl⟩ := Option.map_eq_some_iff.1 (Option.mem_toList.1 hform)
    exact hr.template name t ht
  | parsing s =>
    rw [Handler.forms] at hform
    cases hread : Form.ofText? s with
    | error e =>
      rw [hread] at hform
      cases hform
    | ok form' =>
      rw [hread] at hform
      cases List.mem_singleton.1 hform
      exact Form.writable_of_ofText? hread
  | program p => exact (hr.routine tag p attributes children hget htag).2 form hform
  | _ => cases hform

/-- What a handler asks about can be written, if its tag can. -/
theorem KeepsWritable.node (hr : r.KeepsWritable) {tag : String} {attributes : Option Attributes}
    {children : List Node} {handler : Handler} (hget : r.registry.get? tag = some handler)
    (htag : (Node.tag tag attributes children).Writable) :
    ∀ n ∈ handler.nodes (attributes.getD []) children, n.Writable := by
  intro n hn
  cases handler with
  | program p => exact (hr.routine tag p attributes children hget htag).1 n hn
  | _ => cases hn

/-- What is visited can be written, if the form can. -/
theorem Visits.writable {n : Node} (h : r.Visits root n) (hroot : root.toNode.Writable)
    (hr : r.KeepsWritable) : n.Writable := by
  induction h with
  | root h => exact Node.every_writable _ hroot _ h
  | rendered _ hget hform h ih => exact Node.every_writable _ (hr.form hget ih _ hform) _ h
  | asked _ hget hm h ih => exact Node.every_writable _ (hr.node hget ih _ hm) _ h

/-- Whether a call of the handler of a tag goes wrong by a fault: it ends in one, or it replies
something that is no text after some texts. -/
inductive GoesWrong (r : Renderer) (h : Handle) (tag : String) (attributes : Option Attributes)
    (children : List Node) (c : Context) : Fault → Prop where
  /-- The call ends in the fault. -/
  | fault {handler : Handler} {f : Fault} {d : Context}
      (hget : r.registry.get? tag = some handler)
      (hrun : (handler.call r h (attributes.getD []) children).run c = (.error (.fault f), d)) :
      GoesWrong r h tag attributes children c f
  /-- The first part of the reply that is no text. -/
  | foreign {handler : Handler} {ss : List String} {typeName : String} {ps : List Part}
      {d : Context} (hget : r.registry.get? tag = some handler)
      (hrun : (handler.call r h (attributes.getD []) children).run c =
        (.ok (.parts (ss.map .text ++ .foreign typeName :: ps)), d)) :
      GoesWrong r h tag attributes children c (.notText typeName)

/-- Whether a tag as a condition ends in a fault of its predicate. -/
def FailsToHold (r : Renderer) (h : Handle) (tag : String) (children : List Node) (c : Context)
    (f : Fault) : Prop :=
  ∃ p d, r.registry.predicate? tag = some p ∧
    (p.holds (children.map h.meaning)).run c = (.error (.fault f), d)

/-- What an error that names a tag for a failure goes back to, when a form is rendered. -/
inductive Blames (r : Renderer) (root : Form) (tag : String) : Failure → Prop where
  /-- A call of the handler of the tag. -/
  | call {room : Nat} {attributes : Option Attributes} {children : List Node} {c : Context}
      {f : Fault} (hroom : room + 1 < r.config.limit)
      (hsite : r.Visits root (.tag tag attributes children))
      (hwrong : r.GoesWrong (r.handle room) tag attributes children c f) :
      Blames r root tag (.fault f)
  /-- The predicate of the tag as a condition. -/
  | condition {room : Nat} {attributes : Option Attributes} {children : List Node} {c : Context}
      {f : Fault} (hroom : room < r.config.limit)
      (hsite : r.Visits root (.tag tag attributes children))
      (hwrong : r.FailsToHold (r.handle room) tag children c f) : Blames r root tag (.fault f)
  /-- A handler that raises this very error by itself. -/
  | raised {other : String} {handler : Handler} {attributes : Option Attributes}
      {children : List Node} {f : Failure} (hget : r.registry.get? other = some handler)
      (hsite : r.Visits root (.tag other attributes children))
      (hraises : handler.Raises (.handlerFailed tag f)) : Blames r root tag f

/-- Whether a failure is accounted for: an error that names a tag goes back to that tag, and a fault
is one of those that may get out. -/
def Accounts (r : Renderer) (root : Form) (Leaves : Fault → Prop) : Failure → Prop
  | .render (.handlerFailed tag f) => r.Blames root tag f
  | .render _ => True
  | .fault f => Leaves f

/-- For errors it does not matter which faults may get out. -/
theorem Accounts.render {Leaves Leaves' : Fault → Prop} {e : RenderError}
    (h : r.Accounts root Leaves (.render e)) : r.Accounts root Leaves' (.render e) := by
  cases e <;> exact h

/-- A failure that leaves the handler of a tag, which is to blame if it was a fault. -/
theorem Accounts.leaving {Leaves Leaves' : Fault → Prop} {f : Failure} {tag : String}
    (h : r.Accounts root Leaves f) (hblames : ∀ g, f = .fault g → r.Blames root tag (.fault g)) :
    r.Accounts root Leaves' (f.leaving tag) := by
  cases f with
  | render e => exact h.render
  | fault g => exact hblames g rfl

/-- An error that a handler raises by itself. -/
theorem accounts_raised {Leaves : Fault → Prop} {tag : String} {handler : Handler}
    {attributes : Option Attributes} {children : List Node}
    (hget : r.registry.get? tag = some handler)
    (hsite : r.Visits root (.tag tag attributes children)) {e : RenderError}
    (he : handler.Raises e) : r.Accounts root Leaves (.render e) := by
  cases e with
  | handlerFailed blamed f => exact .raised hget hsite he
  | _ => trivial

/-- Whether no handler can ever reply a number: there is none of the kind whose tag can be read, or
there is no room for a call. -/
def RepliesWell (r : Renderer) : Prop :=
  r.config.limit = 1 ∨ ∀ tag : String, IsAtom tag.toList → r.registry.get? tag ≠ some .number

end Renderer

/-- Whether nothing that a handle gives for a tree that can be written ends in a fault. -/
structure Handle.NeverFaults (h : Handle) : Prop where
  /-- Fragments. -/
  evaluate : ∀ n, n.Writable → ∀ c f, ((h.meaning n).evaluate.run c).1 ≠ .error (.fault f)
  /-- Values of attributes and operands. -/
  attributeText : ∀ n, n.Writable → ∀ escaping c f,
    (((h.meaning n).attributeText escaping).run c).1 ≠ .error (.fault f)
  /-- Truth values. -/
  test : ∀ n, n.Writable → ∀ c f, ((h.meaning n).test.run c).1 ≠ .error (.fault f)
  /-- Forms that are rendered. -/
  render : ∀ form : Form, form.toNode.Writable → ∀ c f,
    ((h.render form).run c).1 ≠ .error (.fault f)

/-! ## Endings that blame -/

namespace Eval

variable {r : Renderer} {root : Form} {Leaves : Fault → Prop} {Reads : Node → Prop}

/-- Both runs end in the same failure, which is accounted for. -/
def Endings.blaming (r : Renderer) (root : Form) (Leaves : Fault → Prop) (Reads : Node → Prop) :
    Endings where
  stops _ := False
  shared f f' := f = f' ∧ r.Accounts root Leaves f
  unblamed {e} he := by
    refine ⟨rfl, ?_⟩
    cases e with
    | handlerFailed tag f => cases he
    | _ => trivial
  Visits n := r.Visits root n ∧ Reads n

/-- The endings of calls, in which any fault may end an evaluation. -/
abbrev Endings.calling (r : Renderer) (root : Form) : Endings :=
  .blaming r root (fun _ => True) fun _ => True

theorem Endings.called_blaming :
    (Endings.blaming r root Leaves Reads).Called (.calling r root) where
  stops := id
  shared {f f'} h := by
    refine ⟨h.1, ?_⟩
    cases f with
    | render e => exact h.2.render
    | fault f => trivial
  fault f := ⟨rfl, trivial⟩

theorem Endings.areEqual_calling : (Endings.calling r root).AreEqual :=
  ⟨fun _ h => h, fun h => h.1⟩

theorem Runs.accounts {α : Type} {P : α → α → Prop} {m m' : Eval α}
    (h : Runs (.blaming r root Leaves Reads) P m m') {c : Context} {f : Failure}
    (hf : (m.run c).1 = .error f) : r.Accounts root Leaves f := by
  have hmeet := h c
  generalize m.run c = x at hmeet hf
  generalize m'.run c = y at hmeet
  cases hmeet with
  | ok hab => cases hf
  | failed hshared =>
    cases hf
    exact hshared.2
  | stopped hstops => exact hstops.elim

end Eval

namespace Renderer

variable {r : Renderer} {root : Form} {Leaves : Fault → Prop} {Reads : Node → Prop}

/-- Whether the faults that evaluations of certain nodes may end in by themselves are expected. -/
structure Expects (r : Renderer) (Leaves : Fault → Prop) (Reads : Node → Prop) : Prop where
  /-- A hole cannot be evaluated. -/
  hole : Reads .hole → Leaves .hole
  /-- A node cannot be shown. -/
  unprintable : ∀ n, Reads n → n.toText? = none → Leaves .unprintable
  /-- A number has no fragments. -/
  number : ∀ tag attributes children, r.config.limit ≠ 1 → Reads (.tag tag attributes children) →
    r.registry.get? tag = some .number → Leaves (.notIterable "int")

theorem expects_calling : r.Expects (fun _ => True) fun _ => True :=
  ⟨fun _ => trivial, fun _ _ _ => trivial, fun _ _ _ _ _ _ => trivial⟩

theorem Expects.every_suits (hr : r.Expects Leaves Reads) {n : Node}
    (hn : n.Every fun m => r.Visits root m ∧ Reads m) :
    n.Every (Node.Suits (Endings.blaming r root Leaves Reads).pairing .same) := fun m hm =>
  ⟨⟨hn m hm, fun hprint => ⟨rfl, hr.unprintable m (hn m hm).2 hprint⟩⟩,
    fun _ _ _ _ _ _ _ => trivial, fun _ _ _ _ _ _ _ => trivial, fun _ _ _ _ _ _ => trivial⟩

/-- The handle for nested calls of a renderer with some room. -/
def below (r : Renderer) : Nat → Option Handle
  | 0 => none
  | room + 1 => some (r.handle room)

theorem handle_eq_layer (r : Renderer) (room : Nat) :
    r.handle room = r.layer fun _ => r.below room := by
  cases room <;> rfl

section

variable {tag : String} {handler : Handler} {attributes : Option Attributes}
  {children : List Node} (hget : r.registry.get? tag = some handler)
  (hn : (Node.tag tag attributes children).Every (r.Visits root))
include hget hn

/-- What a call may ask for ends as calls may end. -/
theorem asks_calling {h : Handle} (hh : h.Alike (.calling r root) h) :
    handler.Asks (Endings.calling r root).pairing r (attributes.getD []) children h h := by
  have hsuits {n : Node} (hn : n.Every (r.Visits root)) :=
    expects_calling.every_suits fun m hm => ⟨hn m hm, trivial⟩
  exact hh.asks (hsuits hn) (fun form hform => hsuits fun m hm => .rendered hn.self hget hform hm)
    fun n hmem => hsuits fun m hm => .asked hn.self hget hmem hm

/-- A call of a handler in a renderer with room for it. -/
theorem runs_call_blaming {room : Nat} (hroom : room + 1 < r.config.limit)
    (hh : (r.handle room).Alike (.calling r root) (r.handle room))
    (hnumber : handler = .number → Leaves (.notIterable "int")) :
    Runs (.blaming r root Leaves Reads) Eq
      (r.call (some (r.handle room)) handler tag attributes children)
      (r.call (some (r.handle room)) handler tag attributes children) := by
  have hcall := Handler.runs_call (asks_calling hget hn hh) Endings.called_blaming rfl
    (fun e he => ⟨rfl, accounts_raised hget hn.self he⟩) fun _ => Endings.areEqual_calling
  -- what may go wrong after the call depends on the reply, so the run that yields it is kept
  have hreply : Runs (.calling r root) (fun reply reply' => reply = reply' ∧ ∃ c d,
      (handler.call r (r.handle room) (attributes.getD []) children).run c = (.ok reply, d))
      (handler.call r (r.handle room) (attributes.getD []) children)
      (handler.call r (r.handle room) (attributes.getD []) children) :=
    hcall.imp fun c d reply _ hrun _ heq => ⟨heq, c, d, hrun⟩
  refine ((hreply.guarded id fun {_ _ f _} hrun _ hshared => ?_).inChild .empty).bind
    fun reply reply' hab => ?_
  · obtain ⟨rfl, haccounts⟩ := hshared
    refine ⟨rfl, haccounts.leaving fun g hg => ?_⟩
    subst hg
    exact .call hroom hn.self (.fault hget hrun)
  · obtain ⟨rfl, c, d, hrun⟩ := hab
    refine runs_fragments (fun ss typeName ps hps => ⟨rfl, ?_⟩) fun hreply => ⟨rfl, ?_⟩
    · subst hps
      exact .call hroom hn.self (.foreign hget hrun)
    · exact hnumber (Handler.yields_call r _ _ _ _ c reply (congrArg Prod.fst hrun) hreply)

end

/-! ## Renderers -/

theorem call_none (r : Renderer) (handler : Handler) (tag : String)
    (attributes : Option Attributes) (children : List Node) :
    r.call none handler tag attributes children = fail (.recursionLimit r.config.limit tag) :=
  rfl

/-- What a renderer with some room does by itself ends in failures that are accounted for, if that
holds of calls inside of calls. -/
theorem paired_blaming (root : Form) (hr : r.Expects Leaves Reads) {room : Nat}
    (hroom : room < r.config.limit)
    (hbelow : ∀ room', room = room' + 1 →
      (r.handle room').Alike (.calling r root) (r.handle room')) :
    Renderer.Paired (Endings.blaming r root Leaves Reads).pairing .same r r (r.below room)
      (r.below room) where
  registry := rfl
  isVoid _ := rfl
  framed := Rewriting.framed_same
  text _ hs := Meaning.paired_ofText rfl hs
  var _ hn := Meaning.paired_ofVar rfl hn
  hole hn := Meaning.paired_ofHole (runs_throw ⟨rfl, hr.hole hn.1.2⟩) hn
  call tag handler attributes children hget hn := by
    have hvisits : (Node.tag tag attributes children).Every (r.Visits root) :=
      fun m hm => (hn m hm).legible.1.1
    cases room with
    | zero =>
      rw [below, call_none]
      exact runs_throw ⟨rfl, trivial⟩
    | succ room =>
      refine runs_call_blaming hget hvisits hroom (hbelow room rfl) ?_
      rintro rfl
      exact hr.number tag attributes children (by omega) hn.self.legible.1.2 hget
  condition tag p attributes children hp hn hms := by
    have hsite := hn.self.legible.1.1
    have hholds : Runs (.calling r root) Eq (p.holds (children.map (r.denote (r.below room))))
        (p.holds (children.map (r.denote (r.below room)))) :=
      Handler.runs_holds hms Endings.called_blaming fun e he =>
        ⟨rfl, accounts_raised (Registry.get?_of_predicate? hp) hsite (by rw [he]; rfl)⟩
    refine (hholds.guarded id fun {c d f _} hrun _ hshared => ?_).inChild .empty
    obtain ⟨rfl, haccounts⟩ := hshared
    refine ⟨rfl, haccounts.leaving fun g hg => ?_⟩
    subst hg
    have hfails : r.FailsToHold (r.handle room) tag children c g := by
      rw [handle_eq_layer]
      exact ⟨p, d, hp, hrun⟩
    exact .condition hroom hsite hfails

/-- Evaluations in a renderer end in failures that are accounted for. -/
theorem alike_blaming (root : Form) (hr : r.Expects Leaves Reads) {room : Nat}
    (hroom : room < r.config.limit) :
    (r.handle room).Alike (.blaming r root Leaves Reads) (r.handle room) := by
  induction room generalizing Leaves Reads with
  | zero =>
    have hpaired := paired_blaming root hr hroom (by simp)
    refine ⟨⟨node_denote _ _, paired_denote hpaired⟩, fun form hform => ?_⟩
    have hlimit (tag : String) : (Endings.blaming r root Leaves Reads).shared
        (.render (.recursionLimit r.config.limit tag))
        (.render (.recursionLimit r.config.limit tag)) := ⟨rfl, trivial⟩
    exact Nests.runs_render (.full hlimit) rfl hform
  | succ room ih =>
    have hpaired := paired_blaming root hr hroom fun room' h => by
      obtain rfl : room' = room := by omega
      exact ih expects_calling (by omega)
    refine ⟨⟨node_denote _ _, paired_denote hpaired⟩, fun form hform => ?_⟩
    exact Nests.runs_render (.room (ih hr (by omega))) rfl hform

/-! ## Trees that are read from a text -/

/-- Whether a fault gets out of renderings: it is that a number has no fragments, and there is a
handler that replies one. -/
def Leaks (r : Renderer) (f : Fault) : Prop :=
  f = .notIterable "int" ∧ ¬ r.RepliesWell

theorem expects_writable (r : Renderer) : r.Expects r.Leaks Node.Writable where
  hole h := by
    rw [Node.Writable] at h
    exact h.elim
  unprintable n hn hprint := by
    obtain ⟨u, hu, -⟩ := reads_node n hn
    rw [Node.toText?, hu] at hprint
    cases hprint
  number tag attributes children hlimit hn hget :=
    ⟨rfl, fun hwell => hwell.elim hlimit fun hnone => hnone tag hn.parts.1 hget⟩

theorem every_suits_writable {n : Node} (hvisits : n.Every (r.Visits root)) (hn : n.Writable) :
    n.Every (Node.Suits (Endings.blaming r root r.Leaks Node.Writable).pairing .same) :=
  (expects_writable r).every_suits fun m hm => ⟨hvisits m hm, Node.every_writable n hn m hm⟩

/-- Rendering a form in a renderer with all its room. -/
theorem runs_renderForm (hroot : root.toNode.Writable) :
    Runs (.blaming r root r.Leaks Node.Writable) Eq (r.renderForm root) (r.renderForm root) := by
  obtain ⟨room, hroom⟩ := Nat.exists_eq_succ_of_ne_zero (Nat.ne_of_gt r.config.limit_pos)
  rw [renderForm, top, hroom]
  have hlimit : room < r.config.limit := by omega
  have hhandle := alike_blaming root (expects_writable r) hlimit
  exact Nests.runs_render (.room hhandle) rfl (every_suits_writable (fun _ => .root) hroot)

/-- As long as no handler replies a number, what handlers get to evaluate never ends in a fault. -/
theorem neverFaults_handle (hr : r.RepliesWell) {room : Nat} (hroom : room < r.config.limit) :
    (r.handle room).NeverFaults := by
  have hne {α : Type} {root : Form} {P : α → α → Prop} {m m' : Eval α}
      (h : Runs (.blaming r root r.Leaks Node.Writable) P m m') (c : Context) (f : Fault) :
      (m.run c).1 ≠ .error (.fault f) := fun hf => (h.accounts hf).2 hr
  have hhandle (root : Form) := alike_blaming root (expects_writable r) hroom
  have hmeaning (n : Node) (hn : n.Writable) := by
    refine (hhandle ⟨"", none, [n]⟩).meaning.meaning n (every_suits_writable (fun m hm => ?_) hn)
    exact .root (Node.mem_subtrees_tag.2 (.inr (.inr ⟨n, List.mem_singleton.2 rfl, hm⟩)))
  refine ⟨fun n hn => hne (hmeaning n hn).evaluate, fun n hn escaping => ?_,
    fun n hn => hne (hmeaning n hn).test, fun form hform => ?_⟩
  · cases escaping with
    | true => exact hne (hmeaning n hn).attributeText
    | false => exact hne ((hmeaning n hn).raw trivial)
  · exact hne ((hhandle form).render form (every_suits_writable (fun _ => .root) hform))


/-! ## One call -/

theorem run_fragments_foreign (tag : String) (ss : List String) (typeName : String)
    (ps : List Part) (c : Context) :
    ((Reply.parts (ss.map .text ++ .foreign typeName :: ps)).fragments tag).run c =
      (.error (.render (.handlerFailed tag (.fault (.notText typeName)))), c) := by
  rw [Reply.fragments]
  induction ss with
  | nil => rfl
  | cons s ss ih =>
    rw [List.map_cons, List.cons_append, Reply.textsOf, run_bind, ih]

/-- A call that goes wrong by a fault ends in an error that names the tag. -/
theorem run_call_of_goesWrong {h : Handle} {tag : String} {attributes : Option Attributes}
    {children : List Node} {c : Context} {f : Fault}
    (hwrong : r.GoesWrong h tag attributes children c.push f) {handler : Handler}
    (hget : r.registry.get? tag = some handler) :
    ((r.call (some h) handler tag attributes children).run c).1 =
      .error (.render (.handlerFailed tag (.fault f))) := by
  rw [call, run_bind, run_inChild, guarded, run_tryCatch, nested_eq]
  rw [Context.push] at hwrong
  cases hwrong with
  | fault hhandler hrun =>
    cases hget.symm.trans hhandler
    rw [hrun]
    rfl
  | foreign hhandler hrun =>
    cases hget.symm.trans hhandler
    rw [hrun]
    exact congrArg Prod.fst (run_fragments_foreign tag _ _ _ _)

theorem GoesWrong.exists_handler {h : Handle} {tag : String} {attributes : Option Attributes}
    {children : List Node} {c : Context} {f : Fault}
    (hwrong : r.GoesWrong h tag attributes children c f) :
    ∃ handler, r.registry.get? tag = some handler := by
  cases hwrong with
  | fault hget _ => exact ⟨_, hget⟩
  | foreign hget _ => exact ⟨_, hget⟩

/-- A condition that ends in a fault of its predicate ends in an error that names the tag. -/
theorem run_test_of_failsToHold {room : Nat} {tag : String} {children : List Node} {c : Context}
    {f : Fault} (hfails : r.FailsToHold (r.handle room) tag children c.push f)
    (attributes : Option Attributes) :
    (((r.handle room).meaning (.tag tag attributes children)).test.run c).1 =
      .error (.render (.handlerFailed tag (.fault f))) := by
  obtain ⟨p, d, hp, hrun⟩ := hfails
  rw [handle_eq_layer] at hrun ⊢
  have htest : (r.denote (r.below room) (.tag tag attributes children)).test =
      inChild .empty (guarded tag (p.holds (children.map (r.denote (r.below room))))) := by
    rw [denote_tag, tagMeaning, condition, hp]
    rfl
  show ((r.denote (r.below room) (.tag tag attributes children)).test.run c).1 = _
  rw [htest, run_inChild, guarded, run_tryCatch]
  have hrun' : (p.holds (children.map (r.denote (r.below room)))).run (c.pushFrame .empty) =
    (.error (.fault f), d) := hrun
  rw [hrun']
  rfl

/-! ## Numbers -/

/-- If some handler can reply a number, a template can be read whose rendering ends in a fault. -/
theorem exists_leak (hr : ¬ r.RepliesWell) :
    ∃ text t, Template.ofText? text "" = .ok t ∧
      ∀ c, ((r.render t).run c).1 = .error (.fault (.notIterable "int")) := by
  obtain ⟨hlimit, tag, htag, hget⟩ : r.config.limit ≠ 1 ∧
      ∃ tag : String, IsAtom tag.toList ∧ r.registry.get? tag = some .number := by
    simpa [RepliesWell] using hr
  have hform : (Form.mk tag none []).toNode.Writable := by
    rw [Form.toNode, Node.Writable]
    exact ⟨htag, trivial⟩
  obtain ⟨text, -, htext⟩ := Form.ofText?_of_writable hform
  refine ⟨text, ⟨⟨tag, none, []⟩, ""⟩, by rw [Template.ofText?, htext]; rfl, fun c => ?_⟩
  obtain ⟨room, hroom⟩ : ∃ room, r.config.limit = room + 2 :=
    ⟨r.config.limit - 2, by have := r.config.limit_pos; omega⟩
  have hcall : (((r.handle (room + 1)).meaning (Form.mk tag none []).toNode).evaluate.run c).1 =
      .error (.fault (.notIterable "int")) := by
    show ((r.denote (some (r.handle room)) (.tag tag none [])).evaluate.run c).1 = _
    rw [evaluate_denote_of_get? hget]
    rfl
  rw [render, renderForm, top, hroom, handle_render_succ, Meaning.text, joined, run_bind, run_bind]
  generalize ((r.handle (room + 1)).meaning (Form.mk tag none []).toNode).evaluate.run c = x
    at hcall ⊢
  obtain ⟨o, after⟩ := x
  cases hcall
  rfl

/-- A handler that only evaluates its children is never blamed, as long as no handler replies a
number and templates are read from texts. -/
theorem not_blames_of_content (hr : r.RepliesWell) (hroot : root.toNode.Writable)
    (hkeeps : r.KeepsWritable)
    (hraises : ∀ other handler e, r.registry.get? other = some handler → handler.Raises e →
      e.blamed? = none)
    {tag : String} {isObject : Bool} (hget : r.registry.get? tag = some (.content isObject))
    (f : Failure) : ¬ r.Blames root tag f := by
  intro hblames
  cases hblames with
  | raised hother _ he => cases hraises _ _ _ hother he
  | condition _ _ hwrong =>
    obtain ⟨p, -, hp, -⟩ := hwrong
    cases hget.symm.trans (Registry.get?_of_predicate? hp)
  | @call room attributes children c f hroom hsite hwrong =>
    have hwritable := hsite.writable hroot hkeeps
    have hhandle := alike_blaming root (expects_writable r) (Nat.lt_of_succ_lt hroom)
    have hchildren : AllPaired (Endings.blaming r root r.Leaks Node.Writable).pairing .same
        (children.map (r.handle room).meaning) (children.map (r.handle room).meaning) :=
      .map fun n hn => hhandle.meaning.meaning n
        (every_suits_writable (hsite.every.child hn) (hwritable.parts.2.2 n hn))
    have hcontent : Runs (.blaming r root r.Leaks Node.Writable) Eq
        (Handler.call.content (r.handle room) children)
        (Handler.call.content (r.handle room) children) :=
      Runs.andThen (pairs_evaluateAll hchildren) fun _ => runs_pure rfl
    cases hwrong with
    | fault hhandler hrun =>
      cases hget.symm.trans hhandler
      exact (hcontent.accounts (congrArg Prod.fst hrun)).2 hr
    | @foreign _ ss typeName ps _ hhandler hrun =>
      cases hget.symm.trans hhandler
      have htexts : Yields (fun reply => ∃ texts, reply = .ofTexts texts)
          (Handler.call.content (r.handle room) children) :=
        yields_bind fun texts => yields_pure ⟨texts, rfl⟩
      obtain ⟨texts, h⟩ := htexts _ _ (congrArg Prod.fst hrun)
      have hmem : Part.foreign typeName ∈ texts.map Part.text := by
        rw [← Reply.parts.inj h]
        simp
      simp at hmem

/-! ## Results -/

/-- **Failures name their handler.**  Whatever handlers raise and reply, rendering a template that
was read from a text ends in a fault only by way of a number that a handler has replied, and an
error that names a tag goes back to a call of that tag's handler, or to a condition, that went wrong
by this fault.  No rendering ends in a fault exactly if no handler can reply a number; then what a
handler gets to evaluate never ends in a fault either, so that the fault of a call is never one of a
call inside of it.  And at every depth a call or a condition that goes wrong by a fault ends in the
error that names its own tag. -/
theorem failures_name_their_handler (r : Renderer) :
    (∀ text name t, Template.ofText? text name = .ok t → ∀ c,
      (∀ f, ((r.render t).run c).1 = .error (.fault f) → f = .notIterable "int") ∧
      ∀ tag f, ((r.render t).run c).1 = .error (.render (.handlerFailed tag f)) →
        r.Blames t.root tag f) ∧
    ((∀ text name t, Template.ofText? text name = .ok t → ∀ c f,
      ((r.render t).run c).1 ≠ .error (.fault f)) ↔ r.RepliesWell) ∧
    (r.RepliesWell → ∀ room, room < r.config.limit → (r.handle room).NeverFaults) ∧
    ∀ room tag attributes children c f,
      (r.GoesWrong (r.handle room) tag attributes children c.push f →
        (((r.handle (room + 1)).meaning (.tag tag attributes children)).evaluate.run c).1 =
          .error (.render (.handlerFailed tag (.fault f)))) ∧
      (r.FailsToHold (r.handle room) tag children c.push f →
        (((r.handle room).meaning (.tag tag attributes children)).test.run c).1 =
          .error (.render (.handlerFailed tag (.fault f)))) := by
  have haccounts {text name : String} {t : Template} (ht : Template.ofText? text name = .ok t)
      {c : Context} {f : Failure} (hf : ((r.render t).run c).1 = .error f) :
      r.Accounts t.root r.Leaks f :=
    (runs_renderForm (Template.writable_of_ofText? ht)).accounts hf
  refine ⟨fun text name t ht c => ⟨fun f hf => (haccounts ht hf).1, fun tag f => haccounts ht⟩,
    ⟨fun hnever => ?_, fun hr text name t ht c f hf => (haccounts ht hf).2 hr⟩,
    fun hr room => neverFaults_handle hr, ?_⟩
  · by_contra hr
    obtain ⟨text, t, ht, hleak⟩ := exists_leak hr
    exact hnever text "" t ht .empty _ (hleak .empty)
  · intro room tag attributes children c f
    refine ⟨fun hwrong => ?_, fun hfails => run_test_of_failsToHold hfails attributes⟩
    obtain ⟨handler, hget⟩ := hwrong.exists_handler
    show ((r.denote (some (r.handle room)) (.tag tag attributes children)).evaluate.run c).1 = _
    rw [evaluate_denote_of_get? hget]
    exact run_call_of_goesWrong hwrong hget

/-- A renderer with handlers that fail inside of a box. -/
def failing : Renderer where
  config := { Config.standard with limit := 4, limit_pos := by decide }
  registry := ⟨[("box", .content true), ("boom", .raising (.fault (.raised .value "bad"))),
    ("odd", .foreign "int")], by decide⟩
  templates := []

theorem handlers_failing {tag : String} {handler : Handler}
    (hget : failing.registry.get? tag = some handler) :
    handler = .content true ∨ handler = .raising (.fault (.raised .value "bad")) ∨
      handler = .foreign "int" := by
  revert hget
  apply Registry.forall_get?
  simp [failing]

/-- The handlers are named that fail, and never the box around them. -/
theorem failing_names_handlers :
    ((failing.render ⟨⟨"box", none, [.tag "boom" none []]⟩, ""⟩).run .empty).1 =
        .error (.render (.handlerFailed "boom" (.fault (.raised .value "bad")))) ∧
      failing.Blames ⟨"box", none, [.tag "boom" none []]⟩ "boom" (.fault (.raised .value "bad")) ∧
      ((failing.render ⟨⟨"box", none, [.tag "odd" none []]⟩, ""⟩).run .empty).1 =
        .error (.render (.handlerFailed "odd" (.fault (.notText "int")))) ∧
      failing.Blames ⟨"box", none, [.tag "odd" none []]⟩ "odd" (.fault (.notText "int")) ∧
      ∀ text name t, Template.ofText? text name = .ok t → ∀ c f,
        ((failing.render t).run c).1 ≠ .error (.render (.handlerFailed "box" f)) := by
  have hnamed := (failures_name_their_handler failing).1
  have hboom : Template.ofText? "(box (boom))" "" =
    .ok ⟨⟨"box", none, [.tag "boom" none []]⟩, ""⟩ := rfl
  have hodd : Template.ofText? "(box (odd))" "" =
    .ok ⟨⟨"box", none, [.tag "odd" none []]⟩, ""⟩ := rfl
  refine ⟨rfl, (hnamed _ _ _ hboom .empty).2 _ _ rfl, rfl, (hnamed _ _ _ hodd .empty).2 _ _ rfl,
    fun text name t ht c f hf => ?_⟩
  have hreplies : failing.RepliesWell := by
    refine .inr fun tag _ hget => ?_
    rcases handlers_failing hget with h | h | h <;> cases h
  have hbox : failing.registry.get? "box" = some (.content true) := rfl
  have hblames := (hnamed _ _ _ ht c).2 _ _ hf
  refine not_blames_of_content hreplies (Template.writable_of_ofText? ht) ⟨?_, ?_⟩ ?_ hbox f hblames
  · intro _ _ h
    cases h
  · intro _ _ _ _ hget
    rcases handlers_failing hget with h | h | h <;> cases h
  · intro other handler e hget hraises
    rcases handlers_failing hget with rfl | rfl | rfl <;> cases hraises

/-- A renderer with a handler that replies a number. -/
def counting : Renderer where
  config := { Config.standard with limit := 4, limit_pos := by decide }
  registry := ⟨[("box", .content true), ("n", .number)], by decide⟩
  templates := []

/-- That a number has no fragments gets out as a fault, or it is the box around that is named. -/
theorem counting_names_the_box :
    Template.ofText? "(n)" "" = .ok ⟨⟨"n", none, []⟩, ""⟩ ∧
      ((counting.render ⟨⟨"n", none, []⟩, ""⟩).run .empty).1 =
        .error (.fault (.notIterable "int")) ∧
      Template.ofText? "(box (n))" "" = .ok ⟨⟨"box", none, [.tag "n" none []]⟩, ""⟩ ∧
      ((counting.render ⟨⟨"box", none, [.tag "n" none []]⟩, ""⟩).run .empty).1 =
        .error (.render (.handlerFailed "box" (.fault (.notIterable "int")))) :=
  ⟨rfl, rfl, rfl, rfl⟩

end Renderer

end MarkupForms

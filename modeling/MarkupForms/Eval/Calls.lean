import MarkupForms.Eval.Conditions

/-!
# Calls of handlers

A handler works through a handle on the renderer: it asks for the meanings of nodes and has forms
rendered.  What it replies is checked after its call is over: a reply is nothing, a text, or parts
that all have to be texts.
-/

namespace MarkupForms

/-- What a handler may use of the renderer. -/
structure Handle (σ : Type := Context) where
  /-- The meaning of a node. -/
  meaning : Node → Meaning σ
  /-- The text of a form that is rendered in the context. -/
  render : Form → EvalOn σ String

/-- The answer to a question. -/
def Handle.ask {σ : Type} (h : Handle σ) : (q : Query) → EvalOn σ q.Answer
  | .nodes ns => evaluateAll (ns.map h.meaning)
  | .node n => (h.meaning n).evaluate
  | .text n escaping => (h.meaning n).attributeText escaping
  | .operand n => (h.meaning n).operand
  | .truth n => (h.meaning n).test
  | .rendering form => h.render form

/-- Take the steps of a program. -/
def Program.run {σ : Type} [Carrier σ] (h : Handle σ) {nodes : List Node} {forms : List Form} :
    Program nodes forms → EvalOn σ (List Part)
  | .reply parts => pure parts
  | .raise f => throw f
  | .ask q _ next => do (next (← h.ask q)).run h
  | .look next => do (next (← Eval.context)).run h
  | .bind name data next => do
      Eval.bindData name data
      next.run h
  | .inChild f body next => do (next (← Eval.inChild f (body.run h))).run h
  | .within other body next => do (next (← Eval.within other (body.run h))).run h
  | .attempt body next => do (next (← Eval.attempt (body.run h))).run h

/-- What a handler replies. -/
inductive Reply where
  /-- Nothing. -/
  | nothing
  /-- A text. -/
  | text (s : String)
  /-- Parts in order. -/
  | parts (ps : List Part)
  /-- A number. -/
  | number
deriving DecidableEq, Repr

variable {σ : Type}

namespace Reply

/-! ## Replies -/

/-- The reply with the given texts as parts. -/
def ofTexts (ss : List String) : Reply :=
  .parts (ss.map .text)

/-- The texts of parts; a part of another type is a fault of the handler. -/
def textsOf (tag : String) : List Part → EvalOn σ (List String)
  | [] => pure []
  | .text s :: ps => do return s :: (← textsOf tag ps)
  | .foreign typeName :: _ => Eval.fail (.handlerFailed tag (.fault (.notText typeName)))

/-- The fragments of a reply.  That a number has none is a fault outside of the call. -/
def fragments (tag : String) : Reply → EvalOn σ (List String)
  | .nothing => pure []
  | .text s => pure [s]
  | .parts ps => textsOf tag ps
  | .number => Eval.fault (.notIterable "int")

end Reply

namespace Handler

/-! ## What handlers may ask about -/

/-- The forms that a handler may have rendered for a tag. -/
def forms (r : Renderer) (attributes : Attributes) (children : List Node) : Handler → List Form
  | .template name _ => ((r.templates.lookup name).map Template.root).toList
  | .parsing s => (Form.ofText? s).toOption.toList
  | .program p => p.forms attributes children
  | _ => []

/-- The nodes that a handler may ask about for a tag, besides those of the tag. -/
def nodes (attributes : Attributes) (children : List Node) : Handler → List Node
  | .program p => p.nodes attributes children
  | _ => []

variable [Carrier σ]

/-! ## What handlers do -/

/-- An attribute as it was written. -/
def listed (a : String × Node) : EvalOn σ String := do
  match a.2.raw? with
  | some raw => pure (a.1 ++ "=" ++ raw ++ ";")
  | none => Eval.fault .unprintable

/-- The values of attributes, in order. -/
def attributeTexts (h : Handle σ) : Attributes → EvalOn σ (List (String × String))
  | [] => pure []
  | (key, n) :: rest => do
      let text ← (h.meaning n).attributeText true
      return (key, text) :: (← attributeTexts h rest)

/-- Texts as bindings. -/
def scalars (pairs : List (String × String)) : List (String × Value) :=
  pairs.map fun p => (p.1, .scalar p.2)

/-- What a caller offered. -/
def accept {α : Type} (offer : Offered α) : EvalOn σ α :=
  Eval.ofExcept (fun e => .fault (.data e)) offer

/-- Bind a name to data that was offered. -/
def bindOffered (name : String) (offer : Offered Data) : EvalOn σ Unit := do
  Eval.bindData name (← accept offer)

/-- Bind a name if there is one. -/
def bindIf : Option (String × Offered Data) → EvalOn σ Unit
  | none => pure ()
  | some (name, offer) => bindOffered name offer

/-- The texts that a computation yields for each of several nodes. -/
def eachText (f : Meaning σ → EvalOn σ String) (ms : List (Meaning σ)) : EvalOn σ (List String) :=
  Eval.forEach (fun m => do return [← f m]) ms

/-- Render a named template. -/
def renderNamed (r : Renderer) (name : String) (render : Form → EvalOn σ String) :
    EvalOn σ Reply :=
  match r.templates.lookup name with
  | none => Eval.fault (.noTemplate name)
  | some t => do return .ofTexts [← render t.root]

/-- The context for a template that is rendered with the attributes of a tag and its content. -/
def attributeContext (h : Handle σ) (attributes : Attributes) (children : List Node) :
    EvalOn σ Context := do
  let pairs ← attributeTexts h attributes
  let body ← Eval.joined (evaluateAll (children.map h.meaning))
  return .ofList (Entries.put "body" (.scalar body) (Entries.ofList (scalars pairs)))

/-- The fragments of the children, or the type of the render error that they end with. -/
def caught (m : EvalOn σ (List String)) : EvalOn σ (List String) := do
  match ← Eval.attempt m with
  | .ok result => pure result
  | .error e => pure ["[", e.typeName, "]"]

/-- Call a handler for a tag with the given attributes and children. -/
def call (r : Renderer) (h : Handle σ) (attributes : Attributes) (children : List Node) :
    Handler → EvalOn σ Reply
  | .predicate p => do
      let b ← p.holds (children.map h.meaning)
      return .ofTexts [Predicate.truthText b]
  | .content _ => content
  | .fragments parts => pure (.ofTexts parts)
  | .text s => pure (.text s)
  | .nothing => pure .nothing
  | .foreign typeName => pure (.parts [.text "a", .foreign typeName, .text "b"])
  | .number => pure .number
  | .raising failure => throw failure
  | .listAttributes => do
      return .ofTexts (← Eval.forEach (fun a => do return [← listed a]) attributes)
  | .source => do
      let block ← Eval.writtenBlock attributes
      return .ofTexts (block :: (← Eval.forEach (fun n => do return [← Eval.written n]) children))
  | .counts => pure (.ofTexts [toString attributes.length, "/", toString children.length])
  | .attributeValue key =>
      match attributes.get? key with
      | none => pure (.ofTexts ["<none>"])
      | some n => do return .ofTexts [← (h.meaning n).attributeText true]
  | .binding name offer => do
      bindOffered name offer
      content
  | .pushing name offer =>
      Eval.inChild .empty do
        bindOffered name offer
        content
  | .popping times bound =>
      Eval.popping times do
        bindIf bound
        content
  | .attributeScope => do
      let pairs ← attributeTexts h attributes
      let named := (scalars pairs).map fun b => (Context.normalize b.1, b.2)
      Eval.inChild (.ofList named) content
  | .fresh offer => do
      let other ← accept (offer >>= Context.ofPairs?)
      Eval.within other content
  | .repeating times => do
      let parts ← inner
      return .ofTexts (List.replicate times parts).flatten
  | .texts => do
      let texts ← eachText Meaning.text (children.map h.meaning)
      return .text ("|".intercalate texts)
  | .operands => do
      let texts ← eachText Meaning.operand (children.map h.meaning)
      return .text ("|".intercalate texts)
  | .tests => do
      let letter := fun (m : Meaning σ) => do return if ← m.test then "T" else "F"
      return .ofTexts (← eachText letter (children.map h.meaning))
  | .template name .isolated => renderNamed r name fun form => Eval.within .empty (h.render form)
  | .template name .shared => renderNamed r name h.render
  | .template name .attributes => do
      let other ← attributeContext h attributes children
      renderNamed r name fun form => Eval.within other (h.render form)
  | .parsing s => do
      let form ← Eval.ofExcept (fun e => .fault (.source e)) (Form.ofText? s)
      return .ofTexts [← h.render form]
  | .visibleNames => do
      let c ← Eval.context
      return .ofTexts [",".intercalate c.names, ":", toString c.depth]
  | .catching => do return .ofTexts (← caught inner)
  | .program p => do return .parts (← (p.program attributes children).run h)
where
  /-- The fragments of the children. -/
  inner : EvalOn σ (List String) :=
    evaluateAll (children.map h.meaning)
  /-- The children as a reply. -/
  content : EvalOn σ Reply := do
    return .ofTexts (← inner)

end Handler

end MarkupForms

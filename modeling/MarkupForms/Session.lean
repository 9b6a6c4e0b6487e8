import MarkupForms.Renderer

/-!
# Sessions

A session is a renderer with contexts under names, and a history of calls.  A call works on one of
the contexts, or on a context without names that is given up afterwards; what it binds there stays
bound.  All calls of a session share the count of nested calls: each of them starts with the count
that the one before has left.
-/

namespace MarkupForms

/-- A node, given as a tree or as the root of a text. -/
inductive Session.Subject where
  /-- A tree. -/
  | node (n : Node)
  /-- A text. -/
  | source (s : String)
deriving Repr

/-- A call. -/
inductive Session.Call where
  /-- Render a named template. -/
  | render (template : String)
  /-- Render a text. -/
  | renderText (s : String)
  /-- Render a node; only a tag can be rendered. -/
  | renderNode (n : Node)
  /-- Evaluate a node. -/
  | evaluate (s : Session.Subject)
  /-- Evaluate nodes, one after the other. -/
  | evaluateNodes (ns : List Node)
  /-- Ask for the text of a node. -/
  | text (s : Session.Subject)
  /-- Ask for the text of a node as an operand. -/
  | operand (s : Session.Subject)
  /-- Ask for the text of a node as the value of an attribute. -/
  | attributeText (s : Session.Subject) (escaping : Bool)
  /-- Ask for the truth value of a node. -/
  | test (s : Session.Subject)
  /-- Replace the references in a text. -/
  | interpolate (s : String) (escaping : Bool)
  /-- Ask for the text of a variable. -/
  | scalar (name : String)
  /-- Ask for the text of an attribute. -/
  | attributeOf (attributes : Option Attributes) (key : String)
  /-- Go on with more handlers. -/
  | extend (functions : List (String × Candidate))

namespace Session

/-- The answer to a call. -/
inductive Answer where
  /-- A text, if there is one. -/
  | text (s : Option String)
  /-- Texts in order. -/
  | texts (ss : List String)
  /-- A truth value. -/
  | truth (b : Bool)
deriving DecidableEq, Repr

/-- Why there is no answer. -/
inductive Problem where
  /-- Evaluation failed. -/
  | failure (f : Failure)
  /-- Handlers cannot be registered. -/
  | registry (e : RegistryError)
deriving DecidableEq, Repr

end Session

/-- A renderer with contexts under names. -/
structure Session where
  /-- The renderer. -/
  renderer : Renderer
  /-- The contexts. -/
  contexts : List (String × Context)
  /-- How many calls of handlers and renderings are nested. -/
  nested : Nat := 0
deriving Inhabited

namespace Session

/-- The node that a subject stands for. -/
def Subject.toNode {σ : Type} : Subject → EvalOn σ Node
  | .node n => pure n
  | .source s => do
      let form ← Eval.ofExcept (fun e => .fault (.source e)) (Form.ofText? s)
      return form.toNode

/-- The answer to a call for evaluation. -/
def answer {σ : Type} [Carrier σ] (r : Renderer) : Call → EvalOn σ Answer
  | .render name =>
      match r.templates.lookup name with
      | none => Eval.fault (.noTemplate name)
      | some t => do return .text (some (← r.render t))
  | .renderText s => do return .text (some (← r.renderText s))
  | .renderNode n =>
      match n.form? with
      | none => Eval.fault .hole
      | some form => do return .text (some (← r.renderForm form))
  | .evaluate s => do return .texts (← r.evaluate (← s.toNode))
  | .evaluateNodes ns => do return .texts (← r.evaluateNodes ns)
  | .text s => do return .text (some (← r.text (← s.toNode)))
  | .operand s => do return .text (some (← r.operand (← s.toNode)))
  | .attributeText s escaping => do
      return .text (some (← r.attributeText (← s.toNode) escaping))
  | .test s => do return .truth (← r.test (← s.toNode))
  | .interpolate s escaping => do return .text (some (← r.interpolate s escaping))
  | .scalar name => do return .text (some (← Eval.scalar name))
  | .attributeOf attributes key => do return .text (← r.attributeOf attributes key)
  | .extend _ => pure (.texts [])

/-- The context that a call works on. -/
def contextOf (s : Session) (slot : Option String) : Context :=
  (slot.bind fun name => s.contexts.lookup name).getD .empty

/-- What a call works on: one of the contexts, and the count of nested calls. -/
def stateFor (s : Session) (slot : Option String) : Counted :=
  ⟨s.contextOf slot, s.nested⟩

/-- Put back what a call worked on. -/
def putBack (s : Session) (slot : Option String) (after : Counted) : Session where
  renderer := s.renderer
  contexts :=
    match slot with
    | none => s.contexts
    | some name => Entries.put name after.context s.contexts
  nested := after.nested

/-- Make a call. -/
def perform (s : Session) (slot : Option String) (call : Call) : Session × Except Problem Answer :=
  match call with
  | .extend functions =>
      match s.renderer.extend functions with
      | .error e => (s, .error (.registry e))
      | .ok renderer => ({ s with renderer }, .ok (.texts renderer.registry.sortedNames))
  | call =>
      let (r, after) := (answer s.renderer call).run (s.stateFor slot)
      (s.putBack slot after, r.mapError .failure)

end Session

end MarkupForms

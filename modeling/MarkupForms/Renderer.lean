import MarkupForms.Eval.Denotation

/-!
# Renderers

A renderer evaluates nodes and renders templates in a context that it is given.  It has a
configuration, a registry of handlers, and the templates that its handlers may render.

* `Renderer.text_eq`, `Renderer.operand_eq` : texts and operands are what the meaning of a node
  says.
-/

namespace MarkupForms.Renderer

variable {σ : Type} [Carrier σ]

/-- The renderer with all the room that its configuration allows. -/
def top (r : Renderer) : Handle σ :=
  r.handle r.config.limit

/-- The fragments of a node. -/
def evaluate (r : Renderer) (n : Node) : EvalOn σ (List String) :=
  (r.top.meaning n).evaluate

/-- The fragments of nodes, one after the other. -/
def evaluateNodes (r : Renderer) (ns : List Node) : EvalOn σ (List String) :=
  evaluateAll (ns.map r.top.meaning)

/-- The text of a node. -/
def text (r : Renderer) (n : Node) : EvalOn σ String :=
  (r.top.meaning n).text

/-- The text of a node as an operand. -/
def operand (r : Renderer) (n : Node) : EvalOn σ String :=
  (r.top.meaning n).operand

/-- The text of a node as the value of an attribute. -/
def attributeText (r : Renderer) (n : Node) (escaping : Bool) : EvalOn σ String :=
  (r.top.meaning n).attributeText escaping

/-- The truth value of a node. -/
def test (r : Renderer) (n : Node) : EvalOn σ Bool :=
  (r.top.meaning n).test

/-- A text with the values of the variables that it refers to. -/
def interpolate (r : Renderer) (s : String) (escaping : Bool) : EvalOn σ String :=
  Eval.interpolate r escaping s

/-- The text of an attribute, if it is there. -/
def attributeOf (r : Renderer) (attributes : Option Attributes) (key : String) :
    EvalOn σ (Option String) :=
  match (attributes.getD []).get? key with
  | none => pure none
  | some n => do return some (← r.attributeText n true)

/-- The text of a form. -/
def renderForm (r : Renderer) (form : Form) : EvalOn σ String :=
  r.top.render form

/-- The text of a template. -/
def render (r : Renderer) (t : Template) : EvalOn σ String :=
  r.renderForm t.root

/-- Read a template and render it. -/
def renderText (r : Renderer) (s : String) : EvalOn σ String := do
  let form ← Eval.ofExcept (fun e => .fault (.source e)) (Form.ofText? s)
  r.renderForm form

/-- The same renderer with more handlers. -/
def extend (r : Renderer) (functions : List (String × Candidate)) :
    Except RegistryError Renderer :=
  (r.registry.extend functions).map fun registry => { r with registry }

theorem text_eq (r : Renderer) (n : Node) : r.text n = Eval.joined (r.evaluate n) := rfl

/-- An operand is the value of an attribute that is not escaped. -/
theorem operand_eq (r : Renderer) (n : Node) :
    (r.operand n : EvalOn σ String) = r.attributeText n false :=
  r.operand_handle r.config.limit n

end MarkupForms.Renderer

import MarkupForms.Config
import MarkupForms.Eval.Basic
import MarkupForms.Node.Printer
import MarkupForms.Registry
import MarkupForms.Segment
import MarkupForms.Template
import MarkupForms.Text.Entity

/-!
# Meanings of nodes

The meaning of a node is what the forms around it may ask of it: its fragments, its text as the
value of an attribute or as an operand, its truth value as a condition, and its parts as a case of
a switch. The meaning of a tag is made of the meanings of its attributes and children.

This module holds the meanings of texts and variables.
-/

namespace MarkupForms

/-- What templates are rendered with. -/
structure Renderer where
  /-- How templates are rendered. -/
  config : Config
  /-- The handlers of tags. -/
  registry : Registry
  /-- The templates that handlers may render. -/
  templates : List (String × Template)
deriving Inhabited

/-- A node as a case of a switch: its first child and the others. -/
structure Arm (σ : Type := Context) where
  /-- The label. -/
  label : EvalOn σ String
  /-- The content. -/
  body : EvalOn σ (List String)

/-- What a node means. -/
structure Meaning (σ : Type := Context) where
  /-- The node as it was written. -/
  node : Node
  /-- Its fragments. -/
  evaluate : EvalOn σ (List String)
  /-- Its text as the value of an attribute; the argument tells whether values of variables may be
  escaped. -/
  attributeText : Bool → EvalOn σ String
  /-- Its truth value. -/
  test : EvalOn σ Bool
  /-- Its parts as a case of a switch, if it has a child. -/
  arm : Option (Arm σ)

section

variable {σ : Type}

namespace Meaning

/-- Its text. -/
def text (m : Meaning σ) : EvalOn σ String :=
  Eval.joined m.evaluate

/-- Its text as an operand: a text or a variable is not escaped, anything else is evaluated like
everywhere else. -/
def operand (m : Meaning σ) : EvalOn σ String :=
  match m.node with
  | .text _ | .var _ => m.attributeText false
  | .tag _ _ _ | .hole => m.text

end Meaning

/-- The fragments of nodes, one after the other. -/
def evaluateAll (ms : List (Meaning σ)) : EvalOn σ (List String) :=
  Eval.forEach Meaning.evaluate ms

end

namespace Renderer

/-! ## Values and texts -/

/-- The text of a value, escaped if the configuration says so. -/
def output (r : Renderer) (text : String) : String :=
  if r.config.autoescape then Text.escape text else text

/-- The text of a value, escaped if the configuration says so and the place allows it. -/
def outputIf (r : Renderer) (escaping : Bool) (text : String) : String :=
  if escaping then r.output text else text

end Renderer

section

variable {σ : Type} [Carrier σ]

namespace Eval

/-- The value at the end of a path. -/
def resolve (path : String) : EvalOn σ Value := do
  ofExcept (fun e => .render (.ofPath e)) ((← context).resolve path)

/-- The text of a scalar variable. -/
def scalar (path : String) : EvalOn σ String := do
  match ← resolve path with
  | .scalar text => pure text
  | v => fail (.typeMismatch "scalar" v.kind (Context.normalize path))

/-- A node as it is written. -/
def written (n : Node) : EvalOn σ String :=
  match n.toText? with
  | some s => pure s
  | none => fault .unprintable

/-- A block of attributes as it is written. -/
def writtenBlock (attributes : Attributes) : EvalOn σ String :=
  match attributes.toText? with
  | some s => pure s
  | none => fault .unprintable

/-- Fail because of a malformed form. -/
def malformed {α : Type} (form : String) (e : FormFault) : EvalOn σ α :=
  fail (.malformedForm form e)

/-- Fail because of a malformed form; the message shows a node of it. -/
def malformedAt {α : Type} (form : String) (e : String → FormFault) (n : Node) : EvalOn σ α := do
  malformed form (e (← written n))

/-- Fail because a node is no condition. -/
def invalidCondition {α : Type} (n : Node) : EvalOn σ α := do
  fail (.invalidCondition (← written n))

/-- The text of a segment. -/
def segment (r : Renderer) (escaping : Bool) : Segment → EvalOn σ String
  | .char c => pure (String.ofList [c])
  | .sign => pure "$"
  | .reference path => do return r.outputIf escaping (← scalar (String.ofList path))

/-- The texts of segments, one after the other. -/
def segments (r : Renderer) (escaping : Bool) (ss : List Segment) : EvalOn σ (List String) :=
  forEach (fun s => do return [← segment r escaping s]) ss

/-- A text with the values of the variables that it refers to. -/
def interpolate (r : Renderer) (escaping : Bool) (text : String) : EvalOn σ String :=
  joined (segments r escaping (Segment.segments text.toList))

end Eval

namespace Meaning

/-! ## Leaves -/

/-- The meaning of a text. -/
def ofText (r : Renderer) (s : String) : Meaning σ where
  node := .text s
  evaluate := Eval.delay fun _ => do return [← Eval.interpolate r true s]
  attributeText := fun escaping => Eval.interpolate r escaping s
  test := Eval.delay fun _ => Eval.invalidCondition (.text s)
  arm := none

/-- The meaning of a variable. -/
def ofVar (r : Renderer) (name : String) : Meaning σ where
  node := .var name
  evaluate := do return [r.output (← Eval.scalar name)]
  attributeText := fun escaping => do return r.outputIf escaping (← Eval.scalar name)
  test := Eval.delay fun _ => Eval.invalidCondition (.var name)
  arm := none

/-- The meaning of a hole: it has none. -/
def ofHole : Meaning σ where
  node := .hole
  evaluate := Eval.fault .hole
  attributeText := fun _ => Eval.fault .hole
  test := Eval.invalidCondition .hole
  arm := none

end Meaning

end

end MarkupForms

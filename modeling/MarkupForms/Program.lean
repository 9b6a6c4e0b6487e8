import MarkupForms.Failure
import MarkupForms.Node

/-!
# Programs of handlers

What a handler does is a program: it asks about nodes and has forms rendered, looks at the names
that it sees, binds names, works in frames and contexts of its own, and replies in the end.  After
each question it goes on depending on the answer.

A program may ask as often as it likes, but only about nodes and forms that are fixed beforehand.
It closes the frames that it opens and no others.
-/

namespace MarkupForms

/-- A part of a reply. -/
inductive Part where
  /-- A text. -/
  | text (s : String)
  /-- Something else. -/
  | foreign (typeName : String)
deriving DecidableEq, Repr

/-- A question about nodes and forms. -/
inductive Query where
  /-- The fragments of nodes, one after the other. -/
  | nodes (ns : List Node)
  /-- The fragments of a node. -/
  | node (n : Node)
  /-- The text of a node as the value of an attribute. -/
  | text (n : Node) (escaping : Bool)
  /-- The text of a node as an operand. -/
  | operand (n : Node)
  /-- The truth value of a node. -/
  | truth (n : Node)
  /-- The text of a form that is rendered. -/
  | rendering (form : Form)

namespace Query

/-- What a question is answered with. -/
def Answer : Query → Type
  | .nodes _ | .node _ => List String
  | .text _ _ | .operand _ | .rendering _ => String
  | .truth _ => Bool

/-- Whether a question is about some of the given nodes and forms. -/
def IsAbout (nodes : List Node) (forms : List Form) : Query → Prop
  | .nodes ns => ns ⊆ nodes
  | .node n | .text n _ | .operand n | .truth n => n ∈ nodes
  | .rendering form => form ∈ forms

end Query

/-- What is done step by step, with questions about the given nodes and forms.  The parts that some
steps come to are given to what follows them. -/
inductive Program (nodes : List Node) (forms : List Form) where
  /-- Reply. -/
  | reply (parts : List Part)
  /-- Fail. -/
  | raise (f : Failure)
  /-- Ask. -/
  | ask (q : Query) (hq : q.IsAbout nodes forms) (next : q.Answer → Program nodes forms)
  /-- Look at the context. -/
  | look (next : Context → Program nodes forms)
  /-- Bind a name in the innermost frame. -/
  | bind (name : String) (data : Data) (next : Program nodes forms)
  /-- Take some steps in a new frame. -/
  | inChild (f : Frame) (body : Program nodes forms) (next : List Part → Program nodes forms)
  /-- Take some steps in another context. -/
  | within (other : Context) (body : Program nodes forms)
      (next : List Part → Program nodes forms)
  /-- Take some steps, and go on also if they end in a render error. -/
  | attempt (body : Program nodes forms)
      (next : Except RenderError (List Part) → Program nodes forms)

namespace Program

variable {nodes : List Node} {forms : List Form}

/-- Whether a program may raise a render error by itself. -/
def Raises (e : RenderError) : Program nodes forms → Prop
  | .reply _ => False
  | .raise f => f = .render e
  | .ask _ _ next => ∃ answer, (next answer).Raises e
  | .look next => ∃ c, (next c).Raises e
  | .bind _ _ next => next.Raises e
  | .inChild _ body next => body.Raises e ∨ ∃ parts, (next parts).Raises e
  | .within _ body next => body.Raises e ∨ ∃ parts, (next parts).Raises e
  | .attempt body next => body.Raises e ∨ ∃ result, (next result).Raises e

/-- Whether a program may catch render errors. -/
def Catches : Program nodes forms → Prop
  | .reply _ => False
  | .raise _ => False
  | .ask _ _ next => ∃ answer, (next answer).Catches
  | .look next => ∃ c, (next c).Catches
  | .bind _ _ next => next.Catches
  | .inChild _ body next => body.Catches ∨ ∃ parts, (next parts).Catches
  | .within _ body next => body.Catches ∨ ∃ parts, (next parts).Catches
  | .attempt _ _ => True

/-- Whether a program does the same in contexts that are not to be told apart. -/
def Overlooks (Same : Context → Context → Prop) : Program nodes forms → Prop
  | .reply _ => True
  | .raise _ => True
  | .ask _ _ next => ∀ answer, (next answer).Overlooks Same
  | .look next => (∀ c d, Same c d → next c = next d) ∧ ∀ c, (next c).Overlooks Same
  | .bind _ _ next => next.Overlooks Same
  | .inChild _ body next => body.Overlooks Same ∧ ∀ parts, (next parts).Overlooks Same
  | .within _ body next => body.Overlooks Same ∧ ∀ parts, (next parts).Overlooks Same
  | .attempt body next => body.Overlooks Same ∧ ∀ result, (next result).Overlooks Same

/-- Nothing has to be overlooked when all contexts may be told apart. -/
theorem overlooks_eq (p : Program nodes forms) : p.Overlooks Eq := by
  induction p with
  | reply parts => trivial
  | raise f => trivial
  | ask q hq next ih => exact ih
  | look next ih => exact ⟨fun _ _ h => congrArg next h, ih⟩
  | bind name data next ih => exact ih
  | inChild f body next ihbody ih => exact ⟨ihbody, ih⟩
  | within other body next ihbody ih => exact ⟨ihbody, ih⟩
  | attempt body next ihbody ih => exact ⟨ihbody, ih⟩

end Program

/-- A program for each way in which a tag may be written. -/
structure Routine where
  /-- The nodes that it may ask about, for attributes and children. -/
  nodes : Attributes → List Node → List Node
  /-- The forms that it may have rendered. -/
  forms : Attributes → List Node → List Form
  /-- What it does. -/
  program : ∀ attributes children, Program (nodes attributes children) (forms attributes children)

namespace Routine

/-- Whether a routine may raise a render error by itself. -/
def Raises (e : RenderError) (p : Routine) : Prop :=
  ∃ attributes children, (p.program attributes children).Raises e

/-- Whether a routine may catch render errors. -/
def Catches (p : Routine) : Prop :=
  ∃ attributes children, (p.program attributes children).Catches

end Routine

end MarkupForms

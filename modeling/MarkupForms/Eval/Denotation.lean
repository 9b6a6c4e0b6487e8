import MarkupForms.Eval.Calls
import MarkupForms.Eval.Control
import MarkupForms.Markup

/-!
# Evaluation of trees

A tag is a control form, a call of its handler, or an element of the output, in this order.  Calls
of handlers and renderings of templates are nested, and the configuration limits how deeply.

A renderer with room for `n` nested calls hands a renderer with room for `n - 1` to the handlers
that it calls, so evaluation is a recursion on the room and, inside, on the tree.  Without room a
call fails.  A state that counts nested calls is set back after each of them, and a call fails when
the count would pass the limit.  A predicate that is asked as a condition is not nested.

* `handle_succ` : each level of nesting takes one room.
* `handle_render_zero` : without room nothing is rendered.
-/

namespace MarkupForms

namespace Renderer

variable {σ : Type} [Carrier σ]

/-! ## Tags -/

/-- Nest a call, if there is room and the limit is not reached. -/
def nested {α : Type} (r : Renderer) (inner : Option (Handle σ)) (tag : String)
    (body : Handle σ → EvalOn σ α) : EvalOn σ α :=
  Eval.oneDeeper r.config.limit tag <|
    match inner with
    | none => Eval.fail (.recursionLimit r.config.limit tag)
    | some h => body h

/-- On a context alone, a call is nested if there is room. -/
theorem nested_eq {α : Type} (r : Renderer) (inner : Option Handle) (tag : String)
    (body : Handle → Eval α) :
    r.nested inner tag body =
      match inner with
      | none => Eval.fail (.recursionLimit r.config.limit tag)
      | some h => body h := by
  cases inner <;> rfl

theorem nested_some {α : Type} (r : Renderer) (h : Handle) (tag : String) (body : Handle → Eval α) :
    r.nested (some h) tag body = body h := rfl

/-- The fragments of a tag with a handler.  The call has a frame of its own. -/
def call (r : Renderer) (inner : Option (Handle σ)) (handler : Handler) (tag : String)
    (attributes : Option Attributes) (children : List Node) : EvalOn σ (List String) := do
  let reply ← Eval.inChild .empty <| Eval.guarded tag <|
    r.nested inner tag fun h => handler.call r h (attributes.getD []) children
  reply.fragments tag

/-- The truth value of a tag as a condition.  The predicate has a frame of its own. -/
def condition (r : Renderer) (n : Node) (tag : String) (children : List (Meaning σ)) :
    EvalOn σ Bool :=
  match r.registry.predicate? tag with
  | none => Eval.invalidCondition n
  | some p => Eval.inChild .empty (Eval.guarded tag (p.holds children))

/-- The texts of attributes. -/
def attributeTexts : List (String × Meaning σ) → EvalOn σ (List (String × String))
  | [] => pure []
  | (key, m) :: rest => do
      let text ← m.attributeText true
      return (key, text) :: (← attributeTexts rest)

/-- The fragments of an element: its opening tag, its content and its closing tag, or a single tag
when it has no body. -/
def element (r : Renderer) (tag : String) (attributes : List (String × Meaning σ))
    (children : List (Meaning σ)) : EvalOn σ (List String) := do
  let pairs ← attributeTexts attributes
  if r.config.isVoid tag then
    if children.isEmpty then return [Markup.voidTag tag pairs]
    else Eval.fail (.voidElement tag)
  else
    let content ← evaluateAll children
    return Markup.openTag tag pairs :: content ++ [Markup.closeTag tag]

/-- The parts of a case of a switch. -/
def arm? : List (Meaning σ) → Option (Arm σ)
  | [] => none
  | label :: body => some ⟨label.operand, evaluateAll body⟩

/-- The fragments of a tag. -/
def tagFragments (r : Renderer) (inner : Option (Handle σ)) (tag : String)
    (attributes : Option Attributes) (children : List Node)
    (attributeMeanings : Option (List (String × Meaning σ))) (childMeanings : List (Meaning σ)) :
    EvalOn σ (List String) :=
  match ControlForm.ofName? tag with
  | some form => Control.evaluate form attributeMeanings childMeanings
  | none =>
      match r.registry.get? tag with
      | some handler => r.call inner handler tag attributes children
      | none => r.element tag (attributeMeanings.getD []) childMeanings

/-- The meaning of a tag, made of the meanings of its attributes and children. -/
def tagMeaning (r : Renderer) (inner : Option (Handle σ)) (tag : String)
    (attributes : Option Attributes) (children : List Node)
    (attributeMeanings : Option (List (String × Meaning σ))) (childMeanings : List (Meaning σ)) :
    Meaning σ :=
  let fragments := Eval.delay fun _ =>
    r.tagFragments inner tag attributes children attributeMeanings childMeanings
  { node := .tag tag attributes children
    evaluate := fragments
    attributeText := fun _ => Eval.joined fragments
    test := Eval.delay fun _ => r.condition (.tag tag attributes children) tag childMeanings
    arm := arm? childMeanings }

/-! ## Trees -/

mutual

/-- The meaning of a node, where `inner` is the renderer for nested calls, if there is room. -/
def denote (r : Renderer) (inner : Option (Handle σ)) : Node → Meaning σ
  | .text s => .ofText r s
  | .var name => .ofVar r name
  | .hole => .ofHole
  | .tag tag none children =>
      r.tagMeaning inner tag none children none (denoteAll r inner children)
  | .tag tag (some attributes) children =>
      r.tagMeaning inner tag (some attributes) children
        (some (denoteEntries r inner attributes)) (denoteAll r inner children)

/-- The meanings of nodes. -/
def denoteAll (r : Renderer) (inner : Option (Handle σ)) : List Node → List (Meaning σ)
  | [] => []
  | n :: ns => denote r inner n :: denoteAll r inner ns

/-- The meanings of the values of attributes. -/
def denoteEntries (r : Renderer) (inner : Option (Handle σ)) :
    List (String × Node) → List (String × Meaning σ)
  | [] => []
  | (key, n) :: rest => (key, denote r inner n) :: denoteEntries r inner rest

end

/-- An operand is the value of an attribute that is not escaped: both look at the kind of the node,
and they agree on each. -/
theorem operand_denote (r : Renderer) (inner : Option (Handle σ)) (n : Node) :
    (r.denote inner n).operand = (r.denote inner n).attributeText false := by
  cases n with
  | text s => rw [denote]; rfl
  | var name => rw [denote]; rfl
  | hole => rw [denote]; rfl
  | tag tag attributes children => cases attributes <;> rw [denote] <;> rfl

/-! ## Nesting -/

/-- What is written in front of a form. -/
def preamble (r : Renderer) (form : Form) : String :=
  if form.tag = "html" then r.config.doctype.getD "" else ""

/-- The renderer whose nested calls go to another one, if there is one.  Calls of handlers and
renderings of templates are all that it passes on. -/
def layer (r : Renderer) (inner : Unit → Option (Handle σ)) : Handle σ where
  meaning n := r.denote (inner ()) n
  render form :=
    r.nested (inner ()) form.tag fun h => do
      let text ← (h.meaning form.toNode).text
      return r.preamble form ++ text

/-- The renderer with room for a number of nested calls. -/
def handle (r : Renderer) : Nat → Handle σ
  | 0 => r.layer fun _ => none
  | room + 1 => r.layer fun _ => some (r.handle room)

theorem operand_handle (r : Renderer) (room : Nat) (n : Node) :
    ((r.handle room : Handle σ).meaning n).operand =
      ((r.handle room : Handle σ).meaning n).attributeText false := by
  cases room <;> exact r.operand_denote _ n

/-- Without room nothing is rendered. -/
theorem handle_render_zero (r : Renderer) (form : Form) :
    (r.handle 0).render form = Eval.fail (.recursionLimit r.config.limit form.tag) := rfl

/-- With room, a form is rendered with its meaning in less room. -/
theorem handle_render_succ (r : Renderer) (room : Nat) (form : Form) :
    (r.handle (room + 1)).render form = (do
      let text ← ((r.handle room).meaning form.toNode).text
      return r.preamble form ++ text) := rfl

/-- Each level of nesting takes one room: what is nested in a renderer goes to the one below. -/
theorem handle_succ (r : Renderer) (room : Nat) :
    (r.handle (room + 1) : Handle σ) = r.layer fun _ => some (r.handle room) := rfl

end Renderer

end MarkupForms

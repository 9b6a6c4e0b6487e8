import MarkupForms.Context.Path
import MarkupForms.Data.Conversion
import MarkupForms.Node.ParseError

/-!
# What can go wrong during rendering

A render error says what is wrong with a template or with the names it is rendered with.  Everything
else that may go wrong inside a handler is a fault.  A fault that leaves a handler becomes a render
error that names the handler's tag, while a render error passes through every handler as it is.  An
error that names a tag may have any failure inside; evaluation itself only puts faults there.
-/

namespace MarkupForms

/-- The types of faults that a handler may raise by itself. -/
inductive Fault.Kind where
  /-- A bad value. -/
  | value
  /-- A call at the wrong time. -/
  | runtime
  /-- A bad setting. -/
  | config
deriving DecidableEq, Repr

/-- What goes wrong apart from render errors. -/
inductive Fault where
  /-- The text of a template cannot be read. -/
  | source (e : SourceError)
  /-- Data cannot be used. -/
  | data (e : DataError)
  /-- A context refuses. -/
  | scope (e : ScopeError)
  /-- A handler raised a fault by itself. -/
  | raised (kind : Fault.Kind) (message : String)
  /-- A hole cannot be evaluated. -/
  | hole
  /-- A tree with a hole has no written form. -/
  | unprintable
  /-- A handler returned a fragment that is not a text. -/
  | notText (typeName : String)
  /-- A handler returned something that has no fragments. -/
  | notIterable (typeName : String)
  /-- There is no template of this name. -/
  | noTemplate (name : String)
deriving DecidableEq, Repr

/-- The message of a fault. -/
def Fault.message : Fault → String
  | .source e => e.message
  | .data e => e.message
  | .scope e => e.message
  | .raised _ message => message
  | .hole => "Unknown node type: ExprNode"
  | .unprintable => ""
  | .notText typeName => s!"handler must return strings, got {typeName}"
  | .notIterable typeName => s!"'{typeName}' object is not iterable"
  | .noTemplate name => Text.display name

/-! ## Malformed forms -/

/-- What is wrong with a control form or a predicate. -/
inductive FormFault where
  /-- A choice without a condition or a body. -/
  | choiceTooShort
  /-- A choice with more than two branches. -/
  | choiceTooLong
  /-- The name of a loop is no bare name. -/
  | loopName (shown : String)
  /-- A loop without the word that leads to its collection. -/
  | noLoop
  /-- A loop without a collection. -/
  | noCollection
  /-- The collection of a loop is no variable. -/
  | badCollection (shown : String)
  /-- An attribute is missing. -/
  | missingAttribute (key : String)
  /-- A range with only one end. -/
  | halfRange
  /-- A range with steps that lead nowhere. -/
  | badStep (step : Int)
  /-- A loop that neither has a collection nor a range. -/
  | noSource
  /-- The attribute for the collection is no variable. -/
  | badSource (shown : String)
  /-- A switch without a value. -/
  | noScrutinee
  /-- A switch that holds something else than cases. -/
  | notCase (shown : String)
  /-- A case without a label. -/
  | noLabel
  /-- A case that stands outside a switch. -/
  | strayCase
  /-- A predicate that takes one variable got something else. -/
  | notVariable
  /-- A predicate that takes two operands got another number of them. -/
  | operandCount (n : Nat)
  /-- A predicate that takes one condition got another number of them. -/
  | conditionCount (n : Nat)
  /-- A predicate that takes conditions got none. -/
  | noConditions
deriving DecidableEq, Repr

/-- The reason that the message for a fault gives. -/
def FormFault.reason : FormFault → String
  | .choiceTooShort => "expected a condition and a body"
  | .choiceTooLong => "expected at most a condition, a body and an else-branch"
  | .loopName shown => s!"loop variable must be a bare name, got {shown}"
  | .noLoop => "expected 'for <name> in $collection' or an attribute block"
  | .noCollection => "missing collection after 'in'"
  | .badCollection shown => s!"collection must be a variable, got {shown}"
  | .missingAttribute key => s!"missing '{key}' attribute"
  | .halfRange => "range iteration needs both 'min' and 'max'"
  | .badStep step => s!"'step' must be positive, got {step}"
  | .noSource => "missing 'iterate' or 'min'/'max' attributes"
  | .badSource shown => s!"'iterate' must be a variable, got {shown}"
  | .noScrutinee => "missing value to switch on"
  | .notCase shown => s!"expected only 'case' forms, got {shown}"
  | .noLabel => "missing label"
  | .strayCase => "only valid as a direct child of 'switch'"
  | .notVariable => "expected exactly one variable"
  | .operandCount n => s!"expected 2 operands, got {n}"
  | .conditionCount n => s!"expected 1 condition, got {n}"
  | .noConditions => "expected at least one condition"

/-! ## Render errors and failures -/

mutual

/-- What is wrong with a template or with the names it is rendered with. -/
inductive RenderError where
  /-- A variable, or a key in its value, has no value. -/
  | undefinedVariable (name : String)
  /-- A value or a text is of another kind than the one that is needed here. -/
  | typeMismatch (expected found name : String)
  /-- A condition that is no predicate. -/
  | invalidCondition (form : String)
  /-- A control form or a predicate that cannot be evaluated. -/
  | malformedForm (form : String) (fault : FormFault)
  /-- An element without a body has children. -/
  | voidElement (tag : String)
  /-- Too many calls are nested. -/
  | recursionLimit (limit : Nat) (tag : String)
  /-- A handler failed. -/
  | handlerFailed (tag : String) (inner : Failure)
  /-- A handler raised a render error by itself. -/
  | raised (message : String)
deriving DecidableEq, Repr

/-- What can go wrong during rendering. -/
inductive Failure where
  /-- A render error. -/
  | render (e : RenderError)
  /-- A fault. -/
  | fault (f : Fault)
deriving DecidableEq, Repr

end

mutual

/-- The message of a render error. -/
def RenderError.message : RenderError → String
  | .undefinedVariable name => s!"Undefined variable '${name}'"
  | .typeMismatch expected found name =>
      let subject := if name = "" then "" else s!" for '${name}'"
      s!"Type mismatch{subject}: expected {expected}, found {found}"
  | .invalidCondition form => s!"Invalid condition: {form} is not a predicate form"
  | .malformedForm form fault => s!"Malformed '{form}' form: {fault.reason}"
  | .voidElement tag => s!"Void element '{tag}' cannot have children"
  | .recursionLimit limit tag =>
      let place := if tag = "" then "" else s!" while evaluating '{tag}'"
      s!"Recursion limit of {limit} nested handler calls exceeded{place}"
  | .handlerFailed tag inner => s!"Handler for '{tag}' failed: {inner.message}"
  | .raised message => message

/-- The message of a failure. -/
def Failure.message : Failure → String
  | .render e => e.message
  | .fault f => f.message

end

namespace RenderError

/-- The name of the type of a render error. -/
def typeName : RenderError → String
  | .undefinedVariable _ => "UndefinedVariableError"
  | .typeMismatch _ _ _ => "TypeMismatchError"
  | .invalidCondition _ => "InvalidConditionError"
  | .malformedForm _ _ => "MalformedControlFormError"
  | .voidElement _ => "VoidElementError"
  | .recursionLimit _ _ => "RecursionLimitExceededError"
  | .handlerFailed _ _ => "HandlerError"
  | .raised _ => "RenderError"

/-- The render error for a path that leads nowhere. -/
def ofPath : PathError → RenderError
  | .unbound path => .undefinedVariable path
  | .notMap kind path => .typeMismatch "map" kind path

end RenderError

namespace Failure

/-- What a failure is once it has left a handler: a fault becomes a render error. -/
def leaving (tag : String) : Failure → Failure
  | .render e => .render e
  | .fault f => .render (.handlerFailed tag (.fault f))

end Failure

end MarkupForms

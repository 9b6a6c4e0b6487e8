import MarkupForms.Eval.Meaning

/-!
# Conditions

A predicate asks its children for their texts as operands or for their truth values.  Conjunctions
and disjunctions ask from left to right and stop as soon as the answer is known.
-/

namespace MarkupForms.Predicate

variable {σ : Type} [Carrier σ]

/-- Whether two operands have the same text. -/
def sameOperands (form : String) (children : List (Meaning σ)) : EvalOn σ Bool :=
  match children with
  | [left, right] => do
      let a ← left.operand
      let b ← right.operand
      return a == b
  | _ => Eval.malformed form (.operandCount children.length)

/-- Whether all conditions hold. -/
def allHold : List (Meaning σ) → EvalOn σ Bool
  | [] => pure true
  | m :: ms => do if ← m.test then allHold ms else pure false

/-- Whether some condition holds. -/
def someHolds : List (Meaning σ) → EvalOn σ Bool
  | [] => pure false
  | m :: ms => do if ← m.test then pure true else someHolds ms

/-- Whether a value is a list or a map with something in it. -/
def hasContent : Option Value → Bool
  | some (.list items) => !items.isEmpty
  | some (.map entries) => !entries.isEmpty
  | _ => false

/-- The truth value of a predicate. -/
def holds (p : Predicate) (children : List (Meaning σ)) : EvalOn σ Bool :=
  match p with
  | .isSet =>
      match children.map Meaning.node with
      | [.var name] => do return (← Eval.context).isSet name
      | _ => Eval.malformed "is-set" .notVariable
  | .equal => sameOperands "eq" children
  | .unequal => do return !(← sameOperands "ne" children)
  | .negation =>
      match children with
      | [m] => do return !(← m.test)
      | _ => Eval.malformed "not" (.conditionCount children.length)
  | .conjunction =>
      if children.isEmpty then Eval.malformed "and" .noConditions else allHold children
  | .disjunction =>
      if children.isEmpty then Eval.malformed "or" .noConditions else someHolds children
  | .constant value => pure value
  | .filled text => pure (text != "")
  | .textEquals expected => do return (← Eval.joined (evaluateAll children)) == expected
  | .raising failure => throw failure
  | .nonempty =>
      match children.map Meaning.node with
      | .var name :: _ => do return hasContent ((← Eval.context).lookup name)
      | _ => pure false

/-- The text of a truth value. -/
def truthText (b : Bool) : String :=
  if b then "true" else "false"

end MarkupForms.Predicate

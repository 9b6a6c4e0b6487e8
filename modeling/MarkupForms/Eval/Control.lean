import MarkupForms.Eval.Meaning
import MarkupForms.Text.Integer

/-!
# Control forms

A control form decides which of its children are evaluated, how often, and with which names.

* A choice has a condition and one or two branches.
* A loop goes over a list, a map or a range of integers; each round has a frame of its own.
* A switch compares a value with the labels of its cases and yields the first case that agrees.  All
  cases are checked before anything is evaluated.
-/

namespace MarkupForms.Control

variable {σ : Type} [Carrier σ]

/-! ## Choices -/

/-- Yields one of two branches; without a second branch, nothing. -/
def choice (children : List (Meaning σ)) : EvalOn σ (List String) :=
  match children with
  | [] | [_] => Eval.malformed "if" .choiceTooShort
  | [condition, yes] => do
      if ← condition.test then yes.evaluate else pure []
  | [condition, yes, no] => do
      if ← condition.test then yes.evaluate else no.evaluate
  | _ => Eval.malformed "if" .choiceTooLong

/-! ## Loops -/

/-- The name that a node gives to a loop. -/
def loopName (n : Node) : EvalOn σ String :=
  match n with
  | .text s => if Text.isName s.toList then pure s else Eval.malformedAt "for" .loopName n
  | _ => Eval.malformedAt "for" .loopName n

/-- The names that several nodes give to a loop. -/
def loopNames : List Node → EvalOn σ (List String)
  | [] => pure []
  | n :: ns => do
      let first ← loopName n
      return first :: (← loopNames ns)

/-- One round of a loop. -/
def round (bindings : List (String × Value)) (body : List (Meaning σ)) : EvalOn σ (List String) :=
  Eval.inChild (.ofList bindings) (evaluateAll body)

/-- A loop over the items of a list. -/
def overItems (name : String) (items : List Value) (body : List (Meaning σ)) :
    EvalOn σ (List String) :=
  Eval.forEach (fun item => round [(name, item)] body) items

/-- A loop over the items of a list and their positions.  When both have the same name, it stands
for the position. -/
def overPositions (name index : String) (items : List Value) (body : List (Meaning σ)) :
    EvalOn σ (List String) :=
  Eval.forEach
    (fun p : Value × Nat => round [(name, p.1), (index, .scalar (toString p.2))] body)
    items.zipIdx

/-- A loop over the entries of a map.  When both names are the same, it stands for the value. -/
def overEntries (key value : String) (entries : List (String × Value)) (body : List (Meaning σ)) :
    EvalOn σ (List String) :=
  Eval.forEach (fun e => round [(key, .scalar e.1), (value, e.2)] body) entries

/-- A loop over a number of integers from a first one on. -/
def overIntegers (name : String) (body : List (Meaning σ)) (step : Int) : Nat → Int →
    EvalOn σ (List String)
  | 0, _ => pure []
  | n + 1, i => do
      let first ← round [(name, .scalar (toString i))] body
      let rest ← overIntegers name body step n (i + step)
      return first ++ rest

/-- How many steps lead from a start to a stop that is not reached. -/
def stepCount (start stop step : Int) : Nat :=
  ((stop - start + step - 1) / step).toNat

/-- Whether a node is the word between the names of a loop and its collection. -/
def isIn (m : Meaning σ) : Bool :=
  m.node == .text "in"

/-- The names of a loop and what follows the word after them. -/
def splitLoop : List (Meaning σ) → Option (List (Meaning σ) × List (Meaning σ))
  | a :: b :: rest =>
      if isIn b then some ([a], rest)
      else
        match rest with
        | c :: rest => if isIn c then some ([a, b], rest) else none
        | [] => none
  | _ => none

/-- A loop with one name goes over a list, one with two names over a map. -/
def overCollection (names : List String) (source : String) (body : List (Meaning σ)) :
    EvalOn σ (List String) := do
  let v ← Eval.resolve source
  match names with
  | [name] =>
      match v with
      | .list items => overItems name items body
      | v => Eval.fail (.typeMismatch "list" v.kind source)
  | [key, value] =>
      match v with
      | .map entries => overEntries key value entries body
      | v => Eval.fail (.typeMismatch "map" v.kind source)
  | _ => Eval.malformed "for" .noLoop

/-- A loop that is written in words. -/
def wordLoop (children : List (Meaning σ)) : EvalOn σ (List String) :=
  match splitLoop children with
  | none => Eval.malformed "for" .noLoop
  | some (names, rest) => do
      let names ← loopNames (names.map Meaning.node)
      match rest with
      | [] => Eval.malformed "for" .noCollection
      | source :: body =>
          match source.node with
          | .var name => overCollection names name body
          | n => Eval.malformedAt "for" .badCollection n

/-- The name in an attribute of a loop. -/
def requiredName (attributes : List (String × Meaning σ)) (key : String) : EvalOn σ String :=
  match attributes.lookup key with
  | none => Eval.malformed "for" (.missingAttribute key)
  | some m => loopName m.node

/-- The name in an attribute of a loop that may be missing. -/
def optionalName (attributes : List (String × Meaning σ)) (key : String) :
    EvalOn σ (Option String) :=
  match attributes.lookup key with
  | none => pure none
  | some m => do return some (← loopName m.node)

/-- The integer in the value of an attribute. -/
def integer (key : String) (m : Meaning σ) : EvalOn σ Int := do
  let text ← m.attributeText false
  match Text.readInteger text with
  | some n => pure n
  | none => Eval.fail (.typeMismatch "integer" s!"'{text}' in '{key}'" "")

/-- A loop over a range, which includes its start and not its stop. -/
def rangeLoop (attributes : List (String × Meaning σ)) (min max : Meaning σ)
    (body : List (Meaning σ)) : EvalOn σ (List String) := do
  let name ← requiredName attributes "var"
  let start ← integer "min" min
  let stop ← integer "max" max
  let step ← match attributes.lookup "step" with
    | none => pure 1
    | some m => integer "step" m
  if step ≤ 0 then Eval.malformed "for" (.badStep step)
  else overIntegers name body step (stepCount start stop step) start

/-- A loop over a collection that an attribute names. -/
def sourceLoop (attributes : List (String × Meaning σ)) (source : String)
    (body : List (Meaning σ)) : EvalOn σ (List String) := do
  match ← Eval.resolve source with
  | .list items =>
      let name ← requiredName attributes "var"
      match ← optionalName attributes "index" with
      | none => overItems name items body
      | some index => overPositions name index items body
  | .map entries =>
      let key ← requiredName attributes "key"
      let value ← requiredName attributes "value"
      overEntries key value entries body
  | v => Eval.fail (.typeMismatch "list or map" v.kind source)

/-- A loop that is written with attributes. -/
def attributeLoop (attributes : List (String × Meaning σ)) (body : List (Meaning σ)) :
    EvalOn σ (List String) :=
  match attributes.lookup "min", attributes.lookup "max" with
  | some min, some max => rangeLoop attributes min max body
  | some _, none | none, some _ => Eval.malformed "for" .halfRange
  | none, none =>
      match attributes.lookup "iterate" with
      | none => Eval.malformed "for" .noSource
      | some source =>
          match source.node with
          | .var name => sourceLoop attributes name body
          | n => Eval.malformedAt "for" .badSource n

/-- A loop; one with a block of attributes is written with attributes. -/
def loop (attributes : Option (List (String × Meaning σ))) (children : List (Meaning σ)) :
    EvalOn σ (List String) :=
  match attributes with
  | none => wordLoop children
  | some attributes => attributeLoop attributes children

/-! ## Switches -/

/-- The parts of a case of a switch. -/
def switchArm (m : Meaning σ) : EvalOn σ (Arm σ) :=
  match m.node with
  | .tag "case" _ _ =>
      match m.arm with
      | some arm => pure arm
      | none => Eval.malformed "case" .noLabel
  | n => Eval.malformedAt "switch" .notCase n

/-- The parts of all cases of a switch. -/
def switchArms : List (Meaning σ) → EvalOn σ (List (Arm σ))
  | [] => pure []
  | m :: ms => do
      let first ← switchArm m
      return first :: (← switchArms ms)

/-- The content of the first case with a given label.  Labels after it are not evaluated. -/
def select (value : String) : List (Arm σ) → EvalOn σ (List String)
  | [] => pure []
  | arm :: arms => do
      let label ← arm.label
      if label = value then arm.body else select value arms

/-- A choice by a value. -/
def switch (children : List (Meaning σ)) : EvalOn σ (List String) :=
  match children with
  | [] => Eval.malformed "switch" .noScrutinee
  | scrutinee :: cases => do
      let arms ← switchArms cases
      let value ← scrutinee.operand
      select value arms

/-! ## All control forms -/

/-- The fragments of a control form. -/
def evaluate (form : ControlForm) (attributes : Option (List (String × Meaning σ)))
    (children : List (Meaning σ)) : EvalOn σ (List String) :=
  match form with
  | .choice => choice children
  | .loop => loop attributes children
  | .switch => switch children
  | .case => Eval.malformed "case" .strayCase

end MarkupForms.Control

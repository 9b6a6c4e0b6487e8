import MarkupForms.Context.Builder
import MarkupForms.Context.Path
import MarkupForms.Context.Store

/-!
# Working on several contexts

A desk holds contexts under names; contexts that were made from one another share frames in its
store.  A script is a list of steps on the contexts of a desk.  A step that is refused leaves the
desk as it was, and the script goes on with the next one.

A block of steps runs inside a frame that is opened before and closed after it, also when one of its
steps gives up; it is then over, and the steps after it in the block are not run.
-/

namespace MarkupForms

/-- A step of a script. -/
inductive Context.Step where
  /-- Make a context with the given names. -/
  | create (slot : String) (pairs : Pairs)
  /-- Make a context from data that should be a map. -/
  | fromData (slot : String) (data : Data)
  /-- Make a context with a builder, from bindings that are made one after the other. -/
  | build (slot : String) (bindings : List (Offered (Key × Data)))
  /-- Make a context over another one, with the given names in its frame. -/
  | child (source slot : String) (pairs : Pairs)
  /-- Make a copy of a context. -/
  | copy (source slot : String)
  /-- Make a context that binds one name to another context. -/
  | embed (source slot name : String)
  /-- Bind a name. -/
  | bind (slot name : String) (data : Data)
  /-- Open a frame. -/
  | push (slot : String)
  /-- Close the innermost frame. -/
  | pop (slot : String)
  /-- Ask for the value of a name. -/
  | lookup (slot name : String)
  /-- Ask for the value at the end of a path. -/
  | resolve (slot path : String)
  /-- Ask whether a path leads to a value. -/
  | isSet (slot path : String)
  /-- Ask whether a name has a value; only a text can be a name. -/
  | contains (slot : String) (name : Data)
  /-- Ask for the visible names. -/
  | names (slot : String)
  /-- Ask for the visible bindings. -/
  | asValue (slot : String)
  /-- Ask for the form that diagnostics show. -/
  | display (slot : String)
  /-- Run steps inside a frame of their own. -/
  | block (slot : String) (steps : List Context.Step)
  /-- Give up the block. -/
  | giveUp (message : String)
  /-- A step whose data could not be made. -/
  | refused (slot : String) (reason : DataError)
deriving Inhabited

namespace Context

/-- Why a step is refused. -/
inductive Refusal where
  /-- The context does not allow it. -/
  | scope (e : ScopeError)
  /-- The data cannot be used. -/
  | data (e : DataError)
  /-- The path leads nowhere. -/
  | path (e : PathError)
  /-- There is no context under this name. -/
  | noContext (slot : String)
deriving Repr

/-- How a block ended. -/
inductive Ending where
  /-- All steps were run. -/
  | completed
  /-- A step gave up. -/
  | gaveUp (message : String)
  /-- Its frame could not be closed. -/
  | unbalanced (e : ScopeError)
deriving DecidableEq, Repr

/-- What came of a step. -/
inductive Outcome where
  /-- It was done. -/
  | done
  /-- An answer that may be missing. -/
  | found (v : Option Value)
  /-- An answer. -/
  | truth (b : Bool)
  /-- Names. -/
  | names (ns : List String)
  /-- A text. -/
  | text (s : String)
  /-- It was refused. -/
  | refused (e : Refusal)
  /-- The steps of a block, each with the names and the depth of its context after it. -/
  | block (inner : List (Outcome × Option (List String × Nat))) (ending : Ending)
deriving Inhabited

/-- The outcome of a step with the names and the depth of its context after it. -/
abbrev Report := Outcome × Option (List String × Nat)

/-- Contexts under names. -/
structure Desk where
  /-- The frames of all contexts. -/
  store : Store
  /-- All contexts that were ever made. -/
  contexts : List Store.Ref
  /-- The number of the context under each name. -/
  slots : List (String × Nat)
deriving Inhabited

namespace Desk

/-! ## Contexts on the desk -/

/-- No contexts. -/
def empty : Desk := ⟨.empty, [], []⟩

/-- The number of the context under a name. -/
def number? (d : Desk) (slot : String) : Option Nat :=
  d.slots.lookup slot

/-- A context by its number. -/
def ref (d : Desk) (i : Nat) : Store.Ref :=
  d.contexts[i]?.getD default

/-- The context under a name. -/
def context? (d : Desk) (slot : String) : Option Context :=
  (d.number? slot).map fun i => d.store.view (d.ref i)

/-- Put a new context under a name. -/
def place (d : Desk) (slot : String) (made : Store × Store.Ref) : Desk :=
  ⟨made.1, d.contexts ++ [made.2], Entries.put slot d.contexts.length d.slots⟩

/-- Change the frames of the context with a number. -/
def move (d : Desk) (i : Nat) (made : Store × Store.Ref) : Desk :=
  { d with store := made.1, contexts := d.contexts.set i made.2 }

/-- The names and the depth of the context under a name. -/
def look (d : Desk) (slot : String) : Option (List String × Nat) :=
  (d.context? slot).map fun c => (c.names, c.depth)

/-- Put a new context with the given root under a name, unless its data cannot be used. -/
def create (d : Desk) (slot : String) (made : Except DataError Context) : Desk × Outcome :=
  match made with
  | .ok c => (d.place slot (d.store.create c.root), .done)
  | .error e => (d, .refused (.data e))

/-- Do something with the context under a name. -/
def withNumber (d : Desk) (slot : String) (f : Nat → Desk × Outcome) : Desk × Outcome :=
  match d.number? slot with
  | some i => f i
  | none => (d, .refused (.noContext slot))

/-- Ask the context under a name. -/
def ask (d : Desk) (slot : String) (f : Context → Outcome) : Desk × Outcome :=
  d.withNumber slot fun i => (d, f (d.store.view (d.ref i)))

/-- Put a context over another one under a name. -/
def child (d : Desk) (slot : String) (pairs : Pairs) (i : Nat) : Desk × Outcome :=
  match Data.toBindings? pairs with
  | .ok bindings => (d.place slot (d.store.extend (d.ref i) (Context.ofList bindings).root), .done)
  | .error e => (d, .refused (.data e))

theorem child_of_ofPairs? {pairs : Pairs} {c : Context} (h : Context.ofPairs? pairs = .ok c)
    (d : Desk) (slot : String) (i : Nat) :
    d.child slot pairs i = (d.place slot (d.store.extend (d.ref i) c.root), .done) := by
  rw [Context.ofPairs?] at h
  cases hentries : Data.toEntries? pairs with
  | error e => rw [hentries] at h; cases h
  | ok bindings =>
    rw [hentries] at h
    cases h
    rw [child, Data.toBindings?_eq_ok_iff.2 hentries]

/-- Bind a name in the context with a number.  A context that takes no names refuses before the data
is looked at. -/
def bind (d : Desk) (name : String) (data : Data) (i : Nat) : Desk × Outcome :=
  if (d.ref i).opened.isEmpty then (d, .refused (.scope .sealedRoot))
  else
    match data.toValue? with
    | .error e => (d, .refused (.data e))
    | .ok v =>
      match d.store.bind (d.ref i) name v with
      | .error e => (d, .refused (.scope e))
      | .ok store => ({ d with store }, .done)

/-- Open a frame in the context with a number. -/
def push (d : Desk) (i : Nat) : Desk :=
  d.move i (d.store.extend (d.ref i) .empty)

/-- Close the innermost frame of the context with a number. -/
def pop (d : Desk) (i : Nat) : Except ScopeError Desk :=
  (d.ref i).pop.map fun r => d.move i (d.store, r)

/-- The outcome of following a path. -/
def resolved (r : Except PathError Value) : Outcome :=
  match r with
  | .ok v => .found (some v)
  | .error e => .refused (.path e)

/-- Whether data is a name that has a value. -/
def containsData (c : Context) : Data → Bool
  | .text name => (c.lookup name).isSome
  | _ => false

/-- The name of the context that a step is about. -/
def subject : Step → String
  | .create slot _ | .fromData slot _ | .build slot _ | .child _ slot _ | .copy _ slot
  | .embed _ slot _ | .bind slot _ _ | .push slot | .pop slot | .lookup slot _
  | .resolve slot _ | .isSet slot _ | .contains slot _ | .names slot | .asValue slot
  | .display slot | .block slot _ | .refused slot _ => slot
  | .giveUp _ => ""

/-- Close the frame of a block. -/
def leave (d : Desk) (i : Nat) (inner : List Report) (gaveUp : Option String) :
    Desk × Outcome :=
  match d.pop i with
  | .error e => (d, .block inner (.unbalanced e))
  | .ok d =>
    match gaveUp with
    | some message => (d, .block inner (.gaveUp message))
    | none => (d, .block inner .completed)

/-! ## Steps -/

mutual

/-- Take a step. -/
def perform (d : Desk) : Step → Desk × Outcome
  | .create slot pairs => d.create slot (Context.ofPairs? pairs)
  | .fromData slot data => d.create slot (Context.ofData? data)
  | .build slot bindings => d.create slot ((Builder.empty.update bindings).map Builder.build)
  | .child source slot pairs => d.withNumber source (d.child slot pairs)
  | .copy source slot =>
      d.withNumber source fun i => (d.place slot (d.store.copy (d.ref i)), .done)
  | .embed source slot name =>
      d.withNumber source fun i =>
        d.create slot (.ok (Context.ofList [(name, (d.store.view (d.ref i)).asValue)]))
  | .bind slot name data => d.withNumber slot (d.bind name data)
  | .push slot => d.withNumber slot fun i => (d.push i, .done)
  | .pop slot =>
      d.withNumber slot fun i =>
        match d.pop i with
        | .ok d => (d, .done)
        | .error e => (d, .refused (.scope e))
  | .lookup slot name => d.ask slot fun c => .found (c.lookup name)
  | .resolve slot path => d.ask slot fun c => resolved (c.resolve path)
  | .isSet slot path => d.ask slot fun c => .truth (c.isSet path)
  | .contains slot name => d.ask slot fun c => .truth (containsData c name)
  | .names slot => d.ask slot fun c => .names c.names
  | .asValue slot => d.ask slot fun c => .found (some c.asValue)
  | .display slot => d.ask slot fun c => .text c.display
  | .block slot steps =>
      match d.number? slot with
      | none => (d, .refused (.noContext slot))
      | some i =>
        let (d, inner, gaveUp) := (d.push i).performAll steps
        d.leave i inner gaveUp
  | .giveUp _ => (d, .done)
  | .refused _ reason => (d, .refused (.data reason))

/-- Take steps one after the other until one gives up; its message comes with the reports. -/
def performAll (d : Desk) : List Step → Desk × List Report × Option String
  | [] => (d, [], none)
  | .giveUp message :: _ => (d, [], some message)
  | step :: steps =>
      let (d, outcome) := d.perform step
      let report := (outcome, d.look (subject step))
      let (d, reports, gaveUp) := d.performAll steps
      (d, report :: reports, gaveUp)

end

/-- The contexts at the end, in the order of their names. -/
def summary (d : Desk) : List (String × Context) :=
  (d.slots.map fun s => (s.1, d.store.view (d.ref s.2))).mergeSort fun a b => a.1 ≤ b.1

end Desk

/-- Run a script on an empty desk. -/
def runScript (steps : List Step) : Desk × List Report :=
  let (d, reports, _) := Desk.empty.performAll steps
  (d, reports)

end Context

end MarkupForms

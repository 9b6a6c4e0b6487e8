import MarkupForms.Context.Store

/-!
# Scopes with parents

A store knows a context by the numbers of its frames, and the last of them is the root.  Contexts
can also be kept as scopes: a scope knows the scope around it and says itself whether it is sealed,
and a context is no more than its innermost scope.  A sealed scope takes no names and is not closed,
wherever it stands.

Both are ways of keeping contexts, and a list of moves can be run on either.

* `Scopes.create`, `Scopes.child`, `Scopes.copy` : the contexts that can be made.
* `Scopes.push`, `Scopes.pop`, `Scopes.bind` : what can be done with a context.
* `Keeping.run` : moves on contexts that are kept in some way.
-/

namespace MarkupForms

/-! ## Scopes -/

/-- What is bound in one place. -/
structure Scope where
  /-- The bindings. -/
  bindings : Frame
  /-- The number of the scope around it, if there is one. -/
  parent : Option Nat
  /-- Whether it takes no more names. -/
  isSealed : Bool
deriving Inhabited, Repr

/-- The same bindings and the same seal in another scope, or as a root. -/
def Scope.within (t : Scope) (parent : Option Nat) : Scope :=
  { t with parent }

/-- Scopes by number. -/
structure Scopes where
  /-- The scopes, in the order in which they were made. -/
  scopes : List Scope
deriving Inhabited, Repr

namespace Scopes

/-- No scopes. -/
def empty : Scopes := ⟨[]⟩

/-- The scope with a number. -/
def scope (s : Scopes) (i : Nat) : Scope :=
  s.scopes[i]?.getD default

/-- Make one more scope. -/
def add (s : Scopes) (new : Scope) : Scopes × Nat :=
  (⟨s.scopes ++ [new]⟩, s.scopes.length)

/-- The numbers of the scopes from one to its root.  A parent is made before the scopes in it, so
that the numbers fall on the way. -/
def chain (s : Scopes) (i : Nat) : List Nat :=
  match (s.scope i).parent with
  | none => [i]
  | some p => if p < i then i :: s.chain p else [i]
termination_by i

/-- The bindings of a context, innermost first. -/
def frames (s : Scopes) (i : Nat) : List Frame :=
  (s.chain i).map fun j => (s.scope j).bindings

/-- Make a context with a root of its own, which is sealed. -/
def create (s : Scopes) (root : Frame) : Scopes × Nat :=
  s.add ⟨root, none, true⟩

/-- Open a scope in a context. -/
def push (s : Scopes) (i : Nat) : Scopes × Nat :=
  s.add ⟨.empty, some i, false⟩

/-- Close the innermost scope of a context. -/
def pop (s : Scopes) (i : Nat) : Except ScopeError Nat :=
  match (s.scope i).parent with
  | none => .error .atRoot
  | some p => if (s.scope i).isSealed then .error .atRoot else .ok p

/-- Change the bindings of a scope. -/
def rebind (s : Scopes) (i : Nat) (g : Frame → Frame) : Scopes :=
  ⟨s.scopes.modify i fun t => { t with bindings := g t.bindings }⟩

/-- Bind a name in the innermost scope of a context. -/
def bind (s : Scopes) (i : Nat) (name : String) (v : Value) : Except ScopeError Scopes :=
  if (s.scope i).isSealed then .error .sealedRoot
  else .ok (s.rebind i fun f => f.bind (Context.normalize name) v)

/-- Make a context over another one and bind names in it. -/
def child (s : Scopes) (i : Nat) (bindings : List (String × Value)) :
    Except ScopeError (Scopes × Nat) := do
  let (s, j) := s.push i
  return (← bindings.foldlM (fun s b => s.bind j b.1 b.2) s, j)

/-- Make copies of some scopes, each one in the copy before it. -/
def copyInto (s : Scopes) (parent : Option Nat) : List Scope → Scopes × Option Nat
  | [] => (s, parent)
  | t :: inner =>
      let (s, j) := s.add (t.within parent)
      s.copyInto (some j) inner

/-- Make a context with copies of the scopes of another one, from the root inwards. -/
def copy (s : Scopes) (i : Nat) : Scopes × Nat :=
  let (s', innermost) := s.copyInto none ((s.chain i).reverse.map s.scope)
  (s', innermost.getD i)

end Scopes

/-! ## Moves -/

namespace Context

/-- A way of keeping contexts that share what is bound: a state of all of them, and a reference for
each. -/
structure Keeping (σ ρ : Type) where
  /-- The state without contexts. -/
  start : σ
  /-- Make a context with a root of its own. -/
  create : σ → Frame → σ × ρ
  /-- Make a context over another one and bind names in it. -/
  child : σ → ρ → List (String × Value) → Except ScopeError (σ × ρ)
  /-- Make a copy of a context. -/
  copy : σ → ρ → σ × ρ
  /-- Open a frame. -/
  push : σ → ρ → σ × ρ
  /-- Close the innermost frame. -/
  pop : σ → ρ → Except ScopeError ρ
  /-- Bind a name in the innermost frame. -/
  bind : σ → ρ → String → Value → Except ScopeError σ
  /-- What a context binds, innermost first. -/
  frames : σ → ρ → List Frame

/-- A move on contexts that are known by their numbers. -/
inductive Move where
  /-- Make a context with a root of its own. -/
  | create (root : Frame)
  /-- Make a context over another one and bind names in it. -/
  | child (k : Nat) (bindings : List (String × Value))
  /-- Make a copy of a context. -/
  | copy (k : Nat)
  /-- Open a frame. -/
  | push (k : Nat)
  /-- Close the innermost frame. -/
  | pop (k : Nat)
  /-- Bind a name. -/
  | bind (k : Nat) (name : String) (v : Value)

/-- The contexts that were made so far. -/
structure Work (σ ρ : Type) where
  /-- The state of all contexts. -/
  state : σ
  /-- The contexts by number. -/
  contexts : List ρ

namespace Work

variable {σ ρ : Type}

/-- A context more. -/
def place (w : Work σ ρ) (made : σ × ρ) : Work σ ρ :=
  ⟨made.1, w.contexts ++ [made.2]⟩

/-- Put a context in the place of another one. -/
def replace (w : Work σ ρ) (k : Nat) (made : σ × ρ) : Work σ ρ :=
  ⟨made.1, w.contexts.set k made.2⟩

/-- Do something with a context.  There is nothing to be done when it is not there. -/
def withContext (w : Work σ ρ) (k : Nat) (f : ρ → Except ScopeError (Work σ ρ)) :
    Except ScopeError (Work σ ρ) :=
  match w.contexts[k]? with
  | none => .ok w
  | some r => f r

end Work

namespace Keeping

variable {σ ρ : Type}

/-- Make a move. -/
def perform (K : Keeping σ ρ) (w : Work σ ρ) : Move → Except ScopeError (Work σ ρ)
  | .create root => .ok (w.place (K.create w.state root))
  | .child k bindings => w.withContext k fun r => (K.child w.state r bindings).map w.place
  | .copy k => w.withContext k fun r => .ok (w.place (K.copy w.state r))
  | .push k => w.withContext k fun r => .ok (w.replace k (K.push w.state r))
  | .pop k =>
      w.withContext k fun r => (K.pop w.state r).map fun outer => w.replace k (w.state, outer)
  | .bind k name v =>
      w.withContext k fun r => (K.bind w.state r name v).map fun state => { w with state }

/-- Make moves one after the other, with what each was refused for.  A move that is refused changes
nothing. -/
def run (K : Keeping σ ρ) (w : Work σ ρ) : List Move → Work σ ρ × List (Option ScopeError)
  | [] => (w, [])
  | move :: moves =>
      match K.perform w move with
      | .ok w =>
        let (w, refusals) := K.run w moves
        (w, none :: refusals)
      | .error e =>
        let (w, refusals) := K.run w moves
        (w, some e :: refusals)

/-- Moves can be made in two parts. -/
theorem run_append (K : Keeping σ ρ) (w : Work σ ρ) (moves moves' : List Move) :
    (K.run w (moves ++ moves')).1 = (K.run (K.run w moves).1 moves').1 := by
  induction moves generalizing w with
  | nil => rfl
  | cons move moves ih =>
    rw [List.cons_append, run, run]
    cases K.perform w move with
    | ok w' => exact ih w'
    | error e => exact ih w

/-- Make moves from the beginning. -/
def runAll (K : Keeping σ ρ) (moves : List Move) : Work σ ρ × List (Option ScopeError) :=
  K.run ⟨K.start, []⟩ moves

/-- What all contexts bind. -/
def readings (K : Keeping σ ρ) (w : Work σ ρ) : List (List Frame) :=
  w.contexts.map (K.frames w.state)

end Keeping

end Context

/-- Contexts kept as scopes. -/
def Scopes.keeping : Context.Keeping Scopes Nat where
  start := .empty
  create := create
  child := child
  copy := copy
  push := push
  pop := pop
  bind := bind
  frames := frames

/-- Contexts kept as lists of frames. -/
def Store.keeping : Context.Keeping Store Store.Ref where
  start := .empty
  create := create
  child s r bindings := .ok (s.extend r (Context.ofList bindings).root)
  copy := copy
  push s r := s.extend r .empty
  pop _ r := r.pop
  bind := bind
  frames s r := (s.view r).frames

end MarkupForms

import MarkupForms.Context.Frame
import MarkupForms.Text.Display
import MarkupForms.Text.Identifier

/-!
# Contexts

A context is a stack of frames over a root.  Names are looked up from the innermost frame to the
root, so an inner binding hides an outer one of the same name and never changes it.  The root takes
no new names and cannot be closed.

A name may be written with the sign of a variable; the sign does not count.

* `Context.lookup_push`, `Context.names_push` : a new frame changes neither.
* `Context.pop_push` : opening a frame and closing it is nothing.
* `Context.mem_names_iff` : the visible names are those that have a value.
-/

namespace MarkupForms

/-- A stack of frames over a root. -/
structure Context where
  /-- The frames over the root, innermost first. -/
  opened : List Frame
  /-- The root, which takes no new names. -/
  root : Frame
deriving Inhabited, Repr

/-- What a context refuses to do. -/
inductive ScopeError where
  /-- The root takes no new names. -/
  | sealedRoot
  /-- The root cannot be closed. -/
  | atRoot
deriving DecidableEq, Repr

/-- The message for what a context refuses. -/
def ScopeError.message : ScopeError → String
  | .sealedRoot => "Cannot bind into a sealed scope; use child() or push_scope() first"
  | .atRoot => "No scope to pop (scope stack is at its root)"

namespace Context

/-! ## Looking names up -/

/-- A name without the signs in front of it. -/
def normalize (name : String) : String :=
  String.ofList (name.toList.dropWhile (· == '$'))

/-- The context whose root binds the given names in turn. -/
def ofList (bindings : List (String × Value)) : Context :=
  ⟨[], .ofList (bindings.map fun b => (normalize b.1, b.2))⟩

/-- The context that binds nothing. -/
def empty : Context := ⟨[], .empty⟩

/-- The frames, innermost first. -/
def frames (c : Context) : List Frame :=
  c.opened ++ [c.root]

/-- The value of a name, without regard to signs in front of it. -/
def find? (c : Context) (name : String) : Option Value :=
  c.frames.findSome? fun f => f.lookup name

/-- The value of a name. -/
def lookup (c : Context) (name : String) : Option Value :=
  c.find? (normalize name)

/-- The visible names, those of outer frames first, in the order of first binding. -/
def names (c : Context) : List String :=
  (c.frames.reverse.flatMap Frame.names).eraseDups

/-- The number of frames, the root included. -/
def depth (c : Context) : Nat :=
  c.opened.length + 1

/-- The visible bindings as a map. -/
def asValue (c : Context) : Value :=
  .map (c.names.filterMap fun name => (c.lookup name).map fun v => (name, v))

/-! ## Opening, closing and binding -/

/-- Open a frame with the given bindings. -/
def pushFrame (c : Context) (f : Frame) : Context :=
  { c with opened := f :: c.opened }

/-- Open a frame. -/
def push (c : Context) : Context :=
  c.pushFrame .empty

/-- Close the innermost frame. -/
def pop (c : Context) : Except ScopeError Context :=
  match c.opened with
  | [] => .error .atRoot
  | _ :: outer => .ok { c with opened := outer }

/-- Bind a name in the innermost frame. -/
def bind (c : Context) (name : String) (v : Value) : Except ScopeError Context :=
  match c.opened with
  | [] => .error .sealedRoot
  | f :: outer => .ok { c with opened := f.bind (normalize name) v :: outer }

/-- A context as diagnostics show it. -/
def display (c : Context) : String :=
  s!"RenderContext(names={Text.displayList (c.names.map Text.display)}, depth={c.depth})"

/-! ## What opening a frame changes -/

theorem find?_pushFrame (c : Context) (f : Frame) (name : String) :
    (c.pushFrame f).find? name = (f.lookup name).or (c.find? name) := by
  simp only [find?, frames, pushFrame, List.cons_append, List.findSome?_cons]
  cases f.lookup name <;> rfl

@[simp] theorem lookup_push (c : Context) (name : String) : c.push.lookup name = c.lookup name := by
  simp [lookup, push, find?_pushFrame]

@[simp] theorem names_push (c : Context) : c.push.names = c.names := by
  simp [names, push, pushFrame, frames]

@[simp] theorem depth_push (c : Context) : c.push.depth = c.depth + 1 := rfl

@[simp] theorem pop_push (c : Context) : c.push.pop = .ok c := rfl

/-- The visible names are those that have a value. -/
theorem mem_names_iff (c : Context) (name : String) :
    name ∈ c.names ↔ (c.find? name).isSome := by
  simp only [names, List.mem_eraseDups, List.mem_flatMap, List.mem_reverse, find?,
    List.findSome?_isSome_iff]
  exact exists_congr fun f => and_congr_right fun _ => (f.isSome_lookup_iff name).symm

end Context

end MarkupForms

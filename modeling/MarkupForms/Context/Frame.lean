import MarkupForms.Entries
import MarkupForms.Value

/-!
# Frames

A frame holds the names that were bound in one place, in the order of their first binding.  Binding
a name again replaces its value and keeps its place.

* `Frame.lookup_bind` : a binding is seen under its name and nowhere else.
* `Frame.names_bind` : a new name comes last, a known one keeps its place.
* `Frame.nodup_names_ofList` : a frame that is made by binding has distinct names.
-/

namespace MarkupForms

/-- Names and their values, in the order of first binding. -/
structure Frame where
  /-- The bindings. -/
  bindings : List (String × Value)
deriving Inhabited, Repr

namespace Frame

/-- The frame that binds nothing. -/
def empty : Frame := ⟨[]⟩

/-- Bind a name. -/
def bind (f : Frame) (name : String) (v : Value) : Frame :=
  ⟨Entries.put name v f.bindings⟩

/-- The value of a name. -/
def lookup (f : Frame) (name : String) : Option Value :=
  f.bindings.lookup name

/-- The names in the order of first binding. -/
def names (f : Frame) : List String :=
  Entries.keys f.bindings

/-- The frame that binds the given names in turn. -/
def ofList (bindings : List (String × Value)) : Frame :=
  ⟨Entries.ofList bindings⟩

@[simp] theorem lookup_empty (name : String) : empty.lookup name = none := rfl

@[simp] theorem names_empty : empty.names = [] := rfl

/-- A binding is seen under its name and nowhere else. -/
theorem lookup_bind (f : Frame) (name n : String) (v : Value) :
    (f.bind name v).lookup n = if n = name then some v else f.lookup n :=
  Entries.lookup_put name n v f.bindings

/-- A new name comes last, a known one keeps its place. -/
theorem names_bind (f : Frame) (name : String) (v : Value) :
    (f.bind name v).names = if name ∈ f.names then f.names else f.names ++ [name] :=
  Entries.keys_put name v f.bindings

/-- A frame that is made by binding has distinct names. -/
theorem nodup_names_ofList (bindings : List (String × Value)) : (ofList bindings).names.Nodup :=
  Entries.nodup_keys_ofList bindings

/-- The names of a frame are those that have a value. -/
theorem isSome_lookup_iff (f : Frame) (name : String) :
    (f.lookup name).isSome ↔ name ∈ f.names :=
  Entries.isSome_lookup_iff f.bindings name

end Frame

end MarkupForms

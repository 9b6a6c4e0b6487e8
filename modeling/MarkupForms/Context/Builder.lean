import MarkupForms.Data.Conversion

/-!
# Building contexts

A builder collects bindings one after the other and hands out contexts.  A context that was built
does not change when more bindings are collected.
-/

namespace MarkupForms.Context

/-- Bindings for a context. -/
structure Builder where
  /-- The bindings so far. -/
  bindings : List (String × Value)
deriving Inhabited, Repr

namespace Builder

/-- No bindings. -/
def empty : Builder := ⟨[]⟩

/-- Bind a name.  The value is made before the text of the name. -/
def insert (b : Builder) (name : Key) (d : Data) : Except DataError Builder := do
  let v ← d.toValue?
  let name ← DataError.orLong name.toText?
  return ⟨Entries.put (normalize name) v b.bindings⟩

/-- Collect bindings that are made one after the other. -/
def update (b : Builder) : List (Offered (Key × Data)) → Except DataError Builder
  | [] => .ok b
  | offer :: offers => do
      let (name, d) ← offer
      update (← b.insert name d) offers

/-- The context with the bindings so far. -/
def build (b : Builder) : Context :=
  .ofList b.bindings

end Builder

end MarkupForms.Context

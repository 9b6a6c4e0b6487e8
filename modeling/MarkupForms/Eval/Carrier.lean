import MarkupForms.Context

/-!
# States of evaluation

Evaluation works on a context.  It may also keep count of the calls that are nested: the count is
raised for the time of a call and set back after it, in whatever way the call ends.

The same evaluation runs on a context alone, where how much room there is for nested calls has to be
known beforehand, and on a context with a count, where the count is compared with the limit.
-/

namespace MarkupForms

/-- A state that carries a context. -/
class Carrier (σ : Type) where
  /-- The context. -/
  context : σ → Context
  /-- The state with another context. -/
  withContext : σ → Context → σ
  /-- The state inside of one more nested call, unless the limit is reached. -/
  enter? : Nat → σ → Option σ
  /-- The state after a nested call, from the states before the call and at its end. -/
  leave : σ → σ → σ

/-- A context alone, on which calls leave no mark. -/
@[default_instance]
instance : Carrier Context where
  context c := c
  withContext _ c := c
  enter? _ c := some c
  leave _ c := c

/-- A context with the number of the calls that are nested. -/
structure Counted where
  /-- The context. -/
  context : Context
  /-- How many calls are nested. -/
  nested : Nat
deriving Inhabited, Repr

instance : Carrier Counted where
  context := Counted.context
  withContext s c := { s with context := c }
  enter? limit s := if limit < s.nested + 1 then none else some { s with nested := s.nested + 1 }
  leave before after := { after with nested := before.nested }

end MarkupForms

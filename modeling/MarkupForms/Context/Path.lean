import MarkupForms.Context

/-!
# Paths into values

A path is a name and keys, joined by dots.  The name is looked up in the context; each key steps
into a map.  A path fails at its name, at a value that is no map, or at a key that the map does not
have; the failure names the part of the path up to that point.

* `Context.resolve_eq` : resolving is looking up the name and following the keys.
* `Context.isSet_iff` : a path is set exactly when it resolves.
-/

namespace MarkupForms

/-- Why a path leads nowhere. -/
inductive PathError where
  /-- The path up to here is not bound. -/
  | unbound (path : String)
  /-- The path up to here leads to a value of another kind than a map. -/
  | notMap (kind : String) (path : String)
deriving DecidableEq, Repr

namespace Value

/-- Follow keys from a value that was reached by the path `walked`. -/
def follow (v : Value) (walked : String) : List String → Except PathError Value
  | [] => .ok v
  | key :: keys =>
      match v with
      | .map entries =>
          match entries.lookup key with
          | some w => w.follow (walked ++ "." ++ key) keys
          | none => .error (.unbound (walked ++ "." ++ key))
      | v => .error (.notMap v.kind walked)

end Value

namespace Context

/-- The value at the end of a path, given by its segments and as a whole. -/
def resolveSegments (c : Context) (whole : String) : List String → Except PathError Value
  | [] => .error (.unbound whole)
  | head :: keys =>
      match c.lookup head with
      | none => .error (.unbound whole)
      | some v => v.follow head keys

/-- The value at the end of a path. -/
def resolve (c : Context) (path : String) : Except PathError Value :=
  c.resolveSegments (normalize path) (Text.pathSegments (normalize path))

/-- Whether a path leads to a value. -/
def isSet (c : Context) (path : String) : Bool :=
  match c.resolve path with
  | .ok _ => true
  | .error _ => false

theorem resolve_eq (c : Context) {path head : String} {keys : List String}
    (h : Text.pathSegments (normalize path) = head :: keys) :
    c.resolve path =
      match c.lookup head with
      | none => .error (.unbound (normalize path))
      | some v => v.follow head keys := by
  rw [resolve, h]
  rfl

theorem isSet_iff (c : Context) (path : String) :
    c.isSet path = true ↔ ∃ v, c.resolve path = .ok v := by
  unfold isSet
  split <;> simp_all

end Context

end MarkupForms

/-!
# Values

A variable stands for a scalar, an ordered list or an ordered map.  A scalar is a text; there are no
implicit conversions between the three kinds.  The keys of a map are distinct: `Value.ofEntries?`
refuses entries with a key that stands twice.

* `ofEntries?_isSome_iff` : entries make a map exactly when their keys are distinct.
-/

namespace MarkupForms

/-- What a variable stands for. -/
inductive Value where
  /-- A text. -/
  | scalar (text : String)
  /-- Values in order. -/
  | list (items : List Value)
  /-- Values by key, in order. -/
  | map (entries : List (String × Value))
deriving Inhabited, Repr

namespace Value

mutual

/-- Equality of values is decidable. -/
def decEq : (v w : Value) → Decidable (v = w)
  | .scalar s, .scalar t => if h : s = t then .isTrue (by rw [h]) else .isFalse (by simp [h])
  | .list vs, .list ws =>
      match decEqAll vs ws with
      | .isTrue h => .isTrue (by rw [h])
      | .isFalse h => .isFalse (by simp [h])
  | .map es, .map fs =>
      match decEqEntries es fs with
      | .isTrue h => .isTrue (by rw [h])
      | .isFalse h => .isFalse (by simp [h])
  | .scalar _, .list _ | .scalar _, .map _ => .isFalse (by simp)
  | .list _, .scalar _ | .list _, .map _ => .isFalse (by simp)
  | .map _, .scalar _ | .map _, .list _ => .isFalse (by simp)

/-- Equality of lists of values is decidable. -/
def decEqAll : (vs ws : List Value) → Decidable (vs = ws)
  | [], [] => .isTrue rfl
  | [], _ :: _ => .isFalse (by simp)
  | _ :: _, [] => .isFalse (by simp)
  | v :: vs, w :: ws =>
      match decEq v w with
      | .isFalse h => .isFalse (by simp [h])
      | .isTrue h =>
          match decEqAll vs ws with
          | .isTrue hs => .isTrue (by rw [h, hs])
          | .isFalse hs => .isFalse (by simp [hs])

/-- Equality of entries of maps is decidable. -/
def decEqEntries : (es fs : List (String × Value)) → Decidable (es = fs)
  | [], [] => .isTrue rfl
  | [], _ :: _ => .isFalse (by simp)
  | _ :: _, [] => .isFalse (by simp)
  | (k, v) :: es, (l, w) :: fs =>
      if hk : k = l then
        match decEq v w with
        | .isFalse h => .isFalse (by simp [h])
        | .isTrue h =>
            match decEqEntries es fs with
            | .isTrue hs => .isTrue (by rw [hk, h, hs])
            | .isFalse hs => .isFalse (by simp [hs])
      else .isFalse (by simp [hk])

end

instance : DecidableEq Value := decEq

/-- The name of a value's kind in messages. -/
def kind : Value → String
  | .scalar _ => "scalar"
  | .list _ => "list"
  | .map _ => "map"

/-- The name of a value's type in messages. -/
def typeName : Value → String
  | .scalar _ => "Scalar"
  | .list _ => "ListValue"
  | .map _ => "MapValue"

/-- The map with the given entries, if their keys are distinct. -/
def ofEntries? (entries : List (String × Value)) : Option Value :=
  if (entries.map Prod.fst).Nodup then some (.map entries) else none

theorem ofEntries?_isSome_iff (entries : List (String × Value)) :
    (ofEntries? entries).isSome ↔ (entries.map Prod.fst).Nodup := by
  unfold ofEntries?
  split <;> simp_all

/-- The value under a key of a map. -/
def get? (v : Value) (key : String) : Option Value :=
  match v with
  | .map entries => entries.lookup key
  | _ => none

/-- The number of items of a list or entries of a map. -/
def size : Value → Nat
  | .scalar _ => 0
  | .list items => items.length
  | .map entries => entries.length

/-- The keys of a map, in order. -/
def keys : Value → List String
  | .map entries => entries.map Prod.fst
  | _ => []

end Value

end MarkupForms

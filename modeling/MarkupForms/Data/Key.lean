import MarkupForms.Context
import MarkupForms.Decimal.Layout
import MarkupForms.Text.Integer
import MarkupForms.Timestamp
import MarkupForms.Value.Display

/-!
# Keys of plain data

The keys of a map of plain data are texts, numbers, truth values, nothing, values, contexts,
timestamps, things that the library has no use for, or lists of fixed length of such keys.  Numbers
are the same key when they are equal, whatever their type, and a truth value counts as the number 0
or 1; the value that is no number is never the same as another key, and neither is a context.  Lists
are the same key when they have the same items.

* `Key.same_text` : texts are the same key exactly when they are equal.
-/

namespace MarkupForms

/-- A key of a map of plain data. -/
inductive Key where
  /-- A text. -/
  | text (s : String)
  /-- An integer. -/
  | int (n : Int)
  /-- A floating-point number. -/
  | float (x : Binary64)
  /-- A truth value. -/
  | truth (b : Bool)
  /-- Nothing. -/
  | null
  /-- A value. -/
  | ready (v : Value)
  /-- A context; it is never the same as another key. -/
  | context (c : Context)
  /-- A day or a moment. -/
  | timestamp (t : Timestamp)
  /-- A text in bytes. -/
  | bytes (s : String)
  /-- Anything else; it is never the same as another key. -/
  | object
  /-- A list of fixed length. -/
  | tuple (items : List Key)
deriving Repr, Inhabited

/-- A number for comparison: a multiple of a power of two, or beyond all of them. -/
inductive Key.Magnitude where
  /-- A multiple of a power of two. -/
  | finite (factor : Int) (exponent : Int)
  /-- Beyond all numbers, on either side. -/
  | beyond (negative : Bool)
deriving DecidableEq, Repr

namespace Key

/-! ## Equality -/

/-- The number that a key is compared by. -/
def magnitude? : Key → Option Magnitude
  | .int n => some (.finite n 0)
  | .truth b => some (.finite (if b then 1 else 0) 0)
  | .float (.finite negative m q) => some (.finite (if negative then -m else m) q)
  | .float (.infinity negative) => some (.beyond negative)
  | _ => none

/-- Whether the first number is less than the second. -/
def Magnitude.less : Magnitude → Magnitude → Bool
  | .finite a p, .finite b q =>
      a * Nat.pow 2 (p - min p q).toNat < b * Nat.pow 2 (q - min p q).toNat
  | .finite _ _, .beyond negative => !negative
  | .beyond negative, .finite _ _ => negative
  | .beyond s, .beyond t => s && !t

/-- Whether two numbers are equal. -/
def Magnitude.equal (a b : Magnitude) : Bool :=
  !a.less b && !b.less a

mutual

/-- Whether two keys are the same key of a map. -/
def same : Key → Key → Bool
  | .text s, .text t => s == t
  | .timestamp t, .timestamp u => t == u
  | .bytes s, .bytes t => s == t
  | .null, .null => true
  | .ready v, .ready w => v == w
  | .tuple ks, .tuple ls => sameAll ks ls
  | a, b =>
      match a.magnitude?, b.magnitude? with
      | some x, some y => x.equal y
      | _, _ => false

/-- Whether two lists of keys have the same items. -/
def sameAll : List Key → List Key → Bool
  | [], [] => true
  | k :: ks, l :: ls => k.same l && sameAll ks ls
  | _, _ => false

end

instance : BEq Key := ⟨same⟩

/-- Whether a key is in a list of keys. -/
def isIn (k : Key) (ks : List Key) : Bool :=
  ks.any k.same

/-- The keys of a list without repetitions. -/
def distinct (ks : List Key) : List Key :=
  ks.foldl (fun seen k => if k.isIn seen then seen else seen ++ [k]) []

/-! ## Text -/

mutual

/-- A key as diagnostics show it, unless there is an integer in it with too many digits. -/
def display? : Key → Option String
  | .text s => some (Text.display s)
  | .int n => Text.writeInteger? n
  | .float x => some x.toText
  | .truth b => some (if b then "True" else "False")
  | .null => some "None"
  | .ready v => some v.display
  | .context c => some c.display
  | .timestamp t => some t.display
  | .bytes s => some (Text.displayBytes s)
  | .object => some "<object>"
  | .tuple ks => (displayAll? ks).map Text.displayTuple

/-- Keys as diagnostics show them. -/
def displayAll? : List Key → Option (List String)
  | [] => some []
  | k :: ks => do return (← k.display?) :: (← displayAll? ks)

end

/-- The text of a key, unless there is an integer in it with too many digits. -/
def toText? : Key → Option String
  | .text s => some s
  | .timestamp t => some t.toText
  | k => k.display?

/-- The name of a key's type in messages. -/
def typeName : Key → String
  | .text _ => "str"
  | .int _ => "int"
  | .float _ => "float"
  | .truth _ => "bool"
  | .null => "NoneType"
  | .ready v => v.typeName
  | .context _ => "RenderContext"
  | .timestamp t => "datetime." ++ t.typeName
  | .bytes _ => "bytes"
  | .object => "object"
  | .tuple _ => "tuple"

/-! ## Order -/

/-- Whether a key is a number. -/
def isNumber : Key → Bool
  | .int _ | .float _ | .truth _ => true
  | _ => false

/-- Whether the number of the first key is less than that of the second one. -/
def lessNumber (k l : Key) : Bool :=
  match k.magnitude?, l.magnitude? with
  | some x, some y => x.less y
  | _, _ => false

mutual

/-- Whether the first key comes before the second one, or two keys that cannot be put in order:
texts are ordered with texts, numbers with numbers, days, moments and texts in bytes with their
like, and lists by the first item in which they differ. -/
def less? : Key → Key → Except (Key × Key) Bool
  | .text s, .text t => .ok (s < t)
  | .timestamp t, .timestamp u =>
      if t.time.isSome == u.time.isSome then .ok (t.less u) else .error (.timestamp t, .timestamp u)
  | .bytes s, .bytes t => .ok (s < t)
  | .tuple ks, .tuple ls => lessAll? ks ls
  | k, l => if k.isNumber && l.isNumber then .ok (k.lessNumber l) else .error (k, l)

/-- Whether the first list of keys comes before the second one. -/
def lessAll? : List Key → List Key → Except (Key × Key) Bool
  | _, [] => .ok false
  | [], _ :: _ => .ok true
  | k :: ks, l :: ls => if k.same l then lessAll? ks ls else k.less? l

end

/-- A key among others that are in order, in front of the first one that it comes before, or two
keys that cannot be put in order. -/
def insert? (k : Key) : List Key → Except (Key × Key) (List Key)
  | [] => .ok [k]
  | l :: ls => do
      if ← k.less? l then return k :: l :: ls
      return l :: (← k.insert? ls)

/-- Keys in order, or the first two that are compared and cannot be put in order. -/
def sort? (ks : List Key) : Except (Key × Key) (List Key) :=
  ks.foldlM (fun sorted k => k.insert? sorted) []

/-! ## Laws -/

/-- Texts are the same key exactly when they are equal. -/
theorem same_text (s t : String) : same (.text s) (.text t) = true ↔ s = t := by
  simp [same]

end Key

end MarkupForms

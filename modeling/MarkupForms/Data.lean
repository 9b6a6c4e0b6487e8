import MarkupForms.Data.Key

/-!
# Plain data

Plain data is what a caller hands to the library: scalars of several types, lists, maps, values and
contexts that are ready for use, and things that the library has no use for.
-/

namespace MarkupForms

/-- Plain data. -/
inductive Data where
  /-- A text. -/
  | text (s : String)
  /-- An integer. -/
  | int (n : Int)
  /-- A floating-point number. -/
  | float (x : Binary64)
  /-- A truth value. -/
  | truth (b : Bool)
  /-- Nothing. -/
  | null
  /-- A list. -/
  | list (items : List Data)
  /-- A list of fixed length. -/
  | tuple (items : List Data)
  /-- A map. -/
  | map (entries : List (Key × Data))
  /-- A value. -/
  | ready (v : Value)
  /-- A context. -/
  | context (c : Context)
  /-- A day or a moment. -/
  | timestamp (t : Timestamp)
  /-- A text in bytes. -/
  | bytes (s : String)
  /-- Anything else. -/
  | object
deriving Inhabited, Repr

/-- Named plain data, in order. -/
abbrev Pairs := List (Key × Data)

namespace Data

/-- The name of a type in messages. -/
def typeName : Data → String
  | .text _ => "str"
  | .int _ => "int"
  | .float _ => "float"
  | .truth _ => "bool"
  | .null => "NoneType"
  | .list _ => "list"
  | .tuple _ => "tuple"
  | .map _ => "dict"
  | .ready v => v.typeName
  | .context _ => "RenderContext"
  | .timestamp t => t.typeName
  | .bytes _ => "bytes"
  | .object => "object"

mutual

/-- A key as data. -/
def ofKey : Key → Data
  | .text s => .text s
  | .int n => .int n
  | .float x => .float x
  | .truth b => .truth b
  | .null => .null
  | .ready v => .ready v
  | .context c => .context c
  | .timestamp t => .timestamp t
  | .bytes s => .bytes s
  | .object => .object
  | .tuple ks => .tuple (ofKeys ks)

/-- Keys as data. -/
def ofKeys : List Key → List Data
  | [] => []
  | k :: ks => ofKey k :: ofKeys ks

end

mutual

/-- Data as a key: all is a key but lists and maps, also as items of lists of fixed length.  These
are refused by the name of their type. -/
def toKey? : Data → Except String Key
  | .text s => .ok (.text s)
  | .int n => .ok (.int n)
  | .float x => .ok (.float x)
  | .truth b => .ok (.truth b)
  | .null => .ok .null
  | .tuple items => (toKeys? items).map .tuple
  | .list items => .error (typeName (.list items))
  | .map entries => .error (typeName (.map entries))
  | .ready v => .ok (.ready v)
  | .context c => .ok (.context c)
  | .timestamp t => .ok (.timestamp t)
  | .bytes s => .ok (.bytes s)
  | .object => .ok .object

/-- Items as keys, in order. -/
def toKeys? : List Data → Except String (List Key)
  | [] => .ok []
  | d :: ds => do
      let k ← toKey? d
      return k :: (← toKeys? ds)

end

/-- What stands under a key that is a text. -/
def get? (entries : Pairs) (key : String) : Option Data :=
  entries.lookup (.text key)

end Data

end MarkupForms

import MarkupForms.Yaml.Layout

/-!
# The tree of a document

The tokens of a document make a tree of scalars, lists and maps.  What is left out is the empty
plain scalar: the value of a key without one, an item after a lonely dash, a key before a lonely
colon.

The readers take the tokens that are left and return those that they leave.  Their fuel bounds the
depth of their calls, of which there are at most four for each token.
-/

namespace MarkupForms.Yaml

/-- A tree of scalars, lists and maps. -/
inductive Node where
  /-- A scalar, plain or between quotes. -/
  | scalar (text : String) (isPlain : Bool)
  /-- A list. -/
  | list (items : List Node)
  /-- A map with its entries as they are written. -/
  | map (entries : List (Node × Node))
deriving Repr, Inhabited

/-- What was read, and the tokens that are left. -/
abbrev WithRest (α : Type) := α × List Token

namespace Node

/-- What is left out. -/
def nothing : Node := .scalar "" true

/-- Whether the next token is one of several ones. -/
def startsWith (ends : List Token) : List Token → Bool
  | [] => false
  | t :: _ => ends.contains t

/-- The tokens that a value in a list without indentation of its own cannot start with. -/
def entryEnds : List Token := [.key, .value, .blockEnd]

mutual

/-- The node at the start of some tokens.  Lists and maps that indentation shows may be excluded; a
list under a key may have the indentation of the key. -/
def read (block underKey : Bool) : Nat → List Token → Except Fault (WithRest Node)
  | 0, _ => .error .misplaced
  | fuel + 1, ts =>
      match ts with
      | .scalar text isPlain :: ts => .ok (.scalar text isPlain, ts)
      | .openList :: ts => do
          let (items, ts) ← flowItems true fuel ts
          return (.list items, ts)
      | .openMap :: ts => do
          let (entries, ts) ← flowEntries true fuel ts
          return (.map entries, ts)
      | .listStart :: ts =>
          if block then do
            let (items, ts) ← blockItems fuel ts
            return (.list items, ts)
          else .error .misplaced
      | .mapStart :: ts =>
          if block then do
            let (entries, ts) ← blockEntries fuel ts
            return (.map entries, ts)
          else .error .misplaced
      | .item :: rest =>
          if underKey then do
            let (items, ts) ← bareItems fuel (.item :: rest)
            return (.list items, ts)
          else .error .misplaced
      | _ => .error .misplaced

/-- The node at the start of some tokens, or nothing if they start with one of several ends. -/
def readUnless (ends : List Token) (block underKey : Bool) :
    Nat → List Token → Except Fault (WithRest Node)
  | 0, _ => .error .misplaced
  | fuel + 1, ts =>
      if startsWith ends ts then .ok (nothing, ts) else read block underKey fuel ts

/-- The items of a list that indentation shows. -/
def blockItems : Nat → List Token → Except Fault (WithRest (List Node))
  | 0, _ => .error .misplaced
  | _ + 1, .blockEnd :: ts => .ok ([], ts)
  | fuel + 1, .item :: ts => do
      let (first, ts) ← readUnless [.item, .blockEnd] true false fuel ts
      let (items, ts) ← blockItems fuel ts
      return (first :: items, ts)
  | _ + 1, _ => .error .misplaced

/-- The items of a list that has the indentation of its key. -/
def bareItems : Nat → List Token → Except Fault (WithRest (List Node))
  | 0, _ => .error .misplaced
  | fuel + 1, .item :: ts => do
      let (first, ts) ← readUnless (.item :: entryEnds) true false fuel ts
      let (items, ts) ← bareItems fuel ts
      return (first :: items, ts)
  | _ + 1, ts => .ok ([], ts)

/-- The entries of a map that indentation shows. -/
def blockEntries : Nat → List Token → Except Fault (WithRest (List (Node × Node)))
  | 0, _ => .error .misplaced
  | _ + 1, .blockEnd :: ts => .ok ([], ts)
  | fuel + 1, .key :: ts => do
      let (key, ts) ← readUnless entryEnds true true fuel ts
      let (value, ts) ← valueOf entryEnds true fuel ts
      let (entries, ts) ← blockEntries fuel ts
      return ((key, value) :: entries, ts)
  | fuel + 1, .value :: ts => do
      let (value, ts) ← readUnless entryEnds true true fuel ts
      let (entries, ts) ← blockEntries fuel ts
      return ((nothing, value) :: entries, ts)
  | _ + 1, _ => .error .misplaced

/-- The value of a key, which is nothing without a colon or before one of several ends. -/
def valueOf (ends : List Token) (block : Bool) : Nat → List Token → Except Fault (WithRest Node)
  | 0, _ => .error .misplaced
  | fuel + 1, .value :: ts => readUnless ends block block fuel ts
  | _ + 1, ts => .ok (nothing, ts)

/-- The items of a list up to its closing bracket.  All but the first one follow a comma. -/
def flowItems (isFirst : Bool) : Nat → List Token → Except Fault (WithRest (List Node))
  | 0, _ => .error .misplaced
  | _ + 1, .closeList :: ts => .ok ([], ts)
  | fuel + 1, .comma :: ts =>
      if isFirst then .error .misplaced
      else
        match ts with
        | .closeList :: ts => .ok ([], ts)
        | ts => flowItem fuel ts
  | fuel + 1, ts => if isFirst then flowItem fuel ts else .error .misplaced

/-- An item of a list and those after it.  A key with a value is a map with one entry. -/
def flowItem : Nat → List Token → Except Fault (WithRest (List Node))
  | 0, _ => .error .misplaced
  | fuel + 1, .key :: ts => do
      let (key, ts) ← readUnless [.value, .comma, .closeList] false false fuel ts
      let (value, ts) ← valueOf [.comma, .closeList] false fuel ts
      let (items, ts) ← flowItems false fuel ts
      return (.map [(key, value)] :: items, ts)
  | fuel + 1, ts => do
      let (first, ts) ← read false false fuel ts
      let (items, ts) ← flowItems false fuel ts
      return (first :: items, ts)

/-- The entries of a map up to its closing brace.  All but the first one follow a comma. -/
def flowEntries (isFirst : Bool) : Nat → List Token → Except Fault (WithRest (List (Node × Node)))
  | 0, _ => .error .misplaced
  | _ + 1, .closeMap :: ts => .ok ([], ts)
  | fuel + 1, .comma :: ts =>
      if isFirst then .error .misplaced
      else
        match ts with
        | .closeMap :: ts => .ok ([], ts)
        | ts => flowEntry fuel ts
  | fuel + 1, ts => if isFirst then flowEntry fuel ts else .error .misplaced

/-- An entry of a map and those after it.  A key without a mark for it has no value. -/
def flowEntry : Nat → List Token → Except Fault (WithRest (List (Node × Node)))
  | 0, _ => .error .misplaced
  | fuel + 1, .key :: ts => do
      let (key, ts) ← readUnless [.value, .comma, .closeMap] false false fuel ts
      let (value, ts) ← valueOf [.comma, .closeMap] false fuel ts
      let (entries, ts) ← flowEntries false fuel ts
      return ((key, value) :: entries, ts)
  | fuel + 1, .value :: ts => do
      let (value, ts) ← readUnless [.comma, .closeMap] false false fuel ts
      let (entries, ts) ← flowEntries false fuel ts
      return ((nothing, value) :: entries, ts)
  | fuel + 1, ts => do
      let (key, ts) ← read false false fuel ts
      let (entries, ts) ← flowEntries false fuel ts
      return ((key, nothing) :: entries, ts)

end

/-- The node of a document whose marker, if there is one, is off. -/
def readContent (ts : List Token) : Except Fault (WithRest Node) :=
  readUnless [.documentStart, .documentEnd] true false (4 * ts.length + 2) ts

/-- The tree of a document, or nothing if it is empty.  A marker that ends the document may follow
it, but no other document. -/
def ofTokens (ts : List Token) : Except Fault (Option Node) := do
  let (n, rest) ← match ts with
    | [] => return none
    | [.documentStart] => return some nothing
    | .documentStart :: ts => readContent ts
    | ts => read true false (4 * ts.length + 2) ts
  if rest.isEmpty || rest == [.documentEnd] then return some n else throw .misplaced

end Node

end MarkupForms.Yaml

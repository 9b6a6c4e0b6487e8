import MarkupForms.Entries
import MarkupForms.Yaml.Node
import MarkupForms.Yaml.Scalar

/-!
# Documents

A document says data: its scalars, lists and maps.  The keys of a map are distinct.  A scalar may be
a key, and so may a list of keys, which is then a list of fixed length.

The key `<<` merges the entries of one or several maps into the map around it; there, entries of the
map itself come last and win, and of several maps the first one wins.

* `read_empty` : the empty document says nothing.
-/

namespace MarkupForms.Yaml

/-- The data of a key: a list is one of fixed length there, and no map may be a key. -/
def keyData : Data → Except Fault Data
  | .list items => .ok (.tuple items)
  | .map _ => .error .mapAsKey
  | d => .ok d

namespace Node

/-- Whether a node is a plain scalar with the given text. -/
def isPlain (s : String) : Node → Bool
  | .scalar text isPlain => isPlain && text == s
  | _ => false

/-- Whether a key merges the entries of its value. -/
def isMerge (k : Node) : Bool :=
  k.isPlain "<<"

mutual

/-- What a tree says. -/
def toData : Node → Except Fault Data
  | .scalar text isPlain => if isPlain then scalarData text.toList else .ok (.text text)
  | .list items => (toDataAll items).map .list
  | .map entries => do
      let merged ← mergedPairs entries
      if merged.isEmpty then return .map (← ownPairs true [] entries)
      else return .map (Entries.ofList (merged ++ (← ownPairs false [] entries)))

/-- What trees say, in order. -/
def toDataAll : List Node → Except Fault (List Data)
  | [] => .ok []
  | n :: ns => do
      let d ← n.toData
      return d :: (← toDataAll ns)

/-- What the entries of a map say that are not merged, in order; they may have to differ from each
other and from the keys seen before. -/
def ownPairs (distinct : Bool) (seen : List Key) : List (Node × Node) → Except Fault Pairs
  | [] => .ok []
  | (k, v) :: rest =>
      if k.isMerge then ownPairs distinct seen rest
      else do
        let data ← keyData (← if k.isPlain "=" then pure (.text "=") else k.toData)
        let value ← v.toData
        let key ← data.toKey?.mapError .unhashable
        if distinct && key.isIn seen then throw .repeatedKey
        return (key, value) :: (← ownPairs distinct (key :: seen) rest)

/-- What is merged into a map, which may be said only once. -/
def mergedPairs : List (Node × Node) → Except Fault Pairs
  | [] => .ok []
  | (k, v) :: rest =>
      if k.isMerge then do
        let here ← pairsOf v
        if !here.isEmpty && rest.any fun e => e.1.isMerge then throw .repeatedKey
        return here ++ (← mergedPairs rest)
      else mergedPairs rest

/-- All entries of a map, or those of the maps in a list, the last one first. -/
def pairsOf : Node → Except Fault Pairs
  | .map entries => do return (← mergedPairs entries) ++ (← ownPairs false [] entries)
  | .list items => pairsOfAll items
  | .scalar _ _ => .error .noValue

/-- All entries of several maps, those of the last one first. -/
def pairsOfAll : List Node → Except Fault Pairs
  | [] => .ok []
  | .map entries :: ns => do
      let here := (← mergedPairs entries) ++ (← ownPairs false [] entries)
      return (← pairsOfAll ns) ++ here
  | _ :: _ => .error .noValue

end

end Node

/-- The data that a document says; nothing for an empty one. -/
def read (s : String) : Except Fault Data := do
  match ← Node.ofTokens (← tokensOf (← characters s)) with
  | none => return .null
  | some n => n.toData

/-- The empty document says nothing. -/
theorem read_empty : read "" = .ok .null := by
  rfl

end MarkupForms.Yaml

import MarkupForms.Yaml.Document

/-!
# Writing documents

Values without line breaks are written on a line: words as they are spelled, texts between single
quotes, lists and maps between brackets.  A document is written with a line for each entry of its
map.

* `Inline.chars`, `Inline.tokens`, `Inline.node`, `Inline.toData` : how a value is written, its
  tokens, its tree and what it says.
* `Inline.IsWritable` : which values can be written like this.
* `written` : a document with the given entries.
-/

namespace MarkupForms.Yaml

/-- What is spelled without quotes. -/
inductive Word where
  /-- Nothing. -/
  | null
  /-- A truth value. -/
  | truth (b : Bool)
  /-- An integer. -/
  | int (n : Int)

/-- A value that can be written on a line. -/
inductive Inline where
  /-- A word. -/
  | word (w : Word)
  /-- A text. -/
  | text (s : String)
  /-- A list. -/
  | list (items : List Inline)
  /-- A map. -/
  | map (entries : List (String × Inline))

/-- Whether a character can stand between quotes on a line. -/
def staysOnLine (c : Char) : Bool :=
  isAllowed c && !(isBreak c || c == '\r' || c.toNat == 0x85)

/-- A text between quotes. -/
def quote (s : String) : List Char :=
  '\'' :: (protectSingle s.toList ++ ['\''])

/-- Whether a text can be written on a line. -/
def IsLine (s : String) : Prop :=
  ∀ c ∈ s.toList, staysOnLine c = true

/-- Whether a text can be written as a key. -/
def IsShort (s : String) : Prop :=
  IsLine s ∧ (quote s).length ≤ Layout.keyLimit

instance (s : String) : Decidable (IsLine s) :=
  decidable_of_iff _ List.all_eq_true

instance (s : String) : Decidable (IsShort s) :=
  @instDecidableAnd _ _ inferInstance (Nat.decLe _ _)

namespace Word

/-- How a word is spelled. -/
def chars : Word → List Char
  | .null => "null".toList
  | .truth b => (toString b).toList
  | .int n => (toString n).toList

/-- What a word says. -/
def toData : Word → Data
  | .null => .null
  | .truth b => .truth b
  | .int n => .int n

/-- Whether a word can be read again: an integer must not have too many digits. -/
def IsWritable : Word → Prop
  | .int n => n.natAbs < Text.digitBound
  | _ => True

end Word

namespace Inline

/-- What separates an item from the one before it, if there is one. -/
def separator (isFirst : Bool) : List Char :=
  if isFirst then [] else [',', ' ']

/-- The token of a separator. -/
def separatorTokens (isFirst : Bool) : List Token :=
  if isFirst then [] else [.comma]

mutual

/-- How a value is written. -/
def chars : Inline → List Char
  | .word w => w.chars
  | .text s => quote s
  | .list items => '[' :: itemChars true items
  | .map entries => '\x7b' :: entryChars true entries

/-- How the items of a list are written, with the bracket after them. -/
def itemChars (isFirst : Bool) : List Inline → List Char
  | [] => [']']
  | v :: vs => separator isFirst ++ (v.chars ++ itemChars false vs)

/-- How the entries of a map are written, with the brace after them. -/
def entryChars (isFirst : Bool) : List (String × Inline) → List Char
  | [] => ['\x7d']
  | (k, v) :: es =>
      separator isFirst ++ (quote k ++ ':' :: ' ' :: (v.chars ++ entryChars false es))

end

mutual

/-- The tokens of a value. -/
def tokens : Inline → List Token
  | .word w => [.scalar (String.ofList w.chars) true]
  | .text s => [.scalar s false]
  | .list items => .openList :: itemTokens true items
  | .map entries => .openMap :: entryTokens true entries

/-- The tokens of the items of a list and of the bracket after them. -/
def itemTokens (isFirst : Bool) : List Inline → List Token
  | [] => [.closeList]
  | v :: vs => separatorTokens isFirst ++ (v.tokens ++ itemTokens false vs)

/-- The tokens of the entries of a map and of the brace after them. -/
def entryTokens (isFirst : Bool) : List (String × Inline) → List Token
  | [] => [.closeMap]
  | (k, v) :: es =>
      separatorTokens isFirst ++
        (.key :: .scalar k false :: .value :: (v.tokens ++ entryTokens false es))

end

mutual

/-- The tree of a value. -/
def node : Inline → Node
  | .word w => .scalar (String.ofList w.chars) true
  | .text s => .scalar s false
  | .list items => .list (nodes items)
  | .map entries => .map (entryNodes entries)

/-- The trees of values. -/
def nodes : List Inline → List Node
  | [] => []
  | v :: vs => v.node :: nodes vs

/-- The trees of entries. -/
def entryNodes : List (String × Inline) → List (Node × Node)
  | [] => []
  | (k, v) :: es => (.scalar k false, v.node) :: entryNodes es

end

mutual

/-- What a value says. -/
def toData : Inline → Data
  | .word w => w.toData
  | .text s => .text s
  | .list items => .list (toDataAll items)
  | .map entries => .map (toPairs entries)

/-- What values say. -/
def toDataAll : List Inline → List Data
  | [] => []
  | v :: vs => v.toData :: toDataAll vs

/-- What entries say. -/
def toPairs : List (String × Inline) → Pairs
  | [] => []
  | (k, v) :: es => (.text k, v.toData) :: toPairs es

end

mutual

/-- Whether a value can be written on a line and read again: texts have to be on one line, keys have
to be short and distinct. -/
def IsWritable : Inline → Prop
  | .word w => w.IsWritable
  | .text s => IsLine s
  | .list items => AllWritable items
  | .map entries => (entries.map Prod.fst).Nodup ∧ EntriesWritable entries

/-- Whether values can be written. -/
def AllWritable : List Inline → Prop
  | [] => True
  | v :: vs => v.IsWritable ∧ AllWritable vs

/-- Whether entries can be written, apart from their keys being distinct. -/
def EntriesWritable : List (String × Inline) → Prop
  | [] => True
  | (k, v) :: es => IsShort k ∧ v.IsWritable ∧ EntriesWritable es

end

end Inline

/-- The lines of a document, one for each entry. -/
def lines : List (String × Inline) → List Char
  | [] => []
  | (k, v) :: es => quote k ++ ':' :: ' ' :: (v.chars ++ '\n' :: lines es)

/-- The tokens of the lines of a document. -/
def lineTokens : List (String × Inline) → List Token
  | [] => []
  | (k, v) :: es => .key :: .scalar k false :: .value :: (v.tokens ++ lineTokens es)

/-- A document with the given entries. -/
def written (entries : List (String × Inline)) : String :=
  String.ofList (lines entries)

end MarkupForms.Yaml

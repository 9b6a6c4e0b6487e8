import MarkupForms.Data.Display

/-!
# Configuration

A configuration says what is written in front of a page, how deeply calls may be nested, which tags
have no body, and whether the values of variables are escaped.  It is made from settings, each of
which may be left out, or from a map of plain data whose keys are all known.

The tags without a body are a set.  Settings may put any scalars into it; only texts ever match a
tag.

The message for refused settings may show what was given.  When there is an integer in it with too
many digits, there is no such message, and that is the error instead.

* `Config.limit_pos` : at least one call may be nested.
* `Config.isVoid_iff` : a tag has no body when it is one of the texts of the set.
-/

namespace MarkupForms

/-- How a template is rendered. -/
structure Config where
  /-- What is written in front of a page. -/
  doctype : Option String
  /-- How many calls may be nested. -/
  limit : Nat
  /-- The tags without a body. -/
  voidElements : List Key
  /-- Whether the values of variables are escaped. -/
  autoescape : Bool
  /-- At least one call may be nested. -/
  limit_pos : 0 < limit := by decide
deriving Repr

/-- Why settings are refused. -/
inductive ConfigError where
  /-- The settings do not come as a map. -/
  | noMapping (typeName : String)
  /-- There are unknown keys. -/
  | unknownKeys (shown : List String)
  /-- An argument has no setting. -/
  | unknownArgument (name : String)
  /-- The name of an argument is not a text. -/
  | argumentName
  /-- The keys cannot be put in order. -/
  | unordered (first second : Key)
  /-- The tags without a body are not a list of texts. -/
  | noTagList
  /-- The limit is not an integer. -/
  | limitType (shown : String)
  /-- The limit is too small. -/
  | limitRange (n : Int)
  /-- The text in front of a page is not a text. -/
  | doctypeType (typeName : String)
  /-- The choice to escape is not a truth value. -/
  | autoescapeType (shown : String)
  /-- The tags without a body cannot be listed. -/
  | notIterable (typeName : String)
  /-- One of the tags without a body cannot be put into a set. -/
  | unhashable (typeName : String)
  /-- What is refused has an integer with too many digits. -/
  | longInteger
deriving Repr

/-- The message for refused settings. -/
def ConfigError.message : ConfigError → String
  | .noMapping typeName => s!"Renderer config must be a mapping, got {typeName}"
  | .unknownKeys shown => "Unknown renderer config keys: " ++ ", ".intercalate shown
  | .unknownArgument name =>
      s!"RendererConfig.__init__() got an unexpected keyword argument '{name}'"
  | .argumentName => "keywords must be strings"
  | .unordered first second =>
      s!"'<' not supported between instances of '{first.typeName}' and '{second.typeName}'"
  | .noTagList => "void_elements must be a list of tag names"
  | .limitType shown => s!"recursion_limit must be an integer, got {shown}"
  | .limitRange n => s!"recursion_limit must be positive, got {n}"
  | .doctypeType typeName => s!"doctype must be a string or null, got {typeName}"
  | .autoescapeType shown => s!"autoescape must be a boolean, got {shown}"
  | .notIterable typeName => s!"'{typeName}' object is not iterable"
  | .unhashable typeName => s!"unhashable type: '{typeName}'"
  | .longInteger => Text.longIntegerMessage

/-- The error for something that its message shows, if it can be shown. -/
def ConfigError.showing {α : Type} (shown : Option α) (e : α → ConfigError) : ConfigError :=
  shown.elim .longInteger e

namespace Config

/-- The tags of markup that have no body. -/
def standardVoidElements : List String :=
  ["area", "base", "br", "col", "embed", "hr", "img", "input", "link", "meta", "param", "source",
    "track", "wbr"]

/-- The configuration without settings. -/
def standard : Config where
  doctype := some "<!doctype html5>"
  limit := 64
  voidElements := standardVoidElements.map .text
  autoescape := false

instance : Inhabited Config := ⟨standard⟩

/-- Whether a tag has no body. -/
def isVoid (c : Config) (tag : String) : Bool :=
  (Key.text tag).isIn c.voidElements

theorem isVoid_iff (c : Config) (tag : String) :
    c.isVoid tag = true ↔ ∃ s, Key.text s ∈ c.voidElements ∧ s = tag := by
  simp only [isVoid, Key.isIn, List.any_eq_true]
  constructor
  · rintro ⟨k, hk, hs⟩
    cases k <;> simp [Key.same, Key.magnitude?] at hs
    exact ⟨_, hk, hs.symm⟩
  · rintro ⟨s, hs, rfl⟩
    exact ⟨_, hs, by simp [Key.same]⟩

/-- Whether two configurations agree; the order of the tags without a body does not count. -/
def sameAs (c d : Config) : Bool :=
  c.doctype == d.doctype && c.limit == d.limit && c.autoescape == d.autoescape &&
    c.voidElements.all (·.isIn d.voidElements) && d.voidElements.all (·.isIn c.voidElements)

/-! ## Settings -/

/-- Settings as they were given; each may be left out. -/
structure Settings where
  /-- What is written in front of a page. -/
  doctype : Option Data
  /-- How many calls may be nested. -/
  limit : Option Data
  /-- The tags without a body. -/
  voidElements : Option Data
  /-- Whether the values of variables are escaped. -/
  autoescape : Option Data
deriving Inhabited, Repr

/-- The keys of the settings. -/
def knownKeys : List String :=
  ["doctype", "recursion_limit", "void_elements", "autoescape"]

/-- The settings in a map. -/
def Settings.ofPairs (pairs : Pairs) : Settings where
  doctype := Data.get? pairs "doctype"
  limit := Data.get? pairs "recursion_limit"
  voidElements := Data.get? pairs "void_elements"
  autoescape := Data.get? pairs "autoescape"

/-- The limit that was set, with the proof that it is positive. -/
def readLimit : Option Data → Except ConfigError { n : Nat // 0 < n }
  | none => .ok ⟨standard.limit, standard.limit_pos⟩
  | some (.int n) =>
      if h : 0 < n.toNat then .ok ⟨n.toNat, h⟩
      else .error (.showing (Text.writeInteger? n) fun _ => .limitRange n)
  | some d => .error (.showing d.display? .limitType)

/-- The text in front of a page that was set. -/
def readDoctype : Option Data → Except ConfigError (Option String)
  | none => .ok standard.doctype
  | some .null => .ok none
  | some (.text s) => .ok (some s)
  | some d => .error (.doctypeType d.typeName)

/-- The choice to escape that was set. -/
def readAutoescape : Option Data → Except ConfigError Bool
  | none => .ok standard.autoescape
  | some (.truth b) => .ok b
  | some d => .error (.showing d.display? .autoescapeType)

/-- The items that data lists: those of a list, the characters of a text, the keys of a map.  A map
that is a value lists its entries. -/
def readItems : Data → Except ConfigError (List Key)
  | .list items | .tuple items => (Data.toKeys? items).mapError .unhashable
  | .ready (.list items) => .ok (items.map .ready)
  | .ready (.map entries) => .ok (entries.map fun e => .tuple [.text e.1, .ready e.2])
  | .text s => .ok (s.toList.map fun c => .text (String.ofList [c]))
  | .map entries => .ok (entries.map Prod.fst)
  | .bytes s => .ok (s.toUTF8.toList.map fun b => .int b.toNat)
  | d => .error (.notIterable d.typeName)

/-- The tags without a body that were set. -/
def readVoidElements : Option Data → Except ConfigError (List Key)
  | none => .ok standard.voidElements
  | some d => (readItems d).map Key.distinct

/-- The configuration with the given settings. -/
def ofSettings (s : Settings) : Except ConfigError Config := do
  let limit ← readLimit s.limit
  let doctype ← readDoctype s.doctype
  let autoescape ← readAutoescape s.autoescape
  let voidElements ← readVoidElements s.voidElements
  return ⟨doctype, limit.1, voidElements, autoescape, limit.2⟩

/-- The keys of a map that no setting has. -/
def unknownKeys (pairs : Pairs) : List Key :=
  (pairs.map Prod.fst).filter fun k => !k.isIn (knownKeys.map .text)

/-- The text that a key is, if it is one. -/
def text? : Key → Option String
  | .text s => some s
  | _ => none

/-- The configuration with the settings in named arguments.  A name that is not a text is reported
first, then the first one that has no setting. -/
def ofArguments (pairs : Pairs) : Except ConfigError Config :=
  match pairs.mapM fun p => text? p.1 with
  | none => .error .argumentName
  | some names =>
    match names.filter (· ∉ knownKeys) with
    | name :: _ => .error (.unknownArgument name)
    | [] => ofSettings (Settings.ofPairs pairs)

/-- Keys in order. -/
def sortKeys (ks : List Key) : Except ConfigError (List Key) :=
  (Key.sort? ks).mapError fun clash => .unordered clash.1 clash.2

/-- Whether data is a list of texts. -/
def isTagList : Data → Bool
  | .list items | .tuple items => items.all fun d => match d with
      | .text _ => true
      | _ => false
  | _ => false

/-- The configuration with the settings in data.  Unknown keys are reported first, then a set of
tags that is not a list of texts, then what else is wrong. -/
def ofData : Data → Except ConfigError Config
  | .map pairs => do
      let unknown ← sortKeys (unknownKeys pairs)
      if !unknown.isEmpty then throw (.showing (unknown.mapM Key.toText?) .unknownKeys)
      let settings := Settings.ofPairs pairs
      if !(settings.voidElements.all isTagList) then throw .noTagList
      ofSettings settings
  | d => .error (.noMapping d.typeName)

/-- The settings of a configuration as data; the tags without a body are in order. -/
def toData (c : Config) : Except ConfigError Data := do
  let tags ← sortKeys c.voidElements
  return .map [
    (.text "doctype", match c.doctype with
      | some s => .text s
      | none => .null),
    (.text "recursion_limit", .int c.limit),
    (.text "void_elements", .list (tags.map Data.ofKey)),
    (.text "autoescape", .truth c.autoescape)]

/-- Whether the settings of a configuration as data give it again. -/
def survives (c : Config) : Except ConfigError Bool := do
  return (← ofData (← c.toData)).sameAs c

end Config

end MarkupForms

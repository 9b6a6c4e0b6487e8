import MarkupForms.Data
import MarkupForms.Text.Numeral

/-!
# From plain data to values

Scalars become texts, lists become lists, maps become maps with the texts of their keys.  There is
no value for nothing, an integer must not have too many digits, and two keys of a map must not have
the same text.  The text of a key is made before what stands under it is converted.

Data may have to be made first, and making it may fail; what a caller offers is the data or the
reason why there is none.

* `Context.ofPairs?_nil` : no names, no root bindings.
* `Data.toBindings?_eq_ok_iff` : one by one or all at once, the bindings are the same.
* `Data.toValue?_ready` : a value is left as it is.
-/

namespace MarkupForms

/-- Why data cannot be used. -/
inductive DataError where
  /-- There is no value for nothing. -/
  | null
  /-- There is no value for data of this type. -/
  | unsupported (typeName : String)
  /-- Two keys of a map have the same text. -/
  | repeatedKey
  /-- The names of a context must come as a map. -/
  | noMapping (typeName : String)
  /-- A text denotes no integer. -/
  | noInteger (s : String)
  /-- A text has too many digits for an integer. -/
  | tooManyDigits (count : Nat)
  /-- An integer has too many digits for a text. -/
  | longInteger
  /-- A text denotes no number. -/
  | noNumber (s : String)
  /-- A list or a map stands as a key. -/
  | unhashable (typeName : String)
deriving DecidableEq, Repr

/-- The message for data that cannot be used. -/
def DataError.message : DataError → String
  | .null => "Cannot bind None: the template language has no null value"
  | .unsupported typeName => s!"Unsupported value type: {typeName}"
  | .repeatedKey => "Map keys must be unique"
  | .noMapping typeName => s!"Context data must be a mapping, got {typeName}"
  | .noInteger s => Text.noIntegerMessage 10 s
  | .tooManyDigits count => Text.digitLimitMessage count
  | .longInteger => Text.longIntegerMessage
  | .noNumber s => Text.noNumberMessage s
  | .unhashable typeName => s!"unhashable type: '{typeName}'"

/-- What a caller offers: something, or the reason why it could not be made. -/
abbrev Offered (α : Type) := Except DataError α

/-- The text of an integer or of something in which there may be one. -/
def DataError.orLong (text : Option String) : Except DataError String :=
  text.elim (.error .longInteger) .ok

/-- The map with the given entries. -/
def Value.ofEntries (entries : List (String × Value)) : Except DataError Value :=
  match Value.ofEntries? entries with
  | some v => .ok v
  | none => .error .repeatedKey

namespace Data

/-- Data as a key. -/
def asKey (d : Data) : Offered Key :=
  d.toKey?.mapError .unhashable

/-- The integer that a text denotes. -/
def ofDigits (s : String) : Offered Data :=
  match Text.readInteger s with
  | some n => .ok (.int n)
  | none =>
      let count := Text.digitCount s
      .error (if Text.digitLimit < count then .tooManyDigits count else .noInteger s)

/-- The floating-point number that a text denotes, blanks around it ignored. -/
def ofDecimal (s : String) : Offered Data :=
  match (Text.plainNumeral? false (Text.stripBlanks s.toList)).bind Binary64.read? with
  | some x => .ok (.float x)
  | none => .error (.noNumber s)

mutual

/-- The value of data. -/
def toValue? : Data → Except DataError Value
  | .text s => .ok (.scalar s)
  | .int n => return .scalar (← DataError.orLong (Text.writeInteger? n))
  | .float x => .ok (.scalar x.toText)
  | .truth b => .ok (.scalar (if b then "true" else "false"))
  | .null => .error .null
  | .list items | .tuple items => do return .list (← toValues? items)
  | .map entries => do Value.ofEntries (← toEntries? entries)
  | .ready v => .ok v
  | .context c => .ok c.asValue
  | .timestamp t => .error (.unsupported (typeName (.timestamp t)))
  | .bytes s => .error (.unsupported (typeName (.bytes s)))
  | .object => .error (.unsupported (typeName .object))

/-- The values of items, in order. -/
def toValues? : List Data → Except DataError (List Value)
  | [] => .ok []
  | d :: ds => do
      let v ← toValue? d
      return v :: (← toValues? ds)

/-- The entries with the texts of their keys, in order. -/
def toEntries? : List (Key × Data) → Except DataError (List (String × Value))
  | [] => .ok []
  | (k, d) :: es => do
      let name ← DataError.orLong k.toText?
      let v ← toValue? d
      return (name, v) :: (← toEntries? es)

end

/-- The bindings for the entries of a map, made one after the other.  Other than in a map, each
value is made before the text of its name. -/
def toBindings? : Pairs → Except DataError (List (String × Value))
  | [] => .ok []
  | (k, d) :: pairs => do
      let v ← toValue? d
      let name ← DataError.orLong k.toText?
      return (name, v) :: (← toBindings? pairs)

/-- Bindings are the same in either order, unless there are none. -/
theorem toBindings?_eq_ok_iff {pairs : Pairs} {bindings : List (String × Value)} :
    toBindings? pairs = .ok bindings ↔ toEntries? pairs = .ok bindings := by
  induction pairs generalizing bindings with
  | nil => rw [toBindings?, toEntries?]
  | cons p pairs ih =>
    obtain ⟨k, d⟩ := p
    rw [toBindings?, toEntries?]
    cases toValue? d with
    | error e => cases DataError.orLong k.toText? <;> simp [bind, Except.bind]
    | ok v =>
      cases DataError.orLong k.toText? with
      | error e => simp [bind, Except.bind]
      | ok name =>
        cases hentries : toEntries? pairs with
        | ok rest => simp [bind, Except.bind, ih.2 hentries]
        | error e =>
          cases hbindings : toBindings? pairs with
          | ok rest => rw [ih.1 hbindings] at hentries; cases hentries
          | error e' => simp [bind, Except.bind]

@[simp] theorem toValue?_ready (v : Value) : toValue? (.ready v) = .ok v := by
  rw [toValue?]

end Data

namespace Context

/-- The context whose root binds the given names in turn. -/
def ofPairs? (pairs : Pairs) : Except DataError Context :=
  (Data.toEntries? pairs).map ofList

/-- The context whose root binds the names of a map. -/
def ofData? : Data → Except DataError Context
  | .map entries => ofPairs? entries
  | d => .error (.noMapping d.typeName)

@[simp] theorem ofPairs?_nil : ofPairs? [] = .ok empty := by
  simp [ofPairs?, Data.toEntries?, ofList, empty, Frame.ofList, Entries.ofList, Entries.putAll,
    Frame.empty, Except.map]

end Context

end MarkupForms

import MarkupForms.Context.Builder
import MarkupForms.Proofs.Comparison
import MarkupForms.Proofs.Digits
import MarkupForms.Proofs.Stacks

/-!
# Which data has a value

Data is converted from the inside: first what stands in it, from left to right, then the data
itself.  There is no value for nothing, none for data of a foreign type, none for an integer with
too many digits, and none for a map with two keys of the same text or with a key that has no text.
The first of these faults that is met decides the error.  Some of them are errors of the
configuration; a repeated key and an integer with too many digits are not, although it is the data
that is bad.

For a context only the values of a map are converted.  Its keys become names, and of two keys with
the same text the second one replaces the first.

* `Data.Denotes`, `Data.Fails` : the value of data, and the first fault in it.
* `Data.toValue?_eq_ok_iff`, `Data.toValue?_eq_error_iff` : conversion gives the one or the other.
* `Data.denotes_iff` : data has a value exactly when nothing in it is faulty.
* `Data.Denotes.isProper_iff` : the maps in a value have distinct keys.
* `Data.conversion_exact` : all of this together, for values, contexts and builders.
-/

namespace MarkupForms

/-- The name of the type of the error for data that cannot be used. -/
def DataError.typeName : DataError → String
  | .null | .unsupported _ | .noMapping _ => "ConfigError"
  | .repeatedKey | .noInteger _ | .tooManyDigits _ | .longInteger | .noNumber _ => "ValueError"
  | .unhashable _ => "TypeError"

namespace Data

/-! ## What stands in data -/

/-- The data of which data is made. -/
def parts : Data → List Data
  | .list items | .tuple items => items
  | .map entries => entries.map Prod.snd
  | _ => []

/-- What data is made of is smaller. -/
theorem sizeOf_lt_of_mem_parts {x d : Data} (h : x ∈ d.parts) : sizeOf x < sizeOf d := by
  cases d with
  | list items | tuple items =>
    have hlt : sizeOf x < sizeOf items := List.sizeOf_lt_of_mem h
    simp only [list.sizeOf_spec, tuple.sizeOf_spec]
    omega
  | map entries =>
    obtain ⟨⟨k, y⟩, he, rfl⟩ := List.mem_map.1 h
    have hlt := List.sizeOf_lt_of_mem he
    simp only [map.sizeOf_spec, Prod.mk.sizeOf_spec] at hlt ⊢
    omega
  | _ => cases h

/-- What holds of data when it holds of all that the data is made of, holds of all data. -/
theorem induction {P : Data → Prop} (h : ∀ d, (∀ x ∈ d.parts, P x) → P d) (d : Data) : P d :=
  h d fun x _ => induction h x
termination_by d
decreasing_by
  rename_i hx
  exact sizeOf_lt_of_mem_parts hx

/-- Whether data is other data or stands somewhere in it. -/
inductive Inside (x : Data) : Data → Prop where
  /-- The data itself. -/
  | here : Inside x x
  /-- In a part of it. -/
  | part {y d : Data} (hy : y ∈ d.parts) (h : Inside x y) : Inside x d

/-! ## The value of data -/

/-- The texts of the keys of a map, in order, if each key has one. -/
def keyTexts? (pairs : Pairs) : Option (List String) :=
  pairs.mapM fun p => p.1.toText?

/-- Whether data has a value. -/
inductive Denotes : Data → Value → Prop where
  /-- A text is a scalar. -/
  | text (s : String) : Denotes (.text s) (.scalar s)
  /-- An integer is written with its digits, unless there are too many. -/
  | int {n : Int} (h : n.natAbs < Text.digitBound) : Denotes (.int n) (.scalar (toString n))
  /-- A number is written with as few digits as tell it apart. -/
  | float (x : Binary64) : Denotes (.float x) (.scalar x.toText)
  /-- A truth value is written as a word. -/
  | truth (b : Bool) : Denotes (.truth b) (.scalar (if b then "true" else "false"))
  /-- A list has the values of its items, in order. -/
  | list {items : List Data} {values : List Value} (h : List.Forall₂ Denotes items values) :
      Denotes (.list items) (.list values)
  /-- A list of fixed length is a list. -/
  | tuple {items : List Data} {values : List Value} (h : List.Forall₂ Denotes items values) :
      Denotes (.tuple items) (.list values)
  /-- A map has the values of its entries under the texts of their keys, in order, when no text
  occurs twice. -/
  | map {pairs : Pairs} {entries : List (String × Value)}
      (hkeys : keyTexts? pairs = some (Entries.keys entries))
      (hdistinct : (Entries.keys entries).Nodup)
      (hvalues : List.Forall₂ Denotes (pairs.map Prod.snd) (entries.map Prod.snd)) :
      Denotes (.map pairs) (.map entries)
  /-- A value is its own value. -/
  | ready (v : Value) : Denotes (.ready v) v
  /-- A context stands for what it binds. -/
  | context (c : Context) : Denotes (.context c) c.asValue

/-- Whether data has a fault of its own, apart from those of what stands in it. -/
inductive IsFaulty : Data → DataError → Prop where
  /-- There is no value for nothing. -/
  | null : IsFaulty .null .null
  /-- There is no value for an integer with too many digits. -/
  | long {n : Int} (h : Text.digitBound ≤ n.natAbs) : IsFaulty (.int n) .longInteger
  /-- There is no value for a day or a moment. -/
  | timestamp (t : Timestamp) : IsFaulty (.timestamp t) (.unsupported t.typeName)
  /-- There is no value for a text in bytes. -/
  | bytes (s : String) : IsFaulty (.bytes s) (.unsupported "bytes")
  /-- There is no value for anything else. -/
  | object : IsFaulty .object (.unsupported "object")
  /-- A key of a map has no text. -/
  | longKey {pairs : Pairs} {p : Key × Data} (hp : p ∈ pairs) (h : p.1.IsLong) :
      IsFaulty (.map pairs) .longInteger
  /-- Two keys of a map have the same text. -/
  | repeatedKey {pairs : Pairs} {names : List String} (hkeys : keyTexts? pairs = some names)
      (h : ¬ names.Nodup) : IsFaulty (.map pairs) .repeatedKey

/-- A step of a conversion: the text of a key is made, or data is converted. -/
inductive Step where
  /-- The text of a key. -/
  | key (k : Key)
  /-- The value of data. -/
  | value (d : Data)

/-- The steps for the entries of a map, in order: each key comes before what stands under it. -/
def entrySteps (pairs : Pairs) : List Step :=
  pairs.flatMap fun p => [.key p.1, .value p.2]

/-- The steps for bindings that are made one by one: each value comes before its name. -/
def bindingSteps (pairs : Pairs) : List Step :=
  pairs.flatMap fun p => [.value p.2, .key p.1]

/-- What is done for data before it is converted itself, in order. -/
def steps : Data → List Step
  | .list items | .tuple items => items.map .value
  | .map pairs => entrySteps pairs
  | _ => []

/-- Whether a step ends well. -/
def Step.Passes : Step → Prop
  | .key k => ¬ k.IsLong
  | .value d => ∃ v, d.Denotes v

/-- Whether data has no value, with the fault that is met first. -/
inductive Fails : Data → DataError → Prop where
  /-- All that stands in the data is converted, and the data itself is faulty. -/
  | here {d : Data} {e : DataError} (hsteps : ∀ s ∈ d.steps, s.Passes) (h : d.IsFaulty e) :
      Fails d e
  /-- A key in the data has no text, and all that comes before it is converted. -/
  | key {d : Data} {k : Key} {before after : List Step}
    (hsteps : d.steps = before ++ .key k :: after)
      (hbefore : ∀ s ∈ before, s.Passes) (h : k.IsLong) : Fails d .longInteger
  /-- A part of the data has no value, and all that comes before it is converted. -/
  | value {d x : Data} {e : DataError} {before after : List Step}
      (hsteps : d.steps = before ++ .value x :: after) (hbefore : ∀ s ∈ before, s.Passes)
      (h : Fails x e) : Fails d e

/-- How the conversion of data ends: with its value, or with the first fault. -/
def Ends (d : Data) : Except DataError Value → Prop
  | .ok v => d.Denotes v
  | .error e => d.Fails e

/-- Whether a step ends in an error. -/
def Step.Fails (s : Step) (e : DataError) : Prop :=
  match s with
  | .key k => k.IsLong ∧ e = .longInteger
  | .value d => d.Fails e

/-- Whether one of several steps ends in an error, while all before it end well. -/
def FirstFails (steps : List Step) (e : DataError) : Prop :=
  ∃ before s after, steps = before ++ s :: after ∧ (∀ s ∈ before, s.Passes) ∧ s.Fails e

/-- Whether bindings have the values of a map under the texts of its keys, in order. -/
def Names (pairs : Pairs) (bindings : List (String × Value)) : Prop :=
  keyTexts? pairs = some (Entries.keys bindings) ∧
    List.Forall₂ Denotes (pairs.map Prod.snd) (bindings.map Prod.snd)

/-! ## Steps -/

variable {d x : Data} {e : DataError} {v : Value} {items : List Data} {k : Key} {pairs : Pairs}
  {bindings : List (String × Value)}

theorem firstFails_cons_iff {s : Step} {steps : List Step} :
    FirstFails (s :: steps) e ↔ s.Fails e ∨ s.Passes ∧ FirstFails steps e := by
  constructor
  · rintro ⟨before, t, after, heq, hbefore, ht⟩
    cases before with
    | nil =>
      cases heq
      exact .inl ht
    | cons u before =>
      cases heq
      obtain ⟨hs, hbefore⟩ := List.forall_mem_cons.1 hbefore
      exact .inr ⟨hs, before, t, after, rfl, hbefore, ht⟩
  · rintro (hs | ⟨hs, before, t, after, rfl, hbefore, ht⟩)
    · exact ⟨[], s, steps, rfl, by simp, hs⟩
    · exact ⟨s :: before, t, after, rfl, List.forall_mem_cons.2 ⟨hs, hbefore⟩, ht⟩

theorem not_firstFails_nil : ¬ FirstFails [] e := by
  simp [FirstFails]

theorem value_mem_steps_iff : .value x ∈ d.steps ↔ x ∈ d.parts := by
  cases d <;> simp [steps, parts, entrySteps]

theorem key_mem_steps_iff :
    .key k ∈ d.steps ↔ ∃ pairs, d = .map pairs ∧ ∃ p ∈ pairs, p.1 = k := by
  cases d <;> simp [steps, entrySteps, eq_comm]

/-- Data fails by a step of its conversion, or by itself when all of them end well. -/
theorem fails_iff :
    d.Fails e ↔ FirstFails d.steps e ∨ (∀ s ∈ d.steps, s.Passes) ∧ d.IsFaulty e := by
  constructor
  · intro h
    cases h with
    | here hsteps h => exact .inr ⟨hsteps, h⟩
    | key hsteps hbefore h => exact .inl ⟨_, _, _, hsteps, hbefore, h, rfl⟩
    | value hsteps hbefore h => exact .inl ⟨_, _, _, hsteps, hbefore, h⟩
  · rintro (⟨_, s, _, hsteps, hbefore, h⟩ | ⟨hsteps, h⟩)
    · cases s with
      | key k =>
        obtain ⟨hlong, rfl⟩ := h
        exact .key hsteps hbefore hlong
      | value x => exact .value hsteps hbefore h
    · exact .here hsteps h

/-! ## Conversion -/

/-- A sequence succeeds when both of its steps do. -/
theorem bind_eq_ok_iff {ε α β : Type} {r : Except ε α} {f : α → Except ε β} {b : β} :
    r >>= f = .ok b ↔ ∃ a, r = .ok a ∧ f a = .ok b := by
  cases r <;> simp [bind, Except.bind]

/-- A sequence fails when one of its steps does, the second one only after the first one. -/
theorem bind_eq_error_iff {ε α β : Type} {r : Except ε α} {f : α → Except ε β} {e : ε} :
    r >>= f = .error e ↔ r = .error e ∨ ∃ a, r = .ok a ∧ f a = .error e := by
  cases r <;> simp [bind, Except.bind]

/-- What is made of a result without fail fails only as the result does. -/
theorem bind_pure_eq_error_iff {ε α β : Type} {r : Except ε α} {f : α → β} {e : ε} :
    (r >>= fun a => pure (f a)) = .error e ↔ r = .error e := by
  cases r <;> simp [bind, Except.bind, pure, Except.pure]

theorem orLong_eq_ok_iff {o : Option String} {s : String} :
    DataError.orLong o = .ok s ↔ o = some s := by
  cases o <;> simp [DataError.orLong]

theorem orLong_toText?_eq_error_iff :
    DataError.orLong k.toText? = .error e ↔ (Step.key k).Fails e := by
  rw [Step.Fails, ← k.toText?_eq_none_iff]
  cases k.toText? <;> simp [DataError.orLong, eq_comm]

/-- A key has a text exactly when the step for it ends well. -/
theorem exists_toText?_iff : (∃ s, k.toText? = some s) ↔ (Step.key k).Passes := by
  rw [Step.Passes, ← k.toText?_eq_none_iff, ← ne_eq, Option.ne_none_iff_exists']

/-- Items have values when each of them has one. -/
theorem toValues?_eq_ok_iff {values : List Value}
    (h : ∀ x ∈ items, ∀ r, x.toValue? = r ↔ x.Ends r) :
    toValues? items = .ok values ↔ List.Forall₂ Denotes items values := by
  induction items generalizing values with
  | nil =>
    rw [toValues?, List.forall₂_nil_left_iff, Except.ok.injEq]
    exact eq_comm
  | cons x items ih =>
    have hx (v : Value) := h x List.mem_cons_self (.ok v)
    have hitems {values : List Value} := @ih values fun y hy => h y (List.mem_cons_of_mem x hy)
    rw [List.forall₂_cons_left_iff, toValues?, bind_eq_ok_iff]
    constructor
    · rintro ⟨v, hv, hrest⟩
      obtain ⟨values, hvalues, hall⟩ := bind_eq_ok_iff.1 hrest
      exact ⟨v, values, (hx v).1 hv, hitems.1 hvalues, (Except.ok.inj hall).symm⟩
    · rintro ⟨v, values, hv, hvalues, rfl⟩
      exact ⟨v, (hx v).2 hv, bind_eq_ok_iff.2 ⟨values, hitems.2 hvalues, rfl⟩⟩

/-- Items have no values when one of them has none, and the first such item decides. -/
theorem toValues?_eq_error_iff (h : ∀ x ∈ items, ∀ r, x.toValue? = r ↔ x.Ends r) :
    toValues? items = .error e ↔ FirstFails (items.map .value) e := by
  induction items with
  | nil =>
    rw [toValues?]
    exact iff_of_false (by simp) not_firstFails_nil
  | cons x items ih =>
    have hx := h x List.mem_cons_self
    have hitems := ih fun y hy => h y (List.mem_cons_of_mem x hy)
    rw [List.map_cons, firstFails_cons_iff, ← hitems, toValues?, bind_eq_error_iff]
    refine or_congr (hx _) ?_
    simp only [bind_pure_eq_error_iff, exists_and_right]
    exact and_congr (exists_congr fun v => hx (.ok v)) Iff.rfl

/-- The first entry of a map gives the first binding. -/
theorem names_cons_iff {p : Key × Data} :
    Names (p :: pairs) bindings ↔ ∃ name v rest, p.1.toText? = some name ∧ p.2.Denotes v ∧
      Names pairs rest ∧ bindings = (name, v) :: rest := by
  simp only [Names, keyTexts?, List.mapM_cons, List.map_cons, List.forall₂_cons_left_iff]
  constructor
  · rintro ⟨hkeys, v, values, hv, hvalues, hbindings⟩
    obtain ⟨⟨name, w⟩, rest, rfl, rfl, rfl⟩ := List.map_eq_cons_iff.1 hbindings
    obtain ⟨s, hs, hrest⟩ := Option.bind_eq_some_iff.1 hkeys
    obtain ⟨ss, hss, hcons⟩ := Option.bind_eq_some_iff.1 hrest
    cases hcons
    exact ⟨name, w, rest, hs, hv, ⟨hss, hvalues⟩, rfl⟩
  · rintro ⟨name, v, rest, hname, hv, ⟨hkeys, hvalues⟩, rfl⟩
    rw [hname, hkeys]
    exact ⟨rfl, v, _, hv, hvalues, rfl⟩

theorem names_nil_iff : Names [] bindings ↔ bindings = [] := by
  cases bindings <;> simp [Names, keyTexts?, Entries.keys]

/-- Bindings are made of a map by converting what stands under its keys. -/
theorem toEntries?_eq_ok_iff (h : ∀ x ∈ pairs.map Prod.snd, ∀ r, x.toValue? = r ↔ x.Ends r) :
    toEntries? pairs = .ok bindings ↔ Names pairs bindings := by
  induction pairs generalizing bindings with
  | nil =>
    rw [toEntries?, names_nil_iff, Except.ok.injEq]
    exact eq_comm
  | cons p pairs ih =>
    obtain ⟨k, d⟩ := p
    have hd (v : Value) := h d List.mem_cons_self (.ok v)
    have hpairs {bindings : List (String × Value)} :=
      @ih bindings fun y hy => h y (List.mem_cons_of_mem d hy)
    rw [toEntries?, names_cons_iff]
    simp only [bind_eq_ok_iff, orLong_eq_ok_iff, hd, hpairs]
    constructor
    · rintro ⟨name, hname, v, hv, rest, hrest, hmade⟩
      exact ⟨name, v, rest, hname, hv, hrest, (Except.ok.inj hmade).symm⟩
    · rintro ⟨name, v, rest, hname, hv, hrest, rfl⟩
      exact ⟨name, hname, v, hv, rest, hrest, rfl⟩

/-- No bindings are made of a map when one of its keys has no text or one of its entries has no
value. -/
theorem toEntries?_eq_error_iff (h : ∀ x ∈ pairs.map Prod.snd, ∀ r, x.toValue? = r ↔ x.Ends r) :
    toEntries? pairs = .error e ↔ FirstFails (entrySteps pairs) e := by
  induction pairs with
  | nil =>
    rw [toEntries?]
    exact iff_of_false (by simp) not_firstFails_nil
  | cons p pairs ih =>
    obtain ⟨k, d⟩ := p
    have hd := h d List.mem_cons_self
    have hpairs := ih fun y hy => h y (List.mem_cons_of_mem d hy)
    have hsteps : entrySteps ((k, d) :: pairs) = .key k :: .value d :: entrySteps pairs := rfl
    have hrest (name : String) : (do
        let v ← toValue? d
        return (name, v) :: (← toEntries? pairs)) = .error e ↔
          (Step.value d).Fails e ∨ (Step.value d).Passes ∧ toEntries? pairs = .error e := by
      rw [bind_eq_error_iff]
      simp only [bind_pure_eq_error_iff, exists_and_right]
      exact or_congr (hd _) (and_congr (exists_congr fun v => hd (.ok v)) Iff.rfl)
    rw [hsteps, firstFails_cons_iff, firstFails_cons_iff, ← hpairs, toEntries?, bind_eq_error_iff]
    simp only [hrest, exists_and_right, orLong_eq_ok_iff, exists_toText?_iff]
    exact or_congr orLong_toText?_eq_error_iff Iff.rfl

/-- A map is converted when all of its steps end well. -/
theorem exists_names_iff :
    (∃ bindings, Names pairs bindings) ↔ ∀ s ∈ entrySteps pairs, s.Passes := by
  induction pairs with
  | nil => simp [names_nil_iff, entrySteps]
  | cons p pairs ih =>
    have hsteps : entrySteps (p :: pairs) = .key p.1 :: .value p.2 :: entrySteps pairs := rfl
    rw [hsteps, List.forall_mem_cons, List.forall_mem_cons, ← ih, ← exists_toText?_iff]
    simp only [names_cons_iff]
    constructor
    · rintro ⟨_, name, v, rest, hname, hv, hrest, rfl⟩
      exact ⟨⟨name, hname⟩, ⟨v, hv⟩, rest, hrest⟩
    · rintro ⟨⟨name, hname⟩, ⟨v, hv⟩, rest, hrest⟩
      exact ⟨_, name, v, rest, hname, hv, hrest, rfl⟩

theorem ofEntries_eq_ok_iff {entries : List (String × Value)} :
    Value.ofEntries entries = .ok v ↔ (Entries.keys entries).Nodup ∧ v = .map entries := by
  rw [Value.ofEntries, Value.ofEntries?, Entries.keys]
  split <;> simp_all [eq_comm]

theorem ofEntries_eq_error_iff {entries : List (String × Value)} :
    Value.ofEntries entries = .error e ↔ ¬ (Entries.keys entries).Nodup ∧ e = .repeatedKey := by
  rw [Value.ofEntries, Value.ofEntries?, Entries.keys]
  split <;> simp_all [eq_comm]

/-- The conversion of a list ends as that of its items does. -/
theorem toValue?_items_iff (h : ∀ x ∈ items, ∀ r, x.toValue? = r ↔ x.Ends r)
    (hd : d = .list items ∨ d = .tuple items) (r : Except DataError Value) :
    d.toValue? = r ↔ d.Ends r := by
  have hsteps : d.steps = items.map .value := by rcases hd with rfl | rfl <;> rfl
  have hconvert : d.toValue? = (toValues? items).map .list := by
    rcases hd with rfl | rfl <;> rw [toValue?] <;> cases toValues? items <;> rfl
  have hfaultless (e : DataError) : ¬ d.IsFaulty e := by
    rcases hd with rfl | rfl <;> rintro ⟨⟩
  rw [hconvert]
  cases r with
  | ok v =>
    have hvalues {values : List Value} := @toValues?_eq_ok_iff _ values h
    constructor
    · intro hmade
      cases hall : toValues? items with
      | error e => rw [hall] at hmade; cases hmade
      | ok values =>
        rw [hall] at hmade
        cases hmade
        rcases hd with rfl | rfl
        · exact .list (hvalues.1 hall)
        · exact .tuple (hvalues.1 hall)
    · intro hdenotes
      obtain ⟨values, rfl, hall⟩ :
          ∃ values, v = .list values ∧ List.Forall₂ Denotes items values := by
        rcases hd with rfl | rfl
        · cases hdenotes with
          | list hall => exact ⟨_, rfl, hall⟩
        · cases hdenotes with
          | tuple hall => exact ⟨_, rfl, hall⟩
      rw [hvalues.2 hall, Except.map]
  | error e =>
    rw [Ends, fails_iff, hsteps, ← toValues?_eq_error_iff h]
    cases toValues? items <;> simp [Except.map, hfaultless]

/-- The conversion of a map ends as that of its entries does, unless two texts of keys are the
same. -/
theorem toValue?_map_iff (h : ∀ x ∈ pairs.map Prod.snd, ∀ r, x.toValue? = r ↔ x.Ends r)
    (r : Except DataError Value) : (map pairs).toValue? = r ↔ (map pairs).Ends r := by
  rw [toValue?]
  cases r with
  | ok v =>
    rw [bind_eq_ok_iff]
    constructor
    · rintro ⟨entries, hentries, hv⟩
      obtain ⟨hkeys, hvalues⟩ := (toEntries?_eq_ok_iff h).1 hentries
      obtain ⟨hdistinct, rfl⟩ := ofEntries_eq_ok_iff.1 hv
      exact .map hkeys hdistinct hvalues
    · intro hdenotes
      cases hdenotes with
      | map hkeys hdistinct hvalues =>
        exact ⟨_, (toEntries?_eq_ok_iff h).2 ⟨hkeys, hvalues⟩,
          ofEntries_eq_ok_iff.2 ⟨hdistinct, rfl⟩⟩
  | error e =>
    rw [Ends, fails_iff, bind_eq_error_iff, toEntries?_eq_error_iff h, steps]
    refine or_congr Iff.rfl ?_
    constructor
    · rintro ⟨entries, hentries, he⟩
      have hnames := (toEntries?_eq_ok_iff h).1 hentries
      obtain ⟨hrepeated, rfl⟩ := ofEntries_eq_error_iff.1 he
      exact ⟨exists_names_iff.1 ⟨_, hnames⟩, .repeatedKey hnames.1 hrepeated⟩
    · rintro ⟨hsteps, hfaulty⟩
      obtain ⟨entries, hnames⟩ := exists_names_iff.2 hsteps
      refine ⟨entries, (toEntries?_eq_ok_iff h).2 hnames, ?_⟩
      rw [ofEntries_eq_error_iff]
      cases hfaulty with
      | longKey hp hlong =>
        have hkey : .key _ ∈ (map pairs).steps := key_mem_steps_iff.2 ⟨pairs, rfl, _, hp, rfl⟩
        exact absurd hlong (hsteps _ hkey)
      | repeatedKey hkeys hrepeated =>
        cases hkeys.symm.trans hnames.1
        exact ⟨hrepeated, rfl⟩

/-- Data without parts has a value, or is faulty itself. -/
theorem fails_iff_of_steps (h : d.steps = []) : d.Fails e ↔ d.IsFaulty e := by
  rw [fails_iff, FirstFails, h]
  simp

/-- An integer has a value unless it has too many digits. -/
theorem toValue?_int_iff {n : Int} (r : Except DataError Value) :
    (int n).toValue? = r ↔ (int n).Ends r := by
  rw [toValue?]
  cases r with
  | ok v =>
    simp only [bind_eq_ok_iff, orLong_eq_ok_iff, Text.writeInteger?_eq_some_iff]
    constructor
    · rintro ⟨_, ⟨hn, rfl⟩, ⟨⟩⟩
      exact .int hn
    · rintro ⟨⟩
      exact ⟨_, ⟨‹_›, rfl⟩, rfl⟩
  | error e =>
    rw [bind_pure_eq_error_iff, Ends, fails_iff_of_steps rfl]
    constructor
    · intro h
      cases hn : Text.writeInteger? n with
      | some s => rw [hn] at h; cases h
      | none =>
        rw [hn] at h
        cases h
        exact .long (Text.writeInteger?_eq_none_iff.1 hn)
    · rintro ⟨⟩
      rw [Text.writeInteger?_eq_none_iff.2 ‹_›]
      rfl

theorem toValue?_of_long {n : Int} (h : Text.digitBound ≤ n.natAbs) :
    (int n).toValue? = .error .longInteger :=
  (toValue?_int_iff _).2 ((fails_iff_of_steps rfl).2 (.long h))

/-- Conversion gives the value of data, or the first fault in it. -/
theorem toValue?_eq_iff (d : Data) : ∀ r, d.toValue? = r ↔ d.Ends r := by
  induction d using Data.induction with
  | h d ih =>
    cases d with
    | list items => exact toValue?_items_iff ih (.inl rfl)
    | tuple items => exact toValue?_items_iff ih (.inr rfl)
    | map pairs => exact toValue?_map_iff ih
    | int n => exact toValue?_int_iff
    | text s | float x | truth b | ready v | context c =>
      rw [toValue?]
      rintro (e | v)
      · rw [Ends, fails_iff_of_steps rfl]
        constructor <;> rintro ⟨⟩
      · constructor
        · rintro ⟨⟩
          constructor
        · rintro ⟨⟩
          rfl
    | null | timestamp t | bytes s | object =>
      rw [toValue?]
      rintro (e | v)
      · rw [Ends, fails_iff_of_steps rfl]
        constructor
        · rintro ⟨⟩
          constructor
        · rintro ⟨⟩
          rfl
      · constructor <;> rintro ⟨⟩

theorem toValue?_eq_ok (d : Data) (v : Value) : d.toValue? = .ok v ↔ d.Denotes v :=
  d.toValue?_eq_iff (.ok v)

theorem toValue?_eq_error (d : Data) (e : DataError) : d.toValue? = .error e ↔ d.Fails e :=
  d.toValue?_eq_iff (.error e)

/-! ## Faults -/

/-- A step ends well or in an error. -/
theorem Step.passes_or_fails (s : Step) : s.Passes ∨ ∃ e, s.Fails e := by
  cases s with
  | key k =>
    by_cases hk : k.IsLong
    · exact .inr ⟨_, hk, rfl⟩
    · exact .inl hk
  | value d =>
    cases hmade : d.toValue? with
    | ok v => exact .inl ⟨v, (d.toValue?_eq_ok v).1 hmade⟩
    | error e => exact .inr ⟨e, (d.toValue?_eq_error e).1 hmade⟩

/-- Of several steps, all end well or one is the first that does not. -/
theorem forall_passes_or_firstFails (steps : List Step) :
    (∀ s ∈ steps, s.Passes) ∨ ∃ e, FirstFails steps e := by
  induction steps with
  | nil => simp
  | cons s steps ih =>
    simp only [List.forall_mem_cons, firstFails_cons_iff]
    rcases s.passes_or_fails with hs | ⟨e, he⟩
    · exact ih.imp (fun h => ⟨hs, h⟩) fun ⟨e, he⟩ => ⟨e, .inr ⟨hs, he⟩⟩
    · exact .inr ⟨e, .inl he⟩

/-- Data that has a value does not fail. -/
theorem Denotes.not_fails (h : d.Denotes v) (e : DataError) : ¬ d.Fails e := by
  intro hfails
  rw [← toValue?_eq_ok] at h
  rw [← toValue?_eq_error, h] at hfails
  cases hfails

/-- A step that ends well does not end in an error. -/
theorem Step.Passes.not_fails {s : Step} (h : s.Passes) (e : DataError) : ¬ s.Fails e := by
  cases s with
  | key k => exact fun hfails => h hfails.1
  | value d =>
    obtain ⟨v, hv⟩ := h
    exact hv.not_fails e

/-- Data has a value when its parts have values and it is not faulty itself. -/
theorem exists_denotes_iff :
    (∃ v, d.Denotes v) ↔ (∀ x ∈ d.parts, ∃ v, x.Denotes v) ∧ ∀ e, ¬ d.IsFaulty e := by
  constructor
  · rintro ⟨v, hv⟩
    rcases forall_passes_or_firstFails d.steps with hsteps | ⟨e, hfirst⟩
    · exact ⟨fun x hx => hsteps _ (value_mem_steps_iff.2 hx),
        fun e he => hv.not_fails e (.here hsteps he)⟩
    · exact absurd (fails_iff.2 (.inl hfirst)) (hv.not_fails e)
  · rintro ⟨hparts, hfaultless⟩
    cases hmade : d.toValue? with
    | ok v => exact ⟨v, (d.toValue?_eq_ok v).1 hmade⟩
    | error e =>
      rcases fails_iff.1 ((d.toValue?_eq_error e).1 hmade) with hfirst | ⟨-, he⟩
      · obtain ⟨before, s, after, hd, -, hs⟩ := hfirst
        have hmem : s ∈ d.steps := by simp [hd]
        cases s with
        | key k =>
          obtain ⟨pairs, rfl, p, hp, rfl⟩ := key_mem_steps_iff.1 hmem
          exact absurd (.longKey hp hs.1) (hfaultless _)
        | value x =>
          obtain ⟨v, hv⟩ := hparts x (value_mem_steps_iff.1 hmem)
          exact absurd hs (hv.not_fails e)
      · exact absurd he (hfaultless e)

theorem inside_iff : x.Inside d ↔ x = d ∨ ∃ y ∈ d.parts, x.Inside y := by
  constructor
  · rintro (- | ⟨hy, h⟩)
    · exact .inl rfl
    · exact .inr ⟨_, hy, h⟩
  · rintro (rfl | ⟨y, hy, h⟩)
    · exact .here
    · exact .part hy h

/-- Data has a value exactly when nothing in it is faulty. -/
theorem denotes_iff (d : Data) :
    (∃ v, d.Denotes v) ↔ ∀ (x : Data) e, x.Inside d → ¬ x.IsFaulty e := by
  induction d using Data.induction with
  | h d ih =>
    rw [exists_denotes_iff]
    constructor
    · rintro ⟨hparts, hfaultless⟩ x e hx
      rcases inside_iff.1 hx with rfl | ⟨y, hy, hx⟩
      · exact hfaultless e
      · exact (ih y hy).1 (hparts y hy) x e hx
    · intro h
      refine ⟨fun x hx => (ih x hx).2 fun y e hy => ?_, fun e => h d e .here⟩
      exact h y e (.part hx hy)

/-- The error tells of a fault in the data. -/
theorem Fails.exists_isFaulty (h : d.Fails e) : ∃ x : Data, x.Inside d ∧ x.IsFaulty e := by
  induction h with
  | here _ h => exact ⟨_, .here, h⟩
  | @key d k before after hsteps _ hlong =>
    have hmem : .key k ∈ d.steps := by simp [hsteps]
    obtain ⟨pairs, rfl, p, hp, rfl⟩ := key_mem_steps_iff.1 hmem
    exact ⟨_, .here, .longKey hp hlong⟩
  | @value d x e before after hsteps _ _ ih =>
    obtain ⟨y, hy, he⟩ := ih
    exact ⟨y, .part (value_mem_steps_iff.1 (by simp [hsteps])) hy, he⟩

/-- Whether two keys of a map in the data have the same text. -/
def HasRepeatedKey (d : Data) : Prop :=
  ∃ pairs names, (Data.map pairs).Inside d ∧ keyTexts? pairs = some names ∧ ¬ names.Nodup

/-- What is in a part with an integer that has too many digits has it, too. -/
theorem Inside.isLong (h : x.Inside d) (hx : x.IsLong) : d.IsLong := by
  induction h with
  | here => exact hx
  | @part y d hy _ ih =>
    cases d with
    | list items => exact .list hy ih
    | tuple items => exact .tuple hy ih
    | map pairs =>
      obtain ⟨p, hp, rfl⟩ := List.mem_map.1 hy
      exact .value hp ih
    | _ => cases hy

/-- Whether an error is one of the configuration, or tells of two keys of a map that have the same
text, or of an integer with too many digits. -/
def Warrants (d : Data) (e : DataError) : Prop :=
  e.typeName = "ConfigError" ∨ e.typeName = "ValueError" ∧
    (e = .repeatedKey ∧ d.HasRepeatedKey ∨ e = .longInteger ∧ d.IsLong)

theorem Fails.warrants (h : d.Fails e) : d.Warrants e := by
  obtain ⟨x, hx, he⟩ := h.exists_isFaulty
  cases he with
  | repeatedKey hkeys hrepeated => exact .inr ⟨rfl, .inl ⟨rfl, _, _, hx, hkeys, hrepeated⟩⟩
  | long hn => exact .inr ⟨rfl, .inr ⟨rfl, hx.isLong (.int hn)⟩⟩
  | longKey hp hlong => exact .inr ⟨rfl, .inr ⟨rfl, hx.isLong (.key hp hlong)⟩⟩
  | null | timestamp | bytes | object => exact .inl rfl

/-! ## Keys of the maps in a value -/

/-- Whether data has a value that stands ready in it, by itself or in a context. -/
inductive Carries : Data → Value → Prop where
  /-- The value itself. -/
  | ready (v : Value) : Carries (.ready v) v
  /-- A value that a context binds to a visible name. -/
  | bound {c : Context} {name : String} {v : Value} (hname : name ∈ c.names)
      (h : c.lookup name = some v) : Carries (.context c) v
  /-- A value that stands in a part. -/
  | part {d x : Data} {v : Value} (hx : x ∈ d.parts) (h : Carries x v) : Carries d v

end Data

namespace Value

theorem isProper_list {items : List Value} : IsProper (.list items) ↔ ∀ v ∈ items, v.IsProper := by
  constructor
  · exact fun h v hv entries hw => h entries (.item hv hw)
  · rintro h entries (- | ⟨hv, hw⟩)
    exact h _ hv entries hw

theorem isProper_map {entries : List (String × Value)} :
    IsProper (.map entries) ↔
      (Entries.keys entries).Nodup ∧ ∀ v ∈ entries.map Prod.snd, v.IsProper := by
  constructor
  · refine fun h => ⟨h entries .here, fun v hv inner hw => ?_⟩
    obtain ⟨e, he, rfl⟩ := List.mem_map.1 hv
    exact h inner (.entry he hw)
  · rintro ⟨hkeys, h⟩ inner hw
    cases hw with
    | here => exact hkeys
    | key he hw => cases hw
    | entry he hw => exact h _ (List.mem_map_of_mem he) inner hw

end Value

/-- The visible names of a context are the distinct keys of what it stands for. -/
theorem Context.isProper_asValue_iff (c : Context) :
    c.asValue.IsProper ↔ ∀ name ∈ c.names, ∀ v, c.lookup name = some v → v.IsProper := by
  have hkeys : ((c.names.filterMap fun name => (c.lookup name).map fun v => (name, v)).map
      Prod.fst).Nodup := by
    rw [List.map_filterMap]
    refine List.Nodup.filterMap (fun a b key ha hb => ?_) (Entries.nodup_eraseDups _)
    simp only [Option.map_map, Option.mem_def, Option.map_eq_some_iff, Function.comp_apply] at ha hb
    obtain ⟨_, -, rfl⟩ := ha
    obtain ⟨_, -, rfl⟩ := hb
    rfl
  rw [asValue, Value.isProper_map, Entries.keys, and_iff_right hkeys]
  simp only [List.mem_map, List.mem_filterMap, Option.map_eq_some_iff]
  constructor
  · exact fun h name hname v hv => h v ⟨(name, v), ⟨name, hname, v, hv, rfl⟩, rfl⟩
  · rintro h _ ⟨_, ⟨name, hname, v, hv, rfl⟩, rfl⟩
    exact h name hname v hv

namespace Data

variable {d x : Data} {e : DataError} {v : Value} {items : List Data} {pairs : Pairs}

/-- Data that is no value and no context carries what its parts carry. -/
theorem forall_carries_iff {P : Value → Prop} (hready : ∀ v, d ≠ .ready v)
    (hcontext : ∀ c, d ≠ .context c) :
    (∀ w, d.Carries w → P w) ↔ ∀ x ∈ d.parts, ∀ w, x.Carries w → P w := by
  constructor
  · exact fun h x hx w hw => h w (.part hx hw)
  · intro h w hw
    cases hw with
    | ready => exact absurd rfl (hready w)
    | @bound c => exact absurd rfl (hcontext c)
    | part hx hw => exact h _ hx w hw

theorem forall_isProper_iff {values : List Value} (h : List.Forall₂ Denotes items values)
    (ih : ∀ x ∈ items, ∀ v, x.Denotes v → (v.IsProper ↔ ∀ w, x.Carries w → w.IsProper)) :
    (∀ v ∈ values, v.IsProper) ↔ ∀ x ∈ items, ∀ w, x.Carries w → w.IsProper := by
  induction h with
  | nil => simp
  | @cons x v items values hx _ hrest =>
    rw [List.forall_mem_cons, List.forall_mem_cons, ih x List.mem_cons_self v hx,
      hrest fun y hy => ih y (List.mem_cons_of_mem x hy)]

/-- The maps in a value have distinct keys when those in the values do that stood ready in the
data. -/
theorem Denotes.isProper_iff (h : d.Denotes v) :
    v.IsProper ↔ ∀ w, d.Carries w → w.IsProper := by
  induction d using Data.induction generalizing v with
  | h d ih =>
    have hitems {items : List Data} {values : List Value} (hd : d.parts = items)
        (hall : List.Forall₂ Denotes items values) :=
      forall_isProper_iff hall fun x hx _ => ih x (hd ▸ hx)
    cases h with
    | list hall =>
      rw [forall_carries_iff (by simp) (by simp), Value.isProper_list]
      exact hitems rfl hall
    | tuple hall =>
      rw [forall_carries_iff (by simp) (by simp), Value.isProper_list]
      exact hitems rfl hall
    | map hkeys hdistinct hall =>
      rw [forall_carries_iff (by simp) (by simp), Value.isProper_map,
        and_iff_right hdistinct]
      exact hitems rfl hall
    | ready =>
      refine ⟨fun hv w hw => ?_, fun hall => hall _ (.ready _)⟩
      cases hw with
      | ready => exact hv
      | part hx => cases hx
    | context c =>
      rw [c.isProper_asValue_iff]
      refine ⟨fun hv w hw => ?_, fun hall name hname w hw => hall w (.bound hname hw)⟩
      cases hw with
      | bound hname hw => exact hv _ hname w hw
      | part hx => cases hx
    | text | int | float | truth =>
      rw [forall_carries_iff (by simp) (by simp)]
      exact iff_of_true (Value.isProper_scalar _) fun _ hx => by cases hx

end Data

/-! ## Contexts -/

namespace Context

variable {c : Context} {d : Data} {e : DataError}

theorem ofPairs?_eq_ok_iff {pairs : Pairs} :
    ofPairs? pairs = .ok c ↔ ∃ bindings, Data.Names pairs bindings ∧ c = .ofList bindings := by
  have hentries {bindings : List (String × Value)} :=
    @Data.toEntries?_eq_ok_iff pairs bindings fun x _ => x.toValue?_eq_iff
  rw [ofPairs?]
  constructor
  · intro h
    cases hmade : Data.toEntries? pairs with
    | error e => rw [hmade] at h; cases h
    | ok bindings =>
      rw [hmade] at h
      cases h
      exact ⟨bindings, hentries.1 hmade, rfl⟩
  · rintro ⟨bindings, hbindings, rfl⟩
    rw [hentries.2 hbindings, Except.map]

theorem ofPairs?_eq_error_iff {pairs : Pairs} :
    ofPairs? pairs = .error e ↔ Data.FirstFails (Data.entrySteps pairs) e := by
  rw [← Data.toEntries?_eq_error_iff fun x _ => x.toValue?_eq_iff, ofPairs?]
  cases Data.toEntries? pairs <;> simp [Except.map]

/-- A context is made of a map, with the values of its entries. -/
theorem ofData?_eq_ok_iff :
    ofData? d = .ok c ↔
      ∃ pairs bindings, d = .map pairs ∧ Data.Names pairs bindings ∧ c = .ofList bindings := by
  constructor
  · intro h
    unfold ofData? at h
    split at h
    · obtain ⟨bindings, hbindings, rfl⟩ := ofPairs?_eq_ok_iff.1 h
      exact ⟨_, bindings, rfl, hbindings, rfl⟩
    · cases h
  · rintro ⟨pairs, bindings, rfl, hbindings⟩
    exact ofPairs?_eq_ok_iff.2 ⟨bindings, hbindings⟩

/-- No context is made of what is no map, nor of a map with a key that has no text or an entry that
has no value. -/
theorem ofData?_eq_error_iff :
    ofData? d = .error e ↔
      (∀ pairs, d ≠ .map pairs) ∧ e = .noMapping d.typeName ∨
        ∃ pairs, d = .map pairs ∧ Data.FirstFails (Data.entrySteps pairs) e := by
  cases d with
  | map pairs =>
    rw [ofData?, ofPairs?_eq_error_iff]
    simp
  | _ => simp [ofData?, eq_comm]

theorem Builder.insert_eq_ok_iff {b b' : Builder} {name : Key} :
    b.insert name d = .ok b' ↔ ∃ v text, d.Denotes v ∧ name.toText? = some text ∧
      b' = ⟨Entries.put (normalize text) v b.bindings⟩ := by
  simp only [insert, Data.bind_eq_ok_iff, Data.orLong_eq_ok_iff, d.toValue?_eq_ok]
  constructor
  · rintro ⟨v, hv, text, htext, hmade⟩
    exact ⟨v, text, hv, htext, (Except.ok.inj hmade).symm⟩
  · rintro ⟨v, text, hv, htext, rfl⟩
    exact ⟨v, hv, text, htext, rfl⟩

/-- A builder converts what a name stands for before it makes the text of the name. -/
theorem Builder.insert_eq_error_iff {b : Builder} {name : Key} :
    b.insert name d = .error e ↔
      d.Fails e ∨ (∃ v, d.Denotes v) ∧ name.IsLong ∧ e = .longInteger := by
  rw [insert, Data.bind_eq_error_iff, d.toValue?_eq_error]
  simp only [Data.bind_pure_eq_error_iff, Data.orLong_toText?_eq_error_iff, d.toValue?_eq_ok,
    exists_and_right]
  rfl

/-- What a context binds that is made of data has maps with distinct keys when the values do that
stood ready in the data. -/
theorem isProper_of_ofData? (h : ofData? d = .ok c)
    (hd : ∀ w, d.Carries w → w.IsProper) {w : Value} (hw : (Data.context c).Carries w) :
    w.IsProper := by
  obtain ⟨pairs, bindings, rfl, ⟨-, hvalues⟩, rfl⟩ := ofData?_eq_ok_iff.1 h
  have hall := (Data.forall_isProper_iff hvalues fun x _ v => Data.Denotes.isProper_iff).2
    ((Data.forall_carries_iff (by simp) (by simp)).1 hd)
  cases hw with
  | @bound _ name v _ hlookup =>
    rw [lookup, find?, frames, ofList, List.nil_append, List.findSome?_singleton] at hlookup
    obtain ⟨b, hb, heq⟩ := List.mem_map.1 (Frame.mem_of_lookup_ofList hlookup)
    have hvalue : b.2 = w := congrArg Prod.snd heq
    exact hvalue ▸ hall b.2 (List.mem_map_of_mem hb)
  | part hx => cases hx

end Context

namespace Data

/-- **Which data has a value.**  For all data:

* Conversion gives the value of the data, with lists and maps in their order and of their length and
  with the texts of keys as keys, or the first fault that is met from the inside and from left to
  right.
* Data has a value exactly when nothing in it is faulty: it holds no null, nothing of a foreign
  type, no integer with too many digits, and no map with two keys of the same text.
* A context is made of a map exactly when all its keys have texts and all its entries have values.
  Its names are the texts of the keys, which may be the same.  A builder takes a name exactly when
  the data for it has a value and the name has a text.
* In all three cases the error is one of the configuration, or it tells of two keys of a map that
  have the same text, or of an integer with too many digits.
* The maps in what is made have distinct keys, at every depth, when those in the values and contexts
  do that stood ready in the data. -/
theorem conversion_exact (d : Data) :
    (∀ v, d.toValue? = .ok v ↔ d.Denotes v) ∧ (∀ e, d.toValue? = .error e ↔ d.Fails e) ∧
    ((∃ v, d.toValue? = .ok v) ↔ ∀ (x : Data) e, x.Inside d → ¬ x.IsFaulty e) ∧
    (∀ c, Context.ofData? d = .ok c ↔
      ∃ pairs bindings, d = .map pairs ∧ Names pairs bindings ∧ c = .ofList bindings) ∧
    (∀ e, Context.ofData? d = .error e ↔
      (∀ pairs, d ≠ .map pairs) ∧ e = .noMapping d.typeName ∨
        ∃ pairs, d = .map pairs ∧ FirstFails (entrySteps pairs) e) ∧
    (∀ (b : Context.Builder) (name : Key),
      (∀ b', b.insert name d = .ok b' ↔ ∃ v text, d.Denotes v ∧ name.toText? = some text ∧
        b' = ⟨Entries.put (Context.normalize text) v b.bindings⟩) ∧
      ∀ e, b.insert name d = .error e ↔
        d.Fails e ∨ (∃ v, d.Denotes v) ∧ name.IsLong ∧ e = .longInteger) ∧
    (∀ e, d.toValue? = .error e ∨ Context.ofData? d = .error e → d.Warrants e) ∧
    (∀ (b : Context.Builder) (name : Key) e, b.insert name d = .error e →
      d.Warrants e ∨ e.typeName = "ValueError" ∧ e = .longInteger ∧ name.IsLong) ∧
    (∀ v, d.toValue? = .ok v → (v.IsProper ↔ ∀ w, d.Carries w → w.IsProper)) ∧
    ((∀ w, d.Carries w → w.IsProper) → ∀ c, Context.ofData? d = .ok c →
      c.asValue.IsProper ∧ ∀ w, (context c).Carries w → w.IsProper) := by
  refine ⟨d.toValue?_eq_ok, d.toValue?_eq_error, ?_, fun c => Context.ofData?_eq_ok_iff,
    fun e => Context.ofData?_eq_error_iff, fun b name =>
      ⟨fun b' => Context.Builder.insert_eq_ok_iff, fun e => Context.Builder.insert_eq_error_iff⟩,
    ?_, fun b name e h => ?_, fun v hv => ((d.toValue?_eq_ok v).1 hv).isProper_iff,
    fun hd c hc => ?_⟩
  · rw [← d.denotes_iff]
    exact exists_congr d.toValue?_eq_ok
  · rintro e (h | h)
    · exact ((d.toValue?_eq_error e).1 h).warrants
    · rcases Context.ofData?_eq_error_iff.1 h with ⟨-, rfl⟩ | ⟨pairs, rfl, hfirst⟩
      · exact .inl rfl
      · exact Fails.warrants (d := .map pairs) (fails_iff.2 (.inl hfirst))
  · rcases Context.Builder.insert_eq_error_iff.1 h with h | ⟨-, hname, rfl⟩
    · exact .inl h.warrants
    · exact .inr ⟨rfl, rfl, hname⟩
  · have hbound {w : Value} (hw : (context c).Carries w) := Context.isProper_of_ofData? hc hd hw
    exact ⟨c.isProper_asValue_iff.2 fun name hname v hv => hbound (.bound hname hv),
      fun w => hbound⟩

/-- A number and its text are two keys of a map, and the error for them is not one of the
configuration.  Neither is the one for an integer with too many digits. -/
theorem not_forall_configError :
    (¬ ∀ (d : Data) (e : DataError), d.toValue? = .error e ∨ Context.ofData? d = .error e ∨
        (∃ (b : Context.Builder) (name : Key), b.insert name d = .error e) →
      e.typeName = "ConfigError") ∧
    (int Text.digitBound).toValue? = .error .longInteger := by
  constructor
  · intro h
    have hmade : (map [(.int 1, .text "a"), (.text "1", .text "b")]).toValue? =
        .error .repeatedKey := rfl
    exact absurd (h _ _ (.inl hmade)) (by decide)
  · exact toValue?_of_long (Int.natAbs_natCast _).ge

end Data

end MarkupForms

import MarkupForms.Data.Display

/-!
# Data that cannot be shown

An integer with too many digits has no text, and neither has anything that shows it.  All other data
can be shown.

* `Key.IsLong`, `Data.IsLong` : an integer with too many digits stands in a key, or in data.
* `Key.toText?_eq_none_iff` : which keys have no text.
* `Data.display?_eq_none_iff` : which data cannot be shown.
-/

namespace MarkupForms

/-! ## Keys -/

namespace Key

/-- Whether a key is an integer with too many digits, or has one in it. -/
inductive IsLong : Key → Prop where
  /-- The integer itself. -/
  | int {n : Int} (h : Text.digitBound ≤ n.natAbs) : IsLong (.int n)
  /-- An item of a list of fixed length. -/
  | tuple {ks : List Key} {k : Key} (hk : k ∈ ks) (h : IsLong k) : IsLong (.tuple ks)

theorem isLong_int_iff {n : Int} : IsLong (.int n) ↔ Text.writeInteger? n = none := by
  rw [Text.writeInteger?_eq_none_iff]
  exact ⟨fun | .int h => h, .int⟩

theorem isLong_tuple_iff {ks : List Key} : IsLong (.tuple ks) ↔ ∃ k ∈ ks, k.IsLong := by
  constructor
  · rintro ⟨⟩
    exact ⟨_, ‹_›, ‹_›⟩
  · rintro ⟨k, hk, h⟩
    exact .tuple hk h

mutual

theorem display?_eq_none_iff : (k : Key) → (k.display? = none ↔ k.IsLong)
  | .int n => by rw [display?, isLong_int_iff]
  | .tuple ks => by
    rw [display?, Option.map_eq_none_iff, isLong_tuple_iff]
    exact displayAll?_eq_none_iff ks
  | .text _ | .float _ | .truth _ | .null | .ready _ | .context _ | .timestamp _ | .bytes _
  | .object => by
    rw [display?]
    exact iff_of_false (by simp) (by rintro ⟨⟩)

theorem displayAll?_eq_none_iff : (ks : List Key) →
    (displayAll? ks = none ↔ ∃ k ∈ ks, k.IsLong)
  | [] => by simp [displayAll?]
  | k :: ks => by
    have hk := display?_eq_none_iff k
    have hks := displayAll?_eq_none_iff ks
    simp only [List.mem_cons, exists_eq_or_imp, ← hk, ← hks, displayAll?]
    cases k.display? <;> cases displayAll? ks <;> simp

end

/-- A key has no text when there is an integer in it with too many digits. -/
theorem toText?_eq_none_iff (k : Key) : k.toText? = none ↔ k.IsLong := by
  cases k with
  | text s | timestamp t => exact iff_of_false (by simp [toText?]) (by rintro ⟨⟩)
  | _ => exact display?_eq_none_iff _

theorem mapM_toText?_eq_none_iff {ks : List Key} :
    ks.mapM toText? = none ↔ ∃ k ∈ ks, k.IsLong := by
  induction ks with
  | nil => simp
  | cons k ks ih =>
    simp only [List.mem_cons, exists_eq_or_imp, ← k.toText?_eq_none_iff, ← ih, List.mapM_cons]
    cases k.toText? <;> cases ks.mapM toText? <;> simp

end Key

/-! ## Data -/

namespace Data

/-- Whether data is an integer with too many digits, or has one in it, also as a key. -/
inductive IsLong : Data → Prop where
  /-- The integer itself. -/
  | int {n : Int} (h : Text.digitBound ≤ n.natAbs) : IsLong (.int n)
  /-- An item of a list. -/
  | list {items : List Data} {d : Data} (hd : d ∈ items) (h : IsLong d) : IsLong (.list items)
  /-- An item of a list of fixed length. -/
  | tuple {items : List Data} {d : Data} (hd : d ∈ items) (h : IsLong d) : IsLong (.tuple items)
  /-- A key of a map. -/
  | key {pairs : Pairs} {p : Key × Data} (hp : p ∈ pairs) (h : p.1.IsLong) : IsLong (.map pairs)
  /-- What stands under a key of a map. -/
  | value {pairs : Pairs} {p : Key × Data} (hp : p ∈ pairs) (h : IsLong p.2) : IsLong (.map pairs)

theorem isLong_int_iff {n : Int} : IsLong (.int n) ↔ Text.writeInteger? n = none := by
  rw [Text.writeInteger?_eq_none_iff]
  exact ⟨fun | .int h => h, .int⟩

theorem isLong_list_iff {items : List Data} : IsLong (.list items) ↔ ∃ d ∈ items, d.IsLong := by
  constructor
  · rintro ⟨⟩
    exact ⟨_, ‹_›, ‹_›⟩
  · rintro ⟨d, hd, h⟩
    exact .list hd h

theorem isLong_tuple_iff {items : List Data} :
    IsLong (.tuple items) ↔ ∃ d ∈ items, d.IsLong := by
  constructor
  · rintro ⟨⟩
    exact ⟨_, ‹_›, ‹_›⟩
  · rintro ⟨d, hd, h⟩
    exact .tuple hd h

theorem isLong_map_iff {pairs : Pairs} :
    IsLong (.map pairs) ↔ ∃ p ∈ pairs, p.1.IsLong ∨ p.2.IsLong := by
  constructor
  · rintro (_ | _ | _ | ⟨hp, h⟩ | ⟨hp, h⟩)
    · exact ⟨_, hp, .inl h⟩
    · exact ⟨_, hp, .inr h⟩
  · rintro ⟨p, hp, h | h⟩
    · exact .key hp h
    · exact .value hp h

mutual

/-- Data cannot be shown when there is an integer in it with too many digits. -/
theorem display?_eq_none_iff : (d : Data) → (d.display? = none ↔ d.IsLong)
  | .int n => by rw [display?, isLong_int_iff]
  | .list items => by
    rw [display?, Option.map_eq_none_iff, isLong_list_iff]
    exact displayAll?_eq_none_iff items
  | .tuple items => by
    rw [display?, Option.map_eq_none_iff, isLong_tuple_iff]
    exact displayAll?_eq_none_iff items
  | .map pairs => by
    rw [isLong_map_iff, ← displayEntries?_eq_none_iff pairs, display?]
    cases displayEntries? pairs <;> simp
  | .text _ | .float _ | .truth _ | .null | .ready _ | .context _ | .timestamp _ | .bytes _
  | .object => by
    rw [display?]
    exact iff_of_false (by simp) (by rintro ⟨⟩)

theorem displayAll?_eq_none_iff : (items : List Data) →
    (displayAll? items = none ↔ ∃ d ∈ items, d.IsLong)
  | [] => by simp [displayAll?]
  | d :: items => by
    have hd := display?_eq_none_iff d
    have hitems := displayAll?_eq_none_iff items
    simp only [List.mem_cons, exists_eq_or_imp, ← hd, ← hitems, displayAll?]
    cases d.display? <;> cases displayAll? items <;> simp

theorem displayEntries?_eq_none_iff : (pairs : List (Key × Data)) →
    (displayEntries? pairs = none ↔ ∃ p ∈ pairs, p.1.IsLong ∨ p.2.IsLong)
  | [] => by simp [displayEntries?]
  | (k, d) :: pairs => by
    have hk := k.display?_eq_none_iff
    have hd := display?_eq_none_iff d
    have hpairs := displayEntries?_eq_none_iff pairs
    simp only [List.mem_cons, exists_eq_or_imp, ← hk, ← hd, ← hpairs, displayEntries?]
    cases k.display? <;> cases d.display? <;> cases displayEntries? pairs <;> simp

end

end Data

end MarkupForms

/-!
# Ordered entries

Entries are pairs of a key and something under it, in the order in which the keys came first.
Putting something under a known key replaces what was there and keeps its place.

* `lookup_put` : what was put is found under its key, and nothing else changes.
* `keys_put` : a new key comes last, a known one keeps its place.
* `nodup_keys_ofList` : entries that are made by putting have distinct keys.
-/

namespace MarkupForms.Entries

variable {κ α : Type}

/-- The keys in order. -/
def keys (es : List (κ × α)) : List κ :=
  es.map Prod.fst

/-- Put something under a key. -/
def put [BEq κ] (key : κ) (x : α) : List (κ × α) → List (κ × α)
  | [] => [(key, x)]
  | (k, y) :: rest => if k == key then (k, x) :: rest else (k, y) :: put key x rest

/-- Put several things under their keys, in turn. -/
def putAll [BEq κ] (new : List (κ × α)) (es : List (κ × α)) : List (κ × α) :=
  new.foldl (fun es e => put e.1 e.2 es) es

/-- The entries that several puts leave. -/
def ofList [BEq κ] (new : List (κ × α)) : List (κ × α) :=
  putAll new []

variable [DecidableEq κ]

theorem lookup_cons_eq (k n : κ) (y : α) (es : List (κ × α)) :
    ((k, y) :: es).lookup n = if n = k then some y else es.lookup n := by
  rw [List.lookup_cons]
  by_cases h : n = k
  · simp [h]
  · have hb : (n == k) = false := by simpa using h
    simp [h, hb]

/-- What was put is found under its key, and nothing else changes. -/
theorem lookup_put (key n : κ) (x : α) (es : List (κ × α)) :
    (put key x es).lookup n = if n = key then some x else es.lookup n := by
  induction es with
  | nil => rw [put, lookup_cons_eq]
  | cons e es ih =>
    obtain ⟨k, y⟩ := e
    by_cases hk : k = key
    · subst hk
      simp only [put, beq_self_eq_true, if_true, lookup_cons_eq]
      split <;> rfl
    · have hb : (k == key) = false := by simpa using hk
      by_cases h : n = k
      · have hn : n ≠ key := h ▸ hk
        simp [put, hb, h, hk]
      · simp [put, hb, lookup_cons_eq, h, ih]

/-- What is found under a key is one of the entries. -/
theorem mem_of_lookup {es : List (κ × α)} {key : κ} {x : α} (h : es.lookup key = some x) :
    (key, x) ∈ es := by
  obtain ⟨before, after, rfl, -⟩ := List.lookup_eq_some_iff.1 h
  simp

/-- A new key comes last, a known one keeps its place. -/
theorem keys_put (key : κ) (x : α) (es : List (κ × α)) :
    keys (put key x es) = if key ∈ keys es then keys es else keys es ++ [key] := by
  induction es with
  | nil => simp [put, keys]
  | cons e es ih =>
    obtain ⟨k, y⟩ := e
    by_cases hk : k = key
    · simp [put, keys, hk]
    · have hb : (k == key) = false := by simpa using hk
      have hk' : key ≠ k := fun e => hk e.symm
      simp only [keys] at ih
      simp only [put, hb, keys, List.map_cons, List.mem_cons, hk', false_or]
      simp only [Bool.false_eq_true, if_false, List.map_cons, ih]
      split <;> simp_all

theorem nodup_keys_put {es : List (κ × α)} (h : (keys es).Nodup) (key : κ) (x : α) :
    (keys (put key x es)).Nodup := by
  rw [keys_put]
  split
  · exact h
  · rename_i hn
    rw [List.nodup_append]
    exact ⟨h, by simp, fun a ha b hb e => hn (by simp at hb; exact hb ▸ e ▸ ha)⟩

theorem nodup_keys_putAll (new : List (κ × α)) {es : List (κ × α)} (h : (keys es).Nodup) :
    (keys (putAll new es)).Nodup := by
  induction new generalizing es with
  | nil => exact h
  | cons e new ih => exact ih (nodup_keys_put h e.1 e.2)

/-- Entries that are made by putting have distinct keys. -/
theorem nodup_keys_ofList (new : List (κ × α)) : (keys (ofList new)).Nodup :=
  nodup_keys_putAll new (by simp [keys])

/-- A key is there exactly when something is found under it. -/
theorem isSome_lookup_iff (es : List (κ × α)) (n : κ) :
    (es.lookup n).isSome ↔ n ∈ keys es := by
  induction es with
  | nil => simp [keys]
  | cons e es ih =>
    obtain ⟨k, y⟩ := e
    rw [lookup_cons_eq]
    by_cases h : n = k
    · simp [keys, h]
    · simp [keys, h, ih]

end MarkupForms.Entries

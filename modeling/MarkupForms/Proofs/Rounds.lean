import MarkupForms.Proofs.Comparison

/-!
# Loops in rounds

All loops are alike once it is known what they go over: a list of frames, one for each round, and a
body that is evaluated in each of them.  What a loop goes over is settled before its first round,
and nothing that happens in a round changes it.

* `Control.plan` : what a loop goes over.
* `Control.loop_eq_plan` : a loop makes its plan and then goes through the rounds.
-/

namespace MarkupForms

namespace Eval

variable {α β : Type}

/-- Nothing follows a malformed form. -/
theorem malformed_bind (form : String) (e : FormFault) (k : α → Eval β) :
    (malformed form e >>= k) = malformed form e := rfl

theorem malformedAt_bind (form : String) (e : String → FormFault) (n : Node) (k : α → Eval β) :
    (malformedAt form e n >>= k) = malformedAt form e n := by
  rw [malformedAt, malformedAt, bind_assoc]
  rfl

end Eval

namespace Control

/-! ## Plans -/

/-- What a loop goes over: the bindings of its rounds, in order, and its body. -/
structure Plan where
  /-- The bindings of each round. -/
  rounds : List (List (String × Value))
  /-- What is evaluated in each round. -/
  body : List Meaning

/-- Go through the rounds. -/
def Plan.run (p : Plan) : Eval (List String) :=
  Eval.forEach (fun bindings => round bindings p.body) p.rounds

/-- A round for each item of a list. -/
def itemRounds (name : String) (items : List Value) : List (List (String × Value)) :=
  items.map fun item => [(name, item)]

/-- A round for each item of a list and its position. -/
def positionRounds (name index : String) (items : List Value) : List (List (String × Value)) :=
  items.zipIdx.map fun p => [(name, p.1), (index, .scalar (toString p.2))]

/-- A round for each entry of a map. -/
def entryRounds (key value : String) (entries : List (String × Value)) :
    List (List (String × Value)) :=
  entries.map fun e => [(key, .scalar e.1), (value, e.2)]

/-- A round for each of some integers from a first one on. -/
def integerRounds (name : String) (step : Int) : Nat → Int → List (List (String × Value))
  | 0, _ => []
  | n + 1, i => [(name, .scalar (toString i))] :: integerRounds name step n (i + step)

/-- The rounds of a loop with one or two names. -/
def collectionRounds (names : List String) (source : String) :
    Eval (List (List (String × Value))) := do
  let v ← Eval.resolve source
  match names with
  | [name] =>
      match v with
      | .list items => pure (itemRounds name items)
      | v => Eval.fail (.typeMismatch "list" v.kind source)
  | [key, value] =>
      match v with
      | .map entries => pure (entryRounds key value entries)
      | v => Eval.fail (.typeMismatch "map" v.kind source)
  | _ => Eval.malformed "for" .noLoop

/-- The plan of a loop that is written in words. -/
def wordPlan (children : List Meaning) : Eval Plan :=
  match splitLoop children with
  | none => Eval.malformed "for" .noLoop
  | some (names, rest) => do
      let names ← loopNames (names.map Meaning.node)
      match rest with
      | [] => Eval.malformed "for" .noCollection
      | source :: body =>
          match source.node with
          | .var name => do return ⟨← collectionRounds names name, body⟩
          | n => Eval.malformedAt "for" .badCollection n

/-- The rounds of a loop over a range. -/
def rangeRounds (attributes : List (String × Meaning)) (min max : Meaning) :
    Eval (List (List (String × Value))) := do
  let name ← requiredName attributes "var"
  let start ← integer "min" min
  let stop ← integer "max" max
  let step ← match attributes.lookup "step" with
    | none => pure 1
    | some m => integer "step" m
  if step ≤ 0 then Eval.malformed "for" (.badStep step)
  else pure (integerRounds name step (stepCount start stop step) start)

/-- The rounds of a loop over a collection that an attribute names. -/
def sourceRounds (attributes : List (String × Meaning)) (source : String) :
    Eval (List (List (String × Value))) := do
  match ← Eval.resolve source with
  | .list items =>
      let name ← requiredName attributes "var"
      match ← optionalName attributes "index" with
      | none => pure (itemRounds name items)
      | some index => pure (positionRounds name index items)
  | .map entries =>
      let key ← requiredName attributes "key"
      let value ← requiredName attributes "value"
      return entryRounds key value entries
  | v => Eval.fail (.typeMismatch "list or map" v.kind source)

/-- The rounds of a loop that is written with attributes. -/
def attributeRounds (attributes : List (String × Meaning)) : Eval (List (List (String × Value))) :=
  match attributes.lookup "min", attributes.lookup "max" with
  | some min, some max => rangeRounds attributes min max
  | some _, none | none, some _ => Eval.malformed "for" .halfRange
  | none, none =>
      match attributes.lookup "iterate" with
      | none => Eval.malformed "for" .noSource
      | some source =>
          match source.node with
          | .var name => sourceRounds attributes name
          | n => Eval.malformedAt "for" .badSource n

/-- What a loop goes over. -/
def plan (attributes : Option (List (String × Meaning))) (children : List Meaning) : Eval Plan :=
  match attributes with
  | none => wordPlan children
  | some attributes => do return ⟨← attributeRounds attributes, children⟩

/-! ## Loops follow their plans -/

section

variable {body : List Meaning}

theorem overItems_eq (name : String) (items : List Value) :
    overItems name items body = Plan.run ⟨itemRounds name items, body⟩ := by
  rw [overItems, Plan.run, itemRounds, Eval.forEach_map]

theorem overPositions_eq (name index : String) (items : List Value) :
    overPositions name index items body = Plan.run ⟨positionRounds name index items, body⟩ := by
  rw [overPositions, Plan.run, positionRounds, Eval.forEach_map]

theorem overEntries_eq (key value : String) (entries : List (String × Value)) :
    overEntries key value entries body = Plan.run ⟨entryRounds key value entries, body⟩ := by
  rw [overEntries, Plan.run, entryRounds, Eval.forEach_map]

theorem overIntegers_eq (name : String) (step : Int) (n : Nat) (i : Int) :
    overIntegers name body step n i = Plan.run ⟨integerRounds name step n i, body⟩ := by
  induction n generalizing i with
  | zero => rfl
  | succ n ih =>
    rw [overIntegers, ih]
    rfl

theorem overCollection_eq (names : List String) (source : String) :
    overCollection names source body =
      collectionRounds names source >>= fun rounds => Plan.run ⟨rounds, body⟩ := by
  rw [overCollection, collectionRounds, bind_assoc]
  congr 1
  funext v
  match names with
  | [] => rfl
  | [name] =>
    cases v with
    | list items => exact overItems_eq name items
    | scalar text => rfl
    | map entries => rfl
  | [key, value] =>
    cases v with
    | map entries => exact overEntries_eq key value entries
    | scalar text => rfl
    | list items => rfl
  | _ :: _ :: _ :: _ => rfl

theorem rangeLoop_eq (attributes : List (String × Meaning)) (min max : Meaning) :
    rangeLoop attributes min max body =
      rangeRounds attributes min max >>= fun rounds => Plan.run ⟨rounds, body⟩ := by
  simp only [rangeLoop, rangeRounds, bind_assoc]
  congr 1; funext name
  congr 1; funext start
  congr 1; funext stop
  have hend (step : Int) :
      (if step ≤ 0 then Eval.malformed "for" (.badStep step)
        else overIntegers name body step (stepCount start stop step) start) =
      (if step ≤ 0 then Eval.malformed "for" (.badStep step)
        else pure (integerRounds name step (stepCount start stop step) start)) >>=
        fun rounds => Plan.run ⟨rounds, body⟩ := by
    by_cases hstep : step ≤ 0
    · rw [if_pos hstep, if_pos hstep, Eval.malformed_bind]
    · rw [if_neg hstep, if_neg hstep, pure_bind, overIntegers_eq]
  cases attributes.lookup "step" with
  | none => exact hend 1
  | some m =>
    simp only [bind_assoc]
    congr 1; funext step
    exact hend step

theorem sourceLoop_eq (attributes : List (String × Meaning)) (source : String) :
    sourceLoop attributes source body =
      sourceRounds attributes source >>= fun rounds => Plan.run ⟨rounds, body⟩ := by
  rw [sourceLoop, sourceRounds, bind_assoc]
  congr 1
  funext v
  cases v with
  | scalar text => rfl
  | list items =>
    simp only [bind_assoc]
    congr 1; funext name
    congr 1; funext index
    cases index with
    | none => exact overItems_eq name items
    | some index => exact overPositions_eq name index items
  | map entries =>
    simp only [bind_assoc, pure_bind]
    congr 1; funext key
    congr 1; funext value
    exact overEntries_eq key value entries

theorem attributeLoop_eq (attributes : List (String × Meaning)) :
    attributeLoop attributes body =
      attributeRounds attributes >>= fun rounds => Plan.run ⟨rounds, body⟩ := by
  rw [attributeLoop, attributeRounds]
  cases attributes.lookup "min" with
  | some min =>
    cases attributes.lookup "max" with
    | some max => exact rangeLoop_eq attributes min max
    | none => rfl
  | none =>
    cases attributes.lookup "max" with
    | some max => rfl
    | none =>
      cases attributes.lookup "iterate" with
      | none => rfl
      | some source =>
        cases hsource : source.node with
        | var name => simp only [hsource, sourceLoop_eq]
        | text s => simp only [hsource, Eval.malformedAt_bind]
        | hole => simp only [hsource, Eval.malformedAt_bind]
        | tag name attributes children => simp only [hsource, Eval.malformedAt_bind]

end

theorem wordLoop_eq (children : List Meaning) :
    wordLoop children = wordPlan children >>= Plan.run := by
  rw [wordLoop, wordPlan]
  cases splitLoop children with
  | none => rfl
  | some parts =>
    obtain ⟨names, rest⟩ := parts
    simp only [bind_assoc]
    congr 1; funext names
    cases rest with
    | nil => rfl
    | cons source body =>
      cases hsource : source.node with
      | var name => simp only [hsource, overCollection_eq, bind_assoc, pure_bind]
      | text s => simp only [hsource, Eval.malformedAt_bind]
      | hole => simp only [hsource, Eval.malformedAt_bind]
      | tag name attributes children => simp only [hsource, Eval.malformedAt_bind]

/-- **A loop follows its plan.** -/
theorem loop_eq_plan (attributes : Option (List (String × Meaning))) (children : List Meaning) :
    loop attributes children = plan attributes children >>= Plan.run := by
  cases attributes with
  | none => exact wordLoop_eq children
  | some attributes =>
    rw [loop, plan, attributeLoop_eq, bind_assoc]
    rfl

end Control

end MarkupForms

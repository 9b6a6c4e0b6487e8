import MarkupForms.Proofs.Propagation

/-!
# Two ways to write a loop

A loop is written in words or with attributes.  In words it tells by the number of its names what it
goes over, and its names are looked at first; with attributes the collection decides which names it
needs, so it is resolved first.  Where the collection is what the words ask for, both ways come to
the same, and also where there is no such collection.  For all other collections both fail, but with
different errors.

* `Renderer.evaluate_loop` : a loop as a control form.
* `Renderer.run_itemsInWords`, `Renderer.run_entriesInWords` : loops that are written in words.
* `Renderer.run_itemsByAttributes`, `Renderer.run_entriesByAttributes` : loops that are written with
  attributes.
* `Renderer.loop_syntaxes_agree` : where both ways come to the same.
-/

namespace MarkupForms

open Eval

/-! ## Loops as nodes -/

namespace Node

/-- The loop `(for x in $source body...)`. -/
def itemsInWords (x source : String) (body : List Node) : Node :=
  .tag "for" none (.text x :: .text "in" :: .var source :: body)

/-- The loop `(for (@ (var x) (iterate $source)) body...)`. -/
def itemsByAttributes (x source : String) (body : List Node) : Node :=
  .tag "for" (some [("var", .text x), ("iterate", .var source)]) body

/-- The loop `(for k v in $source body...)`. -/
def entriesInWords (k v source : String) (body : List Node) : Node :=
  .tag "for" none (.text k :: .text v :: .text "in" :: .var source :: body)

/-- The loop `(for (@ (key k) (value v) (iterate $source)) body...)`. -/
def entriesByAttributes (k v source : String) (body : List Node) : Node :=
  .tag "for" (some [("key", .text k), ("value", .text v), ("iterate", .var source)]) body

end Node

/-! ## Names -/

namespace Control

theorem loopName_text {name : String} (hname : Text.isName name.toList = true) :
    (loopName (.text name) : Eval String) = pure name :=
  if_pos hname

theorem loopNames_texts {names : List String}
    (hnames : ∀ name ∈ names, Text.isName name.toList = true) :
    (loopNames (names.map .text) : Eval (List String)) = pure names := by
  induction names with
  | nil => rfl
  | cons name names ih =>
    rw [List.map_cons, loopNames, loopName_text (hnames name List.mem_cons_self),
      ih fun n hn => hnames n (List.mem_cons_of_mem name hn)]
    rfl

theorem optionalName_missing {attributes : List (String × Meaning)} {key : String}
    (h : attributes.lookup key = none) :
    optionalName attributes key = pure none := by
  rw [optionalName, h]

end Control

/-! ## What the loops come to -/

namespace Renderer

variable {r : Renderer} {room : Nat} {x k v source : String} {body : List Node} {c : Context}

theorem node_meaning (r : Renderer) (room : Nat) (n : Node) :
    ((r.handle room).meaning n).node = n := by
  rw [handle_eq_layer]
  exact node_denote r (r.below room) n

theorem evaluate_loop (r : Renderer) (room : Nat) (attributes : Option Attributes)
    (children : List Node) :
    ((r.handle room).meaning (.tag "for" attributes children)).evaluate =
      Control.loop (attributes.map (r.handle room).entries)
        (children.map (r.handle room).meaning) := by
  rw [meaning_tag]
  rfl

/-- A loop with attributes but no range goes over what `iterate` leads to. -/
theorem evaluate_iterate {attributes : Attributes} (hmin : attributes.lookup "min" = none)
    (hmax : attributes.lookup "max" = none)
    (hiterate : attributes.lookup "iterate" = some (.var source)) :
    ((r.handle room).meaning (.tag "for" (some attributes) body)).evaluate =
      Control.sourceLoop ((r.handle room).entries attributes) source
        (body.map (r.handle room).meaning) := by
  rw [evaluate_loop, Option.map_some, Control.loop, Control.attributeLoop, Handle.lookup_entries,
    Handle.lookup_entries, Handle.lookup_entries, hmin, hmax, hiterate]
  dsimp only [Option.map_none, Option.map_some]
  rw [node_meaning]

/-- A loop in words that is split like this gives its names and goes over its collection. -/
theorem evaluate_of_split {children : List Node} {names : List String}
    (hsplit : Control.splitLoop (children.map (r.handle room).meaning) =
      some (names.map fun name => (r.handle room).meaning (.text name),
        (r.handle room).meaning (.var source) :: body.map (r.handle room).meaning)) :
    ((r.handle room).meaning (.tag "for" none children)).evaluate = (do
      let names ← Control.loopNames (names.map .text)
      Control.overCollection names source (body.map (r.handle room).meaning)) := by
  have hnodes : (names.map fun name => (r.handle room).meaning (.text name)).map Meaning.node =
      names.map .text := by
    rw [List.map_map]
    exact List.map_congr_left fun name _ => node_meaning r room (.text name)
  rw [evaluate_loop, Option.map_none, Control.loop, Control.wordLoop, hsplit]
  dsimp only
  rw [hnodes, node_meaning]

theorem isIn_meaning (r : Renderer) (room : Nat) (s : String) :
    Control.isIn ((r.handle room).meaning (.text s)) = decide (s = "in") := by
  rw [Control.isIn, node_meaning, Bool.eq_iff_iff, beq_iff_eq, decide_eq_true_iff, Node.text.injEq]

theorem evaluate_oneName (r : Renderer) (room : Nat) (x source : String) (body : List Node) :
    ((r.handle room).meaning (.itemsInWords x source body)).evaluate = (do
      let names ← Control.loopNames ([x].map .text)
      Control.overCollection names source (body.map (r.handle room).meaning)) := by
  refine evaluate_of_split ?_
  simp only [List.map_cons, Control.splitLoop, isIn_meaning, decide_true, if_true, List.map_nil]

theorem evaluate_twoNames (r : Renderer) (room : Nat) (k : String) (hin : v ≠ "in")
    (source : String) (body : List Node) :
    ((r.handle room).meaning (.entriesInWords k v source body)).evaluate = (do
      let names ← Control.loopNames ([k, v].map .text)
      Control.overCollection names source (body.map (r.handle room).meaning)) := by
  refine evaluate_of_split ?_
  simp only [List.map_cons, Control.splitLoop, isIn_meaning, hin, decide_false, decide_true,
    if_true, Bool.false_eq_true, if_false, List.map_nil]

theorem evaluate_itemsInWords (hx : Text.isName x.toList = true) :
    ((r.handle room).meaning (.itemsInWords x source body)).evaluate =
      Control.overCollection [x] source (body.map (r.handle room).meaning) := by
  have hnames : ∀ name ∈ [x], Text.isName name.toList = true :=
    fun name hname => List.mem_singleton.1 hname ▸ hx
  rw [evaluate_oneName, Control.loopNames_texts hnames, pure_bind]

theorem evaluate_entriesInWords (hk : Text.isName k.toList = true)
    (hv : Text.isName v.toList = true) (hin : v ≠ "in") :
    ((r.handle room).meaning (.entriesInWords k v source body)).evaluate =
      Control.overCollection [k, v] source (body.map (r.handle room).meaning) := by
  have hnames : ∀ name ∈ [k, v], Text.isName name.toList = true := by
    intro name hname
    rcases List.mem_pair.1 hname with rfl | rfl
    · exact hk
    · exact hv
  rw [evaluate_twoNames r room k hin, Control.loopNames_texts hnames, pure_bind]

/-- With one name, a loop in words goes over a list. -/
theorem run_itemsInWords (hx : Text.isName x.toList = true) :
    ((r.handle room).meaning (.itemsInWords x source body)).evaluate.run c =
      match c.resolve source with
      | .ok (.list items) =>
          (Control.overItems x items (body.map (r.handle room).meaning)).run c
      | .ok v => (.error (.render (.typeMismatch "list" v.kind source)), c)
      | .error e => (.error (.render (.ofPath e)), c) := by
  rw [evaluate_itemsInWords hx, Control.overCollection, run_bind, run_resolve]
  rcases c.resolve source with e | (text | items | entries) <;> rfl

/-- With attributes for one name, a loop goes over a list. -/
theorem run_itemsByAttributes (hx : Text.isName x.toList = true) :
    ((r.handle room).meaning (.itemsByAttributes x source body)).evaluate.run c =
      match c.resolve source with
      | .ok (.list items) =>
          (Control.overItems x items (body.map (r.handle room).meaning)).run c
      | .ok (.map _) => (.error (.render (.malformedForm "for" (.missingAttribute "key"))), c)
      | .ok v => (.error (.render (.typeMismatch "list or map" v.kind source)), c)
      | .error e => (.error (.render (.ofPath e)), c) := by
  rw [Node.itemsByAttributes, evaluate_iterate rfl rfl rfl, Control.sourceLoop, run_bind,
    run_resolve]
  rcases c.resolve source with e | (text | items | entries)
  · rfl
  · rfl
  · show ((Control.requiredName _ "var") >>= fun name => _).run c = _
    rw [requiredName_of_lookup rfl (node_meaning r room (.text x)) hx, pure_bind,
      Control.optionalName_missing rfl, pure_bind]
  · rfl

/-- With two names, a loop in words goes over a map. -/
theorem run_entriesInWords (hk : Text.isName k.toList = true) (hv : Text.isName v.toList = true)
    (hin : v ≠ "in") :
    ((r.handle room).meaning (.entriesInWords k v source body)).evaluate.run c =
      match c.resolve source with
      | .ok (.map entries) =>
          (Control.overEntries k v entries (body.map (r.handle room).meaning)).run c
      | .ok v => (.error (.render (.typeMismatch "map" v.kind source)), c)
      | .error e => (.error (.render (.ofPath e)), c) := by
  rw [evaluate_entriesInWords hk hv hin, Control.overCollection, run_bind, run_resolve]
  rcases c.resolve source with e | (text | items | entries) <;> rfl

/-- With attributes for two names, a loop goes over a map. -/
theorem run_entriesByAttributes (hk : Text.isName k.toList = true)
    (hv : Text.isName v.toList = true) :
    ((r.handle room).meaning (.entriesByAttributes k v source body)).evaluate.run c =
      match c.resolve source with
      | .ok (.map entries) =>
          (Control.overEntries k v entries (body.map (r.handle room).meaning)).run c
      | .ok (.list _) => (.error (.render (.malformedForm "for" (.missingAttribute "var"))), c)
      | .ok v => (.error (.render (.typeMismatch "list or map" v.kind source)), c)
      | .error e => (.error (.render (.ofPath e)), c) := by
  rw [Node.entriesByAttributes, evaluate_iterate rfl rfl rfl, Control.sourceLoop, run_bind,
    run_resolve]
  rcases c.resolve source with e | (text | items | entries)
  · rfl
  · rfl
  · rfl
  · show ((Control.requiredName _ "key") >>= fun key => _).run c = _
    rw [requiredName_of_lookup rfl (node_meaning r room (.text k)) hk, pure_bind,
      requiredName_of_lookup rfl (node_meaning r room (.text v)) hv, pure_bind]

/-- **Both ways to write a loop agree.**  A loop with one name comes to the same in words and with
attributes, in every context, exactly if what it goes over is a list or cannot be resolved, and a
loop with two names exactly if that is a map or cannot be resolved.  The word `in` may be a name,
except for the second one of two, and both names may be the same. -/
theorem loop_syntaxes_agree (r : Renderer) (room : Nat) (source : String) (body : List Node)
    (c : Context) :
    (∀ x, Text.isName x.toList = true →
      (((r.handle room).meaning (.itemsInWords x source body)).evaluate.run c =
          ((r.handle room).meaning (.itemsByAttributes x source body)).evaluate.run c ↔
        (∃ items, c.resolve source = .ok (.list items)) ∨ ∃ e, c.resolve source = .error e)) ∧
      ∀ k v, Text.isName k.toList = true → Text.isName v.toList = true → v ≠ "in" →
        (((r.handle room).meaning (.entriesInWords k v source body)).evaluate.run c =
            ((r.handle room).meaning (.entriesByAttributes k v source body)).evaluate.run c ↔
          (∃ entries, c.resolve source = .ok (.map entries)) ∨
            ∃ e, c.resolve source = .error e) := by
  constructor
  · intro x hx
    rw [run_itemsInWords hx, run_itemsByAttributes hx]
    rcases c.resolve source with e | (text | items | entries) <;> simp
  · intro k v hk hv hin
    rw [run_entriesInWords hk hv hin, run_entriesByAttributes hk hv]
    rcases c.resolve source with e | (text | items | entries) <;> simp

/-- A context with a list of two texts and a map with an entry of its own. -/
def listAndMap : Context :=
  .ofList [("xs", .list [.scalar "1", .scalar "2"]), ("m", .map [("a", .scalar "b")])]

/-- A loop whose name is the word between the name and the list, and a loop that gives one name to
keys and values: it stands for the value. -/
theorem loops_agree_listAndMap :
    Text.isName "in".toList = true ∧ Text.isName "x".toList = true ∧ "x" ≠ "in" ∧
      ((library.evaluate (.itemsInWords "in" "xs" [.var "in"])).run listAndMap).1 =
        .ok ["1", "2"] ∧
      (library.evaluate (.itemsInWords "in" "xs" [.var "in"])).run listAndMap =
        (library.evaluate (.itemsByAttributes "in" "xs" [.var "in"])).run listAndMap ∧
      ((library.evaluate (.entriesInWords "x" "x" "m" [.var "x"])).run listAndMap).1 = .ok ["b"] ∧
      (library.evaluate (.entriesInWords "x" "x" "m" [.var "x"])).run listAndMap =
        (library.evaluate (.entriesByAttributes "x" "x" "m" [.var "x"])).run listAndMap := by
  have hitems := loop_syntaxes_agree library library.config.limit "xs" [.var "in"] listAndMap
  have hentries := loop_syntaxes_agree library library.config.limit "m" [.var "x"] listAndMap
  refine ⟨by decide, by decide, by decide, rfl, ?_, rfl, ?_⟩
  · exact (hitems.1 "in" (by decide)).2 (.inl ⟨_, rfl⟩)
  · exact (hentries.2 "x" "x" (by decide) (by decide) (by decide)).2 (.inl ⟨_, rfl⟩)

end Renderer

end MarkupForms

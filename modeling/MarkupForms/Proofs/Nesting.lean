import MarkupForms.Proofs.Ranges

/-!
# How deep boxes may be nested

A box is a tag with a handler that yields the children of the tag.  A tree of boxes, elements and
plain texts has nothing in it that could fail but the nesting of its boxes.  So it shows exactly
what the limit counts: the rendering itself and the boxes around a place, but no elements, and no
boxes that were closed before.

When the boxes are nested too deep, the first tag is reported, in the order of writing, that is the
innermost of as many boxes as the limit says.  One more box below it makes no difference, as it is
never looked at.

* `Renderer.find?_trails_eq_none_iff` : no tag is full exactly if the boxes are nested less deep.
* `Eval.EndsAt.append` : what two lists of nodes end at, one after the other.
* `Renderer.endsAt_of_isNest` : evaluation ends at the first full tag, if there is one.
* `Renderer.limit_counts_boxes` : when a rendering succeeds, and what it reports otherwise.
-/

namespace MarkupForms

open Eval

/-! ## Tags and the tags around them -/

namespace Node

mutual

/-- The tags of a tree in the order of writing, each with the tags around it, from the innermost
one on.  The values of attributes are leaves here. -/
def trails (above : List String) : Node → List (List String)
  | .tag name _ children => (name :: above) :: trailsAll (name :: above) children
  | _ => []

/-- The tags of several trees, one tree after the other. -/
def trailsAll (above : List String) : List Node → List (List String)
  | [] => []
  | n :: ns => trails above n ++ trailsAll above ns

end

mutual

/-- The largest number of tags of a kind on a path from the root of a tree to a leaf. -/
def depthOf (isKind : String → Bool) : Node → Nat
  | .tag name _ children => depthOfAll isKind children + if isKind name then 1 else 0
  | _ => 0

/-- The largest of these numbers for several trees. -/
def depthOfAll (isKind : String → Bool) : List Node → Nat
  | [] => 0
  | n :: ns => max (depthOf isKind n) (depthOfAll isKind ns)

end

end Node

namespace Renderer

variable {r : Renderer} {above : List String}

/-- Whether a tag has a handler that yields the children of the tag. -/
def isBox (r : Renderer) (tag : String) : Bool :=
  match r.registry.get? tag with
  | some (.content _) => true
  | _ => false

/-- The largest number of boxes on a path from the root of a tree to a leaf. -/
def boxDepth (r : Renderer) (n : Node) : Nat :=
  n.depthOf r.isBox

/-- Whether a tag, with the tags around it, is the innermost of as many boxes as the limit says. -/
def isFull (r : Renderer) : List String → Bool
  | [] => false
  | tag :: above => r.isBox tag && (tag :: above).countP r.isBox == r.config.limit

theorem find?_trailsAll_eq_none_iff (above : List String) {ns : List Node}
    (h : ∀ n ∈ ns, (n.trails above).find? r.isFull = none ↔
      above.countP r.isBox + r.boxDepth n < r.config.limit)
    (habove : above.countP r.isBox < r.config.limit) :
    (Node.trailsAll above ns).find? r.isFull = none ↔
      above.countP r.isBox + Node.depthOfAll r.isBox ns < r.config.limit := by
  induction ns with
  | nil => simpa [Node.trailsAll, Node.depthOfAll] using habove
  | cons n ns ih =>
    have hfirst := h n List.mem_cons_self
    have hrest := ih fun m hm => h m (List.mem_cons_of_mem n hm)
    rw [boxDepth] at hfirst
    rw [Node.trailsAll, List.find?_append, Option.or_eq_none_iff, hfirst, hrest, Node.depthOfAll]
    omega

/-- Inside of fewer boxes than the limit says, no tag is full exactly if the boxes of the tree are
nested less deep than what is left of the limit. -/
theorem find?_trails_eq_none_iff (n : Node) (habove : above.countP r.isBox < r.config.limit) :
    (n.trails above).find? r.isFull = none ↔
      above.countP r.isBox + r.boxDepth n < r.config.limit := by
  induction n using Node.induction generalizing above with
  | text s => simpa [Node.trails, boxDepth, Node.depthOf] using habove
  | var name => simpa [Node.trails, boxDepth, Node.depthOf] using habove
  | hole => simpa [Node.trails, boxDepth, Node.depthOf] using habove
  | tag tag attributes children _ hchildren =>
    rw [Node.trails, boxDepth, Node.depthOf, List.find?_cons]
    have hbelow (hless : (tag :: above).countP r.isBox < r.config.limit) :=
      find?_trailsAll_eq_none_iff (tag :: above) (fun n hn => hchildren n hn hless) hless
    by_cases hbox : r.isBox tag = true
    · have hcount : (tag :: above).countP r.isBox = above.countP r.isBox + 1 :=
        List.countP_cons_of_pos hbox
      by_cases hfull : above.countP r.isBox + 1 = r.config.limit
      · -- the tag itself is full, and counts for the depth of the tree
        have hhere : r.isFull (tag :: above) = true := by simp [isFull, hbox, hcount, hfull]
        rw [hhere, if_pos hbox]
        simp
        omega
      · have hhere : r.isFull (tag :: above) = false := by simp [isFull, hcount, hfull]
        have hless : (tag :: above).countP r.isBox < r.config.limit := by omega
        rw [hhere, if_pos hbox]
        dsimp only
        rw [hbelow hless, hcount]
        omega
    · have hcount : (tag :: above).countP r.isBox = above.countP r.isBox :=
        List.countP_cons_of_neg hbox
      have hhere : r.isFull (tag :: above) = false := by simp [isFull, hbox]
      rw [hhere, if_neg hbox]
      dsimp only
      rw [hbelow (by omega), hcount]
      omega

/-! ## Trees of boxes, elements and texts -/

/-- Whether a tree is made of plain texts, elements with plain texts as attributes, and boxes. -/
inductive IsNest (r : Renderer) : Node → Prop
  /-- A text without references. -/
  | text {s : String} (hs : '$' ∉ s.toList) : IsNest r (.text s)
  /-- An element with a body. -/
  | element {tag : String} {attributes : Option Attributes} {children : List Node}
      (hcontrol : ControlForm.ofName? tag = none) (hhandler : r.registry.get? tag = none)
      (hbody : r.config.isVoid tag = false)
      (hvalues : ∀ e ∈ attributes.getD [], ∃ s, e.2 = .text s ∧ '$' ∉ s.toList)
      (hchildren : ∀ n ∈ children, IsNest r n) : IsNest r (.tag tag attributes children)
  /-- A box; its attributes are not looked at. -/
  | box {tag : String} {attributes : Option Attributes} {children : List Node} {isObject : Bool}
      (hget : r.registry.get? tag = some (.content isObject))
      (hchildren : ∀ n ∈ children, IsNest r n) : IsNest r (.tag tag attributes children)

end Renderer

/-! ## Evaluation up to a tag -/

namespace Eval

variable {limit : Nat} {trail trail' : Option (List String)} {m m' : Eval (List String)}

/-- The fragments of a tree, unless the limit is exceeded at a tag, which is reported then. -/
def unlessFull (limit : Nat) (parts : List String) :
    Option (List String) → Except Failure (List String)
  | none => .ok parts
  | some trail => .error (.render (.recursionLimit limit (trail.headD "")))

/-- Whether a computation reports the tag where the limit is exceeded, if there is one, and yields
fragments otherwise, and does so in every context. -/
def EndsAt (limit : Nat) (trail : Option (List String)) (m : Eval (List String)) : Prop :=
  ∃ parts, ∀ c, m.run c = (unlessFull limit parts trail, c)

/-- Of two computations, the first one that ends at a tag decides. -/
theorem EndsAt.append (h : EndsAt limit trail m) (h' : EndsAt limit trail' m') :
    EndsAt limit (trail.or trail') (do
      let first ← m
      let rest ← m'
      return first ++ rest) := by
  obtain ⟨first, hfirst⟩ := h
  obtain ⟨rest, hrest⟩ := h'
  refine ⟨first ++ rest, fun c => ?_⟩
  rw [run_bind, hfirst]
  cases trail with
  | some trail => rfl
  | none =>
    rw [Option.none_or]
    dsimp only [unlessFull]
    rw [run_bind, hrest]
    cases trail' <;> rfl

/-- Fragments around a computation make no difference to where it ends. -/
theorem EndsAt.around (h : EndsAt limit trail m) (g : List String → List String) :
    EndsAt limit trail (do return g (← m)) := by
  obtain ⟨parts, hrun⟩ := h
  refine ⟨g parts, fun c => ?_⟩
  rw [run_bind, hrun]
  cases trail <;> rfl

/-- A text without references is what it says. -/
theorem run_interpolate_plain (r : Renderer) (escaping : Bool) {s : String} (hs : '$' ∉ s.toList)
    (c : Context) : (interpolate r escaping s).run c = (.ok s, c) := by
  have hrun := run_interpolate_doubled r escaping s c
  rwa [Segment.doubled_eq_self hs, String.ofList_toList] at hrun

end Eval

namespace Renderer

variable {r : Renderer} {above : List String} {room : Nat}

theorem endsAt_evaluateAll {h : Handle} {ns : List Node}
    (hns : ∀ n ∈ ns, EndsAt r.config.limit ((n.trails above).find? r.isFull)
    (h.meaning n).evaluate) :
    EndsAt r.config.limit ((Node.trailsAll above ns).find? r.isFull)
      (evaluateAll (ns.map h.meaning)) := by
  induction ns with
  | nil => exact ⟨[], fun c => rfl⟩
  | cons n ns ih =>
    have hrest := ih fun m hm => hns m (List.mem_cons_of_mem n hm)
    rw [Node.trailsAll, List.find?_append]
    exact (hns n List.mem_cons_self).append hrest

theorem run_attributeTexts_plain (r : Renderer) (room : Nat) {attributes : Attributes}
    (hvalues : ∀ e ∈ attributes, ∃ s, e.2 = .text s ∧ '$' ∉ s.toList) :
    ∃ pairs, ∀ c, (attributeTexts ((r.handle room).entries attributes)).run c = (.ok pairs, c) := by
  induction attributes with
  | nil => exact ⟨[], fun c => rfl⟩
  | cons e attributes ih =>
    obtain ⟨rest, hrest⟩ := ih fun a ha => hvalues a (List.mem_cons_of_mem e ha)
    obtain ⟨key, n⟩ := e
    obtain ⟨s, rfl, hs⟩ := hvalues (key, n) List.mem_cons_self
    have htext (c : Context) : (((r.handle room).meaning (.text s)).attributeText true).run c =
        (.ok s, c) := by
      rw [handle_eq_layer]
      exact run_interpolate_plain r true hs c
    refine ⟨(key, s) :: rest, fun c => ?_⟩
    rw [Handle.entries, List.map_cons, attributeTexts, run_bind_ok (htext c)]
    exact run_bind_of_run (hrest c) _

/-- A text without references ends at no tag. -/
theorem endsAt_text (r : Renderer) (room : Nat) {s : String} (hs : '$' ∉ s.toList) (limit : Nat) :
    EndsAt limit none ((r.handle room).meaning (.text s)).evaluate := by
  rw [handle_eq_layer]
  exact ⟨[s], fun c => run_bind_of_run (run_interpolate_plain r true hs c) _⟩

section

variable {tag : String} {attributes : Option Attributes} {children : List Node} {limit : Nat}
  {trail : Option (List String)}

/-- An element ends where its content ends. -/
theorem endsAt_element (hcontrol : ControlForm.ofName? tag = none)
    (hhandler : r.registry.get? tag = none) (hbody : r.config.isVoid tag = false)
    (hvalues : ∀ e ∈ attributes.getD [], ∃ s, e.2 = .text s ∧ '$' ∉ s.toList)
    (hcontent : EndsAt limit trail (evaluateAll (children.map (r.handle room).meaning))) :
    EndsAt limit trail ((r.handle room).meaning (.tag tag attributes children)).evaluate := by
  obtain ⟨pairs, hpairs⟩ := run_attributeTexts_plain r room hvalues
  obtain ⟨parts, hparts⟩ := hcontent.around fun content =>
    Markup.openTag tag pairs :: content ++ [Markup.closeTag tag]
  refine ⟨parts, fun c => ?_⟩
  rw [evaluate_element hcontrol hhandler, element, run_bind_ok (hpairs c), hbody, if_neg (by simp)]
  exact hparts c

/-- A box ends where its children end, one call deeper. -/
theorem endsAt_box {isObject : Bool} (hget : r.registry.get? tag = some (.content isObject))
    (hcontent : EndsAt limit trail (evaluateAll (children.map (r.handle room).meaning))) :
    EndsAt limit trail ((r.handle (room + 1)).meaning (.tag tag attributes children)).evaluate := by
  obtain ⟨parts, hparts⟩ := hcontent
  refine ⟨parts, fun c => ?_⟩
  show ((r.denote (some (r.handle room)) (.tag tag attributes children)).evaluate).run c = _
  rw [evaluate_denote_of_get? hget]
  cases trail with
  | none =>
    have hcall : ((Handler.content isObject).call r (r.handle room) (attributes.getD [])
        children).run c.push = (.ok (.ofTexts parts), c.push) :=
      run_bind_of_run (hparts c.push) _
    exact run_call_of_run hcall tag
  | some trail =>
    have hcall : ((Handler.content isObject).call r (r.handle room) (attributes.getD [])
        children).run c.push =
        (.error (.render (.recursionLimit limit (trail.headD ""))), c.push) := by
      show (evaluateAll (children.map (r.handle room).meaning) >>= _).run c.push = _
      rw [run_bind, hparts]
      rfl
    exact run_call_of_failure hcall tag

/-- Without room, a box ends at its own tag. -/
theorem endsAt_box_zero {isObject : Bool} (hget : r.registry.get? tag = some (.content isObject)) :
    EndsAt r.config.limit (some (tag :: above))
      ((r.handle 0).meaning (.tag tag attributes children)).evaluate := by
  refine ⟨[], fun c => ?_⟩
  show (r.denote none (.tag tag attributes children)).evaluate.run c = _
  rw [evaluate_denote_of_get? hget]
  rfl

end

/-- **What the limit leaves.**  Inside of some boxes, with the room that the limit leaves there, a
nest ends at the first tag in it that is full, or at none. -/
theorem endsAt_of_isNest {n : Node} (hn : r.IsNest n)
    (hroom : above.countP r.isBox + room + 1 = r.config.limit) :
    EndsAt r.config.limit ((n.trails above).find? r.isFull)
    ((r.handle room).meaning n).evaluate := by
  induction hn generalizing above room with
  | text hs => exact endsAt_text r room hs _
  | @element tag attributes children hcontrol hhandler hbody hvalues _ ih =>
    have hbox : r.isBox tag = false := by simp [isBox, hhandler]
    have hcount : (tag :: above).countP r.isBox = above.countP r.isBox :=
      List.countP_cons_of_neg (by simp [hbox])
    have hhere : r.isFull (tag :: above) = false := by simp [isFull, hbox]
    rw [Node.trails, List.find?_cons, hhere]
    exact endsAt_element hcontrol hhandler hbody hvalues
      (endsAt_evaluateAll fun n hn => ih n hn (by omega))
  | @box tag attributes children isObject hget _ ih =>
    have hbox : r.isBox tag = true := by simp [isBox, hget]
    have hcount : (tag :: above).countP r.isBox = above.countP r.isBox + 1 :=
      List.countP_cons_of_pos hbox
    rw [Node.trails, List.find?_cons]
    -- there is no room left exactly where the box is full
    cases room with
    | zero =>
      have hhere : r.isFull (tag :: above) = true := by simp [isFull, hbox, hcount, ← hroom]
      rw [hhere]
      exact endsAt_box_zero hget
    | succ room =>
      have hhere : r.isFull (tag :: above) = false := by simp [isFull, hcount, ← hroom]
      rw [hhere]
      exact endsAt_box hget (endsAt_evaluateAll fun n hn => ih n hn (by omega))

/-- A rendering ends where its form ends, with the room that the rendering itself leaves. -/
theorem exists_run_render {t : Template} (ht : r.IsNest t.root.toNode) :
    ∃ text, ∀ c, (r.render t).run c =
      ((unlessFull r.config.limit [text]
      ((t.root.toNode.trails []).find? r.isFull)).map String.join,
        c) := by
  obtain ⟨room, hroom⟩ := Nat.exists_eq_succ_of_ne_zero (Nat.ne_of_gt r.config.limit_pos)
  have hends : EndsAt r.config.limit ((t.root.toNode.trails []).find? r.isFull)
      ((r.handle room).meaning t.root.toNode).evaluate := endsAt_of_isNest ht (by simp [hroom])
  obtain ⟨parts, hparts⟩ := hends
  refine ⟨r.preamble t.root ++ String.join parts, fun c => ?_⟩
  rw [render, renderForm, top, hroom, handle_render_succ, Meaning.text, joined, run_bind, run_bind,
    hparts, ← hroom]
  cases (t.root.toNode.trails []).find? r.isFull with
  | none => simp [unlessFull, Except.map]
  | some trail => rfl

/-- **The limit counts boxes.**  A template that is made of plain texts, elements and boxes is
rendered exactly if there are fewer boxes around each other in it than the limit says, as the
rendering counts itself, however deep its elements are nested.  Otherwise the rendering ends at the
first tag, in the order of writing, that is the innermost of as many boxes as the limit says, and
reports the limit and this tag. -/
theorem limit_counts_boxes (t : Template) (ht : r.IsNest t.root.toNode) (c : Context) :
    ((∃ text, ((r.render t).run c).1 = .ok text) ↔
        r.boxDepth t.root.toNode < r.config.limit) ∧
      (r.config.limit ≤ r.boxDepth t.root.toNode → ∃ tag above,
        (t.root.toNode.trails []).find? r.isFull = some (tag :: above) ∧
          (r.render t).run c = (.error (.render (.recursionLimit r.config.limit tag)), c)) := by
  obtain ⟨text, hrun⟩ := exists_run_render ht
  have hfits : (t.root.toNode.trails []).find? r.isFull = none ↔
      r.boxDepth t.root.toNode < r.config.limit := by
    have hempty : ([] : List String).countP r.isBox < r.config.limit := r.config.limit_pos
    simpa using find?_trails_eq_none_iff t.root.toNode hempty
  rw [← hfits, ← Nat.not_lt, ← hfits, hrun]
  cases hfind : (t.root.toNode.trails []).find? r.isFull with
  | none => exact ⟨⟨fun _ => rfl, fun _ => ⟨_, rfl⟩⟩, fun hnot => absurd rfl hnot⟩
  | some trail =>
    have hfull : r.isFull trail = true := List.find?_some hfind
    match trail, hfull with
    | tag :: above, _ =>
      refine ⟨⟨?_, fun hnone => absurd hnone (by simp)⟩, fun _ => ⟨tag, above, rfl, rfl⟩⟩
      rintro ⟨_, hok⟩
      cases hok

/-- A renderer with two kinds of boxes. -/
def stacking : Renderer where
  config := { Config.standard with limit := 2, limit_pos := Nat.two_pos }
  registry := ⟨[("box", .content true), ("crate", .content false)], by decide⟩
  templates := []

/-- The form `(p (@ (k v)) (box a) (div (div (crate b))))` with some nodes inside of the crate. -/
def stacked (inside : List Node) : Form :=
  ⟨"p", some [("k", .text "v")], [.tag "box" none [.text "a"],
    .tag "div" none [.tag "div" none [.tag "crate" none inside]]]⟩

theorem isNest_stacked {inside : List Node} (h : ∀ n ∈ inside, stacking.IsNest n) :
    stacking.IsNest (stacked inside).toNode := by
  have htext : stacking.IsNest (.text "a") := .text (by simp)
  have hbox : stacking.IsNest (.tag "box" none [.text "a"]) :=
    .box rfl (List.forall_mem_singleton.2 htext)
  have hcrate : stacking.IsNest (.tag "crate" none inside) := .box rfl h
  have hdiv : stacking.IsNest (.tag "div" none [.tag "crate" none inside]) :=
    .element rfl rfl rfl nofun (List.forall_mem_singleton.2 hcrate)
  refine .element rfl rfl rfl ?_ (List.forall_mem_cons.2 ⟨hbox, List.forall_mem_singleton.2
    (.element rfl rfl rfl nofun (List.forall_mem_singleton.2 hdiv))⟩)
  exact List.forall_mem_singleton.2 ⟨"v", rfl, by simp⟩

/-- Two boxes side by side fit in with a limit of two calls.  Of the two in the crate, the first one
is reported. -/
theorem limit_counts_boxes_stacked :
    stacking.IsNest (stacked [.text "b"]).toNode ∧
      (∃ text, ((stacking.render ⟨stacked [.text "b"], ""⟩).run .empty).1 = .ok text) ∧
      stacking.IsNest (stacked [.tag "q" none [.tag "box" none []], .tag "crate" none []]).toNode ∧
      (stacking.render ⟨stacked [.tag "q" none [.tag "box" none []], .tag "crate" none []], ""⟩).run
        .empty = (.error (.render (.recursionLimit 2 "box")), .empty) := by
  have hfits : stacking.IsNest (stacked [.text "b"]).toNode :=
    isNest_stacked (List.forall_mem_singleton.2 (.text (by simp)))
  have hfull : stacking.IsNest
      (stacked [.tag "q" none [.tag "box" none []], .tag "crate" none []]).toNode := by
    refine isNest_stacked (List.forall_mem_cons.2 ⟨?_, ?_⟩)
    · exact .element rfl rfl rfl nofun (List.forall_mem_singleton.2 (.box rfl nofun))
    · exact List.forall_mem_singleton.2 (.box rfl nofun)
  refine ⟨hfits, (limit_counts_boxes ⟨_, ""⟩ hfits .empty).1.2 (by decide), hfull, ?_⟩
  obtain ⟨tag, above, hfind, hrun⟩ := (limit_counts_boxes ⟨_, ""⟩ hfull .empty).2 (by decide)
  obtain rfl : tag = "box" := by cases hfind; rfl
  exact hrun

end Renderer

end MarkupForms

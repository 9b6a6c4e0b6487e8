import MarkupForms.Proofs.Logic

/-!
# What an evaluation depends on

A tree mentions names: those at the heads of the paths of its variables and of the references in its
texts.  Without handlers of its own a renderer asks a context for nothing but these names, though it
asks in many places: loops open frames over the context, in which the same names mean something
else, and errors have to agree as well.  So two contexts that agree on the names that a tree
mentions cannot be told apart by evaluating it.

* `Context.resolve_congr` : a path depends on the name at its head.
* `Context.AgreesOn.pushFrame` : a frame over two contexts does not set them apart.
* `Eval.Logic.coinciding` : the judgement that a computation comes to the same in both contexts.
* `Renderer.coincidence` : the outcome depends only on the names that a tree mentions.
-/

namespace MarkupForms

/-! ## Names and contexts -/

/-- The name at the head of a path. -/
def Context.pathHead (path : String) : String :=
  (Text.pathSegments (normalize path)).headD ""

namespace Node

/-- The paths that a node refers to by itself. -/
def references : Node → List String
  | .var name => [name]
  | .text s => (Segment.segments s.toList).filterMap fun
      | .reference path => some (String.ofList path)
      | _ => none
  | _ => []

/-- The names that a tree mentions, in attributes as well. -/
def mentions (n : Node) : List String :=
  (n.subtrees.flatMap references).map Context.pathHead

theorem pathHead_mem_mentions {n m : Node} (hm : m ∈ n.subtrees) {path : String}
    (h : path ∈ m.references) : Context.pathHead path ∈ n.mentions :=
  List.mem_map_of_mem (List.mem_flatMap.2 ⟨m, hm, h⟩)

end Node

namespace Context

/-- Whether some names have the same values in two contexts. -/
def AgreesOn (names : List String) (c d : Context) : Prop :=
  ∀ name ∈ names, c.lookup name = d.lookup name

variable {names : List String} {c d : Context}

/-- A path depends on the name at its head. -/
theorem resolve_congr {path : String} (h : c.lookup (pathHead path) = d.lookup (pathHead path)) :
    c.resolve path = d.resolve path := by
  cases hsegments : Text.pathSegments (normalize path) with
  | nil => rw [resolve, resolve, hsegments]; rfl
  | cons head keys =>
    have hhead : pathHead path = head := by rw [pathHead, hsegments]; rfl
    rw [hhead] at h
    rw [resolve_eq c hsegments, resolve_eq d hsegments, h]

theorem isSet_congr {path : String} (h : c.resolve path = d.resolve path) :
    c.isSet path = d.isSet path := by
  rw [isSet, isSet, h]

/-- A frame over two contexts does not set them apart. -/
theorem AgreesOn.pushFrame (h : c.AgreesOn names d) (f : Frame) :
    (c.pushFrame f).AgreesOn names (d.pushFrame f) := by
  intro name hname
  have hbelow : c.find? (normalize name) = d.find? (normalize name) := h name hname
  rw [lookup, lookup, find?_pushFrame, find?_pushFrame, hbelow]

end Context

/-! ## Computations -/

open Eval

/-- The judgement that a computation comes to the same in all contexts that agree on some names, and
leaves them as they are. -/
def Eval.Logic.coinciding (names : List String) : Logic where
  Holds P m := ∀ c d : Context, c.AgreesOn names d →
    ∃ o, m.run c = (o, c) ∧ m.run d = (o, d) ∧ ∀ a, o = .ok a → P a
  pure {α P a} ha c d _ := ⟨.ok a, rfl, rfl, fun b hb => by cases hb; exact ha⟩
  throw f c d _ := ⟨.error f, rfl, rfl, fun a ha => by cases ha⟩
  bind {α β P Q m k} hm hk c d h := by
    obtain ⟨o, hc, hd, hP⟩ := hm c d h
    rw [run_bind, run_bind, hc, hd]
    cases o with
    | error f => exact ⟨.error f, rfl, rfl, fun b hb => by cases hb⟩
    | ok a => exact hk a (hP a rfl) c d h
  tryCatch {α P m handler} hm hh c d h := by
    obtain ⟨o, hc, hd, hP⟩ := hm c d h
    rw [run_tryCatch, run_tryCatch, hc, hd]
    cases o with
    | error f => exact hh f c d h
    | ok a => exact ⟨.ok a, rfl, rfl, hP⟩
  inChild {α P m} f hm c d h := by
    obtain ⟨o, hc, hd, hP⟩ := hm _ _ (h.pushFrame f)
    rw [run_inChild, run_inChild, hc, hd]
    exact ⟨o, rfl, rfl, hP⟩

namespace Eval.Logic

variable {names : List String}

/-- A path comes to the same if the name at its head does. -/
theorem reads_coinciding {path : String} (hpath : Context.pathHead path ∈ names) :
    (coinciding names).Reads path := by
  constructor
  · intro c d h
    have hresolve := Context.resolve_congr (h _ hpath)
    rw [resolve, run_bind, run_bind, run_context, run_context]
    dsimp only
    rw [hresolve]
    cases d.resolve path with
    | ok v => exact ⟨.ok v, rfl, rfl, fun _ _ => trivial⟩
    | error e => exact ⟨.error _, rfl, rfl, fun _ _ => trivial⟩
  · intro c d h
    have hset := Context.isSet_congr (Context.resolve_congr (h _ hpath))
    exact ⟨.ok (c.isSet path), rfl, by rw [hset]; rfl, fun _ _ => trivial⟩

/-- A node is allowed to do what it does by itself if it is allowed to look up what it refers to. -/
theorem allowed_of_reads {L : Logic} {m : Node} (h : ∀ path ∈ m.references, L.Reads path) :
    m.Allowed L .any := by
  cases m with
  | text s =>
    refine ⟨fun _ _ => trivial, fun path hpath => h _ ?_⟩
    exact List.mem_filterMap.2 ⟨.reference path, hpath, rfl⟩
  | var name => exact h name List.mem_cons_self
  | tag name attributes children =>
    exact ⟨Writing.frames_any name _, fun _ _ => .inr fun _ => trivial⟩
  | hole => trivial

theorem every_allowed_coinciding (n : Node) :
    n.Every (Node.Allowed (coinciding n.mentions) .any) :=
  fun _ hm => allowed_of_reads fun _ hpath =>
    reads_coinciding (Node.pathHead_mem_mentions hm hpath)

end Eval.Logic

theorem Eval.Logic.outcome_eq {names : List String} {α : Type} {P : α → Prop} {m : Eval α}
    (hm : (coinciding names).Holds P m) {c d : Context} (h : c.AgreesOn names d) :
    (m.run c).1 = (m.run d).1 := by
  obtain ⟨o, hc, hd, -⟩ := hm c d h
  rw [hc, hd]

namespace Renderer

open Eval.Logic

variable {r : Renderer}

/-- Whatever may be asked of a tree, the answer depends only on the names that it mentions. -/
theorem obeys_coinciding (hr : r.IsStandard) (room : Nat) (n : Node) :
    ((r.handle room).meaning n).Obeys (.coinciding n.mentions) .any :=
  obeys_handle_of_standard hr (fun _ => trivial) (fun _ => trivial) room n
    (every_allowed_coinciding n)

theorem allows_renderForm_coinciding (hr : r.IsStandard) (form : Form) :
    (Logic.coinciding form.toNode.mentions).Allows (r.renderForm form) := by
  obtain ⟨room, hroom⟩ := Nat.exists_eq_succ_of_ne_zero (Nat.ne_of_gt r.config.limit_pos)
  have hevaluate := allows_of_holds (obeys_coinciding hr room form.toNode).evaluate
  rw [renderForm, top, hroom, handle_render_succ]
  exact (allows_joined hevaluate).andThen fun _ => allows_pure _

/-- **Coincidence.**  Without handlers but the predicates of the library, two contexts that agree on
the names that a tree mentions cannot be told apart by it: its fragments, its text as the value of
an attribute, its truth value and, if it is a form, its rendering are the same in both, or fail in
the same way.  A tree that mentions no names is the same in all contexts. -/
theorem coincidence (hr : r.IsStandard) (n : Node) :
    (∀ c d, c.AgreesOn n.mentions d →
      ((r.evaluate n).run c).1 = ((r.evaluate n).run d).1 ∧
        (∀ escaping, ((r.attributeText n escaping).run c).1 =
          ((r.attributeText n escaping).run d).1) ∧
        ((r.test n).run c).1 = ((r.test n).run d).1 ∧
        ∀ form : Form, form.toNode = n →
          ((r.renderForm form).run c).1 = ((r.renderForm form).run d).1) ∧
      (n.mentions = [] → ∀ c d, ((r.evaluate n).run c).1 = ((r.evaluate n).run d).1 ∧
        ∀ form : Form, form.toNode = n →
          ((r.renderForm form).run c).1 = ((r.renderForm form).run d).1) := by
  have hn := obeys_coinciding hr r.config.limit n
  have hforms (form : Form) (hform : form.toNode = n) :
      (Logic.coinciding n.mentions).Allows (r.renderForm form) :=
    hform ▸ allows_renderForm_coinciding hr form
  constructor
  · intro c d h
    exact ⟨outcome_eq hn.evaluate h, fun escaping => outcome_eq (hn.attributeText escaping) h,
      outcome_eq hn.test h, fun form hform => outcome_eq (hforms form hform) h⟩
  · intro hnone c d
    have h : c.AgreesOn n.mentions d := by
      rw [hnone]
      exact fun _ hname => absurd hname List.not_mem_nil
    exact ⟨outcome_eq hn.evaluate h, fun form hform => outcome_eq (hforms form hform) h⟩

/-- The tree `(ul (for x in $xs (li $x)))`, which mentions `xs` and `x`. -/
def listing : Node :=
  .tag "ul" none [.tag "for" none [.text "x", .text "in", .var "xs", .tag "li" none [.var "x"]]]

/-- A root. -/
def shallow : Context :=
  .ofList [("x", .scalar "0"), ("xs", .list [.scalar "1"])]

/-- A frame over another root, which hides a list of another length. -/
def layered : Context :=
  (Context.ofList [("xs", .list []), ("y", .scalar "2")]).pushFrame
    (.ofList [("xs", .list [.scalar "1"]), ("x", .scalar "0")])

theorem shallow_agreesOn_layered : shallow.AgreesOn listing.mentions layered := by
  have hmentions : listing.mentions = ["xs", "x"] := rfl
  rw [hmentions]
  intro name hname
  rcases List.mem_pair.1 hname with rfl | rfl <;> rfl

/-- The tree is evaluated in the same way in both contexts. -/
theorem listing_coincides :
    library.IsStandard ∧ shallow.AgreesOn listing.mentions layered ∧
      ((library.evaluate listing).run shallow).1 = .ok ["<ul>", "<li>", "1", "</li>", "</ul>"] ∧
      ((library.evaluate listing).run shallow).1 = ((library.evaluate listing).run layered).1 :=
  ⟨isStandard_library, shallow_agreesOn_layered, rfl,
    ((coincidence isStandard_library listing).1 _ _ shallow_agreesOn_layered).1⟩

end Renderer

end MarkupForms

import MarkupForms.Proofs.Attribution
import MarkupForms.Proofs.Loops

/-!
# The text of a node, however it is asked for

A node is asked for its fragments, for its text, for its text as the value of an attribute, and for
its text as an operand.  Each of these looks at the kind of the node on its own, and an operand or
the value of an attribute may leave the values of variables as they are.

A tag has one text: what stands inside of it decides about its values, and who asks for it does not.
A leaf that is asked to leave values as they are has the text that it has where no values are
escaped.  So where none are, all ways come to the fragments put together.

* `EvalOn.Joins` : a computation that comes to the fragments of another one put together.
* `Renderer.attributeText_of_isLeaf`, `Renderer.attributeText_of_not_isLeaf` : the text that is
  asked for, from the fragments.
* `Renderer.texts_agree` : the ways to the text of a node.
-/

namespace MarkupForms

open Eval EvalOn

namespace EvalOn

variable {whole : Eval String} {parts : Eval (List String)}

/-- Whether a computation comes to the fragments of another one put together: it ends with their
text, or in the same failure, and it leaves the same context. -/
def Joins (whole : Eval String) (parts : Eval (List String)) : Prop :=
  ∀ c, (∀ ss d, parts.run c = (.ok ss, d) → whole.run c = (.ok (String.join ss), d)) ∧
    ∀ f d, parts.run c = (.error f, d) → whole.run c = (.error f, d)

theorem joins_joined (parts : Eval (List String)) : (joined parts).Joins parts := by
  intro c
  constructor
  · intro ss d h
    rw [joined, run_bind, h]
    rfl
  · intro f d h
    rw [joined, run_bind, h]

theorem Joins.of_eq (h : whole = joined parts) : whole.Joins parts :=
  h ▸ joins_joined parts

end EvalOn

/-- Whether all ways to the text of a node come to its fragments put together; those that leave
values as they are need only do so where no values are escaped. -/
structure Meaning.HasOneText (m : Meaning) (escapes : Bool) : Prop where
  /-- The text. -/
  text : m.text.Joins m.evaluate
  /-- The value of an attribute. -/
  attributeText : (m.attributeText true).Joins m.evaluate
  /-- An operand. -/
  operand : escapes = false → m.operand.Joins m.evaluate
  /-- The value of an attribute that leaves values as they are. -/
  raw : escapes = false → (m.attributeText false).Joins m.evaluate

namespace Renderer

variable {n : Node}

/-! ## Leaves -/

theorem escaping_self (r : Renderer) : r.escaping r.config.autoescape = r := rfl

/-- Values are escaped where the renderer and the place allow it. -/
theorem outputIf_eq_output (r : Renderer) (escaping : Bool) :
    r.outputIf escaping = (r.escaping (r.config.autoescape && escaping)).output := by
  funext s
  cases escaping with
  | true =>
    rw [Bool.and_true, escaping_self]
    rfl
  | false =>
    rw [Bool.and_false]
    rfl

theorem interpolate_escaping (r : Renderer) (escaping : Bool) (s : String) :
    Eval.interpolate r escaping s =
      Eval.interpolate (r.escaping (r.config.autoescape && escaping)) true s := by
  have hsegment : Eval.segment r escaping =
      Eval.segment (r.escaping (r.config.autoescape && escaping)) true := by
    funext x
    cases x with
    | char c | sign => rfl
    | reference path =>
      rw [Eval.segment, Eval.segment, outputIf_eq_output]
      rfl
  rw [Eval.interpolate, Eval.interpolate, segments, segments, hsegment]

/-- The text of a leaf, where it may be asked to leave values as they are: it is the text in a
renderer that escapes values only if this is allowed. -/
theorem attributeText_of_isLeaf (r : Renderer) (room : Nat) (escaping : Bool) (hn : n.IsLeaf) :
    ((r.handle room).meaning n).attributeText escaping =
      joined (((r.escaping (r.config.autoescape && escaping)).handle room).meaning n).evaluate := by
  rw [handle_eq_layer, handle_eq_layer]
  cases n with
  | text s =>
    refine Eq.trans ?_ (joined_single _).symm
    exact interpolate_escaping r escaping s
  | var name =>
    show (do return r.outputIf escaping (← scalar name)) =
      joined (scalar name >>= fun s =>
        pure [(r.escaping (r.config.autoescape && escaping)).output s])
    rw [outputIf_eq_output]
    simp [joined]
  | tag | hole => exact hn.elim

/-! ## Tags -/

/-- The text of a tag does not depend on who asks for it. -/
theorem attributeText_of_not_isLeaf (r : Renderer) (room : Nat) (escaping : Bool)
    (hn : ¬ n.IsLeaf) :
    ((r.handle room).meaning n).attributeText escaping =
      joined ((r.handle room).meaning n).evaluate := by
  rw [handle_eq_layer]
  cases n with
  | text | var => exact absurd trivial hn
  | hole => rfl
  | tag tag attributes children => cases attributes <;> rfl

/-! ## All nodes -/

/-- Where all values may be escaped that the renderer escapes, the text is the fragments put
together. -/
theorem attributeText_eq (r : Renderer) (room : Nat) {escaping : Bool}
    (h : (r.config.autoescape && escaping) = r.config.autoescape) (n : Node) :
    ((r.handle room).meaning n).attributeText escaping =
      joined ((r.handle room).meaning n).evaluate := by
  by_cases hn : n.IsLeaf
  · rw [attributeText_of_isLeaf r room escaping hn, h, escaping_self]
  · exact attributeText_of_not_isLeaf r room escaping hn

theorem hasOneText (r : Renderer) (room : Nat) (n : Node) :
    ((r.handle room).meaning n).HasOneText r.config.autoescape where
  text := joins_joined _
  attributeText := .of_eq (attributeText_eq r room (Bool.and_true _) n)
  operand hoff := by
    rw [operand_handle]
    exact .of_eq (attributeText_eq r room (by rw [hoff]; rfl) n)
  raw hoff := .of_eq (attributeText_eq r room (by rw [hoff]; rfl) n)

/-- **The ways to the text of a node agree.**  The text of a node, and its text as the value of an
attribute, are its fragments put together, or both fail as it fails.  Where the renderer escapes no
values, the same holds of its text as an operand and as the value of an attribute that leaves values
as they are.  Where it escapes values, this still holds of all nodes but leaves, and a leaf has the
text that it has in the renderer that escapes none.  It makes no difference how many calls are
nested around the node. -/
theorem texts_agree (r : Renderer) (n : Node) :
    ((r.text n).Joins (r.evaluate n) ∧ (r.attributeText n true).Joins (r.evaluate n)) ∧
      (r.config.autoescape = false →
        (r.operand n).Joins (r.evaluate n) ∧ (r.attributeText n false).Joins (r.evaluate n)) ∧
      (¬ n.IsLeaf → (r.operand n).Joins (r.evaluate n)) ∧
      (n.IsLeaf → (r.operand n).Joins ((r.escaping false).evaluate n)) ∧
      ∀ room, ((r.handle room).meaning n).HasOneText r.config.autoescape := by
  have hall := r.hasOneText r.config.limit n
  refine ⟨⟨hall.text, hall.attributeText⟩, fun hoff => ⟨hall.operand hoff, hall.raw hoff⟩,
    fun hn => ?_, fun hn => ?_, fun room => r.hasOneText room n⟩
  · rw [operand_eq]
    exact .of_eq (attributeText_of_not_isLeaf r r.config.limit false hn)
  · have hraw := attributeText_of_isLeaf r r.config.limit false hn
    rw [Bool.and_false] at hraw
    rw [operand_eq]
    exact .of_eq hraw

/-- A tag around a list, which has no text: all four ways end in the same error.  A text with a
value in it: all four come to the same. -/
theorem texts_agree_listAndMap :
    library.config.autoescape = false ∧
      ((library.evaluate (.text "$m.a!")).run listAndMap).1 = .ok ["b!"] ∧
      ((library.operand (.text "$m.a!")).run listAndMap).1 = .ok "b!" ∧
      ((library.attributeText (.text "$m.a!") true).run listAndMap).1 = .ok "b!" ∧
      ((library.attributeText (.tag "p" none [.var "xs"]) false).run listAndMap).1 =
        .error (.render (.typeMismatch "scalar" "list" "xs")) ∧
      ¬ (Node.tag "p" none [.var "xs"]).IsLeaf ∧
      (library.operand (.tag "p" none [.var "xs"])).Joins
        (library.evaluate (.tag "p" none [.var "xs"])) ∧
      (Node.text "$m.a!").IsLeaf ∧
      (library.operand (.text "$m.a!")).Joins
        ((library.escaping false).evaluate (.text "$m.a!")) := by
  obtain ⟨⟨-, hvalue⟩, hoff, -, hleaf, -⟩ := texts_agree library (.text "$m.a!")
  obtain ⟨-, hoffTag, htag, -, -⟩ := texts_agree library (.tag "p" none [.var "xs"])
  have hparts : (library.evaluate (.text "$m.a!")).run listAndMap = (.ok ["b!"], listAndMap) := rfl
  have hlist : (library.evaluate (.tag "p" none [.var "xs"])).run listAndMap =
      (.error (.render (.typeMismatch "scalar" "list" "xs")), listAndMap) := rfl
  refine ⟨rfl, congrArg Prod.fst hparts, ?_, ?_, ?_, id, htag id, trivial, hleaf trivial⟩
  · rw [((hoff rfl).1 listAndMap).1 _ _ hparts]
    rfl
  · rw [(hvalue listAndMap).1 _ _ hparts]
    rfl
  · rw [((hoffTag rfl).2 listAndMap).2 _ _ hlist]

end Renderer

end MarkupForms

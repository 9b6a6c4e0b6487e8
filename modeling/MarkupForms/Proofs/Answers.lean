import MarkupForms.Proofs.Duality
import MarkupForms.Proofs.Limits

/-!
# Predicates as content

A predicate may stand where content stands, and then says its answer as a text.  This takes another
way than a condition does: content is a call of a handler, which takes room, and a condition is not.
So the operands of a predicate are evaluated with less room when it is content, and the handlers in
them may come upon the limit, which they would not do in a condition.  Apart from that the answer is
the same, and so is the error when there is none.

* `Renderer.run_predicate` : content says what the condition comes to with less room.
* `Renderer.run_choiceOf` : a choice between the two texts says what the condition comes to.
* `Renderer.run_test_succ` : more room makes no difference to a condition, up to the limit.
* `Renderer.content_answers` : both say the same, unless the content comes upon the limit.
-/

namespace MarkupForms

open Eval

namespace Eval

variable {α β : Type}

theorem run_map (g : α → β) (m : Eval α) (c : Context) :
    (g <$> m).run c = ((m.run c).1.map g, (m.run c).2) := by
  rw [map_eq_pure_bind, run_bind]
  rcases m.run c with ⟨f | a, after⟩ <;> rfl

/-- A result may be changed inside of a frame or outside. -/
theorem inChild_map (f : Frame) (g : α → β) (m : Eval α) :
    inChild f (g <$> m) = g <$> inChild f m := by
  funext c
  show (inChild f (g <$> m)).run c = (g <$> inChild f m).run c
  rw [run_map, run_inChild, run_inChild, run_map]

/-- A result may be changed inside of a handler or outside. -/
theorem guarded_map (tag : String) (g : α → β) (m : Eval α) :
    guarded tag (g <$> m) = g <$> guarded tag m := by
  funext c
  show (guarded tag (g <$> m)).run c = (g <$> guarded tag m).run c
  rcases hrun : m.run c with ⟨o, after⟩
  have hmapped : (g <$> m).run c = (o.map g, after) := by rw [run_map, hrun]
  rw [run_map, run_guarded_of_outcome hrun, run_guarded_of_outcome hmapped]
  cases o <;> rfl

end Eval

namespace Node

/-- The choice `(if n true false)`. -/
def choiceOf (n : Node) : Node :=
  .tag "if" none [n, .text "true", .text "false"]

end Node

namespace Renderer

variable {r : Renderer} {tag : String} {p : Predicate}

/-! ## What content says -/

/-- With room, content says what the condition comes to with less room. -/
theorem evaluate_predicate (hp : r.registry.predicate? tag = some p) (room : Nat)
    (attributes : Option Attributes) (children : List Node) :
    ((r.handle (room + 1)).meaning (.tag tag attributes children)).evaluate = (do
      let b ← ((r.handle room).meaning (.tag tag attributes children)).test
      return [Predicate.truthText b]) := by
  rw [test_condition hp]
  show (r.denote (some (r.handle room)) (.tag tag attributes children)).evaluate = _
  rw [evaluate_denote_of_get? (Registry.get?_of_predicate? hp)]
  have hcalled : (Handler.predicate p).call r (r.handle room) (attributes.getD []) children =
      (fun b => Reply.ofTexts [Predicate.truthText b]) <$>
        p.holds (children.map (r.handle room).meaning) := by
    rw [map_eq_pure_bind]
    rfl
  rw [call]
  simp only [nested_eq]
  rw [hcalled, guarded_map, inChild_map, bind_map_left]
  rfl

/-- Without room there is no content. -/
theorem evaluate_predicate_zero (hp : r.registry.predicate? tag = some p)
    (attributes : Option Attributes) (children : List Node) (c : Context) :
    ((r.handle 0).meaning (.tag tag attributes children)).evaluate.run c =
      (.error (.render (.recursionLimit r.config.limit tag)), c) := by
  show ((r.denote none (.tag tag attributes children)).evaluate).run c = _
  rw [evaluate_denote_of_get? (Registry.get?_of_predicate? hp)]
  rfl

/-- What comes of a condition, as content. -/
def answer (o : Except Failure Bool) : Except Failure (List String) :=
  o.map fun b => [Predicate.truthText b]

theorem run_predicate (hp : r.registry.predicate? tag = some p) (room : Nat)
    (attributes : Option Attributes) (children : List Node) (c : Context) :
    ((r.handle (room + 1)).meaning (.tag tag attributes children)).evaluate.run c =
      (answer (((r.handle room).meaning (.tag tag attributes children)).test.run c).1,
        (((r.handle room).meaning (.tag tag attributes children)).test.run c).2) := by
  rw [evaluate_predicate hp, ← map_eq_pure_bind, run_map]
  rfl

/-! ## What a choice says -/

/-- A choice between the two texts says what the condition comes to. -/
theorem run_choiceOf (r : Renderer) (room : Nat) (n : Node) (c : Context) :
    ((r.handle room).meaning n.choiceOf).evaluate.run c =
      (answer (((r.handle room).meaning n).test.run c).1,
        (((r.handle room).meaning n).test.run c).2) := by
  rw [Node.choiceOf, meaning_tag]
  show (((r.handle room).meaning n).test >>= (fun b =>
    if b then ((r.handle room).meaning (.text "true")).evaluate
    else ((r.handle room).meaning (.text "false")).evaluate)).run c = _
  rw [run_bind, handle_eq_layer]
  rcases ((r.layer fun _ => r.below room).meaning n).test.run c with ⟨f | b, after⟩
  · rfl
  · cases b <;> rfl

/-! ## Both ways -/

/-- Unless a condition comes upon the limit with less room, more room makes no difference to it. -/
theorem run_test_succ (hr : r.NeverCatches) {room : Nat} {n : Node} {c : Context}
    (hc : ∀ f, (((r.handle room).meaning n).test.run c).1 = .error f → ¬ f.IsLimit) :
    ((r.handle (room + 1)).meaning n).test.run c = ((r.handle room).meaning n).test.run c := by
  have halike : (r.handle room).Alike .cut (r.handle (room + 1)) :=
    alike_handle_of_le hr r.config.limit_pos r.config.limit_pos (Nat.le_succ room)
  exact Runs.eq_of_not_isLimit
    (halike.meaning.meaning n (Endings.closed_cut.every_suits n)).test hc

/-- **A predicate answers the same as content and as a condition.**  As long as no handler catches
errors, a form with a predicate, as content, comes to what the choice between the texts `true` and
`false` comes to that has it as its condition, unless the content comes upon the limit.  So it comes
to one of these two texts, or to the render error that the condition ends in. -/
theorem content_answers (hr : r.NeverCatches) (hp : r.registry.predicate? tag = some p)
    (room : Nat) (attributes : Option Attributes) (children : List Node) (c : Context) :
    let form := Node.tag tag attributes children
    let content := ((r.handle room).meaning form).evaluate.run c
    let chosen := ((r.handle room).meaning form.choiceOf).evaluate.run c
    (∀ f, content.1 = .error f → ¬ f.IsLimit) →
      content = chosen ∧ (content.1 = .ok ["true"] ∨ content.1 = .ok ["false"] ∨
        ∃ e, content.1 = .error (.render e) ∧
          (((r.handle room).meaning form).test.run c).1 = .error (.render e)) := by
  intro form content chosen hc
  cases room with
  | zero =>
    have hzero : content = _ := evaluate_predicate_zero hp attributes children c
    exact absurd trivial (hc _ (congrArg Prod.fst hzero))
  | succ room =>
    -- content asks with one room less than the choice does, which shows only at the limit
    have hcontent : content = _ := run_predicate hp room attributes children c
    have htest : ((r.handle (room + 1)).meaning form).test.run c =
        ((r.handle room).meaning form).test.run c :=
      run_test_succ hr fun f hf => hc f (by rw [hcontent, hf]; rfl)
    have hchosen : content = chosen := by
      rw [hcontent, ← htest]
      exact (run_choiceOf r (room + 1) form c).symm
    refine ⟨hchosen, ?_⟩
    rw [hcontent, ← htest]
    rcases hanswer : (((r.handle (room + 1)).meaning form).test.run c).1 with (e | f) | b
    · exact .inr (.inr ⟨e, rfl, rfl⟩)
    · have hpredicate : r.IsCondition form := by
        show r.registry.predicate? tag ≠ none
        rw [hp]
        exact Option.some_ne_none p
      exact absurd hpredicate (refused_of_fault hanswer).1
    · cases b
      · exact .inr (.inl rfl)
      · exact .inl rfl

/-- A renderer with a predicate that compares the text of its children. -/
def comparing : Renderer where
  config := { Config.standard with limit := 2, limit_pos := Nat.two_pos }
  registry := ⟨[("says", .predicate (.textEquals "a")), ("box", .content true)], by decide⟩
  templates := []

theorem neverCatches_comparing : comparing.NeverCatches := by
  intro tag handler hget
  refine Registry.forall_get? (P := fun handler => ¬ handler.Catches) ?_ hget
  simp [comparing, Handler.Catches]

/-- The form `(says (box a))` takes two nested calls as content, which is what the limit allows.
With one more box it comes upon the limit, which it does not do as a condition. -/
theorem content_answers_box :
    comparing.NeverCatches ∧
      comparing.registry.predicate? "says" = some (.textEquals "a") ∧
      ((comparing.evaluate (.tag "says" none [.tag "box" none [.text "a"]])).run .empty) =
        ((comparing.evaluate (Node.tag "says" none [.tag "box" none [.text "a"]]).choiceOf).run
          .empty) ∧
      ((comparing.evaluate (.tag "says" none [.tag "box" none [.text "a"]])).run .empty).1 =
        .ok ["true"] ∧
      ((comparing.evaluate
        (.tag "says" none [.tag "box" none [.tag "box" none [.text "a"]]])).run .empty).1 =
        .error (.render (.recursionLimit 2 "box")) ∧
      ((comparing.evaluate
        (Node.tag "says" none [.tag "box" none [.tag "box" none [.text "a"]]]).choiceOf).run
          .empty).1 = .ok ["true"] := by
  refine ⟨neverCatches_comparing, rfl, ?_, rfl, rfl, rfl⟩
  refine (content_answers neverCatches_comparing rfl comparing.config.limit none
    [.tag "box" none [.text "a"]] .empty fun f hf => ?_).1
  cases hf

end Renderer

end MarkupForms

import MarkupForms.Proofs.Counting
import MarkupForms.Proofs.Handling

/-!
# Evaluation restores what it touches

Evaluation opens frames, binds names and nests calls.  As long as no handler closes frames that it
has not opened, all of this is undone when an evaluation ends, in whatever way it ends: the context
is the one before, and so is the count of nested calls.  So what comes next is evaluated as if
nothing had come before, and a handler may catch an error of its children and go on as if they had
been something else.

What happens to the context is shown inside of a given number of nested calls.  That the count is
set back as well, and that this number is what it stands for, is known from the runs that keep one.

* `Renderer.run_evaluateAt` : evaluation leaves the context as it is, at every depth.
* `Renderer.run_catching`, `Renderer.run_evaluateAt_catching` : a caught error is as good as the
  fragments that stand for it.
* `Renderer.counts_evaluateNodes` : evaluation with a count is the one at that depth.
* `Renderer.evaluation_restores` : evaluation restores the context and the count.
-/

namespace MarkupForms

open Eval

/-! ## Handlers that close frames -/

/-- Whether a handler closes frames that it has not opened. -/
def Handler.Pops : Handler → Prop
  | .popping (_ + 1) _ => True
  | _ => False

theorem Handler.pops_of_reachesOut {handler : Handler} (h : handler.ReachesOut) : handler.Pops := by
  obtain ⟨times, name, data, v, rfl, -⟩ := exists_of_reachesOut h
  trivial

/-! ## Computations that leave the context as it is -/

namespace Eval

variable {σ α β : Type} {m : Eval α} {c : Context}

/-- What a computation comes to, be it a result or a failure. -/
def outcome (m : EvalOn σ α) : EvalOn σ (Except Failure α) :=
  tryCatch (Except.ok <$> m) fun f => pure (.error f)

theorem run_outcome (m : EvalOn σ α) (s : σ) :
    (outcome m).run s = (.ok (m.run s).1, (m.run s).2) := by
  rw [outcome, run_tryCatch, map_eq_pure_bind, run_bind]
  rcases m.run s with ⟨o, after⟩
  cases o <;> rfl

theorem run_bind_of_run {a : α} {after : Context} (h : m.run c = (.ok a, after))
    (k : α → Eval β) : (m >>= k).run c = (k a).run after := by
  rw [run_bind, h]

theorem run_bind_congr {k k' : α → Eval β} (hm : (m.run c).2 = c)
    (hk : ∀ a, (k a).run c = (k' a).run c) : (m >>= k).run c = (m >>= k').run c := by
  rw [run_bind, run_bind]
  rcases hrun : m.run c with ⟨o, after⟩
  obtain rfl : after = c := by rw [← hm, hrun]
  cases o with
  | error f => rfl
  | ok a => exact hk a

theorem run_inChild_of_run {f g : Frame} {o : Except Failure α}
    (h : m.run (c.pushFrame f) = (o, c.pushFrame g)) : (inChild f m).run c = (o, c) := by
  rw [run_inChild, h]
  rfl

/-- A failure leaves a handler. -/
theorem run_guarded_of_outcome {o : Except Failure α} {after : Context} (h : m.run c = (o, after))
    (tag : String) : (guarded tag m).run c = (o.mapError (Failure.leaving tag), after) := by
  rw [guarded, run_tryCatch, h]
  cases o <;> rfl

theorem run_guarded_of_run {a : α} {after : Context} (h : m.run c = (.ok a, after))
    (tag : String) : (guarded tag m).run c = (.ok a, after) :=
  run_guarded_of_outcome h tag

end Eval

namespace Renderer

variable {r : Renderer}

/-- Whether no handler of a renderer closes frames that it has not opened. -/
def NeverPops (r : Renderer) : Prop :=
  ∀ tag handler, r.registry.get? tag = some handler → ¬ handler.Pops

theorem NeverPops.isContained (hr : r.NeverPops) : r.IsContained :=
  fun tag handler hget hreach => hr tag handler hget (Handler.pops_of_reachesOut hreach)

/-! ## Nodes at a depth -/

/-- The fragments of nodes, one after the other, inside of a number of nested calls. -/
def evaluateAt (r : Renderer) (d : Nat) (ns : List Node) : Eval (List String) :=
  evaluateAll (ns.map (r.atDepth d).meaning)

/-- Outside of all calls, this is what the renderer yields. -/
theorem evaluateAt_zero (r : Renderer) (ns : List Node) : r.evaluateAt 0 ns = r.evaluateNodes ns :=
  rfl

theorem evaluateAt_append (r : Renderer) (d : Nat) (xs ys : List Node) :
    r.evaluateAt d (xs ++ ys) = (do
      let first ← r.evaluateAt d xs
      let rest ← r.evaluateAt d ys
      return first ++ rest) := by
  rw [evaluateAt, List.map_append]
  exact forEach_append _ _ _

theorem evaluateAt_cons (r : Renderer) (d : Nat) (n : Node) (ns : List Node) :
    r.evaluateAt d (n :: ns) = (do
      let first ← ((r.atDepth d).meaning n).evaluate
      let rest ← r.evaluateAt d ns
      return first ++ rest) :=
  rfl

/-- Evaluation leaves the context as it is. -/
theorem run_evaluateAt (hr : r.NeverPops) (d : Nat) (ns : List Node) (c : Context) :
    ((r.evaluateAt d ns).run c).2 = c := by
  have hkeeps : Context.Permission.ownFrame.outside.Holds _ (r.evaluateAt d ns) :=
    holds_evaluateAll (Handler.obeys_children (keeps_handle hr.isContained _) ns)
  exact (hkeeps c).1.eq

/-! ## Caught errors -/

/-- A tag with a handler is a call of the handler. -/
theorem evaluate_denote_of_get? {tag : String} {handler : Handler}
    (hget : r.registry.get? tag = some handler) (inner : Option Handle)
    (attributes : Option Attributes) (ns : List Node) :
    (r.denote inner (.tag tag attributes ns)).evaluate =
      r.call inner handler tag attributes ns := by
  cases attributes <;>
    simp only [denote, tagMeaning, delay_eq, tagFragments, ofName?_of_get? hget, hget]

/-- A tag with a handler is a call of the handler, one deeper. -/
theorem evaluate_atDepth_of_get? {tag : String} {handler : Handler}
    (hget : r.registry.get? tag = some handler) {d : Nat} (hd : d < r.config.limit)
    (attributes : Option Attributes) (ns : List Node) :
    ((r.atDepth d).meaning (.tag tag attributes ns)).evaluate =
      r.call (some (r.atDepth (d + 1))) handler tag attributes ns := by
  rw [atDepth_eq, if_pos hd]
  exact evaluate_denote_of_get? hget _ attributes ns

theorem run_fragments_ofTexts (tag : String) (texts : List String) (c : Context) :
    ((Reply.ofTexts texts).fragments tag).run c = (.ok texts, c) := by
  induction texts with
  | nil => rfl
  | cons s texts ih => exact run_bind_of_run ih _

/-- The fragments of a call whose handler yields texts and leaves the frame of the call as it is. -/
theorem run_call_of_run {h : Handle} {handler : Handler} {attributes : Option Attributes}
    {ns : List Node} {c : Context} {texts : List String}
    (hrun : (handler.call r h (attributes.getD []) ns).run c.push =
      (.ok (.ofTexts texts), c.push)) (tag : String) :
    (r.call (some h) handler tag attributes ns).run c = (.ok texts, c) := by
  have hguarded := run_guarded_of_run hrun tag
  exact (run_bind_of_run (run_inChild_of_run hguarded) _).trans (run_fragments_ofTexts tag texts c)

/-- The failure of a call whose handler fails and leaves the frame of the call as it is. -/
theorem run_call_of_failure {h : Handle} {handler : Handler} {attributes : Option Attributes}
    {ns : List Node} {c : Context} {f : Failure}
    (hrun : (handler.call r h (attributes.getD []) ns).run c.push = (.error f, c.push))
    (tag : String) :
    (r.call (some h) handler tag attributes ns).run c = (.error (f.leaving tag), c) := by
  have hinside := run_inChild_of_run (f := .empty) (run_guarded_of_outcome hrun tag)
  rw [call, run_bind]
  simp only [nested_eq]
  rw [hinside]
  rfl

/-- What comes after a render error that is caught. -/
theorem run_attempt_of_raises {α : Type} {m : Eval α} {c d : Context} {e : RenderError}
    (hm : m.run c = (.error (.render e), d)) : (attempt m).run c = (.ok (.error e), d) := by
  rw [attempt, run_tryCatch, run_bind, hm]
  rfl

/-- A handler that catches the error of its children is as good as the fragments that stand for
the error. -/
theorem run_catching (hr : r.NeverPops) {tag : String}
    (hget : r.registry.get? tag = some .catching) {d : Nat} (hd : d < r.config.limit)
    {ns : List Node} {c : Context} {e : RenderError}
    (he : ((r.evaluateAt (d + 1) ns).run c.push).1 = .error (.render e))
    (attributes : Option Attributes) :
    ((r.atDepth d).meaning (.tag tag attributes ns)).evaluate.run c =
      (.ok ["[", e.typeName, "]"], c) := by
  have hchildren : (r.evaluateAt (d + 1) ns).run c.push = (.error (.render e), c.push) :=
    Prod.ext he (run_evaluateAt hr _ _ _)
  have hcaught : (Handler.caught (r.evaluateAt (d + 1) ns)).run c.push =
      (.ok ["[", e.typeName, "]"], c.push) :=
    run_bind_of_run (run_attempt_of_raises hchildren) _
  rw [evaluate_atDepth_of_get? hget hd]
  exact run_call_of_run (run_bind_of_run hcaught _) tag

/-- Where an error is caught, the nodes around the call are evaluated as if the fragments for the
error stood there. -/
theorem run_evaluateAt_catching (hr : r.NeverPops) {tag : String}
    (hget : r.registry.get? tag = some .catching) {d : Nat} (hd : d < r.config.limit)
    {xs : List Node} {c : Context} {e : RenderError}
    (he : ((r.evaluateAt (d + 1) xs).run c.push).1 = .error (.render e))
    (attributes : Option Attributes) (pre post : List Node) :
    (r.evaluateAt d (pre ++ .tag tag attributes xs :: post)).run c =
      (do
        let first ← r.evaluateAt d pre
        let rest ← r.evaluateAt d post
        return first ++ (["[", e.typeName, "]"] ++ rest) : Eval (List String)).run c := by
  have hcatch := run_catching hr hget hd he attributes
  rw [evaluateAt_append, evaluateAt_cons]
  refine run_bind_congr (run_evaluateAt hr d pre c) fun first => ?_
  simp only [bind_assoc, pure_bind]
  exact run_bind_of_run hcatch _

/-! ## Evaluation with a count -/

/-- With a count, nodes are evaluated as they are inside of that many nested calls, and the count is
back. -/
theorem counts_evaluateNodes (r : Renderer) (d : Nat) (ns : List Node) :
    Counts d Eq (r.evaluateNodes ns) (r.evaluateAt d ns) :=
  pairs_evaluateAll (R := counting d) (W := .same) (.map fun n _ => (r.counts_top d).meaning n)

/-- **Restoration.**  As long as no handler closes frames that it has not opened, an evaluation in
any context and with any count of nested calls leaves the context, with all its frames, and the
count as they are, whether it succeeds or fails; and what is evaluated next comes to what it comes
to by itself.  So when a handler catches the error that its children end with, what stands around
the call is evaluated as if the fragments for the error stood there instead. -/
theorem evaluation_restores (hr : r.NeverPops) (s : Counted) (xs : List Node) :
    ((r.evaluateNodes xs).run s).2 = s ∧
      (∀ ys, (outcome (r.evaluateNodes xs) >>= fun _ => r.evaluateNodes ys).run s =
        (r.evaluateNodes ys).run s) ∧
      ∀ tag attributes e, r.registry.get? tag = some .catching → s.nested < r.config.limit →
        ((r.evaluateNodes xs).run (⟨s.context.push, s.nested + 1⟩ : Counted)).1 =
            .error (.render e) →
          ∀ pre post, (r.evaluateNodes (pre ++ .tag tag attributes xs :: post)).run s =
            (do
              let first ← r.evaluateNodes pre
              let rest ← r.evaluateNodes post
              return first ++ (["[", e.typeName, "]"] ++ rest)).run s := by
  obtain ⟨c, d⟩ := s
  have hback : ((r.evaluateNodes xs).run (⟨c, d⟩ : Counted)).2 = ⟨c, d⟩ := by
    rw [(r.counts_evaluateNodes d xs).run_eq, run_evaluateAt hr]
  refine ⟨hback, fun ys => ?_, fun tag attributes e hget hd he pre post => ?_⟩
  · rw [run_bind, run_outcome, hback]
  · rw [(r.counts_evaluateNodes (d + 1) xs).run_eq] at he
    have haround : Counts d Eq
        (do
          let first ← r.evaluateNodes pre
          let rest ← r.evaluateNodes post
          return first ++ (["[", e.typeName, "]"] ++ rest))
        (do
          let first ← r.evaluateAt d pre
          let rest ← r.evaluateAt d post
          return first ++ (["[", e.typeName, "]"] ++ rest)) :=
      Pairing.andThen (R := counting d) (r.counts_evaluateNodes d pre) fun first =>
        Pairing.andThen (R := counting d) (r.counts_evaluateNodes d post) fun rest =>
          counts_pure rfl
    rw [(r.counts_evaluateNodes d _).run_eq, haround.run_eq,
      run_evaluateAt_catching hr hget hd he attributes pre post]

/-- A renderer with a handler that catches errors and one that binds a name. -/
def attempting : Renderer where
  config := { Config.standard with limit := 2, limit_pos := by decide }
  registry := ⟨[("try", .catching), ("let", .binding "x" (.ok (.text "1")))], by decide⟩
  templates := []

theorem neverPops_attempting : attempting.NeverPops := by
  intro tag handler
  apply Registry.forall_get?
  simp [attempting, Handler.Pops]

/-- In `a (try (let $x $y)) b`, where `y` has no value, the error is caught one deeper. -/
theorem attempting_restores :
    attempting.NeverPops ∧
      ((attempting.evaluateNodes [.tag "let" none [.var "x", .var "y"]]).run
        (⟨.empty, 1⟩ : Counted)).2 = ⟨.empty, 1⟩ ∧
      (attempting.evaluateNodes [.text "a", .tag "try" none [.tag "let" none [.var "x", .var "y"]],
        .text "b"]).run (⟨.empty, 0⟩ : Counted) =
          (.ok ["a", "[", "UndefinedVariableError", "]", "b"], ⟨.empty, 0⟩) := by
  have hdeeper := evaluation_restores neverPops_attempting ⟨.empty, 1⟩
    [.tag "let" none [.var "x", .var "y"]]
  have hcaught := evaluation_restores neverPops_attempting ⟨.empty, 0⟩
    [.tag "let" none [.var "x", .var "y"]]
  refine ⟨neverPops_attempting, hdeeper.1, ?_⟩
  exact (hcaught.2.2 "try" none (.undefinedVariable "y") rfl (by decide) rfl [.text "a"]
    [.text "b"]).trans rfl

end Renderer

end MarkupForms

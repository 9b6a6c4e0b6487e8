import MarkupForms.Proofs.Endings
import MarkupForms.Proofs.Rounds

/-!
# Steps of evaluation

Evaluation goes from one thing to another: from a condition to its operands, from a loop to its body
in the frame of a round, from a handler to the children that it evaluates and the forms that it has
rendered.  Each such step is taken after what comes before it has ended well, and in the context
that this has left.

A render error takes each step back as it is.  Only where a handler catches errors this is
different, and what it evaluates there is no step.

* `EvalOn.Raises` : a computation ends in a render error; what that means for larger ones.
* `Predicate.Evaluates`, `ControlForm.Evaluates`, `Program.Evaluates`, `Handler.Evaluates` : what
  predicates, control forms, programs and handlers evaluate, and where.
* `Predicate.raises_of_evaluates`, `ControlForm.raises_of_evaluates`,
  `Program.raises_of_evaluates`, `Handler.raises_of_evaluates` : they fail with what they evaluate.
-/

namespace MarkupForms

open Eval EvalOn

/-! ## Computations that end in a render error -/

namespace EvalOn

variable {α β : Type} {m : Eval α} {c d : Context} {e : RenderError}

/-- Whether a computation ends in a render error. -/
def Raises (m : Eval α) (c : Context) (e : RenderError) : Prop :=
  (m.run c).1 = .error (.render e)

theorem Raises.bind (h : m.Raises c e) (k : α → Eval β) : (m >>= k).Raises c e := by
  unfold Raises at h ⊢
  rw [run_bind]
  generalize m.run c = x at h
  obtain ⟨o, after⟩ := x
  cases h
  rfl

/-- What follows a computation that ends well. -/
theorem raises_bind_of_ok {a : α} {k : α → Eval β} (hm : m.run c = (.ok a, d))
    (hk : (k a).Raises d e) : (m >>= k).Raises c e := by
  unfold Raises
  rw [run_bind, hm]
  exact hk

theorem Raises.inChild {f : Frame} (h : m.Raises (c.pushFrame f) e) : (inChild f m).Raises c e := by
  unfold Raises
  rw [run_inChild]
  exact h

theorem Raises.within {other : Context} (h : m.Raises other e) : (within other m).Raises c e := by
  unfold Raises
  rw [run_within]
  exact h

theorem Raises.popping {times : Nat} (htimes : times ≤ c.opened.length)
    (h : m.Raises { c with opened := c.opened.drop times } e) : (popping times m).Raises c e := by
  unfold Raises
  rw [run_popping, if_pos htimes]
  exact h

/-- A render error leaves a handler as it is. -/
theorem Raises.guarded (h : m.Raises c e) (tag : String) : (guarded tag m).Raises c e := by
  unfold Raises at h ⊢
  rw [Eval.guarded, run_tryCatch]
  generalize m.run c = x at h
  obtain ⟨o, after⟩ := x
  cases h
  rfl

theorem Raises.joined {m : Eval (List String)} (h : m.Raises c e) : (joined m).Raises c e :=
  h.bind _

/-- An item after items that end well. -/
theorem Raises.forEach {body : β → Eval (List String)} {pre post : List β} {x : β}
    {parts : List String} (hpre : (forEach body pre).run c = (.ok parts, d))
    (hx : (body x).Raises d e) : (forEach body (pre ++ x :: post)).Raises c e := by
  rw [forEach_append]
  apply raises_bind_of_ok hpre
  apply Raises.bind
  rw [Eval.forEach]
  exact hx.bind _

end EvalOn

/-! ## What is evaluated -/

/-- Whether the answer of a handle is a render error. -/
def Handle.Raises (h : Handle) (c : Context) (e : RenderError) (q : Query) : Prop :=
  (h.ask q).Raises c e

/-- The meanings of the values of attributes. -/
def Handle.entries (h : Handle) (attributes : Attributes) : List (String × Meaning) :=
  attributes.map fun a => (a.1, h.meaning a.2)

/-! ## Predicates -/

section

variable {h : Handle} {c d : Context} {e : RenderError} {q : Query}

/-- What a predicate evaluates, and where: the second operand after the first one, and conditions as
long as the answer is not known. -/
inductive Predicate.Evaluates (h : Handle) (c : Context) :
    List Node → Predicate → Query → Context → Prop where
  /-- The first of two operands. -/
  | left {p : Predicate} {a b : Node} (hp : p = .equal ∨ p = .unequal) :
      Evaluates h c [a, b] p (.operand a) c
  /-- The second one. -/
  | right {p : Predicate} {a b : Node} {s : String} {d : Context}
      (hp : p = .equal ∨ p = .unequal) (hleft : (h.meaning a).operand.run c = (.ok s, d)) :
      Evaluates h c [a, b] p (.operand b) d
  /-- The condition of a negation. -/
  | negation {n : Node} : Evaluates h c [n] .negation (.truth n) c
  /-- A condition after some that hold. -/
  | conjunction {pre post : List Node} {n : Node} {d : Context}
      (hpre : (Predicate.allHold (pre.map h.meaning)).run c = (.ok true, d)) :
      Evaluates h c (pre ++ n :: post) .conjunction (.truth n) d
  /-- A condition after some that do not. -/
  | disjunction {pre post : List Node} {n : Node} {d : Context}
      (hpre : (Predicate.someHolds (pre.map h.meaning)).run c = (.ok false, d)) :
      Evaluates h c (pre ++ n :: post) .disjunction (.truth n) d
  /-- The children whose text is compared. -/
  | textEquals {children : List Node} {expected : String} :
      Evaluates h c children (.textEquals expected) (.nodes children) c

theorem Predicate.raises_allHold {pre post : List Meaning} {m : Meaning}
    (hpre : (allHold pre).run c = (.ok true, d)) (hm : m.test.Raises d e) :
    (allHold (pre ++ m :: post)).Raises c e := by
  induction pre generalizing c with
  | nil =>
    obtain ⟨-, rfl⟩ := Prod.mk.inj hpre
    exact hm.bind _
  | cons first pre ih =>
    rw [allHold, run_bind] at hpre
    rw [List.cons_append, allHold]
    rcases hfirst : first.test.run c with ⟨_ | b, after⟩
    · rw [hfirst] at hpre
      cases hpre
    · rw [hfirst] at hpre
      apply raises_bind_of_ok hfirst
      cases b with
      | false => cases hpre
      | true => exact ih hpre

theorem Predicate.raises_someHolds {pre post : List Meaning} {m : Meaning}
    (hpre : (someHolds pre).run c = (.ok false, d)) (hm : m.test.Raises d e) :
    (someHolds (pre ++ m :: post)).Raises c e := by
  induction pre generalizing c with
  | nil =>
    obtain ⟨-, rfl⟩ := Prod.mk.inj hpre
    exact hm.bind _
  | cons first pre ih =>
    rw [someHolds, run_bind] at hpre
    rw [List.cons_append, someHolds]
    rcases hfirst : first.test.run c with ⟨_ | b, after⟩
    · rw [hfirst] at hpre
      cases hpre
    · rw [hfirst] at hpre
      apply raises_bind_of_ok hfirst
      cases b with
      | false => exact ih hpre
      | true => cases hpre

/-- A predicate fails with what it evaluates. -/
theorem Predicate.raises_of_evaluates {p : Predicate} {children : List Node}
    (hstep : p.Evaluates h c children q d) (hq : h.Raises d e q) :
    (p.holds (children.map h.meaning)).Raises c e := by
  cases hstep with
  | left hp =>
    rcases hp with rfl | rfl
    · exact hq.bind _
    · exact (hq.bind _).bind _
  | @right _ a b _ _ hp hleft =>
    have hsame (form : String) :
        (sameOperands form [h.meaning a, h.meaning b]).Raises c e := by
      apply raises_bind_of_ok hleft
      exact hq.bind _
    rcases hp with rfl | rfl
    · exact hsame "eq"
    · exact (hsame "ne").bind _
  | negation => exact hq.bind _
  | conjunction hpre =>
    rw [List.map_append, List.map_cons, holds, if_neg (by simp)]
    exact raises_allHold hpre hq
  | disjunction hpre =>
    rw [List.map_append, List.map_cons, holds, if_neg (by simp)]
    exact raises_someHolds hpre hq
  | textEquals => exact hq.joined.bind _

/-! ## Control forms -/

/-- A case of a switch as it is written. -/
structure Case where
  /-- Its attributes, which mean nothing. -/
  attributes : Option Attributes
  /-- The label. -/
  label : Node
  /-- The content. -/
  body : List Node

/-- The node of a case. -/
def Case.node (k : Case) : Node :=
  .tag "case" k.attributes (k.label :: k.body)

/-- The parts of a case. -/
def Case.arm (h : Handle) (k : Case) : Arm :=
  ⟨(h.meaning k.label).operand, evaluateAll (k.body.map h.meaning)⟩

/-- The labels of cases are evaluated, and none of them is the value of the switch. -/
inductive Case.AllDiffer (h : Handle) (value : String) : List Case → Context → Context → Prop where
  /-- No case. -/
  | nil {c : Context} : AllDiffer h value [] c c
  /-- A case with another label, and more cases. -/
  | cons {k : Case} {ks : List Case} {label : String} {c d after : Context}
      (hlabel : (h.meaning k.label).operand.run c = (.ok label, d)) (hne : label ≠ value)
      (hks : AllDiffer h value ks d after) : AllDiffer h value (k :: ks) c after

/-- What a control form evaluates, and where: the branch that its condition selects, its body in the
frame of each round, and the content of the first case whose label agrees. -/
inductive ControlForm.Evaluates (h : Handle) (c : Context) :
    Option Attributes → List Node → ControlForm → Query → Context → Prop where
  /-- The condition of a choice. -/
  | condition {attributes : Option Attributes} {n yes : Node} {rest : List Node}
      (hrest : rest.length ≤ 1) :
      Evaluates h c attributes (n :: yes :: rest) .choice (.truth n) c
  /-- The first branch, if the condition holds. -/
  | yes {attributes : Option Attributes} {n yes : Node} {rest : List Node} {d : Context}
      (hrest : rest.length ≤ 1) (htest : (h.meaning n).test.run c = (.ok true, d)) :
      Evaluates h c attributes (n :: yes :: rest) .choice (.node yes) d
  /-- The second branch, if it does not. -/
  | no {attributes : Option Attributes} {n yes no : Node} {d : Context}
      (htest : (h.meaning n).test.run c = (.ok false, d)) :
      Evaluates h c attributes [n, yes, no] .choice (.node no) d
  /-- The start of a range. -/
  | start {attributes : Attributes} {children : List Node} {start stop : Node} {name : String}
      {d : Context} (hstart : attributes.lookup "min" = some start)
      (hstop : attributes.lookup "max" = some stop)
      (hname : (Control.requiredName (h.entries attributes) "var").run c = (.ok name, d)) :
      Evaluates h c (some attributes) children .loop (.text start false) d
  /-- The stop of a range. -/
  | stop {attributes : Attributes} {children : List Node} {start stop : Node} {name : String}
      {first : Int} {d₁ d : Context} (hstart : attributes.lookup "min" = some start)
      (hstop : attributes.lookup "max" = some stop)
      (hname : (Control.requiredName (h.entries attributes) "var").run c = (.ok name, d₁))
      (hfirst : (Control.integer "min" (h.meaning start)).run d₁ = (.ok first, d)) :
      Evaluates h c (some attributes) children .loop (.text stop false) d
  /-- The step of a range. -/
  | step {attributes : Attributes} {children : List Node} {start stop step : Node} {name : String}
      {first last : Int} {d₁ d₂ d : Context} (hstart : attributes.lookup "min" = some start)
      (hstop : attributes.lookup "max" = some stop) (hstep : attributes.lookup "step" = some step)
      (hname : (Control.requiredName (h.entries attributes) "var").run c = (.ok name, d₁))
      (hfirst : (Control.integer "min" (h.meaning start)).run d₁ = (.ok first, d₂))
      (hlast : (Control.integer "max" (h.meaning stop)).run d₂ = (.ok last, d)) :
      Evaluates h c (some attributes) children .loop (.text step false) d
  /-- The body of a loop in the frame of a round, after the rounds before it. -/
  | round {attributes : Option Attributes} {children body : List Node} {parts : List String}
      {pre post : List (List (String × Value))} {bindings : List (String × Value)}
      {d₁ d : Context}
      (hplan : (Control.plan (attributes.map h.entries) (children.map h.meaning)).run c =
        (.ok ⟨pre ++ bindings :: post, body.map h.meaning⟩, d₁))
      (hpre : (Control.Plan.run ⟨pre, body.map h.meaning⟩).run d₁ = (.ok parts, d)) :
      Evaluates h c attributes children .loop (.nodes body) (d.pushFrame (.ofList bindings))
  /-- The value of a switch. -/
  | scrutinee {attributes : Option Attributes} {n : Node} {cases : List Case} :
      Evaluates h c attributes (n :: cases.map Case.node) .switch (.operand n) c
  /-- A label, after labels that do not agree. -/
  | label {attributes : Option Attributes} {n : Node} {pre post : List Case} {k : Case}
      {value : String} {d₁ d : Context} (hvalue : (h.meaning n).operand.run c = (.ok value, d₁))
      (hpre : Case.AllDiffer h value pre d₁ d) :
      Evaluates h c attributes (n :: (pre ++ k :: post).map Case.node) .switch
        (.operand k.label) d
  /-- The content of the first case whose label agrees. -/
  | selected {attributes : Option Attributes} {n : Node} {pre post : List Case} {k : Case}
      {value : String} {d₁ d₂ d : Context}
      (hvalue : (h.meaning n).operand.run c = (.ok value, d₁))
      (hpre : Case.AllDiffer h value pre d₁ d₂)
      (hlabel : (h.meaning k.label).operand.run d₂ = (.ok value, d)) :
      Evaluates h c attributes (n :: (pre ++ k :: post).map Case.node) .switch (.nodes k.body) d

/-- Whether a handle knows the parts of cases. -/
def Handle.ReadsCases (h : Handle) : Prop :=
  ∀ k : Case, (h.meaning k.node).node = k.node ∧ (h.meaning k.node).arm = some (k.arm h)

theorem Handle.lookup_entries (h : Handle) (attributes : Attributes) (key : String) :
    (h.entries attributes).lookup key = (attributes.lookup key).map h.meaning := by
  induction attributes with
  | nil => rfl
  | cons a rest ih =>
    rw [Handle.entries, List.map_cons, List.lookup_cons, List.lookup_cons]
    cases key == a.1 with
    | true => rfl
    | false => exact ih

theorem Control.switchArms_eq (hh : h.ReadsCases) (cases : List Case) :
    switchArms ((cases.map Case.node).map h.meaning) = pure (cases.map (Case.arm h)) := by
  induction cases with
  | nil => rfl
  | cons k cases ih =>
    have hfirst : switchArm (h.meaning k.node) = pure (k.arm h) := by
      rw [switchArm, (hh k).1, (hh k).2]
      rfl
    rw [List.map_cons, List.map_cons, switchArms, hfirst, ih]
    rfl

theorem Control.raises_select {value : String} {pre post : List Case} {k : Case}
    (hpre : Case.AllDiffer h value pre c d)
    (hrest : (select value (k.arm h :: post.map (Case.arm h))).Raises d e) :
    (select value ((pre ++ k :: post).map (Case.arm h))).Raises c e := by
  induction hpre with
  | nil => exact hrest
  | cons hlabel hne _ ih =>
    rw [List.cons_append, List.map_cons, select]
    apply raises_bind_of_ok hlabel
    rw [if_neg hne]
    exact ih hrest

theorem Control.raises_switch (hh : h.ReadsCases) {n : Node} {cases : List Case} {value : String}
    (hvalue : (h.meaning n).operand.run c = (.ok value, d))
    (hselect : (select value (cases.map (Case.arm h))).Raises d e) :
    (switch ((n :: cases.map Case.node).map h.meaning)).Raises c e := by
  rw [List.map_cons, switch, switchArms_eq hh, pure_bind]
  exact raises_bind_of_ok hvalue hselect

/-- A loop over a range asks for its name first. -/
theorem Control.raises_range {attributes : Attributes} {children : List Node} {start stop : Node}
    {name : String} (hstart : attributes.lookup "min" = some start)
    (hstop : attributes.lookup "max" = some stop)
    (hname : (requiredName (h.entries attributes) "var").run c = (.ok name, d))
    (hrest : (do
      let first ← integer "min" (h.meaning start)
      let last ← integer "max" (h.meaning stop)
      let step ← match (h.entries attributes).lookup "step" with
        | none => pure 1
        | some m => integer "step" m
      if step ≤ 0 then Eval.malformed "for" (.badStep step)
      else overIntegers name (children.map h.meaning) step (stepCount first last step) first :
        Eval (List String)).Raises d e) :
    (Control.evaluate .loop ((some attributes).map h.entries) (children.map h.meaning)).Raises c
      e := by
  rw [Option.map_some]
  show (attributeLoop (h.entries attributes) (children.map h.meaning)).Raises c e
  rw [attributeLoop, h.lookup_entries, h.lookup_entries, hstart, hstop]
  unfold rangeLoop
  refine raises_bind_of_ok hname ?_
  cases hstep : (h.entries attributes).lookup "step" with
  | none | some m =>
    rw [hstep] at hrest
    exact hrest

/-- A control form fails with what it evaluates. -/
theorem ControlForm.raises_of_evaluates (hh : h.ReadsCases) {form : ControlForm}
    {attributes : Option Attributes} {children : List Node}
    (hstep : form.Evaluates h c attributes children q d) (hq : h.Raises d e q) :
    (Control.evaluate form (attributes.map h.entries) (children.map h.meaning)).Raises c e := by
  cases hstep with
  | @condition _ _ _ rest hrest =>
    match rest, hrest with
    | [], _ | [_], _ => exact hq.bind _
  | @yes _ _ _ rest _ hrest htest =>
    match rest, hrest with
    | [], _ | [_], _ => exact raises_bind_of_ok htest hq
  | no htest => exact raises_bind_of_ok htest hq
  | start hstart hstop hname =>
    apply Control.raises_range hstart hstop hname
    exact (hq.bind _).bind _
  | stop hstart hstop hname hfirst =>
    apply Control.raises_range hstart hstop hname
    apply raises_bind_of_ok hfirst
    exact (hq.bind _).bind _
  | step hstart hstop hstep hname hfirst hlast =>
    apply Control.raises_range hstart hstop hname
    apply raises_bind_of_ok hfirst
    apply raises_bind_of_ok hlast
    rw [h.lookup_entries, hstep]
    exact (hq.bind _).bind _
  | round hplan hpre =>
    rw [Control.evaluate, Control.loop_eq_plan]
    apply raises_bind_of_ok hplan
    exact Raises.forEach hpre hq.inChild
  | scrutinee =>
    rw [Control.evaluate, List.map_cons, Control.switch, Control.switchArms_eq hh, pure_bind]
    exact hq.bind _
  | label hvalue hpre =>
    apply Control.raises_switch hh hvalue
    apply Control.raises_select hpre
    exact hq.bind _
  | selected hvalue hpre hlabel =>
    apply Control.raises_switch hh hvalue
    apply Control.raises_select hpre
    apply raises_bind_of_ok hlabel
    rw [if_pos rfl]
    exact hq

/-! ## Handlers -/

/-- What a program evaluates, and where: what it asks, after what it has done before.  What it does
in an attempt is not among them. -/
inductive Program.Evaluates (h : Handle) {nodes : List Node} {forms : List Form} :
    Program nodes forms → Context → Query → Context → Prop where
  /-- A question. -/
  | asking {q : Query} {hq : q.IsAbout nodes forms} {next : q.Answer → Program nodes forms}
      {c : Context} : Evaluates h (.ask q hq next) c q c
  /-- After the answer. -/
  | answered {q q' : Query} {hq : q.IsAbout nodes forms} {next : q.Answer → Program nodes forms}
      {answer : q.Answer} {c d d' : Context} (hask : (h.ask q).run c = (.ok answer, d))
      (hstep : Evaluates h (next answer) d q' d') : Evaluates h (.ask q hq next) c q' d'
  /-- After a look at the context. -/
  | looked {next : Context → Program nodes forms} {q : Query} {c d : Context}
      (hstep : Evaluates h (next c) c q d) : Evaluates h (.look next) c q d
  /-- After a name is bound. -/
  | bound {name : String} {data : Data} {next : Program nodes forms} {q : Query}
      {c d d' : Context} (hbind : (Eval.bindData name data).run c = (.ok (), d))
      (hstep : Evaluates h next d q d') : Evaluates h (.bind name data next) c q d'
  /-- In a new frame. -/
  | opened {f : Frame} {body : Program nodes forms} {next : List Part → Program nodes forms}
      {q : Query} {c d : Context} (hstep : Evaluates h body (c.pushFrame f) q d) :
      Evaluates h (.inChild f body next) c q d
  /-- After the frame is closed. -/
  | closed {f : Frame} {body : Program nodes forms} {next : List Part → Program nodes forms}
      {parts : List Part} {q : Query} {c d d' : Context}
      (hbody : (Eval.inChild f (body.run h)).run c = (.ok parts, d))
      (hstep : Evaluates h (next parts) d q d') : Evaluates h (.inChild f body next) c q d'
  /-- In another context. -/
  | elsewhere {other : Context} {body : Program nodes forms}
      {next : List Part → Program nodes forms} {q : Query} {c d : Context}
      (hstep : Evaluates h body other q d) : Evaluates h (.within other body next) c q d
  /-- Back from another context. -/
  | returned {other : Context} {body : Program nodes forms}
      {next : List Part → Program nodes forms} {parts : List Part} {q : Query} {c d d' : Context}
      (hbody : (Eval.within other (body.run h)).run c = (.ok parts, d))
      (hstep : Evaluates h (next parts) d q d') : Evaluates h (.within other body next) c q d'
  /-- After an attempt. -/
  | attempted {body : Program nodes forms}
      {next : Except RenderError (List Part) → Program nodes forms}
      {result : Except RenderError (List Part)} {q : Query} {c d d' : Context}
      (hbody : (Eval.attempt (body.run h)).run c = (.ok result, d))
      (hstep : Evaluates h (next result) d q d') : Evaluates h (.attempt body next) c q d'

/-- A program fails with what it evaluates. -/
theorem Program.raises_of_evaluates {nodes : List Node} {forms : List Form}
    {p : Program nodes forms} (hstep : p.Evaluates h c q d) (hq : h.Raises d e q) :
    (p.run h).Raises c e := by
  induction hstep with
  | asking => exact Raises.bind hq _
  | answered hask _ ih => exact raises_bind_of_ok hask (ih hq)
  | looked _ ih => exact raises_bind_of_ok rfl (ih hq)
  | bound hbind _ ih => exact raises_bind_of_ok hbind (ih hq)
  | opened _ ih => exact (Raises.inChild (ih hq)).bind _
  | closed hbody _ ih => exact raises_bind_of_ok hbody (ih hq)
  | elsewhere _ ih => exact (Raises.within (ih hq)).bind _
  | returned hbody _ ih => exact raises_bind_of_ok hbody (ih hq)
  | attempted hbody _ ih => exact raises_bind_of_ok hbody (ih hq)

/-- What a handler evaluates, and where: its children once it has bound its names, the values of
its attributes, the forms that it has rendered, and whatever a program asks.  What is evaluated
where errors are caught is not among them. -/
inductive Handler.Evaluates (r : Renderer) (h : Handle) (attributes : Attributes)
    (children : List Node) (c : Context) : Handler → Query → Context → Prop where
  /-- What a predicate evaluates. -/
  | predicate {p : Predicate} {q : Query} {d : Context}
      (hstep : p.Evaluates h c children q d) :
      Evaluates r h attributes children c (.predicate p) q d
  /-- The children. -/
  | content {isObject : Bool} :
      Evaluates r h attributes children c (.content isObject) (.nodes children) c
  /-- The children, which are evaluated once. -/
  | repeating {times : Nat} :
      Evaluates r h attributes children c (.repeating times) (.nodes children) c
  /-- The children after a name is bound. -/
  | binding {name : String} {offer : Offered Data} {d : Context}
      (hbind : (Handler.bindOffered name offer).run c = (.ok (), d)) :
      Evaluates r h attributes children c (.binding name offer) (.nodes children) d
  /-- The children after a name is bound in a new frame. -/
  | pushing {name : String} {offer : Offered Data} {d : Context}
      (hbind : (Handler.bindOffered name offer).run (c.pushFrame .empty) = (.ok (), d)) :
      Evaluates r h attributes children c (.pushing name offer) (.nodes children) d
  /-- The children with some frames closed. -/
  | popping {times : Nat} {bound : Option (String × Offered Data)} {d : Context}
      (htimes : times ≤ c.opened.length)
      (hbind : (Handler.bindIf bound).run { c with opened := c.opened.drop times } = (.ok (), d)) :
      Evaluates r h attributes children c (.popping times bound) (.nodes children) d
  /-- The value of an attribute that is bound to it. -/
  | scopeValue {pre post : Attributes} {key : String} {n : Node}
      {pairs : List (String × String)} {d : Context} (hsplit : attributes = pre ++ (key, n) :: post)
      (hpre : (Handler.attributeTexts h pre).run c = (.ok pairs, d)) :
      Evaluates r h attributes children c .attributeScope (.text n true) d
  /-- The children with the attributes bound to their values. -/
  | scopeContent {pairs : List (String × String)} {d : Context}
      (hpairs : (Handler.attributeTexts h attributes).run c = (.ok pairs, d)) :
      Evaluates r h attributes children c .attributeScope (.nodes children)
        (d.pushFrame (.ofList ((Handler.scalars pairs).map fun b => (Context.normalize b.1, b.2))))
  /-- The children in a context of their own. -/
  | fresh {offer : Offered Pairs} {other : Context}
      (hoffer : (offer >>= Context.ofPairs?) = .ok other) :
      Evaluates r h attributes children c (.fresh offer) (.nodes children) other
  /-- The fragments of a child, after the children before it. -/
  | texts {pre post : List Node} {n : Node} {texts : List String} {d : Context}
      (hsplit : children = pre ++ n :: post)
      (hpre : (Handler.eachText Meaning.text (pre.map h.meaning)).run c = (.ok texts, d)) :
      Evaluates r h attributes children c .texts (.node n) d
  /-- The text of a child as an operand, after the children before it. -/
  | operands {pre post : List Node} {n : Node} {texts : List String} {d : Context}
      (hsplit : children = pre ++ n :: post)
      (hpre : (Handler.eachText Meaning.operand (pre.map h.meaning)).run c = (.ok texts, d)) :
      Evaluates r h attributes children c .operands (.operand n) d
  /-- The truth value of a child, after the children before it. -/
  | tests {pre post : List Node} {n : Node} {letters : List String} {d : Context}
      (hsplit : children = pre ++ n :: post)
      (hpre : (Handler.eachText (fun m => do return if ← m.test then "T" else "F")
        (pre.map h.meaning)).run c = (.ok letters, d)) :
      Evaluates r h attributes children c .tests (.truth n) d
  /-- The value of an attribute. -/
  | attributeValue {key : String} {n : Node} (hget : attributes.get? key = some n) :
      Evaluates r h attributes children c (.attributeValue key) (.text n true) c
  /-- A template that sees no names. -/
  | isolated {name : String} {t : Template} (ht : r.templates.lookup name = some t) :
      Evaluates r h attributes children c (.template name .isolated) (.rendering t.root) .empty
  /-- A template that sees the names of the handler. -/
  | shared {name : String} {t : Template} (ht : r.templates.lookup name = some t) :
      Evaluates r h attributes children c (.template name .shared) (.rendering t.root) c
  /-- The value of an attribute that a template sees. -/
  | passedValue {name : String} {pre post : Attributes} {key : String} {n : Node}
      {pairs : List (String × String)} {d : Context} (hsplit : attributes = pre ++ (key, n) :: post)
      (hpre : (Handler.attributeTexts h pre).run c = (.ok pairs, d)) :
      Evaluates r h attributes children c (.template name .attributes) (.text n true) d
  /-- The children that a template sees as its body. -/
  | passedContent {name : String} {pairs : List (String × String)} {d : Context}
      (hpairs : (Handler.attributeTexts h attributes).run c = (.ok pairs, d)) :
      Evaluates r h attributes children c (.template name .attributes) (.nodes children) d
  /-- A template that sees the attributes and the body. -/
  | passed {name : String} {t : Template} {other d : Context}
      (hother : (Handler.attributeContext h attributes children).run c = (.ok other, d))
      (ht : r.templates.lookup name = some t) :
      Evaluates r h attributes children c (.template name .attributes) (.rendering t.root) other
  /-- A text that is read and rendered. -/
  | parsing {s : String} {form : Form} (hread : Form.ofText? s = .ok form) :
      Evaluates r h attributes children c (.parsing s) (.rendering form) c
  /-- What a program asks. -/
  | program {p : Routine} {q : Query} {d : Context}
      (hstep : (p.program attributes children).Evaluates h c q d) :
      Evaluates r h attributes children c (.program p) q d

theorem Handler.raises_attributeTexts {pre post : Attributes} {key : String} {n : Node}
    {pairs : List (String × String)} (hpre : (attributeTexts h pre).run c = (.ok pairs, d))
    (hn : ((h.meaning n).attributeText true).Raises d e) :
    (attributeTexts h (pre ++ (key, n) :: post)).Raises c e := by
  induction pre generalizing c pairs with
  | nil =>
    obtain ⟨-, rfl⟩ := Prod.mk.inj hpre
    exact hn.bind _
  | cons a pre ih =>
    obtain ⟨key', m⟩ := a
    rw [attributeTexts, run_bind] at hpre
    rw [List.cons_append, attributeTexts]
    rcases hfirst : ((h.meaning m).attributeText true).run c with ⟨_ | text, after⟩
    · rw [hfirst] at hpre
      cases hpre
    · rw [hfirst] at hpre
      apply raises_bind_of_ok hfirst
      apply Raises.bind
      rcases hrest : (attributeTexts h pre).run after with ⟨_ | rest, last⟩
      · simp only [run_bind, hrest] at hpre
        cases hpre
      · simp only [run_bind, hrest] at hpre
        obtain ⟨-, rfl⟩ := Prod.mk.inj hpre
        exact ih hrest

theorem Handler.raises_eachText {f : Meaning → Eval String} {pre post : List Node} {n : Node}
    {texts : List String} (hpre : (eachText f (pre.map h.meaning)).run c = (.ok texts, d))
    (hn : (f (h.meaning n)).Raises d e) :
    (eachText f ((pre ++ n :: post).map h.meaning)).Raises c e := by
  rw [List.map_append, List.map_cons]
  exact Raises.forEach hpre (hn.bind _)

/-- A handler fails with what it evaluates. -/
theorem Handler.raises_of_evaluates {r : Renderer} {handler : Handler} {attributes : Attributes}
    {children : List Node} (hstep : handler.Evaluates r h attributes children c q d)
    (hq : h.Raises d e q) : (handler.call r h attributes children).Raises c e := by
  have hcontent {d : Context} (hq : (evaluateAll (children.map h.meaning)).Raises d e) :
      (call.content h children).Raises d e := hq.bind _
  cases hstep with
  | predicate hstep =>
    rw [call]
    exact (Predicate.raises_of_evaluates hstep hq).bind _
  | content =>
    rw [call]
    exact hcontent hq
  | repeating =>
    rw [call]
    exact hq.bind _
  | binding hbind =>
    rw [call]
    exact raises_bind_of_ok hbind (hcontent hq)
  | pushing hbind =>
    rw [call]
    apply Raises.inChild
    exact raises_bind_of_ok hbind (hcontent hq)
  | popping htimes hbind =>
    rw [call]
    apply Raises.popping htimes
    exact raises_bind_of_ok hbind (hcontent hq)
  | scopeValue hsplit hpre =>
    rw [call, hsplit]
    exact (raises_attributeTexts hpre hq).bind _
  | scopeContent hpairs =>
    rw [call]
    apply raises_bind_of_ok hpairs
    exact Raises.inChild (hcontent hq)
  | fresh hoffer =>
    rw [call, accept, hoffer]
    exact Raises.within (hcontent hq)
  | texts hsplit hpre =>
    rw [call, hsplit]
    exact (raises_eachText hpre hq.joined).bind _
  | operands hsplit hpre =>
    rw [call, hsplit]
    exact (raises_eachText hpre hq).bind _
  | tests hsplit hpre =>
    rw [call, hsplit]
    exact (raises_eachText hpre (hq.bind _)).bind _
  | attributeValue hget =>
    rw [call, hget]
    exact hq.bind _
  | isolated ht =>
    rw [call, renderNamed, ht]
    exact (Raises.within hq).bind _
  | shared ht =>
    rw [call, renderNamed, ht]
    exact hq.bind _
  | passedValue hsplit hpre =>
    rw [call, attributeContext, hsplit]
    exact ((raises_attributeTexts hpre hq).bind _).bind _
  | passedContent hpairs =>
    rw [call, attributeContext]
    apply Raises.bind
    apply raises_bind_of_ok hpairs
    exact hq.joined.bind _
  | passed hother ht =>
    rw [call]
    apply raises_bind_of_ok hother
    rw [renderNamed, ht]
    exact (Raises.within hq).bind _
  | parsing hread =>
    rw [call, hread]
    exact hq.bind _
  | program hstep => exact (Program.raises_of_evaluates hstep hq).bind _

end

end MarkupForms

import MarkupForms.Proofs.Switches

/-!
# Negated conditions

A conjunction asks its conditions in order up to the first one that does not hold, a disjunction up
to the first one that holds.  So the negation of a conjunction asks the same conditions, in frames
of the same depth, as the disjunction of the negations, and both come to the same; the other way
round as well.  The first condition that fails ends both, in the same error.

Only one thing tells them apart.  A node that cannot be a condition is shown in the error that says
so, and a node with a hole cannot be shown.  This is a fault, and it leaves the innermost of the two
predicates as an error that names it: the conjunction in one case, the negation in the other.

Conjunctions and disjunctions are treated as one here, with the truth value that lets them go on.

* `Predicate.askWhile` : what conjunctions and disjunctions do with their conditions.
* `Predicate.firstOther_negated` : the outcome that decides, when all outcomes are negated.
* `Renderer.refused_of_fault` : only a node with a hole that is no condition ends in a fault.
* `Renderer.eq_or_dividedBy` : one law for both, up to holes.
* `Renderer.negation_dualizes` : both laws.
-/

namespace MarkupForms

open Eval

/-! ## The outcome that decides -/

namespace Predicate

/-- The first of some outcomes that is not a given truth value, or else this truth value. -/
def firstOther (b : Bool) : List (Except Failure Bool) → Except Failure Bool
  | [] => .ok b
  | .error f :: _ => .error f
  | .ok a :: os => if a = b then firstOther b os else .ok a

/-- The outcome of a negation, by the outcome of its condition. -/
def negated (o : Except Failure Bool) : Except Failure Bool :=
  o.map not

/-- Negation moves the outcome that decides to the other truth value. -/
theorem firstOther_negated (b : Bool) (os : List (Except Failure Bool)) :
    firstOther (!b) (os.map negated) = negated (firstOther b os) := by
  induction os with
  | nil => rfl
  | cons o os ih =>
    rw [List.map_cons]
    cases o with
    | error f => rfl
    | ok a =>
      by_cases hab : a = b
      · subst hab
        simpa [negated, Except.map, firstOther] using ih
      · have hnot : (!a) ≠ !b := by simpa using hab
        simp [negated, Except.map, firstOther, hab]

/-- A failure that ends a row of outcomes leaves a handler like each of them. -/
theorem firstOther_leaving (b : Bool) (tag : String) (os : List (Except Failure Bool)) :
    firstOther b (os.map (Except.mapError (Failure.leaving tag))) =
      (firstOther b os).mapError (Failure.leaving tag) := by
  induction os with
  | nil => rfl
  | cons o os ih =>
    rw [List.map_cons]
    cases o with
    | error f => rfl
    | ok a =>
      by_cases hab : a = b
      · simpa [Except.mapError, firstOther, hab] using ih
      · simp [Except.mapError, firstOther, hab]

/-- A failure that decides is the outcome of a condition. -/
theorem mem_of_firstOther {b : Bool} {os : List (Except Failure Bool)} {f : Failure}
    (h : firstOther b os = .error f) : .error f ∈ os := by
  induction os with
  | nil => cases h
  | cons o os ih =>
    cases o with
    | error g =>
      cases h
      exact List.mem_cons_self
    | ok a =>
      by_cases hab : a = b
      · rw [firstOther, if_pos hab] at h
        exact List.mem_cons_of_mem _ (ih h)
      · rw [firstOther, if_neg hab] at h
        cases h

/-! ## Conjunctions and disjunctions -/

/-- The predicate that goes on as long as its conditions have a given truth value. -/
def junction (b : Bool) : Predicate :=
  if b then .conjunction else .disjunction

/-- The name of this predicate in the library. -/
def junctionName (b : Bool) : String :=
  if b then "and" else "or"

/-- Ask conditions in order, as long as they have a given truth value. -/
def askWhile (b : Bool) : List Meaning → Eval Bool
  | [] => pure b
  | m :: ms => do
      let a ← m.test
      if a = b then askWhile b ms else pure a

variable {c : Context} {ms : List Meaning}

theorem allHold_eq (ms : List Meaning) : allHold ms = askWhile true ms := by
  induction ms with
  | nil => rfl
  | cons m ms ih =>
    rw [allHold, askWhile, ih]
    refine congrArg _ (funext fun a => ?_)
    cases a <;> rfl

theorem someHolds_eq (ms : List Meaning) : someHolds ms = askWhile false ms := by
  induction ms with
  | nil => rfl
  | cons m ms ih =>
    rw [someHolds, askWhile, ih]
    refine congrArg _ (funext fun a => ?_)
    cases a <;> rfl

theorem holds_junction (b : Bool) (hms : ms ≠ []) : (junction b).holds ms = askWhile b ms := by
  have hsome : ms.isEmpty = false := by simpa using hms
  cases b with
  | true => simp [junction, holds, hsome, allHold_eq]
  | false => simp [junction, holds, hsome, someHolds_eq]

/-- What conditions are asked for comes to the first outcome that decides, as long as they leave
their context as it is. -/
theorem run_askWhile (b : Bool) (h : ∀ m ∈ ms, (m.test.run c).2 = c) :
    (askWhile b ms).run c = (firstOther b (ms.map fun m => (m.test.run c).1), c) := by
  induction ms with
  | nil => rfl
  | cons m ms ih =>
    have hrest := ih fun n hn => h n (List.mem_cons_of_mem m hn)
    have hfirst : m.test.run c = ((m.test.run c).1, c) := Prod.ext rfl (h m List.mem_cons_self)
    rw [askWhile, run_bind, hfirst, List.map_cons]
    cases (m.test.run c).1 with
    | error f => rfl
    | ok a =>
      by_cases hab : a = b
      · simpa [firstOther, hab] using hrest
      · simp [firstOther, hab]

end Predicate

/-! ## Conditions -/

/-- What leaves a handler is no fault any more. -/
theorem Eval.guarded_ne_fault {α : Type} (tag : String) (m : Eval α) (c : Context) (f : Fault) :
    ((guarded tag m).run c).1 ≠ .error (.fault f) := by
  rcases hrun : m.run c with ⟨(e | g) | a, after⟩ <;>
    rw [run_guarded_of_outcome hrun] <;> exact fun h => by cases h

namespace Node

/-- The condition `(not n)`. -/
def negation (n : Node) : Node :=
  .tag "not" none [n]

/-- The condition `(and n ...)` or `(or n ...)`. -/
def junction (b : Bool) (ns : List Node) : Node :=
  .tag (Predicate.junctionName b) none ns

end Node

namespace Renderer

variable {r : Renderer} {room : Nat} {c : Context}

/-- A condition leaves its context as it is. -/
theorem context_test (hr : r.NeverPops) (room : Nat) (n : Node) (c : Context) :
    (((r.handle room).meaning n).test.run c).2 = c :=
  (((keeps_handle hr.isContained room).meaning n).test c).1.eq

/-- The outcomes of nodes as conditions. -/
def outcomes (r : Renderer) (room : Nat) (c : Context) (ns : List Node) :
    List (Except Failure Bool) :=
  ns.map fun n => (((r.handle room).meaning n).test.run c).1

/-- A form with a predicate asks the predicate in a frame of its own, and a fault leaves it. -/
theorem run_test_of_holds {tag : String} {p : Predicate} (hp : r.registry.predicate? tag = some p)
    {ns : List Node} {o : Except Failure Bool}
    (h : (p.holds (ns.map (r.handle room).meaning)).run c.push = (o, c.push)) :
    ((r.handle room).meaning (.tag tag none ns)).test.run c =
      (o.mapError (Failure.leaving tag), c) := by
  rw [test_condition hp]
  exact run_inChild_of_run (run_guarded_of_outcome h tag)

theorem run_negation (hr : r.NeverPops) (hnot : r.registry.predicate? "not" = some .negation)
    (room : Nat) (n : Node) (c : Context) :
    ((r.handle room).meaning n.negation).test.run c =
      ((Predicate.negated (((r.handle room).meaning n).test.run c.push).1).mapError
        (Failure.leaving "not"), c) := by
  refine run_test_of_holds hnot ?_
  show (((r.handle room).meaning n).test >>= fun b => pure !b).run c.push = _
  have hleaves := context_test hr room n c.push
  rw [run_bind]
  rcases hrun : ((r.handle room).meaning n).test.run c.push with ⟨o, after⟩
  obtain rfl : after = c.push := by rw [hrun] at hleaves; exact hleaves
  cases o <;> rfl

/-- A conjunction or a disjunction comes to the first outcome that decides. -/
theorem run_junction (hr : r.NeverPops) {b : Bool}
    (hb : r.registry.predicate? (Predicate.junctionName b) = some (Predicate.junction b))
    (room : Nat) {ns : List Node} (hns : ns ≠ []) (c : Context) :
    ((r.handle room).meaning (.junction b ns)).test.run c =
      ((Predicate.firstOther b (r.outcomes room c.push ns)).mapError
        (Failure.leaving (Predicate.junctionName b)), c) := by
  have hleaves : ∀ m ∈ ns.map (r.handle room).meaning, (m.test.run c.push).2 = c.push := by
    intro m hm
    obtain ⟨n, -, rfl⟩ := List.mem_map.1 hm
    exact context_test hr room n c.push
  refine run_test_of_holds hb ?_
  rw [Predicate.holds_junction b (by simpa using hns), Predicate.run_askWhile b hleaves,
    List.map_map]
  rfl

/-- The outcome that decides among negations is the negation of the one that decides. -/
theorem firstOther_outcomes_negation (hr : r.NeverPops)
    (hnot : r.registry.predicate? "not" = some .negation) (room : Nat) (b : Bool) (ns : List Node)
    (c : Context) :
    Predicate.firstOther (!b) (r.outcomes room c (ns.map .negation)) =
      (Predicate.negated (Predicate.firstOther b (r.outcomes room c.push ns))).mapError
        (Failure.leaving "not") := by
  have houtcomes : r.outcomes room c (ns.map .negation) =
      ((r.outcomes room c.push ns).map Predicate.negated).map
        (Except.mapError (Failure.leaving "not")) := by
    simp only [outcomes, List.map_map]
    refine List.map_congr_left fun n _ => ?_
    exact congrArg Prod.fst (run_negation hr hnot room n c)
  rw [houtcomes, Predicate.firstOther_leaving, Predicate.firstOther_negated]

/-! ## Nodes that are no conditions -/

/-- Whether a node is a form that may be a condition. -/
def IsCondition (r : Renderer) : Node → Prop
  | .tag tag _ _ => r.registry.predicate? tag ≠ none
  | _ => False

theorem test_of_not_isCondition {n : Node} (hn : ¬ r.IsCondition n) (room : Nat) :
    ((r.handle room).meaning n).test = Eval.invalidCondition n := by
  cases n with
  | text s => rw [handle_eq_layer]; rfl
  | var name => rw [handle_eq_layer]; rfl
  | hole => rw [handle_eq_layer]; rfl
  | tag tag attributes children =>
    have hnone : r.registry.predicate? tag = none := not_not.1 hn
    rw [meaning_tag]
    simp only [tagMeaning, delay_eq, condition, hnone]

/-- A fault of a condition comes from a node with a hole that is no condition, and that cannot be
shown in the error that says so. -/
theorem refused_of_fault {n : Node} {f : Fault}
    (h : (((r.handle room).meaning n).test.run c).1 = .error (.fault f)) :
    ¬ r.IsCondition n ∧ .hole ∈ n.subtrees ∧ f = .unprintable := by
  have hrefused : ¬ r.IsCondition n := by
    intro hn
    match n, hn with
    | .tag tag attributes children, hn =>
      obtain ⟨p, hp⟩ := Option.ne_none_iff_exists'.1 hn
      rw [test_condition hp, run_inChild] at h
      exact guarded_ne_fault tag _ _ f h
  rw [test_of_not_isCondition hrefused, Eval.invalidCondition, run_bind, Eval.written] at h
  cases htext : n.toText? with
  | some s =>
    rw [htext] at h
    cases h
  | none =>
    rw [htext] at h
    cases h
    refine ⟨hrefused, ?_, rfl⟩
    by_contra hhole
    obtain ⟨s, hs⟩ := n.exists_toText? fun m hm hm' => hhole (hm' ▸ hm)
    rw [htext] at hs
    cases hs

/-! ## The laws -/

/-- Whether the negation of a form and its dual are told apart by a node: it has a hole and is no
condition, and the fault that it ends in leaves the form itself on one side, and the negation of the
node on the other. -/
def DividedBy (r : Renderer) (c : Context) (form : String) (n : Node)
    (negated dual : Except Failure Bool × Context) : Prop :=
  ¬ r.IsCondition n ∧ .hole ∈ n.subtrees ∧
    negated = (.error (.render (.handlerFailed form (.fault .unprintable))), c) ∧
    dual = (.error (.render (.handlerFailed "not" (.fault .unprintable))), c)

/-- The negation of a form and its dual come to the same, as the outcome that decides is the same,
or this outcome is a fault.  It leaves the form on one side and a negation on the other. -/
theorem eq_or_dividedBy (hr : r.NeverPops) (hnot : r.registry.predicate? "not" = some .negation)
    (hjunction : ∀ b,
      r.registry.predicate? (Predicate.junctionName b) = some (Predicate.junction b))
    (room : Nat) (b : Bool) {ns : List Node} (hns : ns ≠ []) (c : Context) :
    let negated := ((r.handle room).meaning (Node.junction b ns).negation).test.run c
    let dual := ((r.handle room).meaning (.junction (!b) (ns.map .negation))).test.run c
    negated = dual ∨ ∃ n ∈ ns, r.DividedBy c (Predicate.junctionName b) n negated dual := by
  intro negated dual
  have hne : ns.map Node.negation ≠ [] := by simpa using hns
  have hnegated : negated = _ := run_negation hr hnot room (.junction b ns) c
  have hdual : dual = _ := run_junction hr (hjunction !b) room hne c
  -- on both sides the conditions are asked two frames deeper
  rw [run_junction hr (hjunction b) room hns] at hnegated
  rw [firstOther_outcomes_negation hr hnot] at hdual
  rw [hnegated, hdual]
  rcases hdecided : Predicate.firstOther b (r.outcomes room c.push.push ns) with (e | f) | a
  · exact .inl rfl
  · have hmem := Predicate.mem_of_firstOther hdecided
    obtain ⟨n, hn, hfault⟩ := List.mem_map.1 hmem
    obtain ⟨hrefused, hhole, rfl⟩ := refused_of_fault hfault
    exact .inr ⟨n, hn, hrefused, hhole, rfl, rfl⟩
  · exact .inl rfl

/-- **De Morgan's laws.**  As long as no handler closes frames that it has not opened, the negation
of a conjunction comes to the same as the disjunction of the negations, and the negation of a
disjunction to the same as the conjunction of the negations, whether this is a truth value or an
error, as long as every node among them that is no condition has no holes.  If one of them has, they
come to the same as well, unless such a node is asked and cannot be shown.  This is an error of the
conjunction or the disjunction on one side, and of a negation on the other. -/
theorem negation_dualizes (hr : r.NeverPops) (hnot : r.registry.predicate? "not" = some .negation)
    (hand : r.registry.predicate? "and" = some .conjunction)
    (hor : r.registry.predicate? "or" = some .disjunction) (room : Nat) {ns : List Node}
    (hns : ns ≠ []) (c : Context) :
    let test n := ((r.handle room).meaning n).test.run c
    let notAll := test (Node.tag "and" none ns).negation
    let someNot := test (.tag "or" none (ns.map .negation))
    let notSome := test (Node.tag "or" none ns).negation
    let allNot := test (.tag "and" none (ns.map .negation))
    ((∀ n ∈ ns, r.IsCondition n ∨ .hole ∉ n.subtrees) → notAll = someNot ∧ notSome = allNot) ∧
      (notAll = someNot ∨ ∃ n ∈ ns, r.DividedBy c "and" n notAll someNot) ∧
      (notSome = allNot ∨ ∃ n ∈ ns, r.DividedBy c "or" n notSome allNot) := by
  intro test notAll someNot notSome allNot
  have hjunction (b : Bool) :
      r.registry.predicate? (Predicate.junctionName b) = some (Predicate.junction b) := by
    cases b
    · exact hor
    · exact hand
  have hconjunction : notAll = someNot ∨ ∃ n ∈ ns, r.DividedBy c "and" n notAll someNot :=
    eq_or_dividedBy hr hnot hjunction room true hns c
  have hdisjunction : notSome = allNot ∨ ∃ n ∈ ns, r.DividedBy c "or" n notSome allNot :=
    eq_or_dividedBy hr hnot hjunction room false hns c
  refine ⟨fun hshown => ⟨hconjunction.resolve_right ?_, hdisjunction.resolve_right ?_⟩,
    hconjunction, hdisjunction⟩
  all_goals
    rintro ⟨n, hn, hrefused, hhole, -⟩
    exact (hshown n hn).elim hrefused fun hno => hno hhole

/-- A renderer with a predicate that fails and a handler that binds a name. -/
def weighing : Renderer where
  config := .standard
  registry := ⟨[("eq", .predicate .equal), ("not", .predicate .negation),
    ("and", .predicate .conjunction), ("or", .predicate .disjunction),
    ("fail", .predicate (.raising (.fault (.raised .value "no")))),
    ("let", .binding "x" (.ok (.text "1")))], by decide⟩
  templates := []

theorem neverPops_weighing : weighing.NeverPops := by
  intro tag handler
  apply Registry.forall_get?
  simp [weighing, Handler.Pops]

/-- Of the conditions `(eq (let $x) 1)`, `(fail)` and `$x` the first one holds and the second one
fails, before the third one is seen to be no condition. -/
theorem negation_dualizes_failing :
    let ns := [.tag "eq" none [.tag "let" none [.var "x"], .text "1"], .tag "fail" none [],
      .var "x"]
    weighing.NeverPops ∧ weighing.registry.predicate? "not" = some .negation ∧
      weighing.registry.predicate? "and" = some .conjunction ∧
      weighing.registry.predicate? "or" = some .disjunction ∧ ns ≠ [] ∧
      (weighing.test (Node.tag "and" none ns).negation).run .empty =
        (.error (.render (.handlerFailed "fail" (.fault (.raised .value "no")))), .empty) ∧
      (weighing.test (Node.tag "and" none ns).negation).run .empty =
        (weighing.test (.tag "or" none (ns.map .negation))).run .empty ∧
      (weighing.test (Node.tag "or" none ns).negation).run .empty =
        (weighing.test (.tag "and" none (ns.map .negation))).run .empty := by
  intro ns
  have hne : ns ≠ [] := List.cons_ne_nil _ _
  refine ⟨neverPops_weighing, rfl, rfl, rfl, hne, rfl, ?_⟩
  refine (negation_dualizes neverPops_weighing rfl rfl rfl weighing.config.limit hne .empty).1 ?_
  intro n hn
  simp only [ns, List.mem_cons, List.not_mem_nil, or_false] at hn
  rcases hn with rfl | rfl | rfl
  · exact .inl (Option.some_ne_none _)
  · exact .inl (Option.some_ne_none _)
  · exact .inr (by simp [Node.subtrees])

/-- A hole cannot be shown, which is an error of the conjunction or of the negation. -/
theorem not_forall_negation_dualizes :
    ¬ ∀ r : Renderer, r.NeverPops → r.registry.predicate? "not" = some .negation →
      r.registry.predicate? "and" = some .conjunction →
      r.registry.predicate? "or" = some .disjunction → ∀ ns ≠ [], ∀ c,
        (r.test (Node.tag "and" none ns).negation).run c =
            (r.test (.tag "or" none (ns.map .negation))).run c ∧
          (r.test (Node.tag "or" none ns).negation).run c =
            (r.test (.tag "and" none (ns.map .negation))).run c := by
  intro h
  have hlaws := h weighing neverPops_weighing rfl rfl rfl [.hole] (List.cons_ne_nil _ _) .empty
  have hsame := congrArg Prod.fst hlaws.1
  have hnotAll : ((weighing.test (Node.tag "and" none [.hole]).negation).run .empty).1 =
      .error (.render (.handlerFailed "and" (.fault .unprintable))) := rfl
  have hsomeNot : ((weighing.test (.tag "or" none [Node.negation .hole])).run .empty).1 =
      .error (.render (.handlerFailed "not" (.fault .unprintable))) := rfl
  rw [hnotAll, List.map_singleton, hsomeNot] at hsame
  simp at hsame

end Renderer

end MarkupForms

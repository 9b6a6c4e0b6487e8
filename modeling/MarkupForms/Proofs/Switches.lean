import MarkupForms.Proofs.Propagation
import MarkupForms.Proofs.Relevance
import MarkupForms.Proofs.Restoration

/-!
# Switches and comparisons

A switch compares a value with labels, one after the other.  So does a chain of choices whose
conditions are comparisons, though it evaluates the value again for every label, and does so in the
frame of a predicate.  Where there are no handlers but the predicates of the library this makes no
difference: an empty frame is not noticed, and evaluating again yields the same.

What makes a difference is a hole.  A hole ends an evaluation by a fault, which leaves a switch as
it is, but leaves a comparison as an error that names the predicate.  Nothing but a hole does that.

* `Node.exists_toText?` : a tree without holes can be written.
* `Renderer.ne_fault_of_solid` : a tree without holes never ends in a fault.
* `Renderer.run_comparison` : a comparison in an empty frame.
* `Renderer.switch_compares` : a switch is a chain of comparisons, up to holes.
-/

namespace MarkupForms

open Eval

/-! ## Trees without holes -/

namespace Node

/-- Whether there is no hole in a tree. -/
def IsSolid (n : Node) : Prop :=
  n.Every (· ≠ .hole)

theorem exists_printChildren? {ns : List Node} (h : ∀ n ∈ ns, ∃ u, n.print? = some u) :
    ∃ u, printChildren? ns = some u := by
  induction ns with
  | nil => exact ⟨[], rfl⟩
  | cons n ns ih =>
    obtain ⟨first, hfirst⟩ := h n List.mem_cons_self
    obtain ⟨rest, hrest⟩ := ih fun m hm => h m (List.mem_cons_of_mem n hm)
    exact ⟨' ' :: first ++ rest, by rw [printChildren?, hfirst, hrest]; rfl⟩

theorem exists_printEntries? {es : Attributes} (h : ∀ e ∈ es, ∃ u, e.2.print? = some u) :
    ∃ u, printEntries? es = some u := by
  induction es with
  | nil => exact ⟨[], rfl⟩
  | cons e es ih =>
    obtain ⟨key, n⟩ := e
    obtain ⟨value, hvalue⟩ := h (key, n) List.mem_cons_self
    obtain ⟨more, hmore⟩ := ih fun a ha => h a (List.mem_cons_of_mem _ ha)
    exact ⟨_, by rw [printEntries?, hvalue, hmore]; rfl⟩

theorem exists_print? (n : Node) (hn : n.IsSolid) : ∃ u, n.print? = some u := by
  induction n using Node.induction with
  | text s => exact ⟨_, by rw [print?]⟩
  | var name => exact ⟨_, by rw [print?]⟩
  | hole => exact absurd rfl hn.self
  | tag name attributes children hattributes hchildren =>
    obtain ⟨inner, hinner⟩ := exists_printChildren? fun n hmem => hchildren n hmem (hn.child hmem)
    cases attributes with
    | none => exact ⟨_, by rw [print?, hinner]; rfl⟩
    | some attributes =>
      obtain ⟨block, hblock⟩ : ∃ block, printEntries? attributes = some block :=
        exists_printEntries? fun e he => hattributes e he (hn.value he)
      exact ⟨_, by rw [print?, hblock, hinner]; rfl⟩

/-- A tree without holes can be written. -/
theorem exists_toText? (n : Node) (hn : n.IsSolid) : ∃ s, n.toText? = some s := by
  obtain ⟨u, hu⟩ := exists_print? n hn
  exact ⟨String.ofList u, by rw [toText?, hu]; rfl⟩

end Node

namespace Eval

/-- Both runs end in the same failure, which is a render error. -/
def Endings.raising : Endings where
  stops _ := False
  shared f f' := f = f' ∧ ∃ e, f = .render e
  unblamed _ := ⟨rfl, _, rfl⟩
  Visits := Node.IsSolid

theorem Endings.guards_raising : Endings.raising.pairing.Guards := by
  intro α P m m' tag h
  refine Runs.guarded h id fun _ _ hshared => ?_
  obtain ⟨rfl, e, rfl⟩ := hshared
  exact ⟨rfl, e, rfl⟩

theorem Runs.ne_fault {α : Type} {P : α → α → Prop} {m m' : Eval α} (h : Runs .raising P m m')
    (c : Context) (f : Fault) : (m.run c).1 ≠ .error (.fault f) := by
  have hmeet := h c
  generalize m.run c = x at hmeet
  generalize m'.run c = y at hmeet
  cases hmeet with
  | ok hab => exact fun hf => by cases hf
  | failed hshared =>
    obtain ⟨-, e, rfl⟩ := hshared
    exact fun hf => by cases hf
  | stopped hstops => exact hstops.elim

end Eval

/-- Nothing in a tree without holes has to be shown that cannot be. -/
theorem Node.IsSolid.every_suits {n : Node} (hn : n.IsSolid) :
    n.Every (Node.Suits Endings.raising.pairing .same) := by
  intro m hm
  have hsolid : m.IsSolid := fun k hk => hn k (Node.mem_subtrees_trans hm hk)
  obtain ⟨s, hs⟩ := m.exists_toText? hsolid
  exact ⟨⟨hsolid, fun hnone => by rw [hs] at hnone; cases hnone⟩, fun _ _ _ _ _ _ _ => trivial,
    fun _ _ _ _ _ _ _ => trivial, fun _ _ _ _ _ _ => trivial⟩

namespace Renderer

variable {r : Renderer} {room : Nat} {c : Context}

theorem paired_raising (hr : r.IsStandard) {inner : Option Handle}
    (hinner : Option.Rel (Handle.Paired Endings.raising.pairing .same) inner inner) :
    Renderer.Paired Endings.raising.pairing .same r r inner inner where
  registry := rfl
  isVoid _ := rfl
  framed := Rewriting.framed_same
  text _ hs := Meaning.paired_ofText rfl hs
  var _ hn := Meaning.paired_ofVar rfl hn
  hole hn := absurd rfl hn.1.self
  call _ _ _ _ hget hn := pairs_call_of_standard hr Endings.guards_raising rfl hinner hget hn
  condition _ _ _ children hp hn hms :=
    pairs_condition_of_standard hr Endings.guards_raising hp hn.self hms
      (map_node_denote r inner children)

theorem handle_raising (hr : r.IsStandard) (room : Nat) :
    (r.handle room).Paired Endings.raising.pairing .same (r.handle room) := by
  induction room with
  | zero => exact ⟨node_denote r none, paired_denote (paired_raising hr .none)⟩
  | succ room ih =>
    rw [handle_succ]
    exact ⟨node_denote r _, paired_denote (paired_raising hr (.some ih))⟩

/-- Without handlers of its own, a renderer does not end in a fault on a tree without holes. -/
theorem ne_fault_of_solid (hr : r.IsStandard) {n : Node} (hn : n.IsSolid) (room : Nat)
    (c : Context) (f : Fault) : (((r.handle room).meaning n).operand.run c).1 ≠ .error (.fault f) :=
  Runs.ne_fault (((handle_raising hr room).meaning n hn.every_suits).operand trivial) c f

/-! ## Comparisons -/

/-- An empty frame makes no difference to an operand, which leaves its context as it is. -/
theorem exists_operand (hr : r.IsStandard) (room : Nat) (n : Node) (c : Context) :
    ∃ o, ((r.handle room).meaning n).operand.run c = (o, c) ∧
      ((r.handle room).meaning n).operand.run c.push = (o, c.push) := by
  have hagrees : c.AgreesOn n.mentions c.push := fun name _ => (c.lookup_push name).symm
  obtain ⟨o, hc, hpush, -⟩ := (obeys_coinciding hr room n).operand c c.push hagrees
  exact ⟨o, hc, hpush⟩

theorem predicate?_eq (hr : Registry.create [] true = .ok r.registry) :
    r.registry.predicate? "eq" = some .equal := by
  rw [Registry.predicate?, Registry.get?, Registry.entries_of_create hr]
  rfl

/-- A comparison evaluates both operands, and their failures leave it like a handler. -/
theorem run_comparison (hr : Registry.create [] true = .ok r.registry) (room : Nat)
    (left right : Node) (c : Context) :
    ((r.handle room).meaning (.tag "eq" none [left, right])).test.run c =
      ((do
        let a ← (((r.handle room).meaning left).operand.run c).1
        let b ← (((r.handle room).meaning right).operand.run c).1
        return a == b).mapError (Failure.leaving "eq"), c) := by
  have hstandard := isStandard_of_create hr
  obtain ⟨o, hleft, hleftIn⟩ := exists_operand hstandard room left c
  obtain ⟨o', hright, hrightIn⟩ := exists_operand hstandard room right c
  have hholds : (Predicate.equal.holds ([left, right].map (r.handle room).meaning)).run c.push =
      (do
        let a ← o
        let b ← o'
        return a == b, c.push) := by
    show (((r.handle room).meaning left).operand >>= fun a =>
      ((r.handle room).meaning right).operand >>= fun b => pure (a == b)).run c.push = _
    rw [run_bind, hleftIn]
    cases o with
    | error f => rfl
    | ok a =>
      dsimp only
      rw [run_bind, hrightIn]
      cases o' <;> rfl
  rw [test_condition (predicate?_eq hr), hleft, hright]
  exact run_inChild_of_run (run_guarded_of_outcome hholds "eq")

end Renderer

/-! ## Switches -/

namespace Node

/-- The switch `(switch value (case label body) ...)` with a label and a content for each case. -/
def switchOn (value : Node) (cases : List (Node × Node)) : Node :=
  .tag "switch" none (value :: cases.map fun k => .tag "case" none [k.1, k.2])

/-- The choices `(if (eq value label) body (if (eq value label) body ...))`, one inside the other,
with a label and a content for each of them. -/
def choicesOn (value : Node) (first : Node × Node) : List (Node × Node) → Node
  | [] => .tag "if" none [.tag "eq" none [value, first.1], first.2]
  | next :: rest =>
      .tag "if" none [.tag "eq" none [value, first.1], first.2, choicesOn value next rest]

end Node

namespace Renderer

variable {r : Renderer} {room : Nat} {c : Context}

/-- What a switch selects from. -/
def armsOf (r : Renderer) (room : Nat) (cases : List (Node × Node)) : List Arm :=
  cases.map fun k => ⟨((r.handle room).meaning k.1).operand, ((r.handle room).meaning k.2).evaluate⟩

theorem evaluate_switchOn (r : Renderer) (room : Nat) (value : Node) (cases : List (Node × Node)) :
    ((r.handle room).meaning (.switchOn value cases)).evaluate =
      ((r.handle room).meaning value).operand >>= fun s =>
        Control.select s (r.armsOf room cases) := by
  have hcases : (cases.map fun k => Node.tag "case" none [k.1, k.2]) =
      (cases.map fun k => (⟨none, k.1, [k.2]⟩ : Case)).map Case.node := by
    rw [List.map_map]
    rfl
  have harms : ((cases.map fun k => (⟨none, k.1, [k.2]⟩ : Case)).map (Case.arm (r.handle room))) =
      r.armsOf room cases := by
    rw [List.map_map, armsOf]
    refine List.map_congr_left fun k _ => ?_
    exact congrArg (Arm.mk _) (evaluateAll_singleton _)
  have hswitch : ((r.handle room).meaning (.switchOn value cases)).evaluate =
      Control.switch ((r.handle room).meaning value ::
        (cases.map fun k => Node.tag "case" none [k.1, k.2]).map (r.handle room).meaning) := by
    rw [Node.switchOn, meaning_tag]
    rfl
  rw [hswitch, Control.switch, hcases, Control.switchArms_eq (readsCases_handle r room), pure_bind,
    harms]

/-- What the choices come to that are left when some labels have been compared. -/
def choicesLeft (r : Renderer) (room : Nat) (value : Node) : List (Node × Node) → Eval (List String)
  | [] => pure []
  | k :: rest => ((r.handle room).meaning (.choicesOn value k rest)).evaluate

theorem choicesLeft_cons (r : Renderer) (room : Nat) (value : Node) (k : Node × Node)
    (rest : List (Node × Node)) :
    r.choicesLeft room value (k :: rest) =
      ((r.handle room).meaning (.tag "eq" none [value, k.1])).test >>= fun b =>
        if b then ((r.handle room).meaning k.2).evaluate else r.choicesLeft room value rest := by
  cases rest with
  | nil => exact congrArg Meaning.evaluate (meaning_tag r room "if" none _)
  | cons next rest => exact congrArg Meaning.evaluate (meaning_tag r room "if" none _)

/-- Whether a switch and a chain of choices are told apart by an operand with a hole: it ends in a
fault, which the switch ends in as well, and the chain in the error that a comparison makes of
it. -/
def ToldApart (r : Renderer) (room : Nat) (c : Context) (n : Node)
    (switched chosen : Except Failure (List String) × Context) : Prop :=
  .hole ∈ n.subtrees ∧ ∃ f, ((r.handle room).meaning n).operand.run c = (.error (.fault f), c) ∧
    switched = (.error (.fault f), c) ∧
      chosen = (.error (.render (.handlerFailed "eq" (.fault f))), c)

/-- A failure of an operand that is compared ends both in the same way, or tells them apart. -/
theorem eq_or_toldApart (hr : r.IsStandard) {n : Node} {f : Failure}
    (h : ((r.handle room).meaning n).operand.run c = (.error f, c)) :
    (.error (f.leaving "eq"), c) = ((.error f, c) : Except Failure (List String) × Context) ∨
      r.ToldApart room c n (.error f, c) (.error (f.leaving "eq"), c) := by
  cases f with
  | render e => exact .inl rfl
  | fault f =>
    refine .inr ⟨?_, f, h, rfl, rfl⟩
    by_contra hhole
    have hsolid : n.IsSolid := fun m hm hm' => hhole (hm' ▸ hm)
    exact ne_fault_of_solid hr hsolid room c f (congrArg Prod.fst h)

/-- Choices select like a switch, once the value is known. -/
theorem run_choicesLeft (hr : Registry.create [] true = .ok r.registry) {value : Node} {s : String}
    (hvalue : ((r.handle room).meaning value).operand.run c = (.ok s, c))
    (cases : List (Node × Node)) :
    (r.choicesLeft room value cases).run c = (Control.select s (r.armsOf room cases)).run c ∨
      ∃ n ∈ cases.map Prod.fst, r.ToldApart room c n
        ((Control.select s (r.armsOf room cases)).run c)
        ((r.choicesLeft room value cases).run c) := by
  have hstandard := isStandard_of_create hr
  induction cases with
  | nil => exact .inl rfl
  | cons k rest ih =>
    obtain ⟨o, hlabel, -⟩ := exists_operand hstandard room k.1 c
    have htest := run_comparison hr room value k.1 c
    rw [hvalue, hlabel] at htest
    rw [choicesLeft_cons, run_bind, htest, armsOf, List.map_cons, Control.select, run_bind, hlabel]
    cases o with
    | error f =>
      refine (eq_or_toldApart hstandard hlabel).imp id fun hapart => ⟨k.1, ?_, hapart⟩
      exact List.mem_cons_self
    | ok t =>
      have hchoice : (s == t) = decide (t = s) := by
        rw [Bool.eq_iff_iff, beq_iff_eq, decide_eq_true_iff]
        exact eq_comm
      dsimp only [bind, Except.bind, pure, Except.pure, Except.mapError]
      rw [hchoice]
      by_cases hts : t = s
      · rw [if_pos hts, if_pos (decide_eq_true hts)]
        exact .inl rfl
      · rw [if_neg hts, if_neg (by simpa using hts)]
        refine ih.imp id ?_
        rintro ⟨n, hn, hapart⟩
        exact ⟨n, List.mem_cons_of_mem k.1 hn, hapart⟩

/-- **A switch is a chain of comparisons.**  Without handlers but the predicates of the library, a
switch and the choices that compare the same value with the same labels come to the same fragments
or to the same error, as long as there is no hole in the value or in a label.  If there is one, they
do as well, unless an operand with a hole ends in a fault: the switch ends in this fault, and the
choices end in the error of a comparison that has the fault inside. -/
theorem switch_compares (hr : Registry.create [] true = .ok r.registry) (room : Nat)
    (value : Node) (first : Node × Node) (rest : List (Node × Node)) (c : Context) :
    ((∀ n ∈ value :: (first :: rest).map Prod.fst, .hole ∉ n.subtrees) →
      ((r.handle room).meaning (.choicesOn value first rest)).evaluate.run c =
        ((r.handle room).meaning (.switchOn value (first :: rest))).evaluate.run c) ∧
      (((r.handle room).meaning (.choicesOn value first rest)).evaluate.run c =
          ((r.handle room).meaning (.switchOn value (first :: rest))).evaluate.run c ∨
        ∃ n ∈ value :: (first :: rest).map Prod.fst, r.ToldApart room c n
          (((r.handle room).meaning (.switchOn value (first :: rest))).evaluate.run c)
          (((r.handle room).meaning (.choicesOn value first rest)).evaluate.run c)) := by
  have hstandard := isStandard_of_create hr
  have heither : ((r.handle room).meaning (.choicesOn value first rest)).evaluate.run c =
        ((r.handle room).meaning (.switchOn value (first :: rest))).evaluate.run c ∨
      ∃ n ∈ value :: (first :: rest).map Prod.fst, r.ToldApart room c n
        (((r.handle room).meaning (.switchOn value (first :: rest))).evaluate.run c)
        (((r.handle room).meaning (.choicesOn value first rest)).evaluate.run c) := by
    obtain ⟨o, hvalue, -⟩ := exists_operand hstandard room value c
    change (r.choicesLeft room value (first :: rest)).run c = _ ∨ ∃ n ∈ _, r.ToldApart room c n _
      ((r.choicesLeft room value (first :: rest)).run c)
    rw [evaluate_switchOn, run_bind, hvalue]
    cases o with
    | error f =>
      have htest := run_comparison hr room value first.1 c
      rw [hvalue] at htest
      rw [choicesLeft_cons, run_bind, htest]
      refine (eq_or_toldApart hstandard hvalue).imp id fun hapart => ⟨value, ?_, hapart⟩
      exact List.mem_cons_self
    | ok s =>
      refine (run_choicesLeft hr hvalue (first :: rest)).imp id ?_
      rintro ⟨n, hn, hapart⟩
      exact ⟨n, List.mem_cons_of_mem value hn, hapart⟩
  refine ⟨fun hsolid => heither.resolve_right ?_, heither⟩
  rintro ⟨n, hn, hhole, -⟩
  exact hsolid n hn hhole

/-- The second label agrees with the value of a variable. -/
theorem switch_compares_shallow :
    Registry.create [] true = .ok library.registry ∧
      ((library.evaluate (.choicesOn (.var "x") (.text "1", .text "a")
        [(.text "0", .tag "b" none [.var "x"])])).run shallow).1 = .ok ["<b>", "0", "</b>"] ∧
      (library.evaluate (.choicesOn (.var "x") (.text "1", .text "a")
          [(.text "0", .tag "b" none [.var "x"])])).run shallow =
        (library.evaluate (.switchOn (.var "x") [(.text "1", .text "a"),
          (.text "0", .tag "b" none [.var "x"])])).run shallow := by
  refine ⟨rfl, rfl, (switch_compares rfl library.config.limit _ _ _ shallow).1 ?_⟩
  simp [Node.subtrees]

/-- A switch over a hole ends in a fault, and a comparison with a hole in an error. -/
theorem not_forall_switch_compares :
    ¬ ∀ r : Renderer, Registry.create [] true = .ok r.registry →
      ∀ (value : Node) (first : Node × Node) (rest : List (Node × Node)) (c : Context),
        (r.evaluate (.choicesOn value first rest)).run c =
          (r.evaluate (.switchOn value (first :: rest))).run c := by
  intro h
  have hsame := congrArg Prod.fst (h library rfl .hole (.text "a", .text "b") [] .empty)
  have hchosen : ((library.evaluate (.choicesOn .hole (.text "a", .text "b") [])).run .empty).1 =
      .error (.render (.handlerFailed "eq" (.fault .hole))) := rfl
  have hswitched : ((library.evaluate (.switchOn .hole [(.text "a", .text "b")])).run .empty).1 =
      .error (.fault .hole) := rfl
  rw [hchosen, hswitched] at hsame
  cases hsame

end Renderer

end MarkupForms

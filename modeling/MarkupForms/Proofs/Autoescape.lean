import MarkupForms.Proofs.Handling
import MarkupForms.Proofs.Pairing

/-!
# Rendering with and without escaping

Two renderers that differ only in whether they escape the values of variables take the same steps,
as long as no comparison comes out differently.  They meet the same failures, and their texts are
related piece by piece: what was written in the template is the same in both, and a value stands
against its escaped text.

The relation between texts is a parameter, together with a property that all values have that a
template can get at.  With the weakest relation this says that only the course of evaluation is the
same; with equality, that nothing differs at all.

* `Simulation` : what a relation between texts has to satisfy.
* `Eval.Matches` : two computations with the same failures and related results;
  `Simulation.pairing` : a pairing.
* `Control.run_switch` : a switch yields the content of the case that it selects.
* `Renderer.matches_handle` : the two renderers match on all trees that compare leaves only, and on
  all others when related texts are the same.
-/

namespace MarkupForms

/-! ## Contexts whose values have a property -/

/-- Whether every value that a path leads to has a property. -/
def Context.All (V : Value → Prop) (c : Context) : Prop :=
  ∀ path v, c.resolve path = .ok v → V v

/-- What is asked of a property of values and a relation between a text and the same text with
values escaped. -/
structure Simulation (V : Value → Prop) (T : String → String → Prop) : Prop where
  /-- What is written in a template stands for itself. -/
  source : ∀ s, T s s
  /-- Pieces are related one by one. -/
  append : ∀ {s t s' t'}, T s t → T s' t' → T (s ++ s') (t ++ t')
  /-- A value stands against its escaped text. -/
  value : ∀ {s}, V (.scalar s) → T s (Text.escape s)
  /-- The items of a list have the property. -/
  item : ∀ {items}, V (.list items) → ∀ v ∈ items, V v
  /-- The keys and the values of a map have the property. -/
  entry : ∀ {entries}, V (.map entries) → ∀ e ∈ entries, V (.scalar e.1) ∧ V e.2
  /-- Numbers have the property. -/
  number : ∀ n : Int, V (.scalar (toString n))

namespace Simulation

variable {V : Value → Prop} {T : String → String → Prop}

theorem follow (hS : Simulation V T) {v w : Value} (hv : V v) {walked : String}
    {keys : List String} (h : v.follow walked keys = .ok w) : V w := by
  induction keys generalizing v walked with
  | nil =>
    rw [Value.follow] at h
    cases h
    exact hv
  | cons key keys ih =>
    cases v with
    | scalar text => cases h
    | list items => cases h
    | map entries =>
      rw [Value.follow] at h
      split at h
      · rename_i u hu
        exact ih (hS.entry hv (key, u) (Entries.mem_of_lookup hu)).2 h
      · cases h

theorem join (hS : Simulation V T) {ss ts : List String} (h : List.Forall₂ T ss ts) :
    T (String.join ss) (String.join ts) := by
  have hfold : ∀ s t, T s t → T (ss.foldl (· ++ ·) s) (ts.foldl (· ++ ·) t) := by
    induction h with
    | nil => exact fun s t hst => hst
    | cons hhead _ ih => exact fun s t hst => ih _ _ (hS.append hst hhead)
  exact hfold "" "" (hS.source "")

theorem self (hS : Simulation V T) (ss : List String) : List.Forall₂ T ss ss :=
  List.forall₂_same.2 fun s _ => hS.source s

end Simulation

theorem Frame.mem_of_lookup_ofList {bindings : List (String × Value)} {name : String} {v : Value}
    (h : (Frame.ofList bindings).lookup name = some v) : (name, v) ∈ bindings := by
  have hputs : ∀ es : List (String × Value), (Entries.putAll bindings es).lookup name = some v →
      (name, v) ∈ bindings ∨ es.lookup name = some v := by
    clear h
    induction bindings with
    | nil => exact fun es hes => .inr hes
    | cons b bindings ih =>
      intro es hes
      rcases ih (Entries.put b.1 b.2 es) hes with hmem | hlookup
      · exact .inl (List.mem_cons_of_mem b hmem)
      · rw [Entries.lookup_put] at hlookup
        split at hlookup
        · rename_i hname
          cases hlookup
          exact .inl (hname ▸ List.mem_cons_self)
        · exact .inr hlookup
  rcases hputs [] h with hmem | hnone
  · exact hmem
  · cases hnone

/-- A frame of values with the property keeps it. -/
theorem Context.All.pushFrame {V : Value → Prop} {T : String → String → Prop}
    (hS : Simulation V T) {c : Context} (hc : c.All V) {bindings : List (String × Value)}
    (hb : ∀ b ∈ bindings, V b.2) : (c.pushFrame (.ofList bindings)).All V := by
  intro path v hv
  unfold Context.resolve at hv
  cases hsegments : Text.pathSegments (Context.normalize path) with
  | nil =>
    rw [hsegments] at hv
    cases hv
  | cons head keys =>
    rw [hsegments, Context.resolveSegments, Context.lookup, Context.find?_pushFrame] at hv
    cases hf : (Frame.ofList bindings).lookup (Context.normalize head) with
    | some w =>
      rw [hf, Option.some_or] at hv
      exact hS.follow (hb _ (Frame.mem_of_lookup_ofList hf)) hv
    | none =>
      rw [hf, Option.none_or] at hv
      refine hc path v ?_
      rw [Context.resolve, hsegments, Context.resolveSegments, Context.lookup]
      exact hv

/-! ## Computations with related results -/

namespace Eval

/-- Whether two outcomes are related results or the same failure. -/
inductive SameOutcome {α β : Type} (P : α → β → Prop) :
    Except Failure α → Except Failure β → Prop where
  /-- Related results. -/
  | ok {a : α} {b : β} (h : P a b) : SameOutcome P (.ok a) (.ok b)
  /-- The same failure. -/
  | error (f : Failure) : SameOutcome P (.error f) (.error f)

/-- Whether two computations have the same failures and related results in all contexts whose
values have a property, and leave the context as it is. -/
def Matches {α β : Type} (V : Value → Prop) (P : α → β → Prop) (m : Eval α) (m' : Eval β) : Prop :=
  ∀ c : Context, c.All V →
    ∃ o o', m.run c = (o, c) ∧ m'.run c = (o', c) ∧ SameOutcome P o o'

variable {α β γ δ : Type} {V : Value → Prop} {T : String → String → Prop} {P : α → β → Prop}
  {Q : γ → δ → Prop} {m : Eval α} {m' : Eval β}

theorem matches_pure {a : α} {b : β} (h : P a b) : Matches V P (pure a) (pure b) :=
  fun _ _ => ⟨.ok a, .ok b, rfl, rfl, .ok h⟩

theorem matches_throw (f : Failure) : Matches V P (throw f) (throw f) :=
  fun _ _ => ⟨.error f, .error f, rfl, rfl, .error f⟩

theorem Matches.bind {k : α → Eval γ} {k' : β → Eval δ} (h : Matches V P m m')
    (hk : ∀ a b, P a b → Matches V Q (k a) (k' b)) : Matches V Q (m >>= k) (m' >>= k') := by
  intro c hc
  obtain ⟨o, o', hrun, hrun', hsame⟩ := h c hc
  rw [run_bind, run_bind, hrun, hrun']
  cases hsame with
  | ok hab => exact hk _ _ hab c hc
  | error f => exact ⟨.error f, .error f, rfl, rfl, .error f⟩

/-- A computation that leaves the context alone matches itself. -/
theorem matches_self {m : Eval α} (h : Keeps 0 m) : Matches V Eq m m := by
  intro c _
  have hrun : m.run c = ((m.run c).1, c) := Prod.ext rfl (h.run_eq c)
  refine ⟨(m.run c).1, (m.run c).1, hrun, hrun, ?_⟩
  cases (m.run c).1 with
  | ok a => exact .ok rfl
  | error f => exact .error f

/-- A computation that all judgements allow matches itself. -/
theorem matches_of_allows {m : Eval α} (h : ∀ L : Logic, L.Allows m) : Matches V Eq m m :=
  matches_self (keeps_of_allows h)

theorem Matches.guarded (h : Matches V P m m') (tag : String) :
    Matches V P (guarded tag m) (guarded tag m') := by
  intro c hc
  obtain ⟨o, o', hrun, hrun', hsame⟩ := h c hc
  rw [Eval.guarded, Eval.guarded, run_tryCatch, run_tryCatch, hrun, hrun']
  cases hsame with
  | ok hab => exact ⟨_, _, rfl, rfl, .ok hab⟩
  | error f => exact ⟨_, _, rfl, rfl, .error _⟩

/-- A round of a loop in which values with the property are bound. -/
theorem Matches.inChild (hS : Simulation V T) (h : Matches V P m m')
    {bindings : List (String × Value)} (hb : ∀ b ∈ bindings, V b.2) :
    Matches V P (inChild (.ofList bindings) m) (inChild (.ofList bindings) m') := by
  intro c hc
  obtain ⟨o, o', hrun, hrun', hsame⟩ := h _ (hc.pushFrame hS hb)
  rw [run_inChild, run_inChild, hrun, hrun']
  exact ⟨o, o', rfl, rfl, hsame⟩

/-! ## Values and texts -/

theorem run_resolve (path : String) (c : Context) :
    (resolve path).run c = ((c.resolve path).mapError fun e => .render (.ofPath e), c) := by
  rw [resolve, run_bind, run_context]
  dsimp only
  cases c.resolve path <;> rfl

theorem matches_resolve (path : String) :
    Matches V (fun v w => v = w ∧ V v) (resolve path) (resolve path) := by
  intro c hc
  refine ⟨_, _, run_resolve path c, run_resolve path c, ?_⟩
  cases h : c.resolve path with
  | error e => exact .error _
  | ok v => exact .ok ⟨rfl, hc path v h⟩

end Eval

open Eval

/-! ## Trees that compare leaves only -/

namespace Node

/-- Whether the operands that a form compares are leaves: those of a comparison, the value of a
switch and the label of a case. -/
def OperandsAreLeaves (name : String) (children : List Node) : Prop :=
  (name = "eq" ∨ name = "ne" → ∀ n ∈ children, n.IsLeaf) ∧
    (name = "switch" ∨ name = "case" → ∀ n ∈ children.head?, n.IsLeaf)

mutual

/-- Whether all operands and all values of attributes in a tree are leaves. -/
def ComparesLeaves : Node → Prop
  | .text _ | .var _ | .hole => True
  | .tag name none children => OperandsAreLeaves name children ∧ AllCompareLeaves children
  | .tag name (some attributes) children =>
      OperandsAreLeaves name children ∧ (∀ e ∈ attributes, e.2.IsLeaf) ∧ AllCompareLeaves children

/-- Whether all operands and all values of attributes in several trees are leaves. -/
def AllCompareLeaves : List Node → Prop
  | [] => True
  | n :: ns => n.ComparesLeaves ∧ AllCompareLeaves ns

end

theorem allCompareLeaves_iff {ns : List Node} :
    AllCompareLeaves ns ↔ ∀ n ∈ ns, n.ComparesLeaves := by
  induction ns with
  | nil => simp [AllCompareLeaves]
  | cons n ns ih => simp [AllCompareLeaves, ih]

theorem comparesLeaves_of_isLeaf {n : Node} (h : n.IsLeaf) : n.ComparesLeaves := by
  cases n with
  | text | var => simp [ComparesLeaves]
  | tag | hole => exact h.elim

end Node

namespace Node.ComparesLeaves

variable {name : String} {attributes : Option Attributes} {children : List Node}

theorem operands (h : (Node.tag name attributes children).ComparesLeaves) :
    OperandsAreLeaves name children := by
  cases attributes <;> rw [ComparesLeaves] at h <;> exact h.1

theorem values (h : (Node.tag name attributes children).ComparesLeaves) :
    ∀ e ∈ attributes.getD [], e.2.IsLeaf := by
  cases attributes with
  | none => exact fun e he => by cases he
  | some attributes =>
    rw [ComparesLeaves] at h
    exact h.2.1

theorem child (h : (Node.tag name attributes children).ComparesLeaves) {n : Node}
    (hn : n ∈ children) : n.ComparesLeaves := by
  cases attributes <;> rw [ComparesLeaves] at h
  · exact allCompareLeaves_iff.1 h.2 n hn
  · exact allCompareLeaves_iff.1 h.2.2 n hn

theorem of_mem_subtrees {n m : Node} (h : n.ComparesLeaves) (hm : m ∈ n.subtrees) :
    m.ComparesLeaves := by
  induction n using Node.induction with
  | text s =>
    rw [List.mem_singleton.1 hm]
    exact h
  | var name =>
    rw [List.mem_singleton.1 hm]
    exact h
  | hole =>
    rw [List.mem_singleton.1 hm]
    exact h
  | tag name attributes children hattributes hchildren =>
    rcases mem_subtrees_tag.1 hm with rfl | ⟨e, he, hsub⟩ | ⟨n, hn, hsub⟩
    · exact h
    · exact hattributes e he (comparesLeaves_of_isLeaf (h.values e he)) hsub
    · exact hchildren n hn (h.child hn) hsub

/-- What a tree compares has the same text on both sides if that holds of leaves. -/
theorem every_suits {R : Eval.Pairing} {W : Rewriting} (hlegible : ∀ n, R.Legible n)
    (hleaf : ∀ n : Node, n.IsLeaf → W.Comparable n) {n : Node} (h : n.ComparesLeaves) :
    n.Every (Node.Suits R W) := by
  intro m hm
  have hleaves := h.of_mem_subtrees hm
  refine ⟨hlegible m, ?_, ?_, ?_⟩
  · rintro name attributes children rfl hname n hn
    exact hleaf n (hleaves.operands.1 hname n hn)
  · rintro name attributes children rfl hname n hn
    exact hleaf n (hleaves.operands.2 hname n hn)
  · rintro name attributes children rfl e he
    exact hleaf e.2 (hleaves.values e he)

end Node.ComparesLeaves

/-- Whether a tree compares leaves only, unless related texts are the same anyway. -/
def Node.Fits (T : String → String → Prop) (n : Node) : Prop :=
  n.ComparesLeaves ∨ ∀ s t, T s t → s = t

/-- Whether a node has the same text as an operand with and without escaping. -/
def Node.Agrees (T : String → String → Prop) (n : Node) : Prop :=
  n.IsLeaf ∨ ∀ s t, T s t → s = t

namespace Node.Fits

variable {T : String → String → Prop} {name : String} {attributes : Option Attributes}
  {children : List Node}

theorem child (h : (Node.tag name attributes children).Fits T) {n : Node} (hn : n ∈ children) :
    n.Fits T :=
  h.imp_left fun hleaves => hleaves.child hn

theorem head (h : (Node.tag name attributes children).Fits T)
    (hname : name = "switch" ∨ name = "case") {n : Node} (hn : n ∈ children.head?) : n.Agrees T :=
  h.imp_left fun hleaves => hleaves.operands.2 hname n hn

end Node.Fits

/-! ## The pairing -/

section

variable {V : Value → Prop} {T : String → String → Prop}

namespace Simulation

/-- The pairing of computations that match. -/
def pairing (hS : Simulation V T) : Eval.Pairing where
  Pairs := Eval.Matches V
  Known := V
  Legible _ := True
  pure := matches_pure
  bind := Matches.bind
  fail _ := matches_throw _
  inChild hb h := h.inChild hS hb
  resolve := matches_resolve
  isSet _ := matches_self fun c => .refl 0 c
  written _ := matches_of_allows fun _ => Logic.allows_written _
  item := hS.item
  entry := hS.entry
  number := hS.number

/-- Texts and fragments that are related piece by piece. -/
def rewriting (hS : Simulation V T) : Rewriting where
  Text := T
  Fragments := List.Forall₂ T
  Comparable := Node.Agrees T
  nil := .nil
  append h h' := List.rel_append h h'
  join := hS.join
  compound hnode h _ _ hst := h.elim (fun hleaf => absurd hleaf hnode) fun hsame => hsame _ _ hst

theorem guards (hS : Simulation V T) : hS.pairing.Guards :=
  fun tag h => Matches.guarded h tag

theorem framed (hS : Simulation V T) : hS.rewriting.Framed := by
  have hattributes {ps ps' : List (String × String)} (h : hS.rewriting.Attributes ps ps')
      (s t : String) : T (s ++ Markup.attributes ps ++ t) (s ++ Markup.attributes ps' ++ t) := by
    refine hS.append (hS.append (hS.source s) (hS.join ?_)) (hS.source t)
    rw [List.forall₂_map_left_iff, List.forall₂_map_right_iff]
    refine h.imp fun p p' hp => ?_
    rw [hp.1]
    exact hS.append (hS.append (hS.source _) hp.2) (hS.source _)
  constructor
  · exact fun name ps ps' hps => .cons (hattributes hps _ _) .nil
  · intro name ps ps' content content' hps hcontent
    exact List.rel_append (.cons (hattributes hps _ _) hcontent) (.cons (hS.source _) .nil)

end Simulation

/-- What a tree compares has the same text with and without escaping. -/
theorem Node.Fits.every_suits {n : Node} (hS : Simulation V T) (h : n.Fits T) :
    n.Every (Node.Suits hS.pairing hS.rewriting) := by
  rcases h with hleaves | hsame
  · exact hleaves.every_suits (fun _ => trivial) fun n hleaf => Or.inl hleaf
  · have hagree (n : Node) : n.Agrees T := .inr hsame
    exact fun m _ => ⟨trivial, fun _ _ _ _ _ n _ => hagree n, fun _ _ _ _ _ n _ => hagree n,
      fun _ _ _ _ e _ => hagree e.2⟩

end

/-! ## Leaves -/

/-- The same renderer, escaping the values of variables or not. -/
def Renderer.escaping (r : Renderer) (b : Bool) : Renderer :=
  { r with config := { r.config with autoescape := b } }

section

variable {V : Value → Prop} {T : String → String → Prop}

theorem Eval.matches_interpolate (hS : Simulation V T) (r : Renderer) (text : String) :
    Matches V T (interpolate (r.escaping false) true text)
      (interpolate (r.escaping true) true text) := by
  refine Pairing.joined (R := hS.pairing) (W := hS.rewriting)
    (Pairing.pairs_forEach (List.forall₂_same.2 fun s _ => ?_))
  refine Matches.bind (P := T) ?_ fun a b hab => matches_pure (.cons hab .nil)
  cases s with
  | char c => exact matches_pure (hS.source _)
  | sign => exact matches_pure (hS.source _)
  | reference path =>
    refine Matches.bind (Pairing.scalar (R := hS.pairing) _) fun a b hab => ?_
    obtain ⟨rfl, ha⟩ := hab
    exact matches_pure (hS.value ha)

/-- Where values are not escaped, all renderers agree. -/
theorem Eval.interpolate_raw (r r' : Renderer) (text : String) :
    interpolate r false text = interpolate r' false text := by
  have hsegment : segment r false = segment r' false := by
    funext s
    cases s <;> rfl
  simp only [interpolate, segments, hsegment]

theorem Meaning.matches_ofText (hS : Simulation V T) (r : Renderer) (s : String) :
    (Meaning.ofText (r.escaping false) s).Paired hS.pairing hS.rewriting
      (Meaning.ofText (r.escaping true) s) where
  node := rfl
  legible := trivial
  evaluate := (matches_interpolate hS r s).bind fun a b hab => matches_pure (.cons hab .nil)
  attributeText := matches_interpolate hS r s
  raw _ := by
    show Eval.Matches V Eq (interpolate _ false s) (interpolate _ false s)
    rw [interpolate_raw (r.escaping true) (r.escaping false)]
    exact matches_self (keeps_interpolate _ false s)
  test := Pairing.invalidCondition (R := hS.pairing) trivial
  arm _ _ hnode := by cases hnode

theorem Meaning.matches_ofVar (hS : Simulation V T) (r : Renderer) (name : String) :
    (Meaning.ofVar (r.escaping false) name).Paired hS.pairing hS.rewriting
      (Meaning.ofVar (r.escaping true) name) where
  node := rfl
  legible := trivial
  evaluate := by
    refine Matches.bind (Pairing.scalar (R := hS.pairing) name) fun a b hab => matches_pure ?_
    obtain ⟨rfl, ha⟩ := hab
    exact .cons (hS.value ha) .nil
  attributeText := by
    refine Matches.bind (Pairing.scalar (R := hS.pairing) name) fun a b hab => matches_pure ?_
    obtain ⟨rfl, ha⟩ := hab
    exact hS.value ha
  raw _ := Matches.bind (Pairing.scalar (R := hS.pairing) name) fun a b hab =>
    matches_pure hab.1
  test := Pairing.invalidCondition (R := hS.pairing) trivial
  arm _ _ hnode := by cases hnode

theorem Meaning.matches_ofHole (hS : Simulation V T) :
    Meaning.ofHole.Paired hS.pairing hS.rewriting Meaning.ofHole where
  node := rfl
  legible := trivial
  evaluate := matches_throw _
  attributeText := matches_throw _
  raw _ := matches_throw _
  test := Pairing.invalidCondition (R := hS.pairing) trivial
  arm _ _ hnode := by cases hnode

end

/-! ## Switches -/

namespace Control

/-- The position of the first case with a given label. -/
def choose (value : String) : List Arm → Eval (Option Nat)
  | [] => pure none
  | arm :: arms => do
      let label ← arm.label
      if label = value then pure (some 0) else return (← choose value arms).map (· + 1)

/-- The position of the case that a switch selects, if there is one. -/
def selection (children : List Meaning) : Eval (Option Nat) :=
  match children with
  | [] => Eval.malformed "switch" .noScrutinee
  | scrutinee :: cases => do
      let arms ← switchArms cases
      let value ← scrutinee.operand
      choose value arms

theorem select_eq (value : String) (arms : List Arm) :
    select value arms = (do
      match ← choose value arms with
      | none => pure []
      | some i => (arms[i]?.map Arm.body).getD (pure [])) := by
  induction arms with
  | nil => rw [select, choose, pure_bind]
  | cons arm arms ih =>
    rw [select, choose, bind_assoc]
    refine congrArg (arm.label >>= ·) (funext fun label => ?_)
    by_cases hlabel : label = value
    · simp [hlabel]
    · simp only [hlabel, if_false, ih, bind_assoc, pure_bind]
      refine congrArg (choose value arms >>= ·) (funext fun o => ?_)
      cases o <;> rfl

theorem arm_of_run_switchArm {m : Meaning} {arm : Arm} {c after : Context}
    (h : (switchArm m).run c = (.ok arm, after)) : m.arm = some arm := by
  unfold switchArm at h
  split at h
  · split at h
    · rename_i hm
      cases h
      exact hm
    · cases h
  · rw [malformedAt, run_bind] at h
    split at h <;> cases h

theorem arm_of_run_switchArms {ms : List Meaning} {arms : List Arm} {c after : Context}
    (h : (switchArms ms).run c = (.ok arms, after)) : ms.map Meaning.arm = arms.map some := by
  induction ms generalizing arms c with
  | nil =>
    cases h
    rfl
  | cons m ms ih =>
    rw [switchArms, run_bind] at h
    rcases hfirst : (switchArm m).run c with ⟨o, middle⟩
    rw [hfirst] at h
    cases o with
    | error f => cases h
    | ok first =>
      dsimp only at h
      rw [run_bind] at h
      rcases hrest : (switchArms ms).run middle with ⟨o, last⟩
      rw [hrest] at h
      cases o with
      | error f => cases h
      | ok rest =>
        cases h
        rw [List.map_cons, List.map_cons, arm_of_run_switchArm hfirst, ih hrest]

theorem bind_arm_eq {ms : List Meaning} {arms : List Arm}
    (h : ms.map Meaning.arm = arms.map some) (i : Nat) : ms[i]?.bind Meaning.arm = arms[i]? := by
  have hi : ms[i]?.map Meaning.arm = arms[i]?.map some := by
    rw [← List.getElem?_map, ← List.getElem?_map, h]
  cases hm : ms[i]? with
  | none =>
    rw [hm, Option.map_none] at hi
    exact (Option.map_eq_none_iff.1 hi.symm).symm
  | some m =>
    rw [hm, Option.map_some] at hi
    obtain ⟨arm, harm, hmarm⟩ := Option.map_eq_some_iff.1 hi.symm
    rw [harm, Option.bind_some, ← hmarm]

/-- A switch yields the content of the case that it selects. -/
theorem run_switch (children : List Meaning) (c : Context) :
    (switch children).run c =
      match (selection children).run c with
      | (.error f, after) => (.error f, after)
      | (.ok none, after) => (.ok [], after)
      | (.ok (some i), after) =>
          (((children[i + 1]?.bind Meaning.arm).map Arm.body).getD (pure [])).run after := by
  cases children with
  | nil => rfl
  | cons scrutinee cases =>
    rw [switch, selection, run_bind, run_bind]
    rcases harms : (switchArms cases).run c with ⟨o, after⟩
    cases o with
    | error f => rfl
    | ok arms =>
      have hcases := bind_arm_eq (arm_of_run_switchArms harms)
      dsimp only
      rw [run_bind, run_bind]
      rcases scrutinee.operand.run after with ⟨o, after⟩
      cases o with
      | error f => rfl
      | ok value =>
        dsimp only
        rw [select_eq, run_bind]
        rcases (choose value arms).run after with ⟨o, after⟩
        cases o with
        | error f => rfl
        | ok o =>
          cases o with
          | none => rfl
          | some i =>
            dsimp only
            rw [List.getElem?_cons_succ, hcases]

section

variable {R : Eval.Pairing} {W : Rewriting} {ms ms' : List Meaning}

theorem pairs_choose (value : String) {as as' : List Arm}
    (h : List.Forall₂ (Arm.Paired R W) as as') :
    R.Pairs Eq (choose value as) (choose value as') := by
  induction h with
  | nil => exact R.pure rfl
  | cons ha _ ih =>
    refine Pairing.andThen ha.1 fun label => ?_
    split
    · exact R.pure rfl
    · exact Pairing.andThen ih fun o => R.pure rfl

/-- A switch whose value has the same text on both sides selects the same case. -/
theorem pairs_selection (h : AllPaired R W ms ms')
    (hcomparable : ∀ m ∈ ms.head?, W.Comparable m.node) :
    R.Pairs Eq (selection ms) (selection ms') := by
  cases h with
  | nil => exact Pairing.malformed _ _
  | @cons m m' ms ms' hm hms =>
    refine R.bind (pairs_switchArms hms) fun as as' has => ?_
    exact Pairing.andThen (hm.operand (hcomparable m rfl)) fun value => pairs_choose value has

end

end Control

/-! ## Trees -/

namespace Renderer

variable {V : Value → Prop} {T : String → String → Prop} {r : Renderer}
  {inner inner' : Option Handle}

/-- What a renderer does by itself matches with and without escaping. -/
theorem paired_escaping (hS : Simulation V T) (hr : r.IsStandard)
    (hinner : Option.Rel (Handle.Paired hS.pairing hS.rewriting) inner inner') :
    Renderer.Paired hS.pairing hS.rewriting (r.escaping false) (r.escaping true) inner inner' where
  registry := rfl
  isVoid _ := rfl
  framed := hS.framed
  text s _ := Meaning.matches_ofText hS r s
  var name _ := Meaning.matches_ofVar hS r name
  hole _ := Meaning.matches_ofHole hS
  call tag handler attributes children hget hn := by
    have hstandard : (r.escaping false).IsStandard := hr
    refine Pairing.mono (pairs_call_of_standard hstandard hS.guards rfl hinner hget hn) ?_
    exact fun ss ts hst => hst ▸ hS.self ss
  condition tag p attributes children hp hn hms := by
    have hstandard : (r.escaping false).IsStandard := hr
    refine pairs_condition_of_standard hstandard hS.guards hp hn.self hms ?_
    exact map_node_denote _ _ children

/-- **Escaping changes no step of evaluation.**  With and without it, evaluation has the same
failures, and related texts where it has none, on all trees that compare leaves only, and on all
others when related texts are the same. -/
theorem matches_handle (hS : Simulation V T) (hr : r.IsStandard) (room : Nat) :
    ((r.escaping false).handle room).Paired hS.pairing hS.rewriting
      ((r.escaping true).handle room) := by
  induction room with
  | zero => exact ⟨node_denote _ _, paired_denote (paired_escaping hS hr .none)⟩
  | succ room ih => exact ⟨node_denote _ _, paired_denote (paired_escaping hS hr (.some ih))⟩

end Renderer

end MarkupForms

import MarkupForms.Proofs.Logic
import Mathlib.Data.List.Forall2

/-!
# Two evaluations side by side

Two evaluations of one tree often take the same steps: with another limit, with the values of
variables escaped or with marks on the fragments, a renderer asks the same questions in the same
order.  Here the forms are gone through once for all such pairs.  A fact about a pair comes as a
pairing, which judges two computations together with a relation between their results; what is
known of texts and fragments comes as a rewriting.

Conditions and operands decide what is evaluated next, so they have to be the same on both sides; a
rewriting says which nodes have the same text as an operand.

* `Eval.Pairing` : what is asked of judgements on pairs.
* `Rewriting` : what is asked of relations between texts and between fragments.
* `Meaning.Paired` : a judgement on whatever may be asked of a node on both sides.
* `Control.pairs_evaluate`, `Predicate.pairs_holds`, `Renderer.pairs_element` : the forms pass
  judgements on.
* `Interpretation` : how leaves and tags get a meaning; `Interpretation.paired_denote` : a judgement
  on leaves and tags holds of trees.
* `Renderer.paired_denote` : a judgement on leaves, calls and conditions holds of trees.
-/

namespace MarkupForms

/-! ## Judgements on pairs -/

/-- The tag that a render error blames for a fault, if it blames one. -/
def RenderError.blamed? : RenderError → Option String
  | .handlerFailed tag _ => some tag
  | _ => none

/-- Judgements on two computations and their results. -/
structure Eval.Pairing (σ : Type := Context) (τ : Type := Context) [Carrier σ] [Carrier τ] where
  /-- The judgement on two computations, with a relation between their results. -/
  Pairs : {α β : Type} → (α → β → Prop) → EvalOn σ α → EvalOn τ β → Prop
  /-- What is known of the values that a template can get at. -/
  Known : Value → Prop
  /-- Whether a node may be shown in a message. -/
  Legible : Node → Prop
  /-- Results that are at hand. -/
  pure : ∀ {α β : Type} {P : α → β → Prop} {a : α} {b : β}, P a b →
    Pairs P (Pure.pure a) (Pure.pure b)
  /-- One computation after another. -/
  bind : ∀ {α β γ δ : Type} {P : α → β → Prop} {Q : γ → δ → Prop} {m : EvalOn σ α}
    {m' : EvalOn τ β} {k : α → EvalOn σ γ} {k' : β → EvalOn τ δ}, Pairs P m m' →
      (∀ a b, P a b → Pairs Q (k a) (k' b)) → Pairs Q (m >>= k) (m' >>= k')
  /-- A failure that blames no handler. -/
  fail : ∀ {α β : Type} {P : α → β → Prop} {e : RenderError}, e.blamed? = none →
    Pairs P (Eval.fail e) (Eval.fail e)
  /-- A new frame that binds known values. -/
  inChild : ∀ {α β : Type} {P : α → β → Prop} {m : EvalOn σ α} {m' : EvalOn τ β}
    {bindings : List (String × Value)}, (∀ b ∈ bindings, Known b.2) → Pairs P m m' →
      Pairs P (Eval.inChild (.ofList bindings) m) (Eval.inChild (.ofList bindings) m')
  /-- The value of a variable. -/
  resolve : ∀ path, Pairs (fun v w => v = w ∧ Known v) (Eval.resolve path) (Eval.resolve path)
  /-- Whether a variable has a value. -/
  isSet : ∀ name, Pairs Eq (do return (← Eval.context).isSet name)
    (do return (← Eval.context).isSet name)
  /-- A node as it is written. -/
  written : ∀ {n}, Legible n → Pairs Eq (Eval.written n) (Eval.written n)
  /-- The items of a known list are known. -/
  item : ∀ {items}, Known (.list items) → ∀ v ∈ items, Known v
  /-- The keys and the values of a known map are known. -/
  entry : ∀ {entries}, Known (.map entries) → ∀ e ∈ entries, Known (.scalar e.1) ∧ Known e.2
  /-- Numbers are known. -/
  number : ∀ n : Int, Known (.scalar (toString n))

variable {σ τ : Type} [Carrier σ] [Carrier τ]

/-- Whether judgements do not change when failures leave handlers. -/
def Eval.Pairing.Guards (R : Eval.Pairing σ τ) : Prop :=
  ∀ {α : Type} {P : α → α → Prop} {m : EvalOn σ α} {m' : EvalOn τ α} (tag : String),
    R.Pairs P m m' → R.Pairs P (Eval.guarded tag m) (Eval.guarded tag m')

namespace Eval.Pairing

variable {R : Pairing σ τ} {α β γ δ : Type} {P Q : α → β → Prop} {m : EvalOn σ α}
  {m' : EvalOn τ β}

theorem mono (h : R.Pairs P m m') (hPQ : ∀ a b, P a b → Q a b) : R.Pairs Q m m' := by
  have hbind := R.bind h fun a b hab => R.pure (hPQ a b hab)
  rwa [bind_pure, bind_pure] at hbind

/-- After computations with the same result. -/
theorem andThen {k : α → EvalOn σ γ} {k' : α → EvalOn τ δ} {S : γ → δ → Prop} {m : EvalOn σ α}
    {m' : EvalOn τ α}
    (h : R.Pairs Eq m m') (hk : ∀ a, R.Pairs S (k a) (k' a)) : R.Pairs S (m >>= k) (m' >>= k') := by
  refine R.bind h fun a b hab => ?_
  subst hab
  exact hk a

/-- A call, which has a frame of its own. -/
theorem inEmpty (h : R.Pairs P m m') :
    R.Pairs P (Eval.inChild .empty m) (Eval.inChild .empty m') := by
  have hnone : ∀ b ∈ ([] : List (String × Value)), R.Known b.2 := by simp
  exact R.inChild hnone h

theorem malformed (form : String) (e : FormFault) :
    R.Pairs P (Eval.malformed form e) (Eval.malformed form e) :=
  R.fail rfl

theorem malformedAt (form : String) (e : String → FormFault) {n : Node} (hn : R.Legible n) :
    R.Pairs P (Eval.malformedAt form e n) (Eval.malformedAt form e n) :=
  andThen (R.written hn) fun _ => malformed form _

theorem invalidCondition {n : Node} (hn : R.Legible n) :
    R.Pairs P (Eval.invalidCondition n) (Eval.invalidCondition n) :=
  andThen (R.written hn) fun _ => R.fail rfl

theorem scalar (path : String) :
    R.Pairs (fun s t => s = t ∧ R.Known (.scalar s)) (Eval.scalar path) (Eval.scalar path) := by
  refine R.bind (R.resolve path) fun v w hvw => ?_
  obtain ⟨rfl, hv⟩ := hvw
  cases v with
  | scalar text => exact R.pure ⟨rfl, hv⟩
  | list items => exact R.fail rfl
  | map entries => exact R.fail rfl

end Eval.Pairing

/-- Relations between the texts and between the fragments of two evaluations. -/
structure Rewriting where
  /-- The relation between texts as values of attributes. -/
  Text : String → String → Prop
  /-- The relation between fragments. -/
  Fragments : List String → List String → Prop
  /-- Whether a node has the same text as an operand on both sides. -/
  Comparable : Node → Prop
  /-- No fragments. -/
  nil : Fragments [] []
  /-- Fragments after fragments. -/
  append : ∀ {a b a' b'}, Fragments a a' → Fragments b b' → Fragments (a ++ b) (a' ++ b')
  /-- Fragments as one text. -/
  join : ∀ {a a'}, Fragments a a' → Text (String.join a) (String.join a')
  /-- Other nodes than leaves have the same text as operands only if related texts are the same. -/
  compound : ∀ {n : Node}, ¬ n.IsLeaf → Comparable n → ∀ {s t}, Text s t → s = t

namespace Rewriting

/-- Texts and fragments are the same on both sides. -/
def same : Rewriting where
  Text := Eq
  Fragments := Eq
  Comparable _ := True
  nil := rfl
  append h h' := by rw [h, h']
  join h := by rw [h]
  compound _ _ _ _ h := h

/-- The relation between the texts of attributes. -/
abbrev Attributes (W : Rewriting) (ps ps' : List (String × String)) : Prop :=
  List.Forall₂ (fun p p' => p'.1 = p.1 ∧ W.Text p.2 p'.2) ps ps'

/-- Whether the tags of elements fit related contents. -/
structure Framed (W : Rewriting) : Prop where
  /-- A tag without a body. -/
  void : ∀ name {ps ps'}, W.Attributes ps ps' →
    W.Fragments [Markup.voidTag name ps] [Markup.voidTag name ps']
  /-- Two tags around a content. -/
  body : ∀ name {ps ps' content content'}, W.Attributes ps ps' → W.Fragments content content' →
    W.Fragments (Markup.openTag name ps :: content ++ [Markup.closeTag name])
      (Markup.openTag name ps' :: content' ++ [Markup.closeTag name])

theorem framed_same : same.Framed := by
  have hpairs {ps ps' : List (String × String)} (h : same.Attributes ps ps') : ps = ps' := by
    induction h with
    | nil => rfl
    | cons hp _ ih => rw [ih, Prod.ext hp.1.symm hp.2]
  constructor
  · intro name ps ps' h
    rw [hpairs h]
    rfl
  · intro name ps ps' content content' h hcontent
    rw [hpairs h, show content = content' from hcontent]
    rfl

end Rewriting

namespace Eval.Pairing

variable {R : Pairing σ τ} {W : Rewriting} {α β : Type}

/-- Items with related fragments, one by one. -/
theorem pairs_forEach {body : α → EvalOn σ (List String)} {body' : β → EvalOn τ (List String)}
    {xs : List α} {ys : List β}
    (h : List.Forall₂ (fun x y => R.Pairs W.Fragments (body x) (body' y)) xs ys) :
    R.Pairs W.Fragments (Eval.forEach body xs) (Eval.forEach body' ys) := by
  induction h with
  | nil => exact R.pure W.nil
  | cons hhead _ ih =>
    refine R.bind hhead fun a a' ha => R.bind ih fun b b' hb => ?_
    exact R.pure (W.append ha hb)

theorem joined {m : EvalOn σ (List String)} {m' : EvalOn τ (List String)}
    (h : R.Pairs W.Fragments m m') :
    R.Pairs W.Text (Eval.joined m) (Eval.joined m') :=
  R.bind h fun _ _ hparts => R.pure (W.join hparts)

end Eval.Pairing

open Eval.Pairing

/-! ## Meanings -/

section

variable {R : Eval.Pairing σ τ} {W : Rewriting}

/-- A judgement on two cases of a switch. -/
def Arm.Paired (R : Eval.Pairing σ τ) (W : Rewriting) (a : Arm σ) (a' : Arm τ) : Prop :=
  R.Pairs Eq a.label a'.label ∧ R.Pairs W.Fragments a.body a'.body

/-- A judgement on whatever may be asked of a node on both sides. -/
structure Meaning.Paired (R : Eval.Pairing σ τ) (W : Rewriting) (m : Meaning σ) (m' : Meaning τ) :
    Prop where
  /-- It is the same node. -/
  node : m'.node = m.node
  /-- It may be shown. -/
  legible : R.Legible m.node
  /-- Its fragments. -/
  evaluate : R.Pairs W.Fragments m.evaluate m'.evaluate
  /-- Its texts as the value of an attribute. -/
  attributeText : R.Pairs W.Text (m.attributeText true) (m'.attributeText true)
  /-- Its text as the value of an attribute that is not escaped. -/
  raw : W.Comparable m.node → R.Pairs Eq (m.attributeText false) (m'.attributeText false)
  /-- Its truth value. -/
  test : R.Pairs Eq m.test m'.test
  /-- Its parts as a case of a switch. -/
  arm : ∀ attributes children, m.node = .tag "case" attributes children →
    Option.Rel (Arm.Paired R W) m.arm m'.arm

/-- Its text as an operand. -/
theorem Meaning.Paired.operand {m : Meaning σ} {m' : Meaning τ} (h : m.Paired R W m')
    (hcomparable : W.Comparable m.node) : R.Pairs Eq m.operand m'.operand := by
  have htext (hnode : ¬ m.node.IsLeaf) : R.Pairs Eq m.text m'.text :=
    mono (joined h.evaluate) fun _ _ hst => W.compound hnode hcomparable hst
  unfold Meaning.operand
  rw [h.node]
  split <;> rename_i hnode
  · exact h.raw hcomparable
  · exact h.raw hcomparable
  · exact htext (by simp [hnode, Node.IsLeaf])
  · exact htext (by simp [hnode, Node.IsLeaf])

/-- A judgement on several nodes, one by one. -/
abbrev AllPaired (R : Eval.Pairing σ τ) (W : Rewriting) (ms : List (Meaning σ))
    (ms' : List (Meaning τ)) : Prop :=
  List.Forall₂ (Meaning.Paired R W) ms ms'

/-- A judgement on attributes, one by one. -/
abbrev EntriesPaired (R : Eval.Pairing σ τ) (W : Rewriting) (es : List (String × Meaning σ))
    (es' : List (String × Meaning τ)) : Prop :=
  List.Forall₂ (fun e e' => e'.1 = e.1 ∧ e.2.Paired R W e'.2) es es'

/-- The meanings of several nodes. -/
theorem AllPaired.map {f : Node → Meaning σ} {g : Node → Meaning τ} {ns : List Node}
    (h : ∀ n ∈ ns, (f n).Paired R W (g n)) : AllPaired R W (ns.map f) (ns.map g) := by
  rw [AllPaired, List.forall₂_map_left_iff, List.forall₂_map_right_iff]
  exact List.forall₂_same.2 h

theorem AllPaired.map_node {ms : List (Meaning σ)} {ms' : List (Meaning τ)}
    (h : AllPaired R W ms ms') : ms'.map Meaning.node = ms.map Meaning.node := by
  induction h with
  | nil => rfl
  | cons hm _ ih => rw [List.map_cons, List.map_cons, hm.node, ih]

/-- Attributes are found on both sides or on neither. -/
theorem EntriesPaired.lookup {es : List (String × Meaning σ)} {es' : List (String × Meaning τ)}
    (h : EntriesPaired R W es es') (key : String) :
    Option.Rel (fun m m' => m.Paired R W m' ∧ ∃ e ∈ es, e.2 = m) (es.lookup key)
      (es'.lookup key) := by
  induction h with
  | nil => exact .none
  | @cons e e' es es' he _ ih =>
    rw [Entries.lookup_cons_eq, Entries.lookup_cons_eq, he.1]
    split
    · exact .some ⟨he.2, e, List.mem_cons_self, rfl⟩
    · generalize es.lookup key = o at ih
      generalize es'.lookup key = o' at ih
      cases ih with
      | none => exact .none
      | some hm =>
        obtain ⟨hm, a, ha, heq⟩ := hm
        exact .some ⟨hm, a, List.mem_cons_of_mem e ha, heq⟩

theorem pairs_evaluateAll {ms : List (Meaning σ)} {ms' : List (Meaning τ)}
    (h : AllPaired R W ms ms') : R.Pairs W.Fragments (evaluateAll ms) (evaluateAll ms') :=
  pairs_forEach (h.imp fun _ _ hm => hm.evaluate)

/-! ## Control forms -/

namespace Control

variable {ms : List (Meaning σ)} {ms' : List (Meaning τ)} {es : List (String × Meaning σ)}
  {es' : List (String × Meaning τ)}

theorem pairs_choice (h : AllPaired R W ms ms') :
    R.Pairs W.Fragments (choice ms) (choice ms') := by
  match h with
  | .nil | .cons _ .nil => exact malformed _ _
  | .cons hcondition (.cons hyes .nil) =>
    refine andThen hcondition.test fun b => ?_
    split
    · exact hyes.evaluate
    · exact R.pure W.nil
  | .cons hcondition (.cons hyes (.cons hno .nil)) =>
    refine andThen hcondition.test fun b => ?_
    split
    · exact hyes.evaluate
    · exact hno.evaluate
  | .cons _ (.cons _ (.cons _ (.cons _ _))) => exact malformed _ _

theorem pairs_loopName {n : Node} (hn : R.Legible n) :
    R.Pairs Eq (loopName n) (loopName n) := by
  unfold loopName
  split
  · split
    · exact R.pure rfl
    · exact malformedAt _ _ hn
  · exact malformedAt _ _ hn

theorem pairs_loopNames {ns : List Node} (hns : ∀ n ∈ ns, R.Legible n) :
    R.Pairs Eq (loopNames ns) (loopNames ns) := by
  induction ns with
  | nil => exact R.pure rfl
  | cons n ns ih =>
    refine andThen (pairs_loopName (hns n List.mem_cons_self)) fun first => ?_
    exact andThen (ih fun n' hn' => hns n' (List.mem_cons_of_mem n hn')) fun rest => R.pure rfl

theorem pairs_round {bindings : List (String × Value)} (hb : ∀ b ∈ bindings, R.Known b.2)
    (h : AllPaired R W ms ms') : R.Pairs W.Fragments (round bindings ms) (round bindings ms') :=
  R.inChild hb (pairs_evaluateAll h)

theorem pairs_overItems (name : String) {items : List Value} (hv : R.Known (.list items))
    (h : AllPaired R W ms ms') :
    R.Pairs W.Fragments (overItems name items ms) (overItems name items ms') := by
  refine pairs_forEach (List.forall₂_same.2 fun item hitem => pairs_round ?_ h)
  intro b hb
  rw [List.mem_singleton.1 hb]
  exact R.item hv item hitem

theorem pairs_overPositions (name index : String) {items : List Value} (hv : R.Known (.list items))
    (h : AllPaired R W ms ms') :
    R.Pairs W.Fragments (overPositions name index items ms)
      (overPositions name index items ms') := by
  refine pairs_forEach (List.forall₂_same.2 fun p hp => pairs_round ?_ h)
  intro b hb
  rcases List.mem_cons.1 hb with rfl | hb
  · exact R.item hv p.1 (List.fst_mem_of_mem_zipIdx hp)
  · rw [List.mem_singleton.1 hb]
    exact R.number p.2

theorem pairs_overEntries (key value : String) {entries : List (String × Value)}
    (hv : R.Known (.map entries)) (h : AllPaired R W ms ms') :
    R.Pairs W.Fragments (overEntries key value entries ms) (overEntries key value entries ms') := by
  refine pairs_forEach (List.forall₂_same.2 fun e he => pairs_round ?_ h)
  intro b hb
  rcases List.mem_cons.1 hb with rfl | hb
  · exact (R.entry hv e he).1
  · rw [List.mem_singleton.1 hb]
    exact (R.entry hv e he).2

theorem pairs_overIntegers (name : String) (h : AllPaired R W ms ms') (step : Int) (n : Nat)
    (i : Int) :
    R.Pairs W.Fragments (overIntegers name ms step n i) (overIntegers name ms' step n i) := by
  induction n generalizing i with
  | zero => exact R.pure W.nil
  | succ n ih =>
    have hnumber : ∀ b ∈ [(name, Value.scalar (toString i))], R.Known b.2 := by
      intro b hb
      rw [List.mem_singleton.1 hb]
      exact R.number i
    refine R.bind (pairs_round hnumber h) fun a a' ha => R.bind (ih (i + step)) fun b b' hb => ?_
    exact R.pure (W.append ha hb)

theorem pairs_overCollection (names : List String) (source : String) (h : AllPaired R W ms ms') :
    R.Pairs W.Fragments (overCollection names source ms) (overCollection names source ms') := by
  refine R.bind (R.resolve source) fun v w hvw => ?_
  obtain ⟨rfl, hv⟩ := hvw
  split
  · split
    · exact pairs_overItems _ hv h
    · exact R.fail rfl
  · split
    · exact pairs_overEntries _ _ hv h
    · exact R.fail rfl
  · exact malformed _ _

/-- Two related loops are split at the same place. -/
theorem rel_splitLoop (h : AllPaired R W ms ms') :
    Option.Rel (fun (p : List (Meaning σ) × List (Meaning σ))
        (p' : List (Meaning τ) × List (Meaning τ)) =>
      AllPaired R W p.1 p'.1 ∧ AllPaired R W p.2 p'.2) (splitLoop ms) (splitLoop ms') := by
  have hisIn {m : Meaning σ} {m' : Meaning τ} (hm : m.Paired R W m') : isIn m' = isIn m := by
    rw [isIn, isIn, hm.node]
  match h with
  | .nil | .cons _ .nil => exact .none
  | .cons ha (.cons hb .nil) =>
    rw [splitLoop, splitLoop, hisIn hb]
    split
    · exact .some ⟨.cons ha .nil, .nil⟩
    · exact .none
  | .cons ha (.cons hb (.cons hc hrest)) =>
    rw [splitLoop, splitLoop, hisIn hb]
    split
    · exact .some ⟨.cons ha .nil, .cons hc hrest⟩
    · rw [hisIn hc]
      split
      · exact .some ⟨.cons ha (.cons hb .nil), hrest⟩
      · exact .none


theorem AllPaired.legible (h : AllPaired R W ms ms') : ∀ n ∈ ms.map Meaning.node, R.Legible n := by
  induction h with
  | nil => simp
  | cons hm _ ih =>
    intro n hn
    rcases List.mem_cons.1 hn with rfl | hn
    · exact hm.legible
    · exact ih n hn

theorem pairs_wordLoop (h : AllPaired R W ms ms') :
    R.Pairs W.Fragments (wordLoop ms) (wordLoop ms') := by
  have hsplit := rel_splitLoop h
  unfold wordLoop
  generalize splitLoop ms = o at hsplit
  generalize splitLoop ms' = o' at hsplit
  cases hsplit with
  | none => exact malformed _ _
  | @some p p' hp =>
    obtain ⟨hnames, hrest⟩ := hp
    obtain ⟨names, rest⟩ := p
    obtain ⟨names', rest'⟩ := p'
    dsimp only at hnames hrest ⊢
    rw [hnames.map_node]
    refine andThen (pairs_loopNames (AllPaired.legible hnames)) fun _ => ?_
    cases hrest with
    | nil => exact malformed _ _
    | cons hsource hbody =>
      dsimp only
      rw [hsource.node]
      split
      · exact pairs_overCollection _ _ hbody
      · rename_i n hnode
        exact malformedAt _ _ hsource.legible

theorem pairs_requiredName (h : EntriesPaired R W es es') (key : String) :
    R.Pairs Eq (requiredName es key) (requiredName es' key) := by
  have hlookup := h.lookup key
  unfold requiredName
  generalize es.lookup key = o at hlookup
  generalize es'.lookup key = o' at hlookup
  cases hlookup with
  | none => exact malformed _ _
  | some hm =>
    dsimp only
    rw [hm.1.node]
    exact pairs_loopName hm.1.legible

theorem pairs_optionalName (h : EntriesPaired R W es es') (key : String) :
    R.Pairs Eq (optionalName es key) (optionalName es' key) := by
  have hlookup := h.lookup key
  unfold optionalName
  generalize es.lookup key = o at hlookup
  generalize es'.lookup key = o' at hlookup
  cases hlookup with
  | none => exact R.pure rfl
  | some hm =>
    dsimp only
    rw [hm.1.node]
    exact andThen (pairs_loopName hm.1.legible) fun _ => R.pure rfl

theorem pairs_integer (key : String) {m : Meaning σ} {m' : Meaning τ} (hm : m.Paired R W m')
    (hcomparable : W.Comparable m.node) : R.Pairs Eq (integer key m) (integer key m') := by
  refine andThen (hm.raw hcomparable) fun text => ?_
  split
  · exact R.pure rfl
  · exact R.fail rfl

theorem pairs_rangeLoop (hes : EntriesPaired R W es es')
    (hcomparable : ∀ e ∈ es, W.Comparable e.2.node) {min max : Meaning σ} {min' max' : Meaning τ}
    (hmin : min.Paired R W min') (hmax : max.Paired R W max') (hminNode : W.Comparable min.node)
    (hmaxNode : W.Comparable max.node) (h : AllPaired R W ms ms') :
    R.Pairs W.Fragments (rangeLoop es min max ms) (rangeLoop es' min' max' ms') := by
  refine andThen (pairs_requiredName hes "var") fun name => ?_
  refine andThen (pairs_integer _ hmin hminNode) fun start => ?_
  refine andThen (pairs_integer _ hmax hmaxNode) fun stop => ?_
  have hrounds (step : Int) : R.Pairs W.Fragments
      (if step ≤ 0 then Eval.malformed "for" (.badStep step)
        else overIntegers name ms step (stepCount start stop step) start)
      (if step ≤ 0 then Eval.malformed "for" (.badStep step)
        else overIntegers name ms' step (stepCount start stop step) start) := by
    split
    · exact malformed _ _
    · exact pairs_overIntegers _ h _ _ _
  have hlookup := hes.lookup "step"
  generalize es.lookup "step" = o at hlookup
  generalize es'.lookup "step" = o' at hlookup
  cases hlookup with
  | none => exact andThen (R.pure rfl) hrounds
  | some hm =>
    obtain ⟨hm, e, he, rfl⟩ := hm
    exact andThen (pairs_integer _ hm (hcomparable e he)) hrounds

theorem pairs_sourceLoop (hes : EntriesPaired R W es es') (source : String)
    (h : AllPaired R W ms ms') :
    R.Pairs W.Fragments (sourceLoop es source ms) (sourceLoop es' source ms') := by
  refine R.bind (R.resolve source) fun v w hvw => ?_
  obtain ⟨rfl, hv⟩ := hvw
  cases v with
  | scalar text => exact R.fail rfl
  | list items =>
    refine andThen (pairs_requiredName hes "var") fun name => ?_
    refine andThen (pairs_optionalName hes "index") fun index => ?_
    cases index with
    | none => exact pairs_overItems _ hv h
    | some index => exact pairs_overPositions _ _ hv h
  | map entries =>
    refine andThen (pairs_requiredName hes "key") fun key => ?_
    refine andThen (pairs_requiredName hes "value") fun value => ?_
    exact pairs_overEntries _ _ hv h

theorem pairs_attributeLoop (hes : EntriesPaired R W es es')
    (hcomparable : ∀ e ∈ es, W.Comparable e.2.node) (h : AllPaired R W ms ms') :
    R.Pairs W.Fragments (attributeLoop es ms) (attributeLoop es' ms') := by
  have hmin := hes.lookup "min"
  have hmax := hes.lookup "max"
  have hsource := hes.lookup "iterate"
  unfold attributeLoop
  generalize es.lookup "min" = o at hmin
  generalize es'.lookup "min" = o' at hmin
  generalize es.lookup "max" = p at hmax
  generalize es'.lookup "max" = p' at hmax
  generalize es.lookup "iterate" = q at hsource
  generalize es'.lookup "iterate" = q' at hsource
  cases hmin with
  | some hmin =>
    cases hmax with
    | none => exact malformed _ _
    | some hmax =>
      obtain ⟨hmin, e, he, rfl⟩ := hmin
      obtain ⟨hmax, f, hf, rfl⟩ := hmax
      exact pairs_rangeLoop hes hcomparable hmin hmax (hcomparable e he) (hcomparable f hf) h
  | none =>
    cases hmax with
    | some hmax => exact malformed _ _
    | none =>
      cases hsource with
      | none => exact malformed _ _
      | some hm =>
        dsimp only
        rw [hm.1.node]
        split
        · exact pairs_sourceLoop hes _ h
        · exact malformedAt _ _ hm.1.legible

theorem pairs_loop {as : Option (List (String × Meaning σ))}
    {as' : Option (List (String × Meaning τ))} (has : Option.Rel (EntriesPaired R W) as as')
    (hcomparable : ∀ es ∈ as, ∀ e ∈ es, W.Comparable e.2.node) (h : AllPaired R W ms ms') :
    R.Pairs W.Fragments (loop as ms) (loop as' ms') := by
  cases has with
  | none => exact pairs_wordLoop h
  | @some es es' hes => exact pairs_attributeLoop hes (hcomparable es rfl) h

/-- The cases of a switch are found on both sides. -/
theorem pairs_switchArms (h : AllPaired R W ms ms') :
    R.Pairs (List.Forall₂ (Arm.Paired R W)) (switchArms ms) (switchArms ms') := by
  induction h with
  | nil => exact R.pure .nil
  | @cons m m' ms ms' hm _ ih =>
    have harm : R.Pairs (Arm.Paired R W) (switchArm m) (switchArm m') := by
      unfold switchArm
      rw [hm.node]
      split
      · rename_i attributes children hnode
        have hrel := hm.arm attributes children hnode
        generalize m.arm = o at hrel
        generalize m'.arm = o' at hrel
        cases hrel with
        | none => exact malformed _ _
        | some ha => exact R.pure ha
      · exact malformedAt _ _ hm.legible
    exact R.bind harm fun _ _ hfirst => R.bind ih fun _ _ hrest => R.pure (.cons hfirst hrest)

theorem pairs_select (value : String) {as : List (Arm σ)} {as' : List (Arm τ)}
    (h : List.Forall₂ (Arm.Paired R W) as as') :
    R.Pairs W.Fragments (select value as) (select value as') := by
  induction h with
  | nil => exact R.pure W.nil
  | cons ha _ ih =>
    refine andThen ha.1 fun label => ?_
    split
    · exact ha.2
    · exact ih

theorem pairs_switch (h : AllPaired R W ms ms')
    (hcomparable : ∀ m ∈ ms.head?, W.Comparable m.node) :
    R.Pairs W.Fragments (switch ms) (switch ms') := by
  cases h with
  | nil => exact malformed _ _
  | @cons m m' ms ms' hm hms =>
    refine R.bind (pairs_switchArms hms) fun as as' has => ?_
    refine andThen (hm.operand (hcomparable m rfl)) fun value => ?_
    exact pairs_select value has

/-- Control forms pass a judgement on.  The attributes of a loop and the value of a switch are
compared with something, so their texts have to be the same on both sides. -/
theorem pairs_evaluate (form : ControlForm) {as : Option (List (String × Meaning σ))}
    {as' : Option (List (String × Meaning τ))} (has : Option.Rel (EntriesPaired R W) as as')
    (hattributes : ∀ es ∈ as, ∀ e ∈ es, W.Comparable e.2.node) (h : AllPaired R W ms ms')
    (hscrutinee : form = .switch → ∀ m ∈ ms.head?, W.Comparable m.node) :
    R.Pairs W.Fragments (evaluate form as ms) (evaluate form as' ms') := by
  cases form with
  | choice => exact pairs_choice h
  | loop => exact pairs_loop has hattributes h
  | switch => exact pairs_switch h (hscrutinee rfl)
  | case => exact malformed _ _

end Control

/-! ## Predicates -/

namespace Predicate

variable {ms : List (Meaning σ)} {ms' : List (Meaning τ)}

theorem pairs_sameOperands (form : String) (h : AllPaired R W ms ms')
    (hcomparable : ∀ m ∈ ms, W.Comparable m.node) :
    R.Pairs Eq (sameOperands form ms) (sameOperands form ms') := by
  have hlength := h.length_eq
  match h with
  | .nil | .cons _ .nil => exact malformed _ _
  | .cons hleft (.cons hright .nil) =>
    refine andThen (hleft.operand (hcomparable _ (by simp))) fun a => ?_
    refine andThen (hright.operand (hcomparable _ (by simp))) fun b => ?_
    exact R.pure rfl
  | .cons _ (.cons _ (.cons _ hrest)) =>
    unfold sameOperands
    rw [hlength]
    exact malformed _ _

theorem pairs_allHold (h : AllPaired R W ms ms') : R.Pairs Eq (allHold ms) (allHold ms') := by
  induction h with
  | nil => exact R.pure rfl
  | cons hm _ ih =>
    refine andThen hm.test fun b => ?_
    split
    · exact ih
    · exact R.pure rfl

theorem pairs_someHolds (h : AllPaired R W ms ms') :
    R.Pairs Eq (someHolds ms) (someHolds ms') := by
  induction h with
  | nil => exact R.pure rfl
  | cons hm _ ih =>
    refine andThen hm.test fun b => ?_
    split
    · exact R.pure rfl
    · exact ih

/-- Predicates pass a judgement on.  Those of the library ask for nothing but operands, truth values
and variables. -/
theorem pairs_holds (p : Predicate) (h : AllPaired R W ms ms')
    (hoperands : p = .equal ∨ p = .unequal → ∀ m ∈ ms, W.Comparable m.node)
    (htexts : ∀ expected, p = .textEquals expected →
      R.Pairs Eq (Eval.joined (evaluateAll ms)) (Eval.joined (evaluateAll ms')))
    (hraising : ∀ f, p = .raising f → R.Pairs (Eq (α := Bool)) (throw f) (throw f))
    (hlookup : p = .nonempty → ∀ name,
      R.Pairs Eq (do return hasContent ((← Eval.context).lookup name))
        (do return hasContent ((← Eval.context).lookup name))) :
    R.Pairs Eq (p.holds ms) (p.holds ms') := by
  cases p with
  | isSet =>
    rw [holds, holds, h.map_node]
    split
    · exact R.isSet _
    · exact malformed _ _
  | equal => exact pairs_sameOperands "eq" h (hoperands (.inl rfl))
  | unequal =>
    exact andThen (pairs_sameOperands "ne" h (hoperands (.inr rfl))) fun b => R.pure rfl
  | negation =>
    have hlength := h.length_eq
    cases h with
    | nil => exact malformed _ _
    | cons hm hms =>
      cases hms with
      | nil => exact andThen hm.test fun b => R.pure rfl
      | cons =>
        show R.Pairs Eq (Eval.malformed "not" (.conditionCount _))
          (Eval.malformed "not" (.conditionCount _))
        rw [hlength]
        exact malformed _ _
  | conjunction =>
    cases h with
    | nil => exact malformed _ _
    | cons hm hms => exact pairs_allHold (.cons hm hms)
  | disjunction =>
    cases h with
    | nil => exact malformed _ _
    | cons hm hms => exact pairs_someHolds (.cons hm hms)
  | constant value => exact R.pure rfl
  | filled text => exact R.pure rfl
  | textEquals expected => exact andThen (htexts expected rfl) fun text => R.pure rfl
  | raising failure => exact hraising failure rfl
  | nonempty =>
    rw [holds, holds, h.map_node]
    split
    · exact hlookup rfl _
    · exact R.pure rfl

/-- The predicates of the library pass a judgement on. -/
theorem pairs_holds_of_standard {tag : String} {p : Predicate} (hp : (tag, p) ∈ standard)
    (h : AllPaired R W ms ms')
    (hoperands : tag = "eq" ∨ tag = "ne" → ∀ m ∈ ms, W.Comparable m.node) :
    R.Pairs Eq (p.holds ms) (p.holds ms') := by
  refine pairs_holds p h (fun hequal => hoperands ?_) (fun _ he => ?_) (fun _ he => ?_) fun he => ?_
  · rcases hequal with rfl | rfl
    · exact .inl (by simpa [standard] using hp)
    · exact .inr (by simpa [standard] using hp)
  all_goals
    subst he
    simp [standard] at hp

end Predicate

/-! ## Interpretations of trees -/

/-- What holds of a tag if it holds of its attributes and children holds of all nodes. -/
theorem Node.induction {P : Node → Prop} (text : ∀ s, P (.text s)) (var : ∀ name, P (.var name))
    (hole : P .hole)
    (tag : ∀ (name : String) (attributes : Option Attributes) (children : List Node),
      (∀ e ∈ attributes.getD [], P e.2) → (∀ n ∈ children, P n) → P (.tag name attributes children))
    (n : Node) : P n := by
  refine @Node.rec P (fun attributes => ∀ e ∈ attributes.getD [], P e.2) (fun ns => ∀ n ∈ ns, P n)
    (fun es => ∀ e ∈ es, P e.2) (fun e => P e.2) text var tag hole ?_ ?_ ?_ ?_ ?_ ?_ ?_ n
  · exact fun e he => by cases he
  · exact fun _ h => h
  · exact fun n hn => by cases hn
  · exact fun n ns hn hns => List.forall_mem_cons.2 ⟨hn, hns⟩
  · exact fun e he => by cases he
  · exact fun e es he hes => List.forall_mem_cons.2 ⟨he, hes⟩
  · exact fun _ _ hn => hn

/-- How the meanings of leaves are given and those of tags are made. -/
structure Interpretation (σ : Type := Context) where
  /-- The meaning of a text. -/
  text : String → Meaning σ
  /-- The meaning of a variable. -/
  var : String → Meaning σ
  /-- The meaning of a hole. -/
  hole : Meaning σ
  /-- The meaning of a tag, made of the meanings of its attributes and children. -/
  tag : String → Option Attributes → List Node → Option (List (String × Meaning σ)) →
    List (Meaning σ) → Meaning σ
  /-- It is the meaning of that text. -/
  node_text : ∀ s, (text s).node = .text s
  /-- It is the meaning of that variable. -/
  node_var : ∀ name, (var name).node = .var name
  /-- It is the meaning of a hole. -/
  node_hole : hole.node = .hole
  /-- It is the meaning of that tag. -/
  node_tag : ∀ name attributes children es ms,
    (tag name attributes children es ms).node = .tag name attributes children

namespace Interpretation

variable {ρ : Type}

mutual

/-- The meaning of a node. -/
def denote (I : Interpretation ρ) : Node → Meaning ρ
  | .text s => I.text s
  | .var name => I.var name
  | .hole => I.hole
  | .tag name none children => I.tag name none children none (denoteAll I children)
  | .tag name (some attributes) children =>
      I.tag name (some attributes) children (some (denoteEntries I attributes))
        (denoteAll I children)

/-- The meanings of nodes. -/
def denoteAll (I : Interpretation ρ) : List Node → List (Meaning ρ)
  | [] => []
  | n :: ns => denote I n :: denoteAll I ns

/-- The meanings of the values of attributes. -/
def denoteEntries (I : Interpretation ρ) : List (String × Node) → List (String × Meaning ρ)
  | [] => []
  | (key, n) :: rest => (key, denote I n) :: denoteEntries I rest

end

theorem denoteAll_eq_map (I : Interpretation ρ) (ns : List Node) :
    I.denoteAll ns = ns.map I.denote := by
  induction ns with
  | nil => rw [denoteAll]; rfl
  | cons n ns ih => rw [denoteAll, ih]; rfl

theorem denoteEntries_eq_map (I : Interpretation ρ) (es : List (String × Node)) :
    I.denoteEntries es = es.map fun e => (e.1, I.denote e.2) := by
  induction es with
  | nil => rw [denoteEntries]; rfl
  | cons e es ih =>
    obtain ⟨key, n⟩ := e
    rw [denoteEntries, ih]
    rfl

/-- The meanings of the values in a block of attributes. -/
def entries (I : Interpretation ρ) (attributes : Option Attributes) :
    Option (List (String × Meaning ρ)) :=
  attributes.map fun as => as.map fun e => (e.1, I.denote e.2)

theorem denote_tag (I : Interpretation ρ) (name : String) (attributes : Option Attributes)
    (children : List Node) :
    I.denote (.tag name attributes children) =
      I.tag name attributes children (I.entries attributes) (children.map I.denote) := by
  cases attributes with
  | none => rw [denote, denoteAll_eq_map]; rfl
  | some attributes => rw [denote, denoteAll_eq_map, denoteEntries_eq_map]; rfl

theorem node_denote (I : Interpretation ρ) (n : Node) : (I.denote n).node = n := by
  cases n with
  | text s => rw [denote, I.node_text]
  | var name => rw [denote, I.node_var]
  | hole => rw [denote, I.node_hole]
  | tag name attributes children => rw [denote_tag, I.node_tag]

theorem map_node_denote (I : Interpretation ρ) (ns : List Node) :
    (ns.map I.denote).map Meaning.node = ns := by
  rw [List.map_map]
  conv_rhs => rw [← List.map_id ns]
  exact List.map_congr_left fun n _ => I.node_denote n

end Interpretation

/-- Whether what a node compares has the same text on both sides, and it may be shown. -/
structure Node.Suits (R : Eval.Pairing σ τ) (W : Rewriting) (n : Node) : Prop where
  /-- It may be shown. -/
  legible : R.Legible n
  /-- The operands of a comparison. -/
  operands : ∀ name attributes children, n = .tag name attributes children →
    name = "eq" ∨ name = "ne" → ∀ n ∈ children, W.Comparable n
  /-- The value of a switch and the label of a case. -/
  head : ∀ name attributes children, n = .tag name attributes children →
    name = "switch" ∨ name = "case" → ∀ n ∈ children.head?, W.Comparable n
  /-- The values of attributes. -/
  values : ∀ name attributes children, n = .tag name (some attributes) children →
    ∀ e ∈ attributes, W.Comparable e.2

namespace Interpretation

variable {I : Interpretation σ} {I' : Interpretation τ}

/-- A judgement on what two interpretations do with leaves and tags. -/
structure Paired (R : Eval.Pairing σ τ) (W : Rewriting) (I : Interpretation σ)
    (I' : Interpretation τ) : Prop where
  /-- Texts. -/
  text : ∀ s, R.Legible (.text s) → (I.text s).Paired R W (I'.text s)
  /-- Variables. -/
  var : ∀ name, R.Legible (.var name) → (I.var name).Paired R W (I'.var name)
  /-- Holes. -/
  hole : R.Legible .hole → I.hole.Paired R W I'.hole
  /-- Tags, if what is below them is related. -/
  tag : ∀ {tag attributes children}, (Node.tag tag attributes children).Every (Node.Suits R W) →
    Option.Rel (EntriesPaired R W) (I.entries attributes) (I'.entries attributes) →
      AllPaired R W (children.map I.denote) (children.map I'.denote) →
        (I.denote (.tag tag attributes children)).Paired R W
          (I'.denote (.tag tag attributes children))

/-- The two meanings of a tree. -/
theorem paired_denote (hI : Paired R W I I') (n : Node) (hn : n.Every (Node.Suits R W)) :
    (I.denote n).Paired R W (I'.denote n) := by
  induction n using Node.induction with
  | text s => exact hI.text s hn.self.legible
  | var name => exact hI.var name hn.self.legible
  | hole => exact hI.hole hn.self.legible
  | tag name attributes children hattributes hchildren =>
    have hms : AllPaired R W (children.map I.denote) (children.map I'.denote) :=
      .map fun n hmem => hchildren n hmem (hn.child hmem)
    refine hI.tag hn ?_ hms
    cases attributes with
    | none => exact .none
    | some attributes =>
      refine .some ?_
      rw [EntriesPaired, List.forall₂_map_left_iff, List.forall₂_map_right_iff]
      exact List.forall₂_same.2 fun e he => ⟨rfl, hattributes e he (hn.value he)⟩

/-- The values of attributes may be compared. -/
theorem comparable_entries (I : Interpretation σ) {tag : String} {attributes : Option Attributes}
    {children : List Node} (hn : (Node.tag tag attributes children).Suits R W) :
    ∀ as ∈ I.entries attributes, ∀ e ∈ as, W.Comparable e.2.node := by
  intro as has e he
  cases attributes with
  | none => cases has
  | some attributes =>
    cases has
    obtain ⟨a, ha, rfl⟩ := List.mem_map.1 he
    rw [I.node_denote]
    exact hn.values tag attributes children rfl a ha

end Interpretation

/-! ## Renderers -/

/-- A judgement on what two handles give to a tree. -/
structure Handle.Paired (R : Eval.Pairing σ τ) (W : Rewriting) (h : Handle σ) (h' : Handle τ) :
    Prop where
  /-- The first one gives a meaning to the node itself. -/
  node : ∀ n, (h.meaning n).node = n
  /-- The two meanings. -/
  meaning : ∀ n : Node, n.Every (Node.Suits R W) → (h.meaning n).Paired R W (h'.meaning n)

theorem Meaning.node_ofHole {σ : Type} : (ofHole : Meaning σ).node = .hole := rfl

/-- The meaning of a tag with the given fragments and truth value. -/
def Meaning.ofTag (tag : String) (attributes : Option Attributes) (children : List Node)
    (fragments : EvalOn σ (List String)) (test : EvalOn σ Bool) (ms : List (Meaning σ)) :
    Meaning σ where
  node := .tag tag attributes children
  evaluate := fragments
  attributeText _ := Eval.joined fragments
  test := test
  arm := Renderer.arm? ms

/-- The meaning of a tag whose fragments and truth value are judged. -/
theorem Meaning.paired_ofTag {tag : String} {attributes : Option Attributes}
    {children : List Node} (hn : (Node.tag tag attributes children).Suits R W)
    {fragments : EvalOn σ (List String)} {fragments' : EvalOn τ (List String)}
    (hfragments : R.Pairs W.Fragments fragments fragments') {test : EvalOn σ Bool}
    {test' : EvalOn τ Bool} (htest : R.Pairs Eq test test') {ms : List (Meaning σ)}
    {ms' : List (Meaning τ)} (hms : AllPaired R W ms ms')
    (hnodes : ms.map Meaning.node = children) :
    (ofTag tag attributes children fragments test ms).Paired R W
      (ofTag tag attributes children fragments' test' ms') := by
  refine ⟨rfl, hn.legible, hfragments, joined hfragments, fun hcomparable => ?_, htest, ?_⟩
  · exact mono (joined hfragments) fun _ _ hst => W.compound id hcomparable hst
  · intro attributes' children' hnode
    cases hnode
    show Option.Rel _ (Renderer.arm? ms) (Renderer.arm? ms')
    cases hms with
    | nil => exact .none
    | @cons m m' ms ms' hm hms =>
      refine .some ⟨hm.operand ?_, pairs_evaluateAll hms⟩
      refine hn.head "case" attributes children rfl (.inr rfl) m.node ?_
      rw [← hnodes, List.map_cons, List.head?_cons]
      rfl

namespace Renderer

variable {r r' : Renderer} {inner : Option (Handle σ)} {inner' : Option (Handle τ)}

/-- What a renderer makes of leaves and tags. -/
def interpretation (r : Renderer) (inner : Option (Handle σ)) : Interpretation σ where
  text := .ofText r
  var := .ofVar r
  hole := .ofHole
  tag := r.tagMeaning inner
  node_text _ := rfl
  node_var _ := rfl
  node_hole := Meaning.node_ofHole
  node_tag _ _ _ _ _ := rfl

theorem denoteAll_eq_map (r : Renderer) (inner : Option (Handle σ)) (ns : List Node) :
    r.denoteAll inner ns = ns.map (r.denote inner) := by
  induction ns with
  | nil => rw [denoteAll]; rfl
  | cons n ns ih => rw [denoteAll, ih]; rfl

theorem denoteEntries_eq_map (r : Renderer) (inner : Option (Handle σ))
    (es : List (String × Node)) :
    r.denoteEntries inner es = es.map fun e => (e.1, r.denote inner e.2) := by
  induction es with
  | nil => rw [denoteEntries]; rfl
  | cons e es ih =>
    obtain ⟨key, n⟩ := e
    rw [denoteEntries, ih]
    rfl

/-- The meaning of a tag is made of those of its attributes and children. -/
theorem denote_tag (r : Renderer) (inner : Option (Handle σ)) (name : String)
    (attributes : Option Attributes) (children : List Node) :
    r.denote inner (.tag name attributes children) =
      r.tagMeaning inner name attributes children
        (attributes.map fun as => as.map fun e => (e.1, r.denote inner e.2))
        (children.map (r.denote inner)) := by
  cases attributes with
  | none => rw [denote, denoteAll_eq_map]; rfl
  | some attributes => rw [denote, denoteAll_eq_map, denoteEntries_eq_map]; rfl

theorem denote_eq (r : Renderer) (inner : Option (Handle σ)) (n : Node) :
    r.denote inner n = (r.interpretation inner).denote n := by
  induction n using Node.induction with
  | text s => rw [denote]; rfl
  | var name => rw [denote]; rfl
  | hole => rw [denote]; rfl
  | tag name attributes children hattributes hchildren =>
    rw [denote_tag, Interpretation.denote_tag, List.map_congr_left hchildren]
    congr 1
    cases attributes with
    | none => rfl
    | some attributes =>
      exact congrArg some (List.map_congr_left fun e he => by rw [hattributes e he])

theorem map_node_denote (r : Renderer) (inner : Option (Handle σ)) (ns : List Node) :
    (ns.map (r.denote inner)).map Meaning.node = ns := by
  rw [funext (denote_eq r inner)]
  exact (r.interpretation inner).map_node_denote ns

/-- A judgement on what two renderers do by themselves. -/
structure Paired (R : Eval.Pairing σ τ) (W : Rewriting) (r r' : Renderer)
    (inner : Option (Handle σ))
    (inner' : Option (Handle τ)) : Prop where
  /-- They have the same handlers. -/
  registry : r'.registry = r.registry
  /-- The same tags have no body. -/
  isVoid : ∀ tag, r'.config.isVoid tag = r.config.isVoid tag
  /-- The tags of elements fit related contents. -/
  framed : W.Framed
  /-- Texts. -/
  text : ∀ s, R.Legible (.text s) → (Meaning.ofText r s).Paired R W (Meaning.ofText r' s)
  /-- Variables. -/
  var : ∀ name, R.Legible (.var name) → (Meaning.ofVar r name).Paired R W (Meaning.ofVar r' name)
  /-- Holes. -/
  hole : R.Legible .hole → Meaning.ofHole.Paired R W Meaning.ofHole
  /-- A call of a handler. -/
  call : ∀ tag handler attributes children, r.registry.get? tag = some handler →
    (Node.tag tag attributes children).Every (Node.Suits R W) →
      R.Pairs W.Fragments (r.call inner handler tag attributes children)
        (r'.call inner' handler tag attributes children)
  /-- A tag as a condition, if what is below it is related. -/
  condition : ∀ tag p attributes children, r.registry.predicate? tag = some p →
    (Node.tag tag attributes children).Every (Node.Suits R W) →
      AllPaired R W (children.map (r.denote inner)) (children.map (r'.denote inner')) →
        R.Pairs Eq
          (Eval.inChild .empty (Eval.guarded tag (p.holds (children.map (r.denote inner)))))
          (Eval.inChild .empty (Eval.guarded tag (p.holds (children.map (r'.denote inner')))))

theorem pairs_attributeTexts {es : List (String × Meaning σ)} {es' : List (String × Meaning τ)}
    (h : EntriesPaired R W es es') :
    R.Pairs W.Attributes (attributeTexts es) (attributeTexts es') := by
  induction h with
  | nil => exact R.pure .nil
  | cons he _ ih =>
    refine R.bind he.2.attributeText fun s t hst => R.bind ih fun rest rest' hrest => ?_
    exact R.pure (.cons ⟨he.1, hst⟩ hrest)

theorem pairs_element (hvoid : ∀ tag, r'.config.isVoid tag = r.config.isVoid tag) (hW : W.Framed)
    (tag : String) {es : List (String × Meaning σ)} {es' : List (String × Meaning τ)}
    (hes : EntriesPaired R W es es') {ms : List (Meaning σ)} {ms' : List (Meaning τ)}
    (h : AllPaired R W ms ms') :
    R.Pairs W.Fragments (r.element tag es ms) (r'.element tag es' ms') := by
  refine R.bind (pairs_attributeTexts hes) fun ps ps' hps => ?_
  rw [hvoid]
  split
  · cases h with
    | nil => exact R.pure (hW.void tag hps)
    | cons _ _ => exact R.fail rfl
  · refine R.bind (pairs_evaluateAll h) fun ss ts hst => ?_
    exact R.pure (hW.body tag hps hst)

/-- The truth values of a tag, if those of its predicate are related. -/
theorem pairs_condition (hregistry : r'.registry = r.registry) {n : Node} (hn : R.Legible n)
    {tag : String} {ms : List (Meaning σ)} {ms' : List (Meaning τ)}
    (hholds : ∀ p, r.registry.predicate? tag = some p →
      R.Pairs Eq (Eval.inChild .empty (Eval.guarded tag (p.holds ms)))
        (Eval.inChild .empty (Eval.guarded tag (p.holds ms')))) :
    R.Pairs Eq (r.condition n tag ms) (r'.condition n tag ms') := by
  rw [condition, condition, hregistry]
  cases hpredicate : r.registry.predicate? tag with
  | none => exact invalidCondition hn
  | some p => exact hholds p hpredicate

theorem ofName?_eq_switch {tag : String} (h : ControlForm.ofName? tag = some .switch) :
    tag = "switch" := by
  simp only [ControlForm.ofName?, Entries.lookup_cons_eq, List.lookup_nil] at h
  split at h
  · cases h
  split at h
  · cases h
  split at h
  · assumption
  split at h <;> cases h

/-- The fragments of a control form, if what is below it is related. -/
theorem pairs_form {tag : String} {form : ControlForm}
    (hform : ControlForm.ofName? tag = some form) {attributes : Option Attributes}
    {children : List Node} (hn : (Node.tag tag attributes children).Suits R W)
    {es : Option (List (String × Meaning σ))} {es' : Option (List (String × Meaning τ))}
    (hes : Option.Rel (EntriesPaired R W) es es')
    (hvalues : ∀ as ∈ es, ∀ e ∈ as, W.Comparable e.2.node) {ms : List (Meaning σ)}
    {ms' : List (Meaning τ)} (hms : AllPaired R W ms ms')
    (hnodes : ms.map Meaning.node = children) :
    R.Pairs W.Fragments (Control.evaluate form es ms) (Control.evaluate form es' ms') := by
  refine Control.pairs_evaluate form hes hvalues hms fun hswitch m hm => ?_
  refine hn.head tag attributes children rfl (.inl ?_) m.node ?_
  · exact ofName?_eq_switch (hswitch ▸ hform)
  · rw [← hnodes, List.head?_map]
    exact Option.mem_map_of_mem Meaning.node hm

/-- The fragments of a tag, if what is below it is related. -/
theorem pairs_tagFragments (hr : Paired R W r r' inner inner') {tag : String}
    {attributes : Option Attributes} {children : List Node}
    (hn : (Node.tag tag attributes children).Every (Node.Suits R W))
    {es : Option (List (String × Meaning σ))} {es' : Option (List (String × Meaning τ))}
    (hes : Option.Rel (EntriesPaired R W) es es')
    (hvalues : ∀ as ∈ es, ∀ e ∈ as, W.Comparable e.2.node) {ms : List (Meaning σ)}
    {ms' : List (Meaning τ)} (hms : AllPaired R W ms ms')
    (hnodes : ms.map Meaning.node = children) :
    R.Pairs W.Fragments (r.tagFragments inner tag attributes children es ms)
      (r'.tagFragments inner' tag attributes children es' ms') := by
  unfold tagFragments
  cases hform : ControlForm.ofName? tag with
  | some form => exact pairs_form hform hn.self hes hvalues hms hnodes
  | none =>
    dsimp only
    rw [hr.registry]
    cases hget : r.registry.get? tag with
    | some handler => exact hr.call tag handler attributes children hget hn
    | none =>
      refine pairs_element hr.isVoid hr.framed tag ?_ hms
      cases hes with
      | none => exact .nil
      | some hes => exact hes

/-- The two interpretations of what two renderers do by themselves. -/
theorem paired_interpretation (hr : Paired R W r r' inner inner') :
    (r.interpretation inner).Paired R W (r'.interpretation inner') where
  text := hr.text
  var := hr.var
  hole := hr.hole
  tag {tag attributes children} hn hes hms := by
    have hnodes := (r.interpretation inner).map_node_denote children
    have hvalues := (r.interpretation inner).comparable_entries hn.self
    rw [Interpretation.denote_tag, Interpretation.denote_tag]
    refine Meaning.paired_ofTag hn.self (pairs_tagFragments hr hn hes hvalues hms hnodes) ?_ hms
      hnodes
    refine pairs_condition hr.registry hn.self.legible fun p hp => ?_
    rw [← funext (denote_eq r inner), ← funext (denote_eq r' inner')] at hms ⊢
    exact hr.condition tag p attributes children hp hn hms

/-- The two meanings of a tree. -/
theorem paired_denote (hr : Paired R W r r' inner inner') (n : Node)
    (hn : n.Every (Node.Suits R W)) : (r.denote inner n).Paired R W (r'.denote inner' n) := by
  rw [denote_eq, denote_eq]
  exact Interpretation.paired_denote (paired_interpretation hr) n hn

/-! ## The predicates of the library -/

/-- A predicate of the library as a condition. -/
theorem pairs_condition_of_standard (hr : r.IsStandard) (hR : R.Guards) {tag : String}
    {p : Predicate} (hp : r.registry.predicate? tag = some p) {attributes : Option Attributes}
    {children : List Node} (hn : (Node.tag tag attributes children).Suits R W)
    {ms : List (Meaning σ)} {ms' : List (Meaning τ)} (hms : AllPaired R W ms ms')
    (hnodes : ms.map Meaning.node = children) :
    R.Pairs Eq (Eval.inChild .empty (Eval.guarded tag (p.holds ms)))
      (Eval.inChild .empty (Eval.guarded tag (p.holds ms'))) := by
  have hstandard := mem_standard_of_predicate? hr hp
  refine inEmpty (hR tag (Predicate.pairs_holds_of_standard hstandard hms fun htag m hm => ?_))
  refine hn.operands tag attributes children rfl htag m.node ?_
  rw [← hnodes]
  exact List.mem_map_of_mem hm

/-- A predicate of the library yields the same truth value as a text. -/
theorem pairs_call_of_standard {R : Eval.Pairing} {inner inner' : Option Handle}
    (hr : r.IsStandard) (hR : R.Guards) (hlimit : r'.config.limit = r.config.limit)
    (hinner : Option.Rel (Handle.Paired R W) inner inner')
    {tag : String} {handler : Handler} (hget : r.registry.get? tag = some handler)
    {attributes : Option Attributes} {children : List Node}
    (hn : (Node.tag tag attributes children).Every (Node.Suits R W)) :
    R.Pairs Eq (r.call inner handler tag attributes children)
      (r'.call inner' handler tag attributes children) := by
  obtain ⟨p, rfl, hp⟩ := hr tag handler hget
  have hbody : R.Pairs (fun reply reply' => reply = reply' ∧ ∃ s, reply = Reply.ofTexts [s])
      (r.nested inner tag fun h => (Handler.predicate p).call r h (attributes.getD []) children)
      (r'.nested inner' tag fun h =>
        (Handler.predicate p).call r' h (attributes.getD []) children) := by
    cases hinner with
    | none =>
      rw [nested_eq, nested_eq, hlimit]
      exact R.fail rfl
    | @some h h' hh =>
      have hms : AllPaired R W (children.map h.meaning) (children.map h'.meaning) :=
        .map fun n hmem => hh.meaning n (hn.child hmem)
      refine andThen (Predicate.pairs_holds_of_standard hp hms fun htag m hm => ?_) fun b =>
        R.pure ⟨rfl, _, rfl⟩
      obtain ⟨n, hmem, rfl⟩ := List.mem_map.1 hm
      rw [hh.node]
      exact hn.self.operands tag attributes children rfl htag n hmem
  refine R.bind (inEmpty (hR tag hbody)) fun reply reply' hreply => ?_
  obtain ⟨rfl, s, rfl⟩ := hreply
  exact andThen (m := pure []) (R.pure rfl) fun _ => R.pure rfl

end Renderer

end

end MarkupForms

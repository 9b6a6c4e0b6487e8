import MarkupForms.Renderer
import Mathlib.Data.List.Basic

/-!
# A logic for evaluation

Many facts about evaluation have one form: something holds of the computations that a tree is made
of, and every form passes it on.  Here the forms are gone through once, for all such facts.  A fact
of this kind comes as a logic, which judges computations together with a property of their results;
it has to agree with the few ways in which computations are put together.

What is known of results is known of texts and of fragments, and it must not matter how they are
put together either.

* `Eval.Logic` : what is asked of judgements.
* `Writing` : what is asked of properties of texts and fragments.
* `Meaning.Obeys` : a judgement on whatever may be asked of a node.
* `Control.holds_evaluate`, `Predicate.allows_holds`, `Renderer.holds_element` : the forms pass
  judgements on.
* `Renderer.obeys_denote` : a judgement on the leaves, tags and handlers of a tree holds of the
  tree.
* `Renderer.obeys_handle_of_standard` : with no handlers but the predicates of the library, leaves
  and tags are enough.
-/

namespace MarkupForms

/-! ## Judgements -/

theorem Eval.run_tryCatch {σ α : Type} (m : EvalOn σ α) (handler : Failure → EvalOn σ α) (s : σ) :
    (tryCatch m handler).run s =
      match m.run s with
      | (.ok a, after) => (.ok a, after)
      | (.error f, after) => (handler f).run after := by
  show (ExceptT.tryCatch m handler) s = _
  unfold EvalOn.run
  simp only [ExceptT.tryCatch, ExceptT.mk, bind, StateT.bind]
  rcases h : m s with ⟨r, after⟩
  cases r <;> rfl

/-- Judgements on computations and their results. -/
structure Eval.Logic where
  /-- The judgement on a computation, with a property of its results. -/
  Holds : {α : Type} → (α → Prop) → Eval α → Prop
  /-- A result that is at hand. -/
  pure : ∀ {α : Type} {P : α → Prop} {a : α}, P a → Holds P (Pure.pure a)
  /-- A failure has no results. -/
  throw : ∀ {α : Type} {P : α → Prop} (f : Failure), Holds P (throw f)
  /-- One computation after another. -/
  bind : ∀ {α β : Type} {P : α → Prop} {Q : β → Prop} {m : Eval α} {k : α → Eval β},
    Holds P m → (∀ a, P a → Holds Q (k a)) → Holds Q (m >>= k)
  /-- A failure that something else is computed after. -/
  tryCatch : ∀ {α : Type} {P : α → Prop} {m : Eval α} {handler : Failure → Eval α},
    Holds P m → (∀ f, Holds P (handler f)) → Holds P (MonadExcept.tryCatch m handler)
  /-- A new frame. -/
  inChild : ∀ {α : Type} {P : α → Prop} {m : Eval α} (f : Frame),
    Holds P m → Holds P (Eval.inChild f m)

namespace Eval.Logic

/-- The judgement on a computation whose results do not matter. -/
def Allows {α : Type} (L : Logic) (m : Eval α) : Prop :=
  L.Holds (fun _ => True) m

variable {L : Logic} {α β : Type} {P Q : α → Prop} {m : Eval α}

theorem mono (h : L.Holds P m) (hPQ : ∀ a, P a → Q a) : L.Holds Q m := by
  have hbind := L.bind h fun a ha => L.pure (hPQ a ha)
  rwa [bind_pure] at hbind

theorem allows_of_holds (h : L.Holds P m) : L.Allows m :=
  mono h fun _ _ => trivial

theorem holds_of_allows (h : L.Allows m) (hP : ∀ a, P a) : L.Holds P m :=
  mono h fun a _ => hP a

/-- After a computation whose results do not matter. -/
theorem Allows.andThen {k : α → Eval β} {R : β → Prop} (h : L.Allows m)
    (hk : ∀ a, L.Holds R (k a)) : L.Holds R (m >>= k) :=
  L.bind h fun a _ => hk a

theorem allows_pure (a : α) : L.Allows (Pure.pure a) :=
  L.pure trivial

theorem holds_guarded (tag : String) (h : L.Holds P m) : L.Holds P (guarded tag m) :=
  L.tryCatch h fun _ => L.throw _

theorem holds_malformed (form : String) (e : FormFault) : L.Holds P (Eval.malformed form e) :=
  L.throw _

theorem allows_written (n : Node) : L.Allows (written n) := by
  unfold written
  split
  · exact L.pure trivial
  · exact L.throw _

theorem holds_malformedAt (form : String) (e : String → FormFault) (n : Node) :
    L.Holds P (Eval.malformedAt form e n) :=
  (allows_written n).andThen fun _ => holds_malformed form _

theorem holds_invalidCondition (n : Node) : L.Holds P (Eval.invalidCondition n) :=
  (allows_written n).andThen fun _ => L.throw _

/-- Fragments of items, one after the other. -/
theorem holds_forEach {F : List String → Prop} (hnil : F []) (happend : ∀ {a b}, F a → F b →
    F (a ++ b))
    {body : β → Eval (List String)} {xs : List β} (h : ∀ x ∈ xs, L.Holds F (body x)) :
    L.Holds F (Eval.forEach body xs) := by
  induction xs with
  | nil => exact L.pure hnil
  | cons x xs ih =>
    refine L.bind (h x List.mem_cons_self) fun a ha => ?_
    refine L.bind (ih fun y hy => h y (List.mem_cons_of_mem x hy)) fun b hb => ?_
    exact L.pure (happend ha hb)

theorem allows_forEach {body : β → Eval (List String)} {xs : List β}
    (h : ∀ x ∈ xs, L.Allows (body x)) : L.Allows (Eval.forEach body xs) :=
  holds_forEach trivial (fun _ _ => trivial) h

theorem allows_joined {m : Eval (List String)} (h : L.Allows m) : L.Allows (joined m) :=
  h.andThen fun _ => L.pure trivial

end Eval.Logic

/-- Properties of texts and of fragments that do not depend on how these are put together. -/
structure Writing where
  /-- The property of texts. -/
  Text : String → Prop
  /-- The property of fragments. -/
  Fragments : List String → Prop
  /-- The empty text. -/
  empty : Text ""
  /-- Two texts make up one. -/
  join : ∀ {s t}, Text s → Text t → Text (s ++ t)
  /-- No fragments. -/
  nil : Fragments []
  /-- Fragments after fragments. -/
  append : ∀ {a b}, Fragments a → Fragments b → Fragments (a ++ b)
  /-- A text as a fragment. -/
  single : ∀ {s}, Text s → Fragments [s]

namespace Writing

/-- Nothing is asked of texts and fragments. -/
def any : Writing where
  Text _ := True
  Fragments _ := True
  empty := trivial
  join _ _ := trivial
  nil := trivial
  append _ _ := trivial
  single _ := trivial

theorem text_join (W : Writing) {ss : List String} (h : ∀ s ∈ ss, W.Text s) :
    W.Text (String.join ss) := by
  have hfold : ∀ t, W.Text t → W.Text (ss.foldl (· ++ ·) t) := by
    induction ss with
    | nil => exact fun t ht => ht
    | cons s ss ih =>
      intro t ht
      exact ih (fun u hu => h u (List.mem_cons_of_mem s hu)) _
        (W.join ht (h s List.mem_cons_self))
  exact hfold "" W.empty

/-- Whether the tags of an element fit its content, whatever the values of its attributes are. -/
structure Frames (W : Writing) (name : String) (keys : List String) : Prop where
  /-- A tag without a body. -/
  void : ∀ pairs : List (String × String), pairs.map Prod.fst = keys → (∀ p ∈ pairs, W.Text p.2) →
    W.Fragments [Markup.voidTag name pairs]
  /-- Two tags around a content. -/
  body : ∀ (pairs : List (String × String)) (content : List String), pairs.map Prod.fst = keys →
    (∀ p ∈ pairs, W.Text p.2) → W.Fragments content →
      W.Fragments (Markup.openTag name pairs :: content ++ [Markup.closeTag name])

theorem frames_any (name : String) (keys : List String) : any.Frames name keys :=
  ⟨fun _ _ _ => trivial, fun _ _ _ _ _ => trivial⟩

end Writing

/-! ## Nodes and meanings -/

/-- The judgement on looking a variable up. -/
def Eval.Logic.Reads (L : Eval.Logic) (name : String) : Prop :=
  L.Allows (Eval.resolve name) ∧ L.Allows (do return (← Eval.context).isSet name)

/-- A judgement on whatever may be asked of a node. -/
structure Meaning.Obeys (L : Eval.Logic) (W : Writing) (m : Meaning) : Prop where
  /-- Its fragments. -/
  evaluate : L.Holds W.Fragments m.evaluate
  /-- Its text as the value of an attribute. -/
  attributeText : ∀ escaping, L.Allows (m.attributeText escaping)
  /-- What is known of its text as the value of an attribute, unless it is a tag. -/
  value : (m.node.IsLeaf ∨ ∀ s, W.Text s) → L.Holds W.Text (m.attributeText true)
  /-- Its truth value. -/
  test : L.Allows m.test
  /-- Its label and its content as a case of a switch. -/
  arm : ∀ arm ∈ m.arm, L.Allows arm.label ∧ L.Holds W.Fragments arm.body
  /-- The variable that it is. -/
  reads : ∀ name, m.node = .var name → L.Reads name

section

variable {L : Eval.Logic} {W : Writing}

/-- Its text as an operand. -/
theorem Meaning.Obeys.operand {m : Meaning} (h : m.Obeys L W) : L.Allows m.operand := by
  unfold Meaning.operand
  split
  · exact h.attributeText false
  · exact h.attributeText false
  · exact Eval.Logic.allows_joined (Eval.Logic.allows_of_holds h.evaluate)
  · exact Eval.Logic.allows_joined (Eval.Logic.allows_of_holds h.evaluate)

/-- The judgement on the meanings of attributes. -/
def EntriesObey (L : Eval.Logic) (W : Writing) (es : List (String × Meaning)) : Prop :=
  ∀ e ∈ es, e.2.Obeys L W

theorem EntriesObey.lookup {es : List (String × Meaning)} (h : EntriesObey L W es)
    {key : String} {m : Meaning} (hm : es.lookup key = some m) : m.Obeys L W :=
  h (key, m) (Entries.mem_of_lookup hm)

theorem holds_evaluateAll {ms : List Meaning} (h : ∀ m ∈ ms, m.Obeys L W) :
    L.Holds W.Fragments (evaluateAll ms) :=
  Eval.Logic.holds_forEach W.nil W.append fun m hm => (h m hm).evaluate

/-! ## Control forms -/

namespace Control

open Eval.Logic

variable {children : List Meaning} {attributes : List (String × Meaning)}

theorem holds_choice (h : ∀ m ∈ children, m.Obeys L W) :
    L.Holds W.Fragments (choice children) := by
  match children with
  | [] | [_] | _ :: _ :: _ :: _ :: _ => exact holds_malformed _ _
  | [condition, yes] =>
    refine (h condition (by simp)).test.andThen fun b => ?_
    split
    · exact (h yes (by simp)).evaluate
    · exact L.pure W.nil
  | [condition, yes, no] =>
    refine (h condition (by simp)).test.andThen fun b => ?_
    split
    · exact (h yes (by simp)).evaluate
    · exact (h no (by simp)).evaluate

theorem allows_loopName (n : Node) : L.Allows (loopName n) := by
  unfold loopName
  split
  · split
    · exact L.pure trivial
    · exact holds_malformedAt _ _ _
  · exact holds_malformedAt _ _ _

theorem allows_loopNames (ns : List Node) : L.Allows (loopNames ns) := by
  induction ns with
  | nil => exact L.pure trivial
  | cons n ns ih => exact (allows_loopName n).andThen fun _ => ih.andThen fun _ => L.pure trivial

theorem holds_round (bindings : List (String × Value)) (h : ∀ m ∈ children, m.Obeys L W) :
    L.Holds W.Fragments (round bindings children) :=
  L.inChild _ (holds_evaluateAll h)

theorem holds_overItems (name : String) (items : List Value) (h : ∀ m ∈ children, m.Obeys L W) :
    L.Holds W.Fragments (overItems name items children) :=
  holds_forEach W.nil W.append fun _ _ => holds_round _ h

theorem holds_overPositions (name index : String) (items : List Value)
    (h : ∀ m ∈ children, m.Obeys L W) :
    L.Holds W.Fragments (overPositions name index items children) :=
  holds_forEach W.nil W.append fun _ _ => holds_round _ h

theorem holds_overEntries (key value : String) (entries : List (String × Value))
    (h : ∀ m ∈ children, m.Obeys L W) :
    L.Holds W.Fragments (overEntries key value entries children) :=
  holds_forEach W.nil W.append fun _ _ => holds_round _ h

theorem holds_overIntegers (name : String) (h : ∀ m ∈ children, m.Obeys L W) (step : Int) (n : Nat)
    (i : Int) : L.Holds W.Fragments (overIntegers name children step n i) := by
  induction n generalizing i with
  | zero => exact L.pure W.nil
  | succ n ih =>
    refine L.bind (holds_round _ h) fun a ha => L.bind (ih (i + step)) fun b hb => ?_
    exact L.pure (W.append ha hb)

theorem holds_overCollection (names : List String) {source : String} (hsource : L.Reads source)
    (h : ∀ m ∈ children, m.Obeys L W) :
    L.Holds W.Fragments (overCollection names source children) := by
  refine hsource.1.andThen fun v => ?_
  split
  · split
    · exact holds_overItems _ _ h
    · exact L.throw _
  · split
    · exact holds_overEntries _ _ _ h
    · exact L.throw _
  · exact holds_malformed _ _

theorem mem_of_splitLoop {names rest : List Meaning} (h : splitLoop children = some (names, rest)) :
    ∀ m ∈ rest, m ∈ children := by
  intro m hm
  unfold splitLoop at h
  split at h
  · split at h
    · cases h
      simp [hm]
    · split at h
      · split at h
        · cases h
          simp [hm]
        · cases h
      · cases h
  · cases h

theorem holds_wordLoop (h : ∀ m ∈ children, m.Obeys L W) :
    L.Holds W.Fragments (wordLoop children) := by
  unfold wordLoop
  split
  · exact holds_malformed _ _
  · rename_i names rest hsplit
    have hrest : ∀ m ∈ rest, m.Obeys L W := fun m hm => h m (mem_of_splitLoop hsplit m hm)
    refine (allows_loopNames _).andThen fun _ => ?_
    split
    · exact holds_malformed _ _
    · rename_i source body
      split
      · rename_i name hnode
        exact holds_overCollection _ ((hrest source List.mem_cons_self).reads name hnode)
          fun m hm => hrest m (List.mem_cons_of_mem source hm)
      · exact holds_malformedAt _ _ _

theorem allows_requiredName (attributes : List (String × Meaning)) (key : String) :
    L.Allows (requiredName attributes key) := by
  unfold requiredName
  split
  · exact holds_malformed _ _
  · exact allows_loopName _

theorem allows_optionalName (attributes : List (String × Meaning)) (key : String) :
    L.Allows (optionalName attributes key) := by
  unfold optionalName
  split
  · exact L.pure trivial
  · exact (allows_loopName _).andThen fun _ => L.pure trivial

theorem allows_integer (key : String) {m : Meaning} (h : m.Obeys L W) :
    L.Allows (integer key m) := by
  refine (h.attributeText false).andThen fun text => ?_
  split
  · exact L.pure trivial
  · exact L.throw _

theorem holds_rangeLoop (hattributes : EntriesObey L W attributes) {min max : Meaning}
    (hmin : min.Obeys L W) (hmax : max.Obeys L W) (h : ∀ m ∈ children, m.Obeys L W) :
    L.Holds W.Fragments (rangeLoop attributes min max children) := by
  refine (allows_requiredName _ _).andThen fun name => (allows_integer _ hmin).andThen fun start =>
    (allows_integer _ hmax).andThen fun stop => ?_
  have hrounds (step : Int) : L.Holds W.Fragments
      (if step ≤ 0 then Eval.malformed "for" (.badStep step)
        else overIntegers name children step (stepCount start stop step) start) := by
    split
    · exact holds_malformed _ _
    · exact holds_overIntegers _ h _ _ _
  split
  · exact (allows_pure _).andThen hrounds
  · rename_i m hm
    exact (allows_integer _ (hattributes.lookup hm)).andThen hrounds

theorem holds_sourceLoop {source : String} (hsource : L.Reads source)
    (h : ∀ m ∈ children, m.Obeys L W) :
    L.Holds W.Fragments (sourceLoop attributes source children) := by
  refine hsource.1.andThen fun v => ?_
  split
  · refine (allows_requiredName _ _).andThen fun _ => (allows_optionalName _ _).andThen
      fun index => ?_
    split
    · exact holds_overItems _ _ h
    · exact holds_overPositions _ _ _ h
  · exact (allows_requiredName _ _).andThen fun _ => (allows_requiredName _ _).andThen fun _ =>
      holds_overEntries _ _ _ h
  · exact L.throw _

theorem holds_attributeLoop (hattributes : EntriesObey L W attributes)
    (h : ∀ m ∈ children, m.Obeys L W) :
    L.Holds W.Fragments (attributeLoop attributes children) := by
  unfold attributeLoop
  split
  · rename_i min max hmin hmax
    exact holds_rangeLoop hattributes (hattributes.lookup hmin) (hattributes.lookup hmax) h
  · exact holds_malformed _ _
  · exact holds_malformed _ _
  · split
    · exact holds_malformed _ _
    · rename_i source hsource
      split
      · rename_i name hnode
        exact holds_sourceLoop ((hattributes.lookup hsource).reads name hnode) h
      · exact holds_malformedAt _ _ _

/-- The arms of a switch are those of its cases. -/
theorem holds_bind_switchArms {α : Type} {P : α → Prop} {k : List Arm → Eval α} (ms : List Meaning)
    (hk : ∀ arms : List Arm, (∀ arm ∈ arms, ∃ m ∈ ms, m.arm = some arm) → L.Holds P (k arms)) :
    L.Holds P (switchArms ms >>= k) := by
  refine L.bind (P := fun arms => ∀ arm ∈ arms, ∃ m ∈ ms, m.arm = some arm) ?_ hk
  clear hk
  induction ms with
  | nil => exact L.pure (by simp)
  | cons m ms ih =>
    have hfirst : L.Holds (fun arm => m.arm = some arm) (switchArm m) := by
      unfold switchArm
      split
      · split
        · rename_i arm harm
          exact L.pure harm
        · exact holds_malformed _ _
      · exact holds_malformedAt _ _ _
    refine L.bind hfirst fun first harm => L.bind ih fun rest hrest => L.pure ?_
    intro arm hmem
    rcases List.mem_cons.1 hmem with rfl | hmem
    · exact ⟨m, List.mem_cons_self, harm⟩
    · obtain ⟨m', hm', harm'⟩ := hrest arm hmem
      exact ⟨m', List.mem_cons_of_mem m hm', harm'⟩

theorem holds_select (value : String) {arms : List Arm}
    (h : ∀ arm ∈ arms, L.Allows arm.label ∧ L.Holds W.Fragments arm.body) :
    L.Holds W.Fragments (select value arms) := by
  induction arms with
  | nil => exact L.pure W.nil
  | cons arm arms ih =>
    obtain ⟨hlabel, hbody⟩ := h arm List.mem_cons_self
    refine hlabel.andThen fun label => ?_
    split
    · exact hbody
    · exact ih fun a ha => h a (List.mem_cons_of_mem arm ha)

theorem holds_switch (h : ∀ m ∈ children, m.Obeys L W) :
    L.Holds W.Fragments (switch children) := by
  match children with
  | [] => exact holds_malformed _ _
  | scrutinee :: cases =>
    refine holds_bind_switchArms cases fun arms harms => ?_
    refine (h scrutinee List.mem_cons_self).operand.andThen fun value => ?_
    refine holds_select value fun arm harm => ?_
    obtain ⟨m, hm, hmarm⟩ := harms arm harm
    exact (h m (List.mem_cons_of_mem scrutinee hm)).arm arm hmarm

theorem holds_evaluate (form : ControlForm) {attributes : Option (List (String × Meaning))}
    (hattributes : EntriesObey L W (attributes.getD [])) (h : ∀ m ∈ children, m.Obeys L W) :
    L.Holds W.Fragments (evaluate form attributes children) := by
  cases form with
  | choice => exact holds_choice h
  | loop =>
    cases attributes with
    | none => exact holds_wordLoop h
    | some attributes => exact holds_attributeLoop hattributes h
  | switch => exact holds_switch h
  | case => exact holds_malformed _ _

end Control

/-! ## Predicates -/

namespace Predicate

open Eval.Logic

variable {children : List Meaning}

theorem allows_sameOperands (form : String) (h : ∀ m ∈ children, m.Obeys L W) :
    L.Allows (sameOperands form children) := by
  unfold sameOperands
  split
  · rename_i left right
    exact (h left (by simp)).operand.andThen fun _ =>
      (h right (by simp)).operand.andThen fun _ => L.pure trivial
  · exact holds_malformed _ _

theorem allows_allHold (h : ∀ m ∈ children, m.Obeys L W) : L.Allows (allHold children) := by
  induction children with
  | nil => exact L.pure trivial
  | cons m ms ih =>
    refine (h m List.mem_cons_self).test.andThen fun b => ?_
    split
    · exact ih fun m' hm' => h m' (List.mem_cons_of_mem m hm')
    · exact L.pure trivial

theorem allows_someHolds (h : ∀ m ∈ children, m.Obeys L W) : L.Allows (someHolds children) := by
  induction children with
  | nil => exact L.pure trivial
  | cons m ms ih =>
    refine (h m List.mem_cons_self).test.andThen fun b => ?_
    split
    · exact L.pure trivial
    · exact ih fun m' hm' => h m' (List.mem_cons_of_mem m hm')

/-- Only one predicate looks a name up by itself, that of a variable among its children. -/
theorem allows_holds (p : Predicate)
    (hp : p = .nonempty → ∀ m ∈ children, ∀ name, m.node = .var name →
      L.Allows (do return hasContent ((← Eval.context).lookup name)))
    (h : ∀ m ∈ children, m.Obeys L W) : L.Allows (p.holds children) := by
  cases p with
  | isSet =>
    rw [holds]
    split
    · rename_i name hnodes
      obtain ⟨m, rfl, hnode⟩ := List.map_eq_singleton_iff.1 hnodes
      exact ((h m List.mem_cons_self).reads name hnode).2
    · exact holds_malformed _ _
  | equal => exact allows_sameOperands _ h
  | unequal => exact (allows_sameOperands _ h).andThen fun _ => L.pure trivial
  | negation =>
    match children with
    | [] | _ :: _ :: _ => exact holds_malformed _ _
    | [m] => exact (h m List.mem_cons_self).test.andThen fun _ => L.pure trivial
  | conjunction =>
    rw [holds]
    split
    · exact holds_malformed _ _
    · exact allows_allHold h
  | disjunction =>
    rw [holds]
    split
    · exact holds_malformed _ _
    · exact allows_someHolds h
  | constant value => exact L.pure trivial
  | filled text => exact L.pure trivial
  | textEquals expected =>
    exact (allows_joined (allows_of_holds (holds_evaluateAll h))).andThen fun _ => L.pure trivial
  | raising failure => exact L.throw _
  | nonempty =>
    rw [holds]
    split
    · rename_i name _ hnodes
      obtain ⟨m, rest, rfl, hnode, -⟩ := List.map_eq_cons_iff.1 hnodes
      exact hp rfl m List.mem_cons_self name hnode
    · exact L.pure trivial

end Predicate

/-! ## Leaves -/

theorem Segment.mem_of_mem_source {s : List Char} {seg : Segment} (h : seg ∈ Segment.segments s)
    {c : Char} (hc : c ∈ seg.source) : c ∈ s := by
  rw [← source_segments s]
  exact List.mem_flatMap.2 ⟨seg, h, hc⟩

/-- The judgement on a node that does not look below it. -/
def Node.Allowed (L : Eval.Logic) (W : Writing) : Node → Prop
  | .text s =>
      (∀ c ∈ s.toList, W.Text (String.ofList [c])) ∧
        ∀ path, .reference path ∈ Segment.segments s.toList → L.Reads (String.ofList path)
  | .var name => L.Reads name
  | .tag name attributes _ =>
      W.Frames name (Attributes.keys (attributes.getD [])) ∧
        ∀ e ∈ attributes.getD [], e.2.IsLeaf ∨ ∀ s, W.Text s
  | .hole => True

section Leaves

open Eval.Logic

variable {r : Renderer}

theorem Eval.Logic.Reads.allows_scalar {name : String} (h : L.Reads name) :
    L.Allows (Eval.scalar name) := by
  refine h.1.andThen fun v => ?_
  split
  · exact L.pure trivial
  · exact L.throw _

theorem Eval.holds_interpolate (hout : ∀ s, W.Text (r.output s)) {s : String}
    (h : (Node.text s).Allowed L W) : L.Holds W.Text (interpolate r true s) := by
  obtain ⟨hchars, hreads⟩ := h
  refine L.bind (P := fun ss => ∀ t ∈ ss, W.Text t) ?_ fun ss hss => L.pure (W.text_join hss)
  refine holds_forEach (F := fun ss => ∀ t ∈ ss, W.Text t) (by simp)
    (fun {a b} ha hb => List.forall_mem_append.2 ⟨ha, hb⟩) fun seg hseg => ?_
  refine L.bind (P := W.Text) ?_ fun t ht => L.pure (by simpa using ht)
  have hsource {c : Char} (hc : c ∈ seg.source) : W.Text (String.ofList [c]) :=
    hchars c (Segment.mem_of_mem_source hseg hc)
  cases seg with
  | char c => exact L.pure (hsource (by simp [Segment.source]))
  | sign => exact L.pure (hsource (by simp [Segment.source]))
  | reference path => exact (hreads path hseg).allows_scalar.andThen fun t => L.pure (hout t)

theorem Eval.allows_interpolate {s : String} (h : (Node.text s).Allowed L W) (escaping : Bool) :
    L.Allows (interpolate r escaping s) := by
  refine allows_joined (allows_forEach fun seg hseg => ?_)
  refine Allows.andThen ?_ fun _ => L.pure trivial
  cases seg with
  | char c => exact L.pure trivial
  | sign => exact L.pure trivial
  | reference path => exact (h.2 path hseg).allows_scalar.andThen fun _ => L.pure trivial

theorem Meaning.obeys_ofText (hout : ∀ s, W.Text (r.output s)) {s : String}
    (h : (Node.text s).Allowed L W) : (Meaning.ofText r s).Obeys L W where
  evaluate := L.bind (Eval.holds_interpolate hout h) fun _ ht => L.pure (W.single ht)
  attributeText := Eval.allows_interpolate h
  value _ := Eval.holds_interpolate hout h
  test := holds_invalidCondition _
  arm _ harm := by cases harm
  reads _ hnode := by cases hnode

theorem Meaning.obeys_ofVar (hout : ∀ s, W.Text (r.output s)) {name : String}
    (h : (Node.var name).Allowed L W) : (Meaning.ofVar r name).Obeys L W where
  evaluate := h.allows_scalar.andThen fun t => L.pure (W.single (hout t))
  attributeText _ := h.allows_scalar.andThen fun _ => L.pure trivial
  value _ := h.allows_scalar.andThen fun t => L.pure (hout t)
  test := holds_invalidCondition _
  arm _ harm := by cases harm
  reads _ hnode := by
    cases hnode
    exact h

theorem Meaning.obeys_ofHole : Meaning.ofHole.Obeys L W where
  evaluate := L.throw _
  attributeText _ := L.throw _
  value _ := L.throw _
  test := holds_invalidCondition _
  arm _ harm := by cases harm
  reads _ hnode := by cases hnode

end Leaves

/-! ## Trees -/

namespace Node

mutual

/-- All nodes of a tree, those in the values of attributes and below them included. -/
def subtrees : Node → List Node
  | .tag name none children => .tag name none children :: subtreesAll children
  | .tag name (some attributes) children =>
      .tag name (some attributes) children ::
        (subtreesEntries attributes ++ subtreesAll children)
  | n => [n]

/-- All nodes of several trees. -/
def subtreesAll : List Node → List Node
  | [] => []
  | n :: ns => subtrees n ++ subtreesAll ns

/-- All nodes of the values of attributes. -/
def subtreesEntries : List (String × Node) → List Node
  | [] => []
  | (_, n) :: rest => subtrees n ++ subtreesEntries rest

end

theorem mem_subtrees_self (n : Node) : n ∈ n.subtrees := by
  cases n with
  | tag name attributes children => cases attributes <;> simp [subtrees]
  | text | var | hole => simp [subtrees]

theorem mem_subtreesAll {ns : List Node} {m : Node} :
    m ∈ subtreesAll ns ↔ ∃ n ∈ ns, m ∈ n.subtrees := by
  induction ns with
  | nil => simp [subtreesAll]
  | cons n ns ih => simp [subtreesAll, ih]

theorem mem_subtreesEntries {es : List (String × Node)} {m : Node} :
    m ∈ subtreesEntries es ↔ ∃ e ∈ es, m ∈ e.2.subtrees := by
  induction es with
  | nil => simp [subtreesEntries]
  | cons e es ih => simp [subtreesEntries, ih]

/-- The nodes of a tag are the tag and those of its attributes and children. -/
theorem mem_subtrees_tag {name : String} {attributes : Option Attributes} {children : List Node}
    {m : Node} :
    m ∈ (Node.tag name attributes children).subtrees ↔
      m = .tag name attributes children ∨ (∃ e ∈ attributes.getD [], m ∈ e.2.subtrees) ∨
        ∃ n ∈ children, m ∈ n.subtrees := by
  cases attributes with
  | none => simp [subtrees, mem_subtreesAll]
  | some attributes => simp [subtrees, mem_subtreesAll, mem_subtreesEntries]

/-- Whether all nodes of a tree have a property. -/
def Every (P : Node → Prop) (n : Node) : Prop :=
  ∀ m ∈ n.subtrees, P m

theorem Every.self {P : Node → Prop} {n : Node} (h : n.Every P) : P n :=
  h n n.mem_subtrees_self

theorem Every.child {P : Node → Prop} {name : String} {attributes : Option Attributes}
    {children : List Node} (h : (Node.tag name attributes children).Every P) {n : Node}
    (hn : n ∈ children) : n.Every P :=
  fun m hm => h m (mem_subtrees_tag.2 (.inr (.inr ⟨n, hn, hm⟩)))

theorem Every.value {P : Node → Prop} {name : String} {attributes : Option Attributes}
    {children : List Node} (h : (Node.tag name attributes children).Every P) {e : String × Node}
    (he : e ∈ attributes.getD []) : e.2.Every P :=
  fun m hm => h m (mem_subtrees_tag.2 (.inr (.inl ⟨e, he, hm⟩)))

end Node

/-- The judgement on what a handle gives to trees of which all nodes are allowed. -/
def Handle.Obeys (L : Eval.Logic) (W : Writing) (h : Handle) : Prop :=
  ∀ n : Node, n.Every (Node.Allowed L W) → (h.meaning n).Obeys L W

namespace Renderer

open Eval.Logic

variable {r : Renderer} {inner : Option Handle}

/-- The judgement on what a renderer does by itself, writing values and calling handlers, when it
comes upon nodes of some kind. -/
structure Obeys (r : Renderer) (L : Eval.Logic) (W : Writing) (inner : Option Handle)
    (Comes : Node → Prop := Node.Allowed L W) : Prop where
  /-- The text of a value. -/
  output : ∀ s, W.Text (r.output s)
  /-- A predicate that looks a name up. -/
  nonempty : ∀ tag attributes children, r.registry.predicate? tag = some .nonempty →
    (Node.tag tag attributes children).Every Comes → ∀ name, .var name ∈ children →
      L.Allows (do return Predicate.hasContent ((← Eval.context).lookup name))
  /-- A call of a handler. -/
  call : ∀ tag handler attributes children, r.registry.get? tag = some handler →
    (Node.tag tag attributes children).Every Comes →
      L.Holds W.Fragments (r.call inner handler tag attributes children)

theorem holds_attributeTexts {es : List (String × Meaning)} (h : EntriesObey L W es)
    (hvalue : ∀ e ∈ es, e.2.node.IsLeaf ∨ ∀ s, W.Text s) :
    L.Holds (fun pairs => pairs.map Prod.fst = es.map Prod.fst ∧ ∀ p ∈ pairs, W.Text p.2)
      (attributeTexts es) := by
  induction es with
  | nil => exact L.pure ⟨rfl, by simp⟩
  | cons e es ih =>
    obtain ⟨key, m⟩ := e
    have hfirst := (h _ List.mem_cons_self).value (hvalue _ List.mem_cons_self)
    have hrest := ih (fun e he => h e (List.mem_cons_of_mem _ he))
      fun e he => hvalue e (List.mem_cons_of_mem _ he)
    refine L.bind hfirst fun t ht => L.bind hrest fun pairs hpairs => L.pure ⟨?_, ?_⟩
    · rw [List.map_cons, List.map_cons, hpairs.1]
    · intro p hp
      rcases List.mem_cons.1 hp with rfl | hp
      · exact ht
      · exact hpairs.2 p hp

theorem holds_element (r : Renderer) {tag : String} {es : List (String × Meaning)}
    (hframes : W.Frames tag (es.map Prod.fst)) (hes : EntriesObey L W es)
    (hvalue : ∀ e ∈ es, e.2.node.IsLeaf ∨ ∀ s, W.Text s) {ms : List Meaning}
    (h : ∀ m ∈ ms, m.Obeys L W) : L.Holds W.Fragments (r.element tag es ms) := by
  refine L.bind (holds_attributeTexts hes hvalue) fun pairs hpairs => ?_
  split
  · split
    · exact L.pure (hframes.void pairs hpairs.1 hpairs.2)
    · exact L.throw _
  · exact L.bind (holds_evaluateAll h) fun content hcontent =>
      L.pure (hframes.body pairs content hpairs.1 hpairs.2 hcontent)

variable {Comes : Node → Prop}

theorem allows_condition (hr : r.Obeys L W inner Comes) (n : Node) {tag : String}
    {attributes : Option Attributes} {children : List Node}
    (hn : (Node.tag tag attributes children).Every Comes) {ms : List Meaning}
    (hnodes : ms.map Meaning.node = children) (h : ∀ m ∈ ms, m.Obeys L W) :
    L.Allows (r.condition n tag ms) := by
  unfold condition
  split
  · exact holds_invalidCondition n
  · rename_i p hp
    refine L.inChild _ (holds_guarded tag (p.allows_holds (fun he m hm name hnode => ?_) h))
    refine hr.nonempty tag attributes children (he ▸ hp) hn name ?_
    rw [← hnodes, ← hnode]
    exact List.mem_map_of_mem hm

theorem holds_tagFragments (hr : r.Obeys L W inner Comes)
    (hComes : ∀ n, Comes n → n.Allowed L W) {tag : String}
    {attributes : Option Attributes} {children : List Node}
    (hn : (Node.tag tag attributes children).Every Comes)
    {es : Option (List (String × Meaning))} (hes : EntriesObey L W (es.getD []))
    (hkeys : (es.getD []).map (fun e => (e.1, e.2.node)) = attributes.getD []) {ms : List Meaning}
    (h : ∀ m ∈ ms, m.Obeys L W) :
    L.Holds W.Fragments (r.tagFragments inner tag attributes children es ms) := by
  unfold tagFragments
  split
  · exact Control.holds_evaluate _ hes h
  · split
    · rename_i handler hget
      exact hr.call tag handler attributes children hget hn
    · obtain ⟨hframes, hvalues⟩ := hComes _ hn.self
      rw [← hkeys] at hframes hvalues
      rw [Attributes.keys, List.map_map] at hframes
      exact holds_element r hframes hes (fun e he => hvalues _ (List.mem_map_of_mem he)) h

theorem obeys_tagMeaning (hr : r.Obeys L W inner Comes) (hComes : ∀ n, Comes n → n.Allowed L W)
    {tag : String} {attributes : Option Attributes} {children : List Node}
    (hn : (Node.tag tag attributes children).Every Comes)
    {es : Option (List (String × Meaning))} (hes : EntriesObey L W (es.getD []))
    (hkeys : (es.getD []).map (fun e => (e.1, e.2.node)) = attributes.getD []) {ms : List Meaning}
    (hnodes : ms.map Meaning.node = children) (h : ∀ m ∈ ms, m.Obeys L W) :
    (r.tagMeaning inner tag attributes children es ms).Obeys L W := by
  have hfragments := holds_tagFragments hr hComes hn hes hkeys h
  have htext := allows_joined (allows_of_holds hfragments)
  refine ⟨hfragments, fun _ => htext, fun hall => ?_, allows_condition hr _ hn hnodes h, ?_, ?_⟩
  · exact holds_of_allows htext (hall.resolve_left id)
  · intro arm harm
    match ms with
    | [] => cases harm
    | label :: body =>
      cases harm
      exact ⟨(h label List.mem_cons_self).operand,
        holds_evaluateAll fun m hm => h m (List.mem_cons_of_mem label hm)⟩
  · intro name hnode
    cases hnode

theorem node_denote (r : Renderer) (inner : Option Handle) (n : Node) :
    (r.denote inner n).node = n := by
  cases n with
  | tag name attributes children =>
    cases attributes <;> rw [denote] <;> rfl
  | text | var | hole =>
    rw [denote]
    rfl

theorem map_node_denoteAll (r : Renderer) (inner : Option Handle) (ns : List Node) :
    (r.denoteAll inner ns).map Meaning.node = ns := by
  induction ns with
  | nil => rw [denoteAll]; rfl
  | cons n ns ih => rw [denoteAll, List.map_cons, ih, node_denote]

theorem map_node_denoteEntries (r : Renderer) (inner : Option Handle) (es : Attributes) :
    (r.denoteEntries inner es).map (fun e => (e.1, e.2.node)) = es := by
  induction es with
  | nil => rw [denoteEntries]; rfl
  | cons e es ih =>
    obtain ⟨key, n⟩ := e
    rw [denoteEntries, List.map_cons, ih, node_denote]

mutual

/-- A judgement on all nodes of a tree holds of the tree. -/
theorem obeys_denote (hr : r.Obeys L W inner Comes) (hComes : ∀ n, Comes n → n.Allowed L W)
    (n : Node) (hn : n.Every Comes) : (r.denote inner n).Obeys L W := by
  match n with
  | .text s =>
    rw [denote]
    exact Meaning.obeys_ofText hr.output (hComes _ hn.self)
  | .var name =>
    rw [denote]
    exact Meaning.obeys_ofVar hr.output (hComes _ hn.self)
  | .hole =>
    rw [denote]
    exact Meaning.obeys_ofHole
  | .tag name none children =>
    rw [denote]
    exact obeys_tagMeaning hr hComes hn (fun e he => by cases he) rfl
      (map_node_denoteAll r inner children)
      (obeys_denoteAll hr hComes children fun n hmem => hn.child hmem)
  | .tag name (some attributes) children =>
    rw [denote]
    have hes : EntriesObey L W ((some (r.denoteEntries inner attributes)).getD []) :=
      obeys_denoteEntries hr hComes attributes fun e he => hn.value he
    exact obeys_tagMeaning hr hComes hn hes (map_node_denoteEntries r inner attributes)
      (map_node_denoteAll r inner children)
      (obeys_denoteAll hr hComes children fun n hmem => hn.child hmem)

/-- A judgement on all nodes of several trees holds of the trees. -/
theorem obeys_denoteAll (hr : r.Obeys L W inner Comes) (hComes : ∀ n, Comes n → n.Allowed L W)
    (ns : List Node) (hns : ∀ n ∈ ns, n.Every Comes) :
    ∀ m ∈ r.denoteAll inner ns, m.Obeys L W := by
  match ns with
  | [] =>
    intro m hm
    rw [denoteAll] at hm
    cases hm
  | n :: ns =>
    intro m hm
    rw [denoteAll] at hm
    rcases List.mem_cons.1 hm with rfl | hm
    · exact obeys_denote hr hComes n (hns n List.mem_cons_self)
    · exact obeys_denoteAll hr hComes ns (fun n' hn' => hns n' (List.mem_cons_of_mem n hn')) m hm

/-- A judgement on all nodes of the values of attributes holds of the attributes. -/
theorem obeys_denoteEntries (hr : r.Obeys L W inner Comes)
    (hComes : ∀ n, Comes n → n.Allowed L W) (es : List (String × Node))
    (hes : ∀ e ∈ es, e.2.Every Comes) : EntriesObey L W (r.denoteEntries inner es) := by
  match es with
  | [] =>
    intro e he
    rw [denoteEntries] at he
    cases he
  | (key, n) :: rest =>
    intro e he
    rw [denoteEntries] at he
    rcases List.mem_cons.1 he with rfl | he
    · exact obeys_denote hr hComes n (hes (key, n) List.mem_cons_self)
    · exact obeys_denoteEntries hr hComes rest (fun e' he' => hes e' (List.mem_cons_of_mem _ he')) e
        he

end

end Renderer

/-! ## Renderers without handlers of their own -/

theorem Registry.mem_of_get? {g : Registry} {tag : String} {handler : Handler}
    (h : g.get? tag = some handler) : (tag, handler) ∈ g.entries :=
  Entries.mem_of_lookup h

/-- What all handlers of a registry have in common is true of the one that is found. -/
theorem Registry.forall_get? {g : Registry} {P : Handler → Prop} (h : ∀ e ∈ g.entries, P e.2)
    {tag : String} {handler : Handler} (hget : g.get? tag = some handler) : P handler :=
  h _ (mem_of_get? hget)

theorem Registry.get?_of_predicate? {g : Registry} {tag : String} {p : Predicate}
    (h : g.predicate? tag = some p) : g.get? tag = some (.predicate p) := by
  unfold predicate? at h
  split at h
  · rename_i hget
    cases h
    exact hget
  · cases h

/-- A registry without handlers of its own holds the predicates of the library. -/
theorem Registry.entries_of_create {registry : Registry} (h : create [] true = .ok registry) :
    registry.entries = Predicate.standard.map fun e => (e.1, Handler.predicate e.2) := by
  have hcandidates := ofCandidates_entries h
  have hinjective : Function.Injective fun e : String × Handler =>
      (e.1, Candidate.handler e.2) := by
    rintro ⟨name, handler⟩ ⟨name', handler'⟩ heq
    cases heq
    rfl
  exact List.map_injective_iff.2 hinjective hcandidates

namespace Renderer

open Eval.Logic

variable {r : Renderer} {inner : Option Handle}

/-- Whether a renderer has no handlers but the predicates of the library. -/
def IsStandard (r : Renderer) : Prop :=
  ∀ tag handler, r.registry.get? tag = some handler →
    ∃ p, handler = .predicate p ∧ (tag, p) ∈ Predicate.standard

theorem isStandard_of_create {r : Renderer}
    (hr : Registry.create [] true = .ok r.registry) : r.IsStandard := by
  intro tag handler hget
  have hmem := Registry.mem_of_get? hget
  rw [Registry.entries_of_create hr] at hmem
  obtain ⟨⟨name, p⟩, hp, heq⟩ := List.mem_map.1 hmem
  cases heq
  exact ⟨p, rfl, hp⟩

/-- The renderer with the predicates of the library and no settings. -/
def library : Renderer where
  config := .standard
  registry := ⟨Predicate.standard.map fun e => (e.1, .predicate e.2), by decide⟩
  templates := []

theorem isStandard_library : library.IsStandard :=
  isStandard_of_create rfl

theorem mem_standard_of_predicate? (hr : r.IsStandard) {tag : String} {p : Predicate}
    (hp : r.registry.predicate? tag = some p) : (tag, p) ∈ Predicate.standard := by
  obtain ⟨q, hq, hmem⟩ := hr tag _ (Registry.get?_of_predicate? hp)
  cases hq
  exact hmem

/-- No predicate of the library looks a name up by itself. -/
theorem ne_nonempty_of_mem_standard {tag : String} {p : Predicate}
    (hp : (tag, p) ∈ Predicate.standard) : p ≠ .nonempty := by
  rintro rfl
  simp [Predicate.standard] at hp

/-- A predicate of the library yields its truth value as a text. -/
theorem holds_call_of_standard {tag : String} {p : Predicate} (hp : (tag, p) ∈ Predicate.standard)
    (htruth : ∀ b, W.Text (Predicate.truthText b)) (attributes : Option Attributes)
    {children : List Node} (hinner : ∀ h ∈ inner, ∀ n ∈ children, (h.meaning n).Obeys L W) :
    L.Holds W.Fragments (r.call inner (.predicate p) tag attributes children) := by
  have hreply : L.Holds (fun reply => ∃ b, reply = Reply.ofTexts [Predicate.truthText b])
      (r.nested inner tag fun h =>
        (Handler.predicate p).call r h (attributes.getD []) children) := by
    cases inner with
    | none => exact L.throw _
    | some h =>
      have hchildren : ∀ m ∈ children.map h.meaning, m.Obeys L W := by
        intro m hm
        obtain ⟨n, hn, rfl⟩ := List.mem_map.1 hm
        exact hinner h rfl n hn
      have hholds := p.allows_holds (fun he => absurd he (ne_nonempty_of_mem_standard hp)) hchildren
      exact hholds.andThen fun b => L.pure ⟨b, rfl⟩
  refine L.bind (L.inChild _ (holds_guarded tag hreply)) fun reply hreply => ?_
  obtain ⟨b, rfl⟩ := hreply
  exact L.pure (W.single (htruth b))

theorem obeys_of_standard (hr : r.IsStandard) (hout : ∀ s, W.Text (r.output s))
    (htruth : ∀ b, W.Text (Predicate.truthText b)) (hinner : ∀ h ∈ inner, h.Obeys L W) :
    r.Obeys L W inner where
  output := hout
  nonempty _ _ _ hp := absurd rfl (ne_nonempty_of_mem_standard (mem_standard_of_predicate? hr hp))
  call tag handler attributes children hget hn := by
    obtain ⟨p, rfl, hp⟩ := hr tag handler hget
    exact holds_call_of_standard hp htruth attributes fun h hh n hmem =>
      hinner h hh n (hn.child hmem)

/-- **Judgements on trees.**  A judgement on all nodes of a tree holds of the tree, however many
calls are nested, when there are no handlers but the predicates of the library. -/
theorem obeys_handle_of_standard (hr : r.IsStandard) (hout : ∀ s, W.Text (r.output s))
    (htruth : ∀ b, W.Text (Predicate.truthText b)) (room : Nat) : (r.handle room).Obeys L W := by
  induction room with
  | zero =>
    exact obeys_denote (obeys_of_standard hr hout htruth fun h hh => by cases hh) fun _ h => h
  | succ room ih =>
    rw [handle_succ]
    exact obeys_denote (obeys_of_standard hr hout htruth fun h hh => Option.some.inj hh ▸ ih)
      fun _ h => h

end Renderer

end

end MarkupForms

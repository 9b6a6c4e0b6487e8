import MarkupForms.Proofs.Attribution
import MarkupForms.Proofs.Steps
import Mathlib.Logic.Relation

/-!
# Render errors pass through

A renderer evaluates a tag by way of its handler, its control form or its content, a condition by
way of its predicate, and a form that is rendered by way of its node.  A render error takes all of
these steps back as it is, however many they are.

A handler may also fail by a fault, which becomes an error that names the tag.  So what evaluation
puts inside of such an error is never a render error: those have left the handler as they were.

* `Renderer.Evaluates` : one step of evaluation, with one rule for each construct.
* `Renderer.raises_of_evaluates` : a render error takes one step back.
* `Renderer.raises_call_iff`, `Renderer.raises_condition_iff` : where the errors of calls and
  conditions come from.
* `Renderer.raises_of_wrapped` : only a handler by itself raises an error with another one inside.
* `Renderer.render_errors_pass_through` : errors take all steps back, and are never wrapped.
-/

namespace MarkupForms

open Eval EvalOn

/-- What an error that names a tag has inside: the failure that has left the handler. -/
def RenderError.wrapped? : RenderError → Option Failure
  | .handlerFailed _ f => some f
  | _ => none

/-! ## Renderers -/

namespace Renderer

/-- Something that is evaluated: what is asked of a renderer with some room for nested calls, and in
which context. -/
structure Site where
  /-- The room. -/
  room : Nat
  /-- What is asked. -/
  query : Query
  /-- The context. -/
  context : Context

/-- Whether evaluation ends in a render error there. -/
def Site.Raises (r : Renderer) (s : Site) (e : RenderError) : Prop :=
  (r.handle s.room).Raises s.context e s.query

/-- One step of evaluation: something is evaluated as a part of something else, after all that comes
before it has ended well. -/
inductive Evaluates (r : Renderer) : Site → Site → Prop where
  /-- A node among others. -/
  | member {room : Nat} {pre post : List Node} {n : Node} {parts : List String} {c d : Context}
      (hpre : (evaluateAll (pre.map (r.handle room).meaning)).run c = (.ok parts, d)) :
      Evaluates r ⟨room, .nodes (pre ++ n :: post), c⟩ ⟨room, .node n, d⟩
  /-- The fragments of a tag, for its text. -/
  | fragments {room : Nat} {tag : String} {attributes : Option Attributes} {children : List Node}
      {escaping : Bool} {c : Context} :
      Evaluates r ⟨room, .text (.tag tag attributes children) escaping, c⟩
        ⟨room, .node (.tag tag attributes children), c⟩
  /-- The fragments of a tag, for its text as an operand. -/
  | compound {room : Nat} {tag : String} {attributes : Option Attributes} {children : List Node}
      {c : Context} :
      Evaluates r ⟨room, .operand (.tag tag attributes children), c⟩
        ⟨room, .node (.tag tag attributes children), c⟩
  /-- What a control form evaluates. -/
  | control {room : Nat} {tag : String} {attributes : Option Attributes} {children : List Node}
      {form : ControlForm} {q : Query} {c d : Context} (hform : ControlForm.ofName? tag = some form)
      (hstep : form.Evaluates (r.handle room) c attributes children q d) :
      Evaluates r ⟨room, .node (.tag tag attributes children), c⟩ ⟨room, q, d⟩
  /-- The value of an attribute of an element. -/
  | value {room : Nat} {tag : String} {attributes : Option Attributes} {children : List Node}
      {pre post : Attributes} {key : String} {n : Node} {pairs : List (String × String)}
      {c d : Context} (hcontrol : ControlForm.ofName? tag = none)
      (hhandler : r.registry.get? tag = none)
      (hsplit : attributes.getD [] = pre ++ (key, n) :: post)
      (hpre : (Handler.attributeTexts (r.handle room) pre).run c = (.ok pairs, d)) :
      Evaluates r ⟨room, .node (.tag tag attributes children), c⟩ ⟨room, .text n true, d⟩
  /-- The content of an element that has a body. -/
  | content {room : Nat} {tag : String} {attributes : Option Attributes} {children : List Node}
      {pairs : List (String × String)} {c d : Context} (hcontrol : ControlForm.ofName? tag = none)
      (hhandler : r.registry.get? tag = none) (hbody : r.config.isVoid tag = false)
      (hpairs : (Handler.attributeTexts (r.handle room) (attributes.getD [])).run c =
        (.ok pairs, d)) :
      Evaluates r ⟨room, .node (.tag tag attributes children), c⟩ ⟨room, .nodes children, d⟩
  /-- What a handler evaluates, in the frame of its call and with less room. -/
  | call {room : Nat} {tag : String} {attributes : Option Attributes} {children : List Node}
      {handler : Handler} {q : Query} {c d : Context} (hget : r.registry.get? tag = some handler)
      (hstep : handler.Evaluates r (r.handle room) (attributes.getD []) children c.push q d) :
      Evaluates r ⟨room + 1, .node (.tag tag attributes children), c⟩ ⟨room, q, d⟩
  /-- What a predicate evaluates as a condition, in the frame of its call. -/
  | condition {room : Nat} {tag : String} {attributes : Option Attributes} {children : List Node}
      {p : Predicate} {q : Query} {c d : Context} (hp : r.registry.predicate? tag = some p)
      (hstep : p.Evaluates (r.handle room) c.push children q d) :
      Evaluates r ⟨room, .truth (.tag tag attributes children), c⟩ ⟨room, q, d⟩
  /-- A form that is rendered, with less room. -/
  | rendering {room : Nat} {form : Form} {c : Context} :
      Evaluates r ⟨room + 1, .rendering form, c⟩ ⟨room, .node form.toNode, c⟩

section

variable {r : Renderer} {room : Nat} {tag : String} {attributes : Option Attributes}
  {children : List Node} {c : Context} {e : RenderError}

theorem meaning_tag (r : Renderer) (room : Nat) (tag : String) (attributes : Option Attributes)
    (children : List Node) :
    (r.handle room).meaning (.tag tag attributes children) =
      r.tagMeaning (r.below room) tag attributes children
        (attributes.map (r.handle room).entries) (children.map (r.handle room).meaning) := by
  rw [handle_eq_layer]
  exact denote_tag r (r.below room) tag attributes children

theorem readsCases_handle (r : Renderer) (room : Nat) : (r.handle room).ReadsCases := by
  intro k
  rw [Case.node, meaning_tag]
  exact ⟨rfl, rfl⟩

theorem attributeTexts_entries (h : Handle) (attributes : Attributes) :
    attributeTexts (h.entries attributes) = Handler.attributeTexts h attributes := by
  induction attributes with
  | nil => rfl
  | cons a rest ih =>
    rw [Handle.entries, List.map_cons, attributeTexts, Handler.attributeTexts, ← ih]
    rfl

/-- A tag that is neither a control form nor has a handler is an element. -/
theorem evaluate_element (hcontrol : ControlForm.ofName? tag = none)
    (hhandler : r.registry.get? tag = none) (room : Nat) (attributes : Option Attributes)
    (children : List Node) :
    ((r.handle room).meaning (.tag tag attributes children)).evaluate =
      r.element tag ((r.handle room).entries (attributes.getD []))
        (children.map (r.handle room).meaning) := by
  rw [meaning_tag]
  simp only [tagMeaning, delay_eq, tagFragments, hcontrol, hhandler]
  cases attributes <;> rfl

/-- A tag as a condition asks its predicate. -/
theorem test_condition {p : Predicate} (hp : r.registry.predicate? tag = some p) (room : Nat)
    (attributes : Option Attributes) (children : List Node) :
    ((r.handle room).meaning (.tag tag attributes children)).test =
      inChild .empty (guarded tag (p.holds (children.map (r.handle room).meaning))) := by
  rw [meaning_tag]
  simp only [tagMeaning, delay_eq, condition, hp]

/-- A render error takes one step back. -/
theorem raises_of_evaluates {s t : Site} (hstep : r.Evaluates s t) (ht : t.Raises r e) :
    s.Raises r e := by
  cases hstep with
  | member hpre =>
    show (evaluateAll (List.map _ _)).Raises _ e
    rw [List.map_append, List.map_cons]
    exact Raises.forEach hpre ht
  | @fragments room tag attributes children escaping c =>
    have htext : ((r.handle room).meaning (.tag tag attributes children)).attributeText escaping =
        joined ((r.handle room).meaning (.tag tag attributes children)).evaluate := by
      rw [meaning_tag]
      rfl
    show EvalOn.Raises (((r.handle room).meaning _).attributeText escaping) c e
    rw [htext]
    exact ht.joined
  | @compound room tag attributes children c =>
    have htext : ((r.handle room).meaning (.tag tag attributes children)).operand =
        joined ((r.handle room).meaning (.tag tag attributes children)).evaluate := by
      rw [meaning_tag]
      rfl
    show EvalOn.Raises ((r.handle room).meaning _).operand c e
    rw [htext]
    exact ht.joined
  | @control room tag attributes children form q c d hform hstep =>
    show EvalOn.Raises ((r.handle room).meaning _).evaluate c e
    rw [meaning_tag]
    simp only [tagMeaning, delay_eq, tagFragments, hform]
    exact ControlForm.raises_of_evaluates (readsCases_handle r room) hstep ht
  | @value room tag attributes children pre post key n pairs c d hcontrol hhandler hsplit hpre =>
    show EvalOn.Raises ((r.handle room).meaning _).evaluate c e
    rw [evaluate_element hcontrol hhandler, element, attributeTexts_entries, hsplit]
    exact (Handler.raises_attributeTexts hpre ht).bind _
  | @content room tag attributes children pairs c d hcontrol hhandler hbody hpairs =>
    show EvalOn.Raises ((r.handle room).meaning _).evaluate c e
    rw [evaluate_element hcontrol hhandler, element, attributeTexts_entries]
    apply raises_bind_of_ok hpairs
    rw [hbody, if_neg (by simp)]
    exact ht.bind _
  | @call room tag attributes children handler q c d hget hstep =>
    show EvalOn.Raises ((r.handle (room + 1)).meaning _).evaluate c e
    have hcall : ((r.handle (room + 1)).meaning (.tag tag attributes children)).evaluate =
        r.call (some (r.handle room)) handler tag attributes children :=
      evaluate_denote_of_get? hget _ attributes children
    rw [hcall, Renderer.call]
    exact (Raises.inChild ((Handler.raises_of_evaluates hstep ht).guarded tag)).bind _
  | @condition room tag attributes children p q c d hp hstep =>
    show EvalOn.Raises ((r.handle room).meaning _).test c e
    rw [test_condition hp]
    exact Raises.inChild ((Predicate.raises_of_evaluates hstep ht).guarded tag)
  | rendering =>
    show EvalOn.Raises ((r.handle _).render _) _ e
    rw [handle_render_succ]
    exact ht.joined.bind _

/-- A render error takes any number of steps back. -/
theorem raises_of_reaches {s t : Site} (hsteps : Relation.ReflTransGen r.Evaluates s t)
    (ht : t.Raises r e) : s.Raises r e := by
  induction hsteps using Relation.ReflTransGen.head_induction_on with
  | refl => exact ht
  | head hstep _ ih => exact raises_of_evaluates hstep ih

/-! ## What is wrapped -/

/-- The fragments of a reply are a render error when there is a part that is no text. -/
theorem raises_fragments_iff {reply : Reply} :
    (reply.fragments tag).Raises c e ↔ ∃ (ss : List String) (typeName : String) (ps : List Part),
      reply = .parts (ss.map .text ++ .foreign typeName :: ps) ∧
        e = .handlerFailed tag (.fault (.notText typeName)) := by
  constructor
  · intro hraises
    cases reply with
    | nothing => cases hraises
    | text s => cases hraises
    | number => cases hraises
    | parts ps =>
      rw [Reply.fragments] at hraises
      induction ps with
      | nil => cases hraises
      | cons p ps ih =>
        cases p with
        | foreign typeName =>
          refine ⟨[], typeName, ps, rfl, ?_⟩
          unfold EvalOn.Raises at hraises
          cases hraises
          rfl
        | text s =>
          rw [Reply.textsOf] at hraises
          have hrest : (Reply.textsOf tag ps).Raises c e := by
            unfold EvalOn.Raises at hraises ⊢
            rw [run_bind] at hraises
            generalize (Reply.textsOf tag ps).run c = x at hraises ⊢
            obtain ⟨o, after⟩ := x
            cases o with
            | ok texts => cases hraises
            | error f => exact hraises
          obtain ⟨ss, typeName, ps', heq, he⟩ := ih hrest
          rw [Reply.parts.injEq] at heq
          exact ⟨s :: ss, typeName, ps', by rw [heq]; rfl, he⟩
  · rintro ⟨ss, typeName, ps, rfl, rfl⟩
    exact congrArg Prod.fst (run_fragments_foreign tag ss typeName ps c)

/-- A call ends in a render error when its handler does, and when its handler goes wrong in another
way; only then is there a new error. -/
theorem raises_call_iff {handler : Handler} (hget : r.registry.get? tag = some handler)
    {h : Handle} :
    (r.call (some h) handler tag attributes children).Raises c e ↔
      (handler.call r h (attributes.getD []) children).Raises c.push e ∨
        ∃ f, e = .handlerFailed tag (.fault f) ∧
          r.GoesWrong h tag attributes children c.push f := by
  constructor
  · intro hraises
    unfold EvalOn.Raises at hraises
    rw [call, run_bind, run_inChild, guarded, run_tryCatch, nested_eq] at hraises
    rcases hrun : (handler.call r h (attributes.getD []) children).run (c.pushFrame .empty) with
      ⟨f | reply, after⟩
    · rw [hrun] at hraises
      cases f with
      | render e' =>
        cases hraises
        exact .inl (congrArg Prod.fst hrun)
      | fault f =>
        cases hraises
        exact .inr ⟨f, rfl, .fault hget hrun⟩
    · rw [hrun] at hraises
      obtain ⟨ss, typeName, ps, rfl, rfl⟩ := raises_fragments_iff.1 hraises
      exact .inr ⟨_, rfl, .foreign hget hrun⟩
  · rintro (hraises | ⟨f, rfl, hwrong⟩)
    · exact (Raises.inChild (hraises.guarded tag)).bind _
    · exact run_call_of_goesWrong hwrong hget

/-- A condition ends in a render error when its predicate does, and when its predicate ends in a
fault. -/
theorem raises_condition_iff {p : Predicate} (hp : r.registry.predicate? tag = some p) :
    ((r.handle room).meaning (.tag tag attributes children)).test.Raises c e ↔
      (p.holds (children.map (r.handle room).meaning)).Raises c.push e ∨
        ∃ f, e = .handlerFailed tag (.fault f) ∧
          r.FailsToHold (r.handle room) tag children c.push f := by
  constructor
  · intro hraises
    unfold EvalOn.Raises at hraises
    rw [test_condition hp, run_inChild, guarded, run_tryCatch] at hraises
    rcases hrun : (p.holds (children.map (r.handle room).meaning)).run (c.pushFrame .empty) with
      ⟨f | b, after⟩
    · rw [hrun] at hraises
      cases f with
      | render e' =>
        cases hraises
        exact .inl (congrArg Prod.fst hrun)
      | fault f =>
        cases hraises
        exact .inr ⟨f, rfl, p, after, hp, hrun⟩
    · rw [hrun] at hraises
      cases hraises
  · rintro (hraises | ⟨f, rfl, hfails⟩)
    · unfold EvalOn.Raises
      rw [test_condition hp]
      exact Raises.inChild (hraises.guarded tag)
    · exact run_test_of_failsToHold hfails attributes

end

/-- Whether an error has no render error inside, unless a handler raises it by itself. -/
def Explains (r : Renderer) (e : RenderError) : Prop :=
  ∀ inner, e.wrapped? = some (.render inner) →
    ∃ tag handler, r.registry.get? tag = some handler ∧ handler.Raises e

/-- The two runs end in the same failure; an error is explained. -/
def explained (r : Renderer) : Endings where
  stops _ := False
  shared f f' := f = f' ∧ ∀ e, f = .render e → r.Explains e
  unblamed {e} he := by
    refine ⟨rfl, ?_⟩
    rintro _ ⟨rfl⟩ inner hwrapped
    cases e with
    | handlerFailed tag f => cases he
    | _ => cases hwrapped

theorem closed_explained (r : Renderer) : r.explained.Closed where
  visits _ := trivial
  fault _ := ⟨rfl, fun _ h => by cases h⟩
  stops h := h.elim
  shared {f f'} h tag := by
    obtain ⟨rfl, hexplains⟩ := h
    refine ⟨rfl, ?_⟩
    cases f with
    | render e => exact hexplains
    | fault f =>
      -- what is wrapped is a fault
      rintro _ ⟨rfl⟩ inner ⟨⟩

theorem agrees_explained (r : Renderer) : Agrees r.explained r r where
  registry := rfl
  templates := rfl
  isVoid _ := rfl
  autoescape := rfl
  doctype := rfl
  raises tag handler e hget hraises := by
    refine ⟨rfl, ?_⟩
    rintro _ ⟨rfl⟩ _ _
    exact ⟨tag, handler, hget, hraises⟩
  catching _ _ _ _ := ⟨fun _ => id, fun h => h.1⟩

theorem alike_explained (r : Renderer) (room : Nat) :
    (r.handle room).Alike r.explained (r.handle room) := by
  induction room with
  | zero =>
    refine (agrees_explained r).alike_layer (closed_explained r) (.full fun tag => ?_)
    exact r.explained.unblamed rfl
  | succ room ih => exact (agrees_explained r).alike_layer (closed_explained r) (.room ih)

/-- An error that has a render error inside is one that a handler raises by itself. -/
theorem raises_of_wrapped {s : Site} {e inner : RenderError} (hraises : s.Raises r e)
    (hwrapped : e.wrapped? = some (.render inner)) :
    ∃ tag handler, r.registry.get? tag = some handler ∧ handler.Raises e := by
  have hexplains {α : Type} {m : Eval α} {c : Context} (hm : Runs r.explained Eq m m)
      (h : m.Raises c e) : r.Explains e := by
    have hmeet := hm c
    rw [EvalOn.Raises] at h
    generalize m.run c = x at hmeet h
    cases hmeet with
    | ok _ => cases h
    | failed hshared => exact hshared.2 e (Except.error.inj h)
    | stopped hstops => exact hstops.elim
  have halike := alike_explained r s.room
  have hsuits := (closed_explained r).every_suits
  have hmeaning (n : Node) := halike.meaning.meaning n (hsuits n)
  obtain ⟨room, query, c⟩ := s
  refine (?_ : r.Explains e) inner hwrapped
  cases query with
  | nodes ns => exact hexplains (pairs_evaluateAll (.map fun n _ => hmeaning n)) hraises
  | node n => exact hexplains (hmeaning n).evaluate hraises
  | text n escaping =>
    cases escaping with
    | true => exact hexplains (hmeaning n).attributeText hraises
    | false => exact hexplains ((hmeaning n).raw trivial) hraises
  | operand n => exact hexplains ((hmeaning n).operand trivial) hraises
  | truth n => exact hexplains (hmeaning n).test hraises
  | rendering form => exact hexplains (halike.render form (hsuits _)) hraises

/-- **Render errors pass through.**  A render error takes all steps of evaluation back as it is,
however deep they go.  A call, and a condition, ends in a render error exactly if what it evaluates
does, which is then the same error, or if it goes wrong by a fault, which is then what the error has
inside.  So an evaluation ends in an error with a render error inside only where a handler raises
this very error by itself: evaluation wraps none. -/
theorem render_errors_pass_through (r : Renderer) :
    (∀ (s t : Site) (e : RenderError), Relation.ReflTransGen r.Evaluates s t → t.Raises r e →
        s.Raises r e) ∧
      (∀ (room : Nat) (tag : String) (handler : Handler) (attributes : Option Attributes)
        (children : List Node) (c : Context) (e : RenderError),
        r.registry.get? tag = some handler →
          (Site.Raises r ⟨room + 1, .node (.tag tag attributes children), c⟩ e ↔
            (handler.call r (r.handle room) (attributes.getD []) children).Raises c.push e ∨
              ∃ f, e = .handlerFailed tag (.fault f) ∧
                r.GoesWrong (r.handle room) tag attributes children c.push f)) ∧
      (∀ (room : Nat) (tag : String) (p : Predicate) (attributes : Option Attributes)
        (children : List Node) (c : Context) (e : RenderError),
        r.registry.predicate? tag = some p →
          (Site.Raises r ⟨room, .truth (.tag tag attributes children), c⟩ e ↔
            (p.holds (children.map (r.handle room).meaning)).Raises c.push e ∨
              ∃ f, e = .handlerFailed tag (.fault f) ∧
                r.FailsToHold (r.handle room) tag children c.push f)) ∧
      ∀ (s : Site) (e inner : RenderError), s.Raises r e → e.wrapped? = some (.render inner) →
        ∃ tag handler, r.registry.get? tag = some handler ∧ handler.Raises e := by
  refine ⟨?_, ?_, ?_, ?_⟩
  · intro s t e hsteps ht
    exact raises_of_reaches hsteps ht
  · intro room tag handler attributes children c e hget
    have hcall : ((r.handle (room + 1)).meaning (.tag tag attributes children)).evaluate =
        r.call (some (r.handle room)) handler tag attributes children :=
      evaluate_denote_of_get? hget _ attributes children
    show EvalOn.Raises ((r.handle (room + 1)).meaning _).evaluate c e ↔ _
    rw [hcall]
    exact raises_call_iff hget
  · intro room tag p attributes children c e hp
    exact raises_condition_iff hp
  · intro s e inner hraises hwrapped
    exact raises_of_wrapped hraises hwrapped

/-- The children, or the render error that they end with inside of another one. -/
def wrapping : Routine where
  nodes _ children := children
  forms _ _ := []
  program _ children :=
    .attempt (.ask (.nodes children) (List.Subset.refl _) fun parts => .reply (parts.map .text))
      fun
      | .ok parts => .reply parts
      | .error e => .raise (.render (.handlerFailed "wrap" (.render e)))

/-- A renderer with a box, handlers that fail, a predicate, and a template in which a variable has
no value. -/
def boxing : Renderer where
  config := { Config.standard with limit := 5, limit_pos := by decide }
  registry := ⟨[("box", .content true), ("sub", .template "t" .shared),
    ("boom", .raising (.fault (.raised .value "bad"))), ("has", .predicate (.textEquals "a")),
    ("wrap", .program wrapping)], by decide⟩
  templates := [("t", ⟨⟨"p", none, [.var "x"]⟩, ""⟩)]

/-- A loop in a box whose body renders the template. -/
def boxed : Form :=
  ⟨"box", none, [.tag "for" none [.text "i", .text "in", .var "list", .tag "sub" none []]]⟩

/-- A context with a list of one item. -/
def oneItem : Context :=
  .ofList [("list", .list [.scalar "1"])]

/-- The context of the only round of the loop in the box. -/
def onlyRound : Context :=
  oneItem.push.pushFrame (.ofList [("i", .scalar "1")])

/-- From the rendering of the box to the loop in it. -/
theorem reaches_loop : Relation.ReflTransGen boxing.Evaluates ⟨5, .rendering boxed, oneItem⟩
    ⟨3, .node (.tag "for" none [.text "i", .text "in", .var "list", .tag "sub" none []]),
      oneItem.push⟩ := by
  have hcontent : Handler.Evaluates boxing (boxing.handle 3) [] boxed.children oneItem.push
      (.content true) (.nodes boxed.children) oneItem.push := .content
  refine .head .rendering (.head (.call rfl hcontent) (.single ?_))
  exact @Evaluates.member boxing 3 [] [] _ [] oneItem.push oneItem.push rfl

/-- From the loop to the template that its only round renders. -/
theorem reaches_template : Relation.ReflTransGen boxing.Evaluates
    ⟨3, .node (.tag "for" none [.text "i", .text "in", .var "list", .tag "sub" none []]),
      oneItem.push⟩ ⟨2, .rendering ⟨"p", none, [.var "x"]⟩, onlyRound.push⟩ := by
  have hround : ControlForm.loop.Evaluates (boxing.handle 3) oneItem.push none
      [.text "i", .text "in", .var "list", .tag "sub" none []] (.nodes [.tag "sub" none []])
      onlyRound :=
    @ControlForm.Evaluates.round _ _ _ _ [.tag "sub" none []] [] [] [] [("i", .scalar "1")]
      oneItem.push oneItem.push rfl rfl
  have htemplate : Handler.Evaluates boxing (boxing.handle 2) [] [] onlyRound.push
      (.template "t" .shared) (.rendering ⟨"p", none, [.var "x"]⟩) onlyRound.push :=
    @Handler.Evaluates.shared boxing (boxing.handle 2) [] [] onlyRound.push "t"
      ⟨⟨"p", none, [.var "x"]⟩, ""⟩ rfl
  have hcall : boxing.Evaluates ⟨3, .node (.tag "sub" none []), onlyRound⟩
      ⟨2, .rendering ⟨"p", none, [.var "x"]⟩, onlyRound.push⟩ := .call rfl htemplate
  refine .head (.control rfl hround) (.head ?_ (.single hcall))
  exact @Evaluates.member boxing 3 [] [] _ [] onlyRound onlyRound rfl

/-- From the template to the variable in it. -/
theorem reaches_variable : Relation.ReflTransGen boxing.Evaluates
    ⟨2, .rendering ⟨"p", none, [.var "x"]⟩, onlyRound.push⟩
    ⟨1, .node (.var "x"), onlyRound.push⟩ := by
  refine .head .rendering (.head (.content rfl rfl rfl rfl) (.single ?_))
  exact @Evaluates.member boxing 1 [] [] _ [] onlyRound.push onlyRound.push rfl

/-- The rendering of the box names the variable that has no value, two calls, a loop and a template
away.  A condition names it too, and a handler that fails by a fault is named itself.  Only where a
handler wraps the error by itself is it inside of another one. -/
theorem boxed_passes_through :
    ((boxing.render ⟨boxed, ""⟩).run oneItem).1 = .error (.render (.undefinedVariable "x")) ∧
      Site.Raises boxing ⟨0, .truth (.tag "has" none [.var "x"]), .empty⟩ (.undefinedVariable "x") ∧
      Site.Raises boxing ⟨1, .node (.tag "boom" none []), .empty⟩
        (.handlerFailed "boom" (.fault (.raised .value "bad"))) ∧
      Site.Raises boxing ⟨1, .node (.tag "wrap" none [.var "x"]), .empty⟩
        (.handlerFailed "wrap" (.render (.undefinedVariable "x"))) ∧
      ∃ tag handler, boxing.registry.get? tag = some handler ∧
        handler.Raises (.handlerFailed "wrap" (.render (.undefinedVariable "x"))) := by
  obtain ⟨hpasses, hcall, hcondition, hwrapped⟩ := render_errors_pass_through boxing
  have hwraps : Site.Raises boxing ⟨1, .node (.tag "wrap" none [.var "x"]), .empty⟩
      (.handlerFailed "wrap" (.render (.undefinedVariable "x"))) := rfl
  refine ⟨?_, ?_, ?_, hwraps, hwrapped _ _ _ hwraps rfl⟩
  · have hsteps := reaches_loop.trans (reaches_template.trans reaches_variable)
    exact hpasses _ _ (.undefinedVariable "x") hsteps rfl
  · exact (hcondition 0 "has" (.textEquals "a") none [.var "x"] .empty _ rfl).2 (.inl rfl)
  · exact (hcall 0 "boom" (.raising (.fault (.raised .value "bad"))) none [] .empty _ rfl).2
      (.inr ⟨_, rfl, .fault rfl rfl⟩)

end Renderer

end MarkupForms

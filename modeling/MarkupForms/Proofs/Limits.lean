import MarkupForms.Proofs.Endings
import MarkupForms.Proofs.Restoration

/-!
# The limit on nested calls only cuts

Two renderers that differ in their limit alone take the same steps until one of them reaches its
limit.  Where the smaller limit is not reached, a greater one makes no difference; and what is left
of a limit inside of nested calls is as good as a limit of that size.  This needs that no handler
catches errors: one that does goes on where the limit has cut an evaluation off.

* `Eval.Endings.cut` : the first run may be cut off by its limit.
* `Eval.Endings.butLimit` : two runs differ at most in the limit that they report.
* `Renderer.alike_handle_of_le`, `Renderer.alike_handle_of_eq` : more room, and the same room, under
  two limits.
* `Renderer.limit_only_cuts` : a limit changes no outcome that it does not cut off.
-/

namespace MarkupForms

open Eval

/-! ## Failures at the limit -/

namespace Failure

/-- Whether a failure says that too many calls are nested. -/
def IsLimit : Failure → Prop
  | .render (.recursionLimit _ _) => True
  | _ => False

/-- A failure without the limit that it reports. -/
def withoutLimit : Failure → Failure
  | .render (.recursionLimit _ tag) => .render (.recursionLimit 0 tag)
  | f => f

theorem IsLimit.leaving {f : Failure} (h : f.IsLimit) (tag : String) : (f.leaving tag).IsLimit := by
  cases f with
  | render e => exact h
  | fault f => exact h.elim

/-- Leaving a handler, failures that differ in a limit differ in a limit. -/
theorem withoutLimit_leaving {f g : Failure} (h : f.withoutLimit = g.withoutLimit) (tag : String) :
    (f.leaving tag).withoutLimit = (g.leaving tag).withoutLimit := by
  have hleaving (f : Failure) : (f.leaving tag).withoutLimit = f.withoutLimit.leaving tag := by
    cases f with
    | render e => cases e <;> rfl
    | fault f => rfl
  rw [hleaving, hleaving, h]

end Failure

namespace Eval

/-- Whether two computations come to the same in every context, apart from the limit that an error
reports. -/
def SameButLimit {α : Type} (m m' : Eval α) : Prop :=
  ∀ c, (m.run c).1.mapError Failure.withoutLimit = (m'.run c).1.mapError Failure.withoutLimit ∧
    (m.run c).2 = (m'.run c).2

namespace Endings

/-- The first run may be cut off by its limit; apart from that the two runs are the same. -/
def cut : Endings where
  stops := Failure.IsLimit
  shared := Eq
  unblamed := @Endings.exact.unblamed

/-- The two runs differ at most in the limit that they report. -/
def butLimit : Endings where
  stops _ := False
  shared f f' := f.withoutLimit = f'.withoutLimit
  unblamed _ := rfl

theorem closed_cut : cut.Closed where
  visits _ := trivial
  fault _ := rfl
  stops h := h.leaving
  shared h tag := congrArg (Failure.leaving tag) h

theorem closed_butLimit : butLimit.Closed where
  visits _ := trivial
  fault _ := rfl
  stops h := h.elim
  shared h := Failure.withoutLimit_leaving h

end Endings

/-- What a run comes to unless it is cut off. -/
theorem Runs.eq_of_not_isLimit {α : Type} {m m' : Eval α} (h : Runs .cut Eq m m') {c : Context}
    (hc : ∀ f, (m.run c).1 = .error f → ¬ f.IsLimit) : m'.run c = m.run c := by
  have hmeet := h c
  generalize m.run c = x at hmeet hc
  generalize m'.run c = y at hmeet
  cases hmeet with
  | ok hab => rw [hab]
  | failed hf => rw [show _ = _ from hf]
  | stopped hf => exact absurd hf (hc _ rfl)

theorem Runs.sameButLimit {α : Type} {m m' : Eval α} (h : Runs .butLimit Eq m m') :
    SameButLimit m m' := by
  intro c
  have hmeet := h c
  generalize m.run c = x at hmeet
  generalize m'.run c = y at hmeet
  cases hmeet with
  | ok hab => exact ⟨by rw [hab], rfl⟩
  | failed hf => exact ⟨congrArg Except.error hf, rfl⟩
  | stopped hf => exact hf.elim

end Eval

/-- Whether whatever two handles give is the same, apart from the limit that an error reports. -/
structure Handle.SameButLimit (h h' : Handle) : Prop where
  /-- Fragments. -/
  evaluate : ∀ n, Eval.SameButLimit (h.meaning n).evaluate (h'.meaning n).evaluate
  /-- Values of attributes and operands. -/
  attributeText : ∀ n escaping,
    Eval.SameButLimit ((h.meaning n).attributeText escaping) ((h'.meaning n).attributeText escaping)
  /-- Truth values. -/
  test : ∀ n, Eval.SameButLimit (h.meaning n).test (h'.meaning n).test
  /-- Forms that are rendered. -/
  render : ∀ form, Eval.SameButLimit (h.render form) (h'.render form)

theorem Handle.Alike.sameButLimit {h h' : Handle} (hh : h.Alike .butLimit h') :
    h.SameButLimit h' := by
  have hsuits := Endings.closed_butLimit.every_suits
  refine ⟨fun n => ?_, fun n escaping => ?_, fun n => ?_, fun form => ?_⟩
  · exact Runs.sameButLimit (hh.meaning.meaning n (hsuits n)).evaluate
  · cases escaping with
    | true => exact Runs.sameButLimit (hh.meaning.meaning n (hsuits n)).attributeText
    | false => exact Runs.sameButLimit ((hh.meaning.meaning n (hsuits n)).raw trivial)
  · exact Runs.sameButLimit (hh.meaning.meaning n (hsuits n)).test
  · exact (hh.render form (hsuits _)).sameButLimit

namespace Renderer

variable {r : Renderer} {E : Endings} {inner inner' : Option Handle} {L L' : Nat} {hL : 0 < L}
  {hL' : 0 < L'}

/-! ## Renderers with other limits -/

/-- The same renderer with another limit. -/
def limited (r : Renderer) (limit : Nat) (h : 0 < limit) : Renderer :=
  { r with config := { r.config with limit := limit, limit_pos := h } }

/-- Whether no handler of a renderer catches errors. -/
def NeverCatches (r : Renderer) : Prop :=
  ∀ tag handler, r.registry.get? tag = some handler → ¬ handler.Catches

/-- Where nothing is caught, renderers that differ in their limit suit endings that every failure
may be shared in. -/
theorem agrees_limited (hr : r.NeverCatches) (hE : ∀ f, E.shared f f) (hL : 0 < L) (hL' : 0 < L') :
    Agrees E (r.limited L hL) (r.limited L' hL') where
  registry := rfl
  templates := rfl
  isVoid _ := rfl
  autoescape := rfl
  doctype := rfl
  raises _ _ _ _ _ := hE _
  catching tag handler hget hcatches := absurd hcatches (hr tag handler hget)

/-- More room makes no difference unless there is too little of it. -/
theorem alike_handle_of_le (hr : r.NeverCatches) (hL : 0 < L) (hL' : 0 < L') {room room' : Nat}
    (h : room ≤ room') :
    ((r.limited L hL).handle room).Alike .cut ((r.limited L' hL').handle room') := by
  have hagrees := agrees_limited (E := .cut) hr (fun _ => rfl) hL hL'
  induction room generalizing room' with
  | zero =>
    cases room' with
    | zero => exact hagrees.alike_layer Endings.closed_cut (.stopped fun _ => trivial)
    | succ room' => exact hagrees.alike_layer Endings.closed_cut (.stopped fun _ => trivial)
  | succ room ih =>
    obtain ⟨room', rfl⟩ : ∃ k, room' = k + 1 := ⟨room' - 1, by omega⟩
    exact hagrees.alike_layer Endings.closed_cut (.room (ih (by omega)))

/-- With the same room, a limit is only reported. -/
theorem alike_handle_of_eq (hr : r.NeverCatches) (hL : 0 < L) (hL' : 0 < L') (room : Nat) :
    ((r.limited L hL).handle room).Alike .butLimit ((r.limited L' hL').handle room) := by
  have hagrees := agrees_limited (E := .butLimit) hr (fun _ => rfl) hL hL'
  induction room with
  | zero => exact hagrees.alike_layer Endings.closed_butLimit (.full fun _ => rfl)
  | succ room ih => exact hagrees.alike_layer Endings.closed_butLimit (.room ih)

/-! ## Handlers that render templates -/

/-- A call of a handler that renders a template without any names. -/
theorem run_call_isolated (r : Renderer) (h : Handle) {name : String} {t : Template}
    (ht : r.templates.lookup name = some t) (tag : String) (attributes : Option Attributes)
    (ns : List Node) (c : Context) :
    (r.call (some h) (.template name .isolated) tag attributes ns).run c =
      ((((h.render t.root).run .empty).1.map fun text => [text]).mapError (Failure.leaving tag),
        c) := by
  have hcall : ((Handler.template name .isolated).call r h (attributes.getD []) ns).run c.push =
      (((h.render t.root).run .empty).1.map fun text => Reply.ofTexts [text], c.push) := by
    rw [Handler.call, Handler.renderNamed, ht]
    dsimp only
    rw [run_bind, run_within]
    cases ((h.render t.root).run .empty).1 <;> rfl
  cases hrender : ((h.render t.root).run .empty).1 with
  | ok text =>
    rw [hrender] at hcall
    exact run_call_of_run hcall tag
  | error f =>
    rw [hrender] at hcall
    exact run_call_of_failure hcall tag

/-- A template that is rendered inside of a handler without any names is what it is outside, or it
is cut off. -/
theorem run_isolated (hr : r.NeverCatches) {tag name : String} {t : Template}
    (hget : r.registry.get? tag = some (.template name .isolated))
    (ht : r.templates.lookup name = some t) {d : Nat} (hd : d < r.config.limit)
    (attributes : Option Attributes) (ns : List Node) (c : Context) :
    ((r.atDepth d).meaning (.tag tag attributes ns)).evaluate.run c =
        ((((r.render t).run .empty).1.map fun text => [text]).mapError (Failure.leaving tag), c) ∨
      ∃ f, f.IsLimit ∧
        ((r.atDepth d).meaning (.tag tag attributes ns)).evaluate.run c = (.error f, c) := by
  rw [evaluate_atDepth_of_get? hget hd, run_call_isolated r _ ht]
  have halike : (r.atDepth (d + 1)).Alike .cut r.top :=
    alike_handle_of_le hr r.config.limit_pos r.config.limit_pos (by omega)
  have hrender := halike.render t.root (Endings.closed_cut.every_suits _)
  by_cases hcut : ∃ f, (((r.atDepth (d + 1)).render t.root).run .empty).1 = .error f ∧ f.IsLimit
  · obtain ⟨f, hf, hlimit⟩ := hcut
    refine .inr ⟨f.leaving tag, hlimit.leaving tag, ?_⟩
    rw [hf]
    rfl
  · refine .inl ?_
    rw [← hrender.eq_of_not_isLimit fun f hf hlimit => hcut ⟨f, hf, hlimit⟩]
    rfl

/-- **The limit only cuts.**  As long as no handler catches errors, what a template comes to under a
limit that it does not exceed it comes to under every greater limit.  Inside of nested calls,
evaluation is the same as outside under what is left of the limit, apart from the limit that an
error reports.  So a template that a handler renders without any names gives the text, or the
failure, that it gives outside of all calls, or it exceeds the limit. -/
theorem limit_only_cuts (hr : r.NeverCatches) :
    (∀ (L L' : Nat) (hL : 0 < L) (hL' : 0 < L'), L ≤ L' → ∀ t c,
      (∀ f, (((r.limited L hL).render t).run c).1 = .error f → ¬ f.IsLimit) →
        ((r.limited L' hL').render t).run c = ((r.limited L hL).render t).run c) ∧
      (∀ (L d : Nat) (hd : d < L), ((r.limited L (Nat.zero_lt_of_lt hd)).atDepth d).SameButLimit
        (r.limited (L - d) (Nat.sub_pos_of_lt hd)).top) ∧
      ∀ tag name t, r.registry.get? tag = some (.template name .isolated) →
        r.templates.lookup name = some t → ∀ d, d < r.config.limit → ∀ attributes ns c,
          ((r.atDepth d).meaning (.tag tag attributes ns)).evaluate.run c =
              ((((r.render t).run .empty).1.map fun text => [text]).mapError
                (Failure.leaving tag), c) ∨
            ∃ f, f.IsLimit ∧
              ((r.atDepth d).meaning (.tag tag attributes ns)).evaluate.run c = (.error f, c) := by
  refine ⟨fun L L' hL hL' hLL' t c hc => ?_, fun L d hd => ?_, ?_⟩
  · have halike := alike_handle_of_le hr hL hL' hLL'
    exact (halike.render t.root (Endings.closed_cut.every_suits _)).eq_of_not_isLimit hc
  · exact (alike_handle_of_eq hr _ _ (L - d)).sameButLimit
  · intro tag name t hget ht d hd attributes ns c
    exact run_isolated hr hget ht hd attributes ns c

/-- A renderer with a handler that renders a template by itself. -/
def including : Renderer where
  config := { Config.standard with limit := 3, limit_pos := by decide }
  registry := ⟨[("box", .content true), ("sub", .template "inner" .isolated)], by decide⟩
  templates := [("inner", ⟨⟨"b", none, [.text "a"]⟩, "inner"⟩)]

theorem neverCatches_including : including.NeverCatches := by
  intro tag handler hget
  refine Registry.forall_get? (P := fun handler => ¬ handler.Catches) ?_ hget
  simp [including, Handler.Catches]

/-- The form `(p (sub))` takes three nested calls, which is just what the limit allows; inside of a
box there is no room for the last one. -/
theorem including_only_cuts :
    including.NeverCatches ∧
      ((including.limited 4 (by decide)).render
        ⟨⟨"p", none, [.tag "sub" none []]⟩, ""⟩).run .empty = (.ok "<p><b>a</b></p>", .empty) ∧
      (including.atDepth 2).SameButLimit (including.limited 1 (by decide)).top ∧
      ((including.atDepth 1).meaning (.tag "sub" none [])).evaluate.run .empty =
        (.ok ["<b>a</b>"], .empty) ∧
      ((including.atDepth 2).meaning (.tag "sub" none [])).evaluate.run .empty =
        (.error (.render (.recursionLimit 3 "b")), .empty) := by
  obtain ⟨hmore, hless, hsub⟩ := limit_only_cuts neverCatches_including
  refine ⟨neverCatches_including, ?_, hless 3 2 (by decide), ?_, ?_⟩
  · refine (hmore 3 4 (by decide) (by decide) (by decide) _ _ fun f hf => ?_).trans rfl
    cases hf
  · rcases hsub "sub" "inner" _ rfl rfl 1 (by decide) none [] .empty with h | ⟨f, -, hf⟩
    · exact h.trans rfl
    · cases hf
  · rcases hsub "sub" "inner" _ rfl rfl 2 (by decide) none [] .empty with h | ⟨f, -, hf⟩
    · cases h
    · exact rfl

end Renderer

end MarkupForms

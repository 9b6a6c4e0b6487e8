import MarkupForms.Proofs.Endings
import MarkupForms.Proofs.Restoration
import Mathlib.Order.Filter.AtTopBot.Basic
import Mathlib.Order.Filter.Finite
import Mathlib.Data.Set.Finite.Basic

/-!
# Evaluation ends

The evaluator calls itself: for the children of a tag, when a handler asks for them, and for other
nodes and forms that a handler takes up, which may be the very form that the handler stands in.  So
no tree gets smaller there; what bounds the recursion is the number of handlers and renderings that
are open.

Here the evaluator is written down in terms of itself, with a stack of what is open.  Unrolling this
a number of times leaves holes where it would have to be unrolled further.  For each node some
number of times is enough to fill all holes that matter, and none of them is ever under a stack that
is longer than the limit.

* `Renderer.step` : the evaluator in terms of itself; `Renderer.step_atDepth` : it is one.
* `Renderer.unrolled` : the evaluator, unrolled a number of times.
* `Renderer.settles` : unrolling it often enough yields the evaluator.
* `Renderer.unrolled_congr` : nothing is nested more deeply than the limit allows.
* `Renderer.evaluation_ends` : both for all trees and forms.
-/

namespace MarkupForms

open Eval Filter

/-! ## Calls depend on what they ask for -/

/-- A call of a handler depends on the meanings of its attributes and children, on those of other
nodes that it may ask about, and on the forms that it may have rendered. -/
theorem Handler.call_congr {r : Renderer} {handler : Handler} {attributes : Attributes}
    {children : List Node} {h h' : Handle}
    (hattributes : ∀ a ∈ attributes, h.meaning a.2 = h'.meaning a.2)
    (hchildren : ∀ n ∈ children, h.meaning n = h'.meaning n)
    (hnodes : ∀ n ∈ handler.nodes attributes children, h.meaning n = h'.meaning n)
    (hforms : ∀ form ∈ handler.forms r attributes children, h.render form = h'.render form) :
    handler.call r h attributes children = handler.call r h' attributes children := by
  have hasks : handler.Asks Endings.exact.pairing r attributes children h h' := by
    refine ⟨fun form hmem => ?_, fun n hn => ?_, ?_, fun a ha => ?_⟩
    · rw [← hforms form hmem]
      exact runs_refl _
    · rw [← hnodes n hn]
      exact Meaning.paired_refl _
    · rw [← List.map_congr_left hchildren]
      exact List.forall₂_same.2 fun m _ => m.paired_refl
    · rw [← hattributes a ha]
      exact Meaning.paired_refl _
  have hcalled : Endings.exact.Called .exact := ⟨id, id, fun _ => rfl⟩
  exact (Handler.runs_call hasks hcalled rfl (fun _ _ => rfl) fun _ => ⟨fun _ hf => hf, id⟩).eq

/-! ## The evaluator in terms of itself -/

/-- A nested evaluation that has not ended. -/
inductive Nesting where
  /-- The call of the handler of a tag. -/
  | call (tag : String)
  /-- The rendering of a form with a tag. -/
  | render (tag : String)
deriving DecidableEq, Repr

namespace Renderer

/-- The evaluator inside of one more nested evaluation, if the limit allows it. -/
def enter (r : Renderer) (self : List Nesting → Handle) (stack : List Nesting) (e : Nesting) :
    Option Handle :=
  if stack.length < r.config.limit then some (self (e :: stack)) else none

/-- The evaluator in terms of itself.  The attributes and children of a tag are evaluated under the
same stack, also those of a condition; the call of a handler and the rendering of a form are
entered. -/
def step (r : Renderer) (self : List Nesting → Handle) (stack : List Nesting) : Handle where
  meaning
    | .text s => .ofText r s
    | .var name => .ofVar r name
    | .hole => .ofHole
    | .tag tag attributes children =>
        r.tagMeaning (r.enter self stack (.call tag)) tag attributes children
          (attributes.map fun as => as.map fun a => (a.1, (self stack).meaning a.2))
          (children.map (self stack).meaning)
  render form :=
    r.nested (r.enter self stack (.render form.tag)) form.tag fun h => do
      let text ← (h.meaning form.toNode).text
      return r.preamble form ++ text

/-- The evaluator, unrolled a number of times over something else. -/
def unrolled (r : Renderer) (base : List Nesting → Handle) : Nat → List Nesting → Handle
  | 0 => base
  | k + 1 => r.step (r.unrolled base k)

variable {r : Renderer} {stack : List Nesting}

theorem layer_meaning (r : Renderer) (inner : Unit → Option Handle) (n : Node) :
    (r.layer inner).meaning n = r.denote (inner ()) n := rfl

theorem meaning_atDepth_text (r : Renderer) (d : Nat) (s : String) :
    (r.atDepth d).meaning (.text s) = .ofText r s := by
  rw [atDepth_eq, layer_meaning, denote]

theorem meaning_atDepth_var (r : Renderer) (d : Nat) (name : String) :
    (r.atDepth d).meaning (.var name) = .ofVar r name := by
  rw [atDepth_eq, layer_meaning, denote]

theorem meaning_atDepth_hole (r : Renderer) (d : Nat) :
    (r.atDepth d).meaning .hole = .ofHole := by
  rw [atDepth_eq, layer_meaning, denote]

/-- The meaning of a tag inside of a number of nested calls. -/
theorem meaning_atDepth_tag (r : Renderer) (d : Nat) (tag : String)
    (attributes : Option Attributes) (children : List Node) :
    (r.atDepth d).meaning (.tag tag attributes children) =
      r.tagMeaning (if d < r.config.limit then some (r.atDepth (d + 1)) else none) tag attributes
        children (attributes.map fun as => as.map fun a => (a.1, (r.atDepth d).meaning a.2))
        (children.map (r.atDepth d).meaning) := by
  rw [atDepth_eq, layer_meaning]
  exact denote_tag r _ tag attributes children

theorem render_atDepth (r : Renderer) (d : Nat) (form : Form) :
    (r.atDepth d).render form =
      r.nested (if d < r.config.limit then some (r.atDepth (d + 1)) else none) form.tag fun h => do
        let text ← (h.meaning form.toNode).text
        return r.preamble form ++ text := by
  rw [atDepth_eq]
  rfl

theorem handle_ext {h h' : Handle} (hmeaning : ∀ n, h.meaning n = h'.meaning n)
    (hrender : ∀ form, h.render form = h'.render form) : h = h' := by
  cases h
  cases h'
  rw [Handle.mk.injEq]
  exact ⟨funext hmeaning, funext hrender⟩

/-- The evaluator is what it is in terms of itself. -/
theorem step_atDepth (r : Renderer) (stack : List Nesting) :
    r.step (fun stack => r.atDepth stack.length) stack = r.atDepth stack.length := by
  refine handle_ext (fun n => ?_) fun form => (render_atDepth r _ form).symm
  cases n with
  | text s => exact (meaning_atDepth_text r _ s).symm
  | var name => exact (meaning_atDepth_var r _ name).symm
  | hole => exact (meaning_atDepth_hole r _).symm
  | tag tag attributes children => exact (meaning_atDepth_tag r _ tag attributes children).symm

/-! ## Unrolling -/

/-- Something that is made of the evaluator under a stack is the same from some number of unrollings
on. -/
def Settles (r : Renderer) (stack : List Nesting) {α : Type} (f : Handle → α) : Prop :=
  ∀ᶠ j in atTop, ∀ base, f (r.unrolled base j stack) = f (r.atDepth stack.length)

namespace Settles

/-- Several things settle together. -/
theorem all {α β : Type} {f : β → Handle → α} (xs : List β)
    (h : ∀ x ∈ xs, r.Settles stack (f x)) :
    ∀ᶠ j in atTop, ∀ x ∈ xs, ∀ base,
      f x (r.unrolled base j stack) = f x (r.atDepth stack.length) :=
  (eventually_all_finite (List.finite_toSet xs)).2 h

/-- What settles with one unrolling less settles. -/
theorem succ {α : Type} {f : Handle → α}
    (h : ∀ᶠ j in atTop, ∀ base, f (r.step (r.unrolled base j) stack) = f (r.atDepth stack.length)) :
    r.Settles stack f := by
  obtain ⟨k, hk⟩ := eventually_atTop.1 h
  refine eventually_atTop.2 ⟨k + 1, fun j hj base => ?_⟩
  obtain ⟨i, rfl⟩ : ∃ i, j = i + 1 := ⟨j - 1, by omega⟩
  exact hk i (by omega) base

end Settles

/-- What is known of the evaluator inside of one more nested evaluation. -/
def SettlesInside (r : Renderer) (stack : List Nesting) : Prop :=
  stack.length < r.config.limit → ∀ e, (∀ n, r.Settles (e :: stack) fun h => h.meaning n) ∧
    ∀ form, r.Settles (e :: stack) fun h => h.render form

/-- Rendering a form settles if the evaluator does one deeper. -/
theorem SettlesInside.render (h : r.SettlesInside stack) (form : Form) :
    r.Settles stack fun h => h.render form := by
  refine Settles.succ ?_
  by_cases hd : stack.length < r.config.limit
  · filter_upwards [(h hd (.render form.tag)).1 form.toNode] with j hj base
    rw [render_atDepth, step]
    dsimp only
    rw [enter, if_pos hd, if_pos hd, nested_some, nested_some, hj base]
    rfl
  · refine Eventually.of_forall fun j base => ?_
    rw [render_atDepth, step]
    dsimp only
    rw [enter, if_neg hd, if_neg hd]

/-- A call of a handler settles if the evaluator does one deeper. -/
theorem SettlesInside.call (h : r.SettlesInside stack) (tag : String) (handler : Handler)
    (attributes : Option Attributes) (children : List Node) :
    ∀ᶠ j in atTop, ∀ base,
      r.call (r.enter (r.unrolled base j) stack (.call tag)) handler tag attributes children =
        r.call (if stack.length < r.config.limit then some (r.atDepth (stack.length + 1)) else none)
          handler tag attributes children := by
  by_cases hd : stack.length < r.config.limit
  · obtain ⟨hmeaning, hrender⟩ := h hd (.call tag)
    have hattributes := Settles.all (attributes.getD []) fun a _ => hmeaning a.2
    have hchildren := Settles.all children fun n _ => hmeaning n
    have hnodes := Settles.all (handler.nodes (attributes.getD []) children) fun n _ => hmeaning n
    have hforms := Settles.all (handler.forms r (attributes.getD []) children) fun form _ =>
      hrender form
    filter_upwards [hattributes, hchildren, hnodes, hforms] with j ha hc hn hf base
    rw [enter, if_pos hd, if_pos hd, Renderer.call, Renderer.call, nested_some, nested_some,
      Handler.call_congr (fun a hmem => ha a hmem base) (fun n hmem => hc n hmem base)
        (fun n hmem => hn n hmem base) fun form hmem => hf form hmem base]
    rfl
  · refine Eventually.of_forall fun j base => ?_
    rw [enter, if_neg hd, if_neg hd]

/-- The meaning of a tag depends on nested calls only through the call of its handler. -/
theorem tagMeaning_congr {inner inner' : Option Handle} {tag : String}
    {attributes : Option Attributes} {children : List Node}
    {es es' : Option (List (String × Meaning))} {ms ms' : List Meaning} (hes : es = es')
    (hms : ms = ms')
    (hcall : ∀ handler, r.registry.get? tag = some handler →
      r.call inner handler tag attributes children =
        r.call inner' handler tag attributes children) :
    r.tagMeaning inner tag attributes children es ms =
      r.tagMeaning inner' tag attributes children es' ms' := by
  subst hes hms
  have hfragments : r.tagFragments inner tag attributes children es ms =
      r.tagFragments inner' tag attributes children es ms := by
    unfold tagFragments
    split
    · rfl
    · split
      · rename_i handler hget
        exact hcall handler hget
      · rfl
  rw [tagMeaning, tagMeaning, hfragments]

/-- The meaning of a node settles if the evaluator does one deeper. -/
theorem SettlesInside.meaning (h : r.SettlesInside stack) (n : Node) :
    r.Settles stack fun h => h.meaning n := by
  induction n using Node.induction with
  | text s =>
    refine Settles.succ (Eventually.of_forall fun j base => ?_)
    rw [meaning_atDepth_text, step]
  | var name =>
    refine Settles.succ (Eventually.of_forall fun j base => ?_)
    rw [meaning_atDepth_var, step]
  | hole =>
    refine Settles.succ (Eventually.of_forall fun j base => ?_)
    rw [meaning_atDepth_hole, step]
  | tag tag attributes children hattributes hchildren =>
    have hcall : ∀ handler ∈ (r.registry.get? tag).toList, ∀ᶠ j in atTop, ∀ base,
        r.call (r.enter (r.unrolled base j) stack (.call tag)) handler tag attributes children =
          r.call (if stack.length < r.config.limit then some (r.atDepth (stack.length + 1))
            else none) handler tag attributes children :=
      fun handler _ => h.call tag handler attributes children
    refine Settles.succ ?_
    filter_upwards [Settles.all _ hattributes, Settles.all _ hchildren,
      (eventually_all_finite (List.finite_toSet _)).2 hcall] with j ha hc hh base
    rw [meaning_atDepth_tag]
    refine tagMeaning_congr ?_ (List.map_congr_left fun n hn => hc n hn base) fun handler hget =>
      hh handler (Option.mem_toList.2 hget) base
    cases attributes with
    | none => rfl
    | some attributes =>
      exact congrArg some (List.map_congr_left fun a hmem => by rw [ha a hmem base])

/-- **Unrolling settles.**  For every tree and form, the evaluator is the same from some number of
unrollings on. -/
theorem settles (r : Renderer) (room : Nat) (stack : List Nesting)
    (hroom : r.config.limit - stack.length = room) :
    (∀ n, r.Settles stack fun h => h.meaning n) ∧
      ∀ form, r.Settles stack fun h => h.render form := by
  induction room generalizing stack with
  | zero =>
    have hinside : r.SettlesInside stack := fun hd => by omega
    exact ⟨hinside.meaning, hinside.render⟩
  | succ room ih =>
    have hinside : r.SettlesInside stack := fun hd e => ih (e :: stack) (by
      rw [List.length_cons]
      omega)
    exact ⟨hinside.meaning, hinside.render⟩

/-! ## How deeply evaluations are nested -/

theorem enter_congr {self self' : List Nesting → Handle}
    (h : ∀ stack, stack.length ≤ r.config.limit → self stack = self' stack) (stack : List Nesting)
    (e : Nesting) : r.enter self stack e = r.enter self' stack e := by
  unfold enter
  split
  · rename_i hd
    rw [h (e :: stack) hd]
  · rfl

/-- Nothing is nested more deeply than the limit allows: what the evaluator is there makes no
difference. -/
theorem unrolled_congr {base base' : List Nesting → Handle}
    (h : ∀ stack, stack.length ≤ r.config.limit → base stack = base' stack) (j : Nat) :
    ∀ stack, stack.length ≤ r.config.limit →
      r.unrolled base j stack = r.unrolled base' j stack := by
  induction j with
  | zero => exact h
  | succ j ih =>
    intro stack hstack
    rw [unrolled, unrolled, step, step, ih stack hstack]
    simp only [enter_congr ih]

/-- **Evaluation ends, and its nesting is bounded.**  The evaluator is what it is in terms of
itself.  For every node and every form, unrolling this often enough yields the evaluator, whatever
it is unrolled over, so evaluation never asks for more.  And however often it is unrolled, what it
is unrolled over makes no difference under stacks that are longer than the limit, so there are never
more calls of handlers and renderings open at a time. -/
theorem evaluation_ends (r : Renderer) :
    (∀ stack, r.step (fun stack => r.atDepth stack.length) stack = r.atDepth stack.length) ∧
      (∀ n, ∃ k, ∀ j ≥ k, ∀ base, (r.unrolled base j []).meaning n = r.top.meaning n) ∧
      (∀ form, ∃ k, ∀ j ≥ k, ∀ base, (r.unrolled base j []).render form = r.top.render form) ∧
      ∀ base base', (∀ stack, stack.length ≤ r.config.limit → base stack = base' stack) →
        ∀ j, r.unrolled base j [] = r.unrolled base' j [] := by
  obtain ⟨hmeaning, hrender⟩ := settles r _ [] rfl
  refine ⟨step_atDepth r, fun n => eventually_atTop.1 (hmeaning n),
    fun form => eventually_atTop.1 (hrender form), fun base base' h j => ?_⟩
  exact unrolled_congr h j [] (Nat.zero_le _)

/-- A renderer with handlers that render the text that they stand in. -/
def mirroring : Renderer where
  config := { Config.standard with limit := 2, limit_pos := Nat.two_pos }
  registry := ⟨[("again", .template "page" .shared), ("quote", .parsing "(try (quote))"),
    ("try", .catching)], by decide⟩
  templates := [("page", ⟨⟨"p", none, [.tag "again" none []]⟩, "page"⟩)]

/-- The page has itself rendered until the limit is reached; what would be evaluated with more than
two nested calls makes no difference. -/
theorem mirroring_ends :
    (∃ k, ∀ j ≥ k, ∀ base,
      ((mirroring.unrolled base j []).meaning (.tag "again" none [])).evaluate.run .empty =
        (.error (.render (.recursionLimit 2 "again")), .empty)) ∧
      ∀ j, mirroring.unrolled
          (fun stack => if stack.length ≤ 2 then mirroring.top else mirroring.handle 0) j [] =
        mirroring.unrolled (fun _ => mirroring.top) j [] := by
  obtain ⟨-, hmeaning, -, hbase⟩ := evaluation_ends mirroring
  refine ⟨?_, hbase _ _ fun stack hstack => if_pos hstack⟩
  obtain ⟨k, hk⟩ := hmeaning (.tag "again" none [])
  refine ⟨k, fun j hj base => ?_⟩
  rw [hk j hj base]
  rfl

end Renderer

end MarkupForms

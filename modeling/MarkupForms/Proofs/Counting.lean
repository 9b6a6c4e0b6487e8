import MarkupForms.Proofs.Calling
import MarkupForms.Renderer

/-!
# Nested calls are counted

An evaluation may keep count of nested calls.  The count is raised when a call begins and set back
when it ends, be it with a result or with an error, and a call fails when the count would pass the
limit.  An evaluation on a context alone is given the room that is left for nested calls instead.
Both do the same, as long as the room is what the count leaves below the limit; and the count is the
one before when an evaluation ends.

* `Eval.Counts` : a run that counts nested calls ends like one on a context alone, with the same
  count; `Eval.counting` : a pairing.
* `Renderer.counts_nested` : a nested call.
* `Renderer.atDepth`, `Renderer.atDepth_eq` : the renderer inside of a number of nested calls.
* `Renderer.counts_handle` : the renderer counts nested calls, with any room that suffices.
* `Renderer.run_counted` : evaluation with a count, in terms of the room that it leaves.
-/

namespace MarkupForms

open Eval Eval.Pairing

namespace Eval

/-! ## Runs with a count -/

/-- Whether a run with a count and one on a context alone end alike, the first one with a given
count. -/
inductive Follows (d : Nat) {α β : Type} (P : α → β → Prop) :
    Except Failure α × Counted → Except Failure β × Context → Prop where
  /-- Both yield results. -/
  | ok {a : α} {b : β} {c : Context} (h : P a b) : Follows d P (.ok a, ⟨c, d⟩) (.ok b, c)
  /-- Both fail. -/
  | failed {f : Failure} {c : Context} : Follows d P (.error f, ⟨c, d⟩) (.error f, c)

/-- Whether a computation with a count ends like one on a context alone, in every context, and the
count is back at the one before. -/
def Counts (d : Nat) {α β : Type} (P : α → β → Prop) (m : EvalOn Counted α) (m' : Eval β) : Prop :=
  ∀ c, Follows d P (m.run ⟨c, d⟩) (m'.run c)

variable {d : Nat} {α β γ δ : Type} {P : α → β → Prop} {Q : γ → δ → Prop} {m : EvalOn Counted α}
  {m' : Eval β}

/-- What a computation with a count comes to. -/
theorem Counts.run_eq {m : EvalOn Counted α} {m' : Eval α} (h : Counts d Eq m m') (c : Context) :
    m.run ⟨c, d⟩ = ((m'.run c).1, ⟨(m'.run c).2, d⟩) := by
  have hc := h c
  generalize m.run ⟨c, d⟩ = x at hc
  generalize m'.run c = y at hc
  cases hc with
  | ok hab => rw [hab]
  | failed => rfl

theorem counts_pure {a : α} {b : β} (h : P a b) : Counts d P (pure a) (pure b) :=
  fun _ => .ok h

theorem counts_throw (f : Failure) : Counts d P (throw f) (throw f) :=
  fun _ => .failed

theorem counts_context : Counts d Eq context context :=
  fun _ => .ok rfl

theorem Counts.bind {k : α → EvalOn Counted γ} {k' : β → Eval δ} (h : Counts d P m m')
    (hk : ∀ a b, P a b → Counts d Q (k a) (k' b)) : Counts d Q (m >>= k) (m' >>= k') := by
  intro c
  rw [run_bind, run_bind]
  have hc := h c
  generalize m.run ⟨c, d⟩ = x at hc
  generalize m'.run c = y at hc
  cases hc with
  | ok hab => exact hk _ _ hab _
  | failed => exact .failed

theorem counts_ofExcept {ε : Type} {wrap : ε → Failure} (o : Except ε α) :
    Counts d Eq (ofExcept wrap o) (ofExcept wrap o) := by
  cases o with
  | ok a => exact counts_pure rfl
  | error e => exact counts_throw _

/-! ## Frames and failures -/

theorem Counts.inChild (h : Counts d P m m') (f : Frame) :
    Counts d P (Eval.inChild f m) (Eval.inChild f m') := by
  intro c
  have hc := h (c.pushFrame f)
  unfold Eval.inChild
  simp only [ofFun, EvalOn.run, Carrier.context, Carrier.withContext] at hc ⊢
  generalize m _ = x at hc ⊢
  generalize m' _ = y at hc ⊢
  cases hc with
  | ok hab => exact .ok hab
  | failed => exact .failed

theorem Counts.popping (h : Counts d P m m') (times : Nat) :
    Counts d P (Eval.popping times m) (Eval.popping times m') := by
  intro c
  have hc := h { c with opened := c.opened.drop times }
  unfold Eval.popping
  simp only [ofFun, EvalOn.run, Carrier.context, Carrier.withContext] at hc ⊢
  split
  · generalize m _ = x at hc ⊢
    generalize m' _ = y at hc ⊢
    cases hc with
    | ok hab => exact .ok hab
    | failed => exact .failed
  · exact .failed

theorem Counts.within (h : Counts d P m m') (other : Context) :
    Counts d P (Eval.within other m) (Eval.within other m') := by
  intro c
  have hc := h other
  unfold Eval.within
  simp only [ofFun, EvalOn.run, Carrier.context, Carrier.withContext] at hc ⊢
  generalize m _ = x at hc ⊢
  generalize m' _ = y at hc ⊢
  cases hc with
  | ok hab => exact .ok hab
  | failed => exact .failed

theorem counts_bindValue (name : String) (v : Value) :
    Counts d Eq (bindValue name v) (bindValue name v) := by
  intro c
  unfold bindValue
  simp only [ofFun, EvalOn.run, Carrier.context, Carrier.withContext]
  cases c.bind name v with
  | ok after => exact .ok rfl
  | error e => exact .failed

/-- Failures are caught on both sides. -/
theorem Counts.tryCatch {m : EvalOn Counted α} {m' : Eval β} {k : Failure → EvalOn Counted α}
    {k' : Failure → Eval β} (h : Counts d P m m') (hk : ∀ f, Counts d P (k f) (k' f)) :
    Counts d P (tryCatch m k) (tryCatch m' k') := by
  intro c
  rw [run_tryCatch, run_tryCatch]
  have hc := h c
  generalize m.run ⟨c, d⟩ = x at hc
  generalize m'.run c = y at hc
  cases hc with
  | ok hab => exact .ok hab
  | failed => exact hk _ _

theorem Counts.guarded (h : Counts d P m m') (tag : String) :
    Counts d P (Eval.guarded tag m) (Eval.guarded tag m') :=
  h.tryCatch fun _ => counts_throw _

/-- The pairing of runs with a count and runs on a context alone. -/
def counting (d : Nat) : Pairing Counted Context where
  Pairs := Counts d
  Known _ := True
  Legible _ := True
  pure h := counts_pure h
  bind h hk := h.bind hk
  fail _ := counts_throw _
  inChild _ h := h.inChild _
  resolve path := by
    refine Counts.bind counts_context fun c c' hc => ?_
    subst hc
    intro d
    cases c.resolve path with
    | ok v => exact .ok ⟨rfl, trivial⟩
    | error e => exact .failed
  isSet name := Counts.bind counts_context fun c c' hc => counts_pure (by rw [hc])
  written {n} _ := by
    unfold Eval.written
    split
    · exact counts_pure rfl
    · exact counts_throw _
  item _ _ _ := trivial
  entry _ _ _ := ⟨trivial, trivial⟩
  number _ := trivial

theorem called_counting : (counting d).Called (counting d) where
  context := counts_context
  enter h := h
  fault _ := counts_throw _
  bindValue := counts_bindValue
  inChild f h := h.inChild f
  popping times h := h.popping times
  within other h := h.within other

theorem attempts_counting : (counting d).Attempts := by
  intro α m m' hm
  refine Counts.tryCatch (hm.bind fun a b hab => counts_pure (congrArg Except.ok hab)) fun f => ?_
  cases f with
  | render e => exact counts_pure rfl
  | fault f => exact counts_throw _

/-- One call deeper, where the count does not pass the limit. -/
theorem Counts.oneDeeper (h : Counts (d + 1) P m m') {limit : Nat} (hd : d < limit) (tag : String) :
    Counts d P (Eval.oneDeeper limit tag m) m' := by
  intro c
  have hc := h c
  have hlimit : ¬ limit < d + 1 := by omega
  unfold Eval.oneDeeper
  simp only [ofFun, EvalOn.run, Carrier.enter?, Carrier.leave, hlimit, if_false] at hc ⊢
  generalize m _ = x at hc ⊢
  generalize m' _ = y at hc ⊢
  cases hc with
  | ok hab => exact .ok hab
  | failed => exact .failed

/-- At the limit, a call fails. -/
theorem counts_oneDeeper_full {limit : Nat} (hd : limit ≤ d) (tag : String)
    (m : EvalOn Counted α) :
    Counts d P (Eval.oneDeeper limit tag m) (fail (.recursionLimit limit tag) : Eval β) := by
  intro c
  have hlimit : limit < d + 1 := by omega
  unfold Eval.oneDeeper
  simp only [ofFun, EvalOn.run, Carrier.enter?, hlimit, if_true]
  exact .failed

end Eval

/-! ## Renderers with a count -/

/-- All trees are gone through. -/
theorem Node.every_suits_counting (d : Nat) (n : Node) :
    n.Every (Node.Suits (counting d) .same) :=
  fun _ _ => ⟨trivial, fun _ _ _ _ _ _ _ => trivial, fun _ _ _ _ _ _ _ => trivial,
    fun _ _ _ _ _ _ => trivial⟩

/-- Whether whatever a handle with a count gives ends as what one on contexts alone gives. -/
structure Handle.Counts (d : Nat) (h : Handle Counted) (h' : Handle) : Prop where
  /-- Meanings of nodes. -/
  meaning : ∀ n, (h.meaning n).Paired (counting d) .same (h'.meaning n)
  /-- Forms that are rendered. -/
  render : ∀ form, Eval.Counts d Eq (h.render form) (h'.render form)

/-- What a handler may ask of two such handles. -/
theorem Handle.Counts.asks {d : Nat} {h : Handle Counted} {h' : Handle} (hh : h.Counts d h')
    (r : Renderer) (handler : Handler) (attributes : Attributes) (children : List Node) :
    handler.Asks (counting d) r attributes children h h' where
  form form _ := hh.render form
  node n _ := hh.meaning n
  children := .map fun n _ => hh.meaning n
  attributes a _ := hh.meaning a.2

namespace Renderer

variable {r : Renderer} {d : Nat} {inner : Option (Handle Counted)} {inner' : Option Handle}

/-- How calls are nested with a count: there is room for one more, or the limit is reached. -/
inductive Deepens (r : Renderer) (d : Nat) : Option (Handle Counted) → Option Handle → Prop where
  /-- There is room. -/
  | room {h : Handle Counted} {h' : Handle} (hd : d < r.config.limit) (hh : h.Counts (d + 1) h') :
      Deepens r d (some h) (some h')
  /-- The limit is reached. -/
  | full {inner : Option (Handle Counted)} (hd : r.config.limit ≤ d) : Deepens r d inner none

/-- **A nested call.**  It ends as it does on a context alone, and the count is back. -/
theorem counts_nested (hinner : Deepens r d inner inner') {α β : Type} {P : α → β → Prop}
    (tag : String) {body : Handle Counted → EvalOn Counted α} {body' : Handle → Eval β}
    (hbody : ∀ h h', h.Counts (d + 1) h' → Eval.Counts (d + 1) P (body h) (body' h')) :
    Eval.Counts d P (r.nested inner tag body) (r.nested inner' tag body') := by
  cases hinner with
  | room hd hh => exact (hbody _ _ hh).oneDeeper hd tag
  | full hd => exact counts_oneDeeper_full hd tag _

theorem counts_call (hinner : Deepens r d inner inner') (tag : String) (handler : Handler)
    (attributes : Option Attributes) (children : List Node) :
    Eval.Counts d Eq (r.call inner handler tag attributes children)
      (r.call inner' handler tag attributes children) := by
  have hbody : Eval.Counts d Eq
      (r.nested inner tag fun h => handler.call r h (attributes.getD []) children)
      (r.nested inner' tag fun h => handler.call r h (attributes.getD []) children) := by
    refine counts_nested hinner tag fun h h' hh => ?_
    exact Handler.pairs_call called_counting (hh.asks r handler _ children) rfl
      (fun _ _ _ => counts_throw _) fun _ => attempts_counting
  refine andThen (R := counting d) ((hbody.guarded tag).inChild _) fun reply => ?_
  exact pairs_fragments (R := counting d) (fun _ _ _ _ => counts_throw _) fun _ => counts_throw _

/-- What the renderer does by itself. -/
theorem paired_counting (hinner : Deepens r d inner inner') :
    Renderer.Paired (counting d) .same r r inner inner' where
  registry := rfl
  isVoid _ := rfl
  framed := Rewriting.framed_same
  text _ hs := Meaning.paired_ofText rfl hs
  var _ hn := Meaning.paired_ofVar rfl hn
  hole hn := Meaning.paired_ofHole (counts_throw _) hn
  call tag handler attributes children _ _ := counts_call hinner tag handler attributes children
  condition tag p _ _ _ _ hms := by
    have hholds := Handler.pairs_holds called_counting hms (p := p) fun _ _ => counts_throw _
    exact (Counts.guarded hholds tag).inChild _

theorem counts_layer (hinner : Deepens r d inner inner') :
    (r.layer fun _ => inner).Counts d (r.layer fun _ => inner') where
  meaning n := paired_denote (paired_counting hinner) n (n.every_suits_counting d)
  render form := by
    refine counts_nested hinner form.tag fun h h' hh => ?_
    have htext := joined_eq (R := counting (d + 1)) (hh.meaning form.toNode).evaluate
    exact andThen htext fun _ => counts_pure rfl

/-! ## Depths -/

/-- The renderer inside of a number of nested calls. -/
def atDepth (r : Renderer) (d : Nat) : Handle :=
  r.handle (r.config.limit - d)

/-- The depth counts nested calls: what is nested is one deeper, and at the limit nothing is. -/
theorem atDepth_eq (r : Renderer) (d : Nat) :
    r.atDepth d =
      r.layer fun _ => if d < r.config.limit then some (r.atDepth (d + 1)) else none := by
  by_cases hd : d < r.config.limit
  · simp only [hd, if_true]
    have hroom : r.config.limit - d = r.config.limit - (d + 1) + 1 := by omega
    rw [atDepth, hroom, handle_succ]
    rfl
  · simp only [hd, if_false]
    have hroom : r.config.limit - d = 0 := by omega
    rw [atDepth, hroom]
    rfl

/-- With a count, the room makes no difference as long as it suffices: whatever is evaluated inside
of a number of nested calls ends as it does there on a context alone, and the count is back. -/
theorem counts_handle (r : Renderer) {room d : Nat} (hroom : r.config.limit ≤ d + room) :
    (r.handle room : Handle Counted).Counts d (r.atDepth d) := by
  induction room generalizing d with
  | zero =>
    have hd : ¬ d < r.config.limit := Nat.not_lt.2 hroom
    simp only [atDepth_eq r d, hd, if_false]
    exact counts_layer (.full hroom)
  | succ room ih =>
    rw [handle_succ, atDepth_eq]
    by_cases hd : d < r.config.limit
    · simp only [hd, if_true]
      exact counts_layer (.room hd (ih (by omega)))
    · simp only [hd, if_false]
      exact counts_layer (.full (Nat.not_lt.1 hd))

/-- The renderer with all its room counts nested calls from any number on. -/
theorem counts_top (r : Renderer) (d : Nat) : (r.top : Handle Counted).Counts d (r.atDepth d) :=
  r.counts_handle (Nat.le_add_left _ d)

end Renderer

end MarkupForms

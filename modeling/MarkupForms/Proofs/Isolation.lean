import MarkupForms.Proofs.Handling
import MarkupForms.Proofs.Sharing

/-!
# How far children are isolated

The children of a context share its frames.  A child may close its own frame, and what it binds then
lands in the innermost frame of the context that it was made of, where that context and its other
children see it.  Only the root takes no bindings: over a context without open frames its children
cannot reach anything that they share.

* `Desk.IsConfined` : work whose contexts have only certain frames open.
* `Desk.aims_of_isConfined` : such work binds in these frames only.
* `child_isolation` : children are isolated exactly when there is no open frame to share.
-/

namespace MarkupForms.Context

namespace Desk

variable {d : Desk} {own : Nat → Prop} {allowed : Nat → Prop} {steps : List Step}

/-- Whether the contexts with certain numbers have only allowed frames open. -/
def IsConfined (own allowed : Nat → Prop) (d : Desk) : Prop :=
  ∀ i < d.contexts.length, own i → ∀ f ∈ (d.ref i).opened, allowed f

theorem IsConfined.place (h : d.IsConfined own allowed) (slot : String)
    {made : Store × Store.Ref} (hmade : ∀ f ∈ made.2.opened, allowed f) :
    (d.place slot made).IsConfined own allowed := by
  intro i hi hown
  by_cases hlt : i < d.contexts.length
  · rw [ref_place d slot made hlt]
    exact h i hlt hown
  · have hlast : i = d.contexts.length := by
      simp only [Desk.place, List.length_append, List.length_singleton] at hi
      omega
    rw [hlast, ref_place_new]
    exact hmade

theorem IsConfined.move (h : d.IsConfined own allowed) (i : Nat) {made : Store × Store.Ref}
    (hmade : ∀ f ∈ made.2.opened, allowed f) : (d.move i made).IsConfined own allowed := by
  intro k hk hown
  have hlt : k < d.contexts.length := by simpa [Desk.move] using hk
  by_cases heq : k = i
  · rw [heq, ref_move_self d made (heq ▸ hlt)]
    exact hmade
  · rw [ref_move d made heq]
    exact h k hlt hown

/-- A step on a context of one's own leaves work confined, as long as new frames are allowed. -/
theorem IsConfined.perform (h : d.IsConfined own allowed) (hd : d.IsSound)
    (hnew : ∀ f, d.store.frames.length ≤ f → allowed f) {step : Step} {slot : String} {i : Nat}
    (hstep : worksOn? step = some slot) (hslot : d.number? slot = some i) (hi : own i) :
    (d.perform step).1.IsConfined own allowed := by
  have hopened := h i (hd.known slot i hslot) hi
  have hextend (f : Frame) : ∀ g ∈ (d.store.extend (d.ref i) f).2.opened, allowed g := by
    intro g hg
    rcases List.mem_cons.1 hg with rfl | hg
    · exact hnew _ (Nat.le_refl _)
    · exact hopened g hg
  cases step <;> cases hstep
  case bind name data =>
    have hshape := sameShape_bind d name data i
    rw [Desk.perform, Desk.withNumber, hslot]
    intro k hk hown
    rw [← hshape.contexts] at hk
    rw [Desk.ref, ← hshape.contexts]
    exact h k hk hown
  case push =>
    rw [Desk.perform, Desk.withNumber, hslot]
    exact h.move i (hextend _)
  case pop =>
    rw [Desk.perform, Desk.withNumber, hslot]
    dsimp only [Desk.pop]
    cases hpop : (d.ref i).pop with
    | error e => exact h
    | ok r =>
      refine h.move i fun f hf => hopened f ?_
      unfold Store.Ref.pop at hpop
      split at hpop
      · cases hpop
      · rename_i g outer heq
        cases hpop
        exact heq ▸ List.mem_cons_of_mem g hf
  case child target pairs =>
    rw [Desk.perform, Desk.withNumber, hslot]
    dsimp only [Desk.child]
    cases Data.toBindings? pairs with
    | error e => exact h
    | ok bindings => exact h.place target (hextend _)

/-- Work that is confined to some frames binds in these frames only. -/
theorem aims_of_isConfined (h : d.IsConfined own allowed) (hd : d.IsSound)
    (hnew : ∀ f, d.store.frames.length ≤ f → allowed f) (hw : d.Works own steps) :
    ∀ f ∈ d.aims steps, allowed f := by
  induction steps generalizing d with
  | nil =>
    intro f hf
    cases hf
  | cons step steps ih =>
    obtain ⟨⟨slot, i, hstep, hslot, hi⟩, hrest⟩ := hw
    have hfollows := (effect_perform hd hstep hslot).follows
    have hlater := ih (h.perform hd hnew hstep hslot hi) hfollows.sound
      (fun f hf => hnew f (Nat.le_trans hfollows.frames hf)) hrest
    intro f hf
    rw [aims, List.mem_append, Option.mem_toList] at hf
    rcases hf with hf | hf
    · cases step <;> cases hstep <;> simp only [aim?, hslot, Option.bind_some,
        reduceCtorEq] at hf
      exact h i (hd.known slot i hslot) hi f (List.mem_of_mem_head? hf)
    · exact hlater f hf

/-- Closing frames leads to each frame that is open, and a binding to the frame itself. -/
theorem exists_aim {slot : String} {n : Nat} (hslot : d.number? slot = some n)
    (hn : n < d.contexts.length) (hown : own n) {f : Nat} (hf : f ∈ (d.ref n).opened) :
    ∃ steps, d.Works own steps ∧ f ∈ d.aims steps := by
  obtain ⟨closed, outer, hopened⟩ := List.append_of_mem hf
  clear hf
  induction closed generalizing d with
  | nil =>
    refine ⟨[.bind slot "" .null], ⟨⟨slot, n, rfl, hslot, hown⟩, trivial⟩, ?_⟩
    simp [aims, aim?, hslot, hopened]
  | cons g closed ih =>
    have hpop : (d.perform (.pop slot)).1 =
        d.move n (d.store, { d.ref n with opened := closed ++ f :: outer }) := by
      rw [Desk.perform, Desk.withNumber, hslot]
      simp only [Desk.pop, Store.Ref.pop, hopened, List.cons_append, Except.map]
    have href : (d.perform (.pop slot)).1.ref n =
        { d.ref n with opened := closed ++ f :: outer } := by
      rw [hpop, ref_move_self d _ hn]
    have hlen : n < (d.perform (.pop slot)).1.contexts.length := by
      rw [hpop]
      simpa [Desk.move] using hn
    have hslot' : (d.perform (.pop slot)).1.number? slot = some n := by
      rw [hpop]
      exact hslot
    obtain ⟨steps, hworks, haim⟩ := ih hslot' hlen (by rw [href])
    refine ⟨.pop slot :: steps, ⟨⟨slot, n, rfl, hslot, hown⟩, hworks⟩, ?_⟩
    rw [aims]
    exact List.mem_append_right _ haim

/-- The numbers of a context and of the contexts that are made from now on. -/
def Descends (d : Desk) (n j : Nat) : Prop :=
  j = n ∨ d.contexts.length ≤ j

/-- Work on a context and on those that are made of it leaves another context as it is, whatever
it is, exactly when the two share no open frame. -/
theorem unchanged_iff_shares_none (hd : d.IsSound) {slot : String} {n k : Nat}
    (hslot : d.number? slot = some n) (hk : k < d.contexts.length) (hne : k ≠ n) :
    (∀ steps, d.Works (d.Descends n) steps → d.Unchanged (d.performAll steps).1 k) ↔
      ∀ f ∈ (d.ref n).opened, f ∉ (d.ref k).frames := by
  have hn := hd.known slot n hslot
  have hother : ¬ d.Descends n k := by simpa [Descends, hne] using hk
  have hshape : d.SameShape d := ⟨rfl, rfl, rfl⟩
  constructor
  · intro hall f hf
    have hown : d.Descends n n := .inl rfl
    obtain ⟨steps, hworks, haim⟩ := exists_aim hslot hn hown hf
    refine (unchanged_iff_aims hd hworks hk hother).1 (fun steps' halike => ?_) f haim
    exact hall steps' (hshape.aims hworks halike).2
  · intro hnone steps hworks
    have hconfined : d.IsConfined (d.Descends n)
        (fun f => f ∈ (d.ref n).opened ∨ d.store.frames.length ≤ f) := by
      intro j hj hown f hf
      rcases hown with rfl | hle
      · exact .inl hf
      · omega
    have haims := aims_of_isConfined hconfined hd (fun f hf => .inr hf) hworks
    refine (unchanged_iff_aims hd hworks hk hother).2 (fun f haim hf => ?_) steps
      (List.forall₂_same.2 fun step _ => .same step)
    rcases haims f haim with hopen | hfresh
    · exact hnone f hopen hf
    · have hlt := (hd.ref hk).lt hf
      omega

/-! ## Two children of a context -/

/-- A desk with two more contexts, both made of the same one. -/
def siblings (d : Desk) (i : Nat) (first second : String) (p q : Pairs) : Desk :=
  ((d.child first p i).1.child second q i).1

variable {i : Nat} {first second : String} {p q : Pairs} {a b : Context}

/-- Two children have a frame of their own each, over the frames of their context. -/
theorem siblings_eq (d : Desk) (hi : i < d.contexts.length) (hp : Context.ofPairs? p = .ok a)
    (hq : Context.ofPairs? q = .ok b) :
    let r := d.ref i
    d.siblings i first second p q =
      ⟨⟨d.store.frames ++ [a.root, b.root]⟩,
        d.contexts ++ [⟨d.store.frames.length :: r.opened, r.root⟩,
          ⟨(d.store.frames.length + 1) :: r.opened, r.root⟩],
        Entries.put second (d.contexts.length + 1)
          (Entries.put first d.contexts.length d.slots)⟩ := by
  intro r
  have hfirst : (d.child first p i).1 = d.place first (d.store.extend r a.root) := by
    rw [child_of_ofPairs? hp]
  have hr : (d.place first (d.store.extend r a.root)).ref i = r := ref_place d _ _ hi
  rw [siblings, hfirst, child_of_ofPairs? hq, hr]
  simp [Desk.place, Store.extend]

/-- Children are isolated exactly when there is no open frame that they share. -/
theorem unchanged_siblings_iff (hd : d.IsSound) (hi : i < d.contexts.length)
    (hp : Context.ofPairs? p = .ok a) (hq : Context.ofPairs? q = .ok b) (hne : first ≠ second) :
    let s := d.siblings i first second p q
    let n := d.contexts.length
    (∀ steps, s.Works (s.Descends n) steps →
        s.Unchanged (s.performAll steps).1 i ∧ s.Unchanged (s.performAll steps).1 (n + 1)) ↔
      (d.ref i).opened = [] := by
  intro s n
  have hs : s.IsSound := by
    have hfirst := hd.child first p hi
    exact (hfirst.sound.child second q (Nat.lt_of_lt_of_le hi hfirst.contexts)).sound
  obtain ⟨F, hF⟩ : ∃ F, F = d.store.frames.length := ⟨_, rfl⟩
  have heq : s = ⟨_, _, _⟩ := siblings_eq d hi hp hq
  have hlen : s.contexts.length = n + 2 := by simp [heq, n]
  have hslot : s.number? first = some n := by
    rw [number?, heq, Entries.lookup_put, if_neg hne, Entries.lookup_put, if_pos rfl]
  -- the frames of the context and of its two children
  have hparent : s.ref i = d.ref i := by
    rw [Desk.ref, Desk.ref, heq, List.getElem?_append_left hi]
  have hchild : (s.ref n).opened = F :: (d.ref i).opened := by
    simp [Desk.ref, heq, n, hF]
  have hsibling : (s.ref (n + 1)).frames = (F + 1) :: (d.ref i).frames := by
    simp [Desk.ref, heq, n, hF, Store.Ref.frames]
  have hold : ∀ f ∈ (d.ref i).frames, f < F := fun f hf => hF ▸ (hd.ref hi).lt hf
  have hshare (k : Nat) (hk : k < s.contexts.length) (hkn : k ≠ n) :=
    unchanged_iff_shares_none hs hslot hk hkn
  rw [hchild] at hshare
  have hi' := hshare i (by omega) (by omega)
  have hn' := hshare (n + 1) (by omega) (by omega)
  rw [hparent] at hi'
  rw [hsibling] at hn'
  constructor
  · intro hall
    have hnone := hi'.1 fun steps hworks => (hall steps hworks).1
    rw [List.eq_nil_iff_forall_not_mem]
    intro f hf
    exact hnone f (List.mem_cons_of_mem F hf) (List.mem_append_left _ hf)
  · intro hopened steps hworks
    rw [hopened] at hi' hn'
    refine ⟨hi'.2 (fun f hf hmem => ?_) steps hworks, hn'.2 (fun f hf hmem => ?_) steps hworks⟩
    · rw [List.mem_singleton.1 hf] at hmem
      exact Nat.lt_irrefl F (hold F hmem)
    · rw [List.mem_singleton.1 hf] at hmem
      rcases List.mem_cons.1 hmem with hmem | hmem
      · omega
      · exact Nat.lt_irrefl F (hold F hmem)

end Desk

/-- **How far children are isolated.**

* Whatever is done with a child and with the contexts that are made of it, its context and the other
  children of that context stay as they are exactly when the context has no open frame.
* More generally, work on a context and those that are made of it leaves another one as it is
  exactly when the two share no open frame, and a given piece of work does so, whatever it binds,
  exactly when none of its bindings is aimed at a frame of the other one.
* Handlers work on children, too: evaluation leaves every context as it is exactly when no handler
  binds a name after it has closed the frame of its call. -/
theorem child_isolation (script : List Step) (r : Renderer) :
    let d := (runScript script).1
    (∀ (i : Nat) (first second : String) (p q : Pairs) (a b : Context),
      let s := d.siblings i first second p q
      let n := d.contexts.length
      i < n → Context.ofPairs? p = .ok a → Context.ofPairs? q = .ok b → first ≠ second →
        ((∀ steps, s.Works (s.Descends n) steps →
            s.Unchanged (s.performAll steps).1 i ∧ s.Unchanged (s.performAll steps).1 (n + 1)) ↔
          (d.ref i).opened = [])) ∧
    (∀ (slot : String) (n k : Nat),
      d.number? slot = some n → k < d.contexts.length → k ≠ n →
        ((∀ steps, d.Works (d.Descends n) steps → d.Unchanged (d.performAll steps).1 k) ↔
          ∀ f ∈ (d.ref n).opened, f ∉ (d.ref k).frames)) ∧
    (∀ (steps : List Step) (own : Nat → Prop) (k : Nat),
      d.Works own steps → k < d.contexts.length → ¬ own k →
        ((∀ steps', List.Forall₂ Desk.Alike steps steps' →
            d.Unchanged (d.performAll steps').1 k) ↔
          ∀ f ∈ d.aims steps, f ∉ (d.ref k).frames)) ∧
    ((∀ n c, ((r.evaluate n).run c).2 = c) ↔ r.IsContained) := by
  intro d
  have hsound := Desk.isSound_runScript script
  refine ⟨?_, ?_, ?_, Renderer.evaluate_keeps_iff r⟩
  · intro i first second p q a b s n hi hp hq hne
    exact Desk.unchanged_siblings_iff hsound hi hp hq hne
  · intro slot n k hslot hk hne
    exact Desk.unchanged_iff_shares_none hsound hslot hk hne
  · intro steps own k hworks hk hown
    exact Desk.unchanged_iff_aims hsound hworks hk hown

/-- Not every context is safe from its children: a child of a context with an open frame closes its
own frame, and what it binds then is seen by the context. -/
theorem exists_reaching_child :
    ¬ ∀ (script : List Step) (i : Nat) (first second : String) (p q : Pairs) (a b : Context),
      let d := (runScript script).1
      let s := d.siblings i first second p q
      let n := d.contexts.length
      i < n → Context.ofPairs? p = .ok a → Context.ofPairs? q = .ok b → first ≠ second →
        ∀ steps, s.Works (s.Descends n) steps →
          s.Unchanged (s.performAll steps).1 i ∧ s.Unchanged (s.performAll steps).1 (n + 1) := by
  intro hall
  have hworks : Desk.Works (Desk.Descends
      ((runScript [.create "r" [], .child "r" "c" []]).1.siblings 1 "d" "e" [] []) 2)
      ((runScript [.create "r" [], .child "r" "c" []]).1.siblings 1 "d" "e" [] [])
      [.pop "d", .bind "d" "y" (.text "2")] :=
    ⟨⟨"d", 2, rfl, rfl, .inl rfl⟩, ⟨"d", 2, rfl, rfl, .inl rfl⟩, trivial⟩
  have hsame := hall [.create "r" [], .child "r" "c" []] 1 "d" "e" [] [] _ _ (by decide) rfl rfl
    (by decide) _ hworks
  exact absurd hsame.1.1 (by decide)

end MarkupForms.Context

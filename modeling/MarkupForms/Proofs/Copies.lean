import MarkupForms.Proofs.Separation

/-!
# Copies of contexts

A copy of a context has frames of its own that bind the same.  It reads like the context it was made
of, and shares no frame with it, nor with any other context that was there before.  So what is done
from then on with the copy and the contexts that are made of it, and what is done with all the other
contexts, are two pieces of work that do not meet, in whatever order their steps are taken.

* `Store.view_copy` : a copy reads like the context it was made of.
* `Desk.mirrors_copy`, `Desk.mirrors_others` : the copy, and the contexts that were there before,
  stand on frames of their own.
* `copies_apart` : each side gives the answers that it gives without the other one.
-/

namespace MarkupForms

/-- A copy reads like the context it was made of. -/
theorem Store.view_copy (s : Store) (r : Ref) : (s.copy r).1.view (s.copy r).2 = s.view r := by
  have hframe (k : Nat) : (Store.mk (s.frames ++ (s.view r).frames)).frame (s.frames.length + k) =
      (s.view r).frames[k]?.getD .empty := by
    rw [frame, List.getElem?_append_right (Nat.le_add_right _ _), Nat.add_sub_cancel_left]
  have hframes : (s.view r).frames = r.opened.map s.frame ++ [s.frame r.root] := rfl
  have hopened : ((List.range r.opened.length).map (s.frames.length + ·)).map
      (Store.mk (s.frames ++ (s.view r).frames)).frame = r.opened.map s.frame := by
    refine List.ext_getElem (by simp) fun k hk hk' => ?_
    simp only [List.getElem_map, List.getElem_range]
    rw [hframe, hframes, List.getElem?_append_left hk', List.getElem?_eq_getElem hk',
      Option.getD_some, List.getElem_map]
  have hroot : (Store.mk (s.frames ++ (s.view r).frames)).frame
      (s.frames.length + r.opened.length) = s.frame r.root := by
    rw [hframe, hframes]
    simp
  rw [copy]
  dsimp only
  rw [view, hopened, hroot, view]

/-- The frames of a copy are new. -/
theorem Store.le_of_mem_copy {s : Store} {r : Ref} {f : Nat} (hf : f ∈ (s.copy r).2.frames) :
    s.frames.length ≤ f := by
  simp only [copy, Ref.frames, List.mem_append, List.mem_map, List.mem_singleton] at hf
  rcases hf with ⟨k, -, rfl⟩ | rfl <;> omega

namespace Context

namespace Desk

variable {d : Desk} {own : String → Bool} {source copy : String} {i : Nat}

/-- A desk with a copy of the context with a number. -/
def withCopy (d : Desk) (copy : String) (i : Nat) : Desk :=
  d.place copy (d.store.copy (d.ref i))

theorem perform_copy (hi : d.number? source = some i) (copy : String) :
    (d.perform (.copy source copy)).1 = d.withCopy copy i := by
  rw [Desk.perform, Desk.withNumber, hi]
  rfl

/-- The contexts that were there before read as without the copy. -/
theorem mirrors_others (h : d.IsSound) (hcopy : own copy = true) (i : Nat) :
    Mirrors (fun slot => !own slot) (.before d) (d.withCopy copy i) d := by
  refine h.mirrors_before (spares_place .nothing d hcopy ?_ ?_) fun slot hslot => by
    simpa using hslot
  · exact fun f hf => d.store.frame_append _ hf
  · simp [Store.copy]

/-- The copy stands on frames of its own. -/
theorem mirrors_copy (i : Nat)
    (hfree : ∀ slot, own slot = true → slot ≠ copy → d.number? slot = none) :
    Mirrors own (.since d (d.withCopy copy i)) (d.withCopy copy i) (d.withCopy copy i) := by
  have hlen : (d.withCopy copy i).contexts.length = d.contexts.length + 1 := by
    simp [withCopy, Desk.place]
  have hholds := Store.holds_copy d.store (d.ref i)
  refine mirrors_only (fun slot k hslot hk => ?_) (fun k hk => ?_) fun f hf => hf.2
  · rw [withCopy, number?_place] at hk
    split at hk
    · cases hk
      omega
    · rename_i hne
      rw [hfree slot hslot hne] at hk
      cases hk
  · have hlast : k = d.contexts.length := by omega
    refine ⟨hk.2, fun f hf => ?_⟩
    rw [hlast, withCopy, ref_place_new] at hf
    exact ⟨Store.le_of_mem_copy hf, hholds.lt hf⟩

end Desk

/-- **Copies are equal and independent.**  A copy reads like the context that it is made of: it has
the same frames, over the same root, and binds the same in each of them.  No other context changes.

From then on, let the copy and what is made of it be called by some names, and everything else by
others, and let steps be taken on both sides in any order.  Then the steps on the side of the copy
are answered as if the others were left out, and the steps on the other side as if there were no
copy at all. -/
theorem copies_apart (script : List Step) (source copy : String) (c : Context)
    (hsource : (runScript script).1.context? source = some c) :
    let d := (runScript script).1
    let e := (d.perform (.copy source copy)).1
    e.context? copy = some c ∧
    (∀ slot, slot ≠ copy → e.context? slot = d.context? slot) ∧
    ∀ (own : String → Bool) (steps : List Step), own copy = true →
      (∀ slot, own slot = true → slot ≠ copy → d.number? slot = none) →
      (∀ step ∈ steps, step.concerns own = true ∨ step.concerns (fun slot => !own slot) = true) →
        Desk.reportsOf own steps (e.performAll steps).2.1 =
            (e.performAll (steps.filter fun step => own (Desk.subject step))).2.1 ∧
          Desk.reportsOf (fun slot => !own slot) steps (e.performAll steps).2.1 =
            (d.performAll (steps.filter fun step => !own (Desk.subject step))).2.1 := by
  intro d e
  have hd : d.IsSound := Desk.isSound_runScript script
  obtain ⟨i, hi, hc⟩ := Option.map_eq_some_iff.1 hsource
  have he : e = d.withCopy copy i := Desk.perform_copy hi copy
  rw [he]
  refine ⟨?_, fun slot hslot => ?_, fun own steps hcopy hfree hsteps => ?_⟩
  · rw [Desk.withCopy, Desk.context?_place, d.store.view_copy, hc]
  · rw [Desk.context?, Desk.withCopy, Desk.number?_place, if_neg hslot, Desk.context?]
    cases hk : d.number? slot with
    | none => rfl
    | some k =>
      have hk := hd.known slot k hk
      rw [Option.map_some, Option.map_some, Desk.ref_place d copy _ hk]
      exact congrArg some (d.store.view_append _ (hd.ref hk))
  · have hmine := Desk.mirrors_copy i hfree
    have hothers := Desk.mirrors_others hd hcopy i
    have hdisjoint := Desk.Matching.disjoint_since d (d.withCopy copy i)
    refine ⟨Desk.reportsOf_performAll hmine hothers (fun slot hslot => ?_) hdisjoint hsteps,
      Desk.reportsOf_performAll hothers hmine (fun slot hslot => ?_) hdisjoint.symm
        fun step hstep => (hsteps step hstep).symm⟩
    · rw [hslot, Bool.not_true]
    · simpa using hslot

/-- The copy `k` of `c` and the child `m` of the copy are on one side, `c` and its parent `r` on the
other.  Closing the inner frame of the copy brings its copy of the shared frame to light: what is
bound there then is seen in `m` and not in `c`, and the other way round. -/
theorem copies_apart_shared_frame :
    let script : List Step := [.create "r" [(.text "x", .text "1")],
      .child "r" "c" [(.text "y", .text "2")], .push "c"]
    let c : Context := ⟨[.empty, ⟨[("y", .scalar "2")]⟩], ⟨[("x", .scalar "1")]⟩⟩
    let own : String → Bool := fun slot => slot == "k" || slot == "m"
    let steps : List Step := [.pop "k", .bind "k" "y" (.text "3"), .lookup "c" "y", .pop "c",
      .bind "c" "z" (.text "4"), .child "k" "m" [], .pop "m", .names "m", .lookup "m" "y",
      .names "c"]
    (runScript script).1.context? "c" = some c ∧
      ((runScript script).1.perform (.copy "c" "k")).1.context? "k" = some c ∧
      Desk.reportsOf own steps
          (((runScript script).1.perform (.copy "c" "k")).1.performAll steps).2.1 =
        [(.done, some (["x", "y"], 2)), (.done, some (["x", "y"], 2)),
          (.done, some (["x", "y"], 3)), (.done, some (["x", "y"], 2)),
          (.names ["x", "y"], some (["x", "y"], 2)),
          (.found (some (.scalar "3")), some (["x", "y"], 2))] ∧
      Desk.reportsOf (fun slot => !own slot) steps
          (((runScript script).1.perform (.copy "c" "k")).1.performAll steps).2.1 =
        [(.found (some (.scalar "2")), some (["x", "y"], 3)), (.done, some (["x", "y"], 2)),
          (.done, some (["x", "y", "z"], 2)),
          (.names ["x", "y", "z"], some (["x", "y", "z"], 2))] := by
  intro script c own steps
  have hc : (runScript script).1.context? "c" = some c := rfl
  have hd : (runScript script).1 = ⟨⟨[c.root, ⟨[("y", .scalar "2")]⟩, .empty]⟩,
      [⟨[], 0⟩, ⟨[2, 1], 0⟩], [("r", 0), ("c", 1)]⟩ := rfl
  have he : ((runScript script).1.perform (.copy "c" "k")).1 =
      ⟨⟨[c.root, ⟨[("y", .scalar "2")]⟩, .empty, .empty, ⟨[("y", .scalar "2")]⟩, c.root]⟩,
        [⟨[], 0⟩, ⟨[2, 1], 0⟩, ⟨[3, 4], 5⟩], [("r", 0), ("c", 1), ("k", 2)]⟩ := rfl
  obtain ⟨hcopy, -, happart⟩ := copies_apart script "c" "k" c hc
  have hfree (slot : String) (hslot : own slot = true) (hne : slot ≠ "k") :
      (runScript script).1.number? slot = none := by
    have hm : slot = "m" := by simpa [own, hne] using hslot
    subst hm
    rfl
  obtain ⟨hmine, hothers⟩ := happart own steps rfl hfree (by decide)
  refine ⟨hc, hcopy, hmine.trans ?_, hothers.trans ?_⟩
  · rw [he]
    rfl
  · rw [hd]
    rfl

end Context

end MarkupForms

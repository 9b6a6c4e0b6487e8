import MarkupForms.Proofs.Paths
import MarkupForms.Proofs.References
import MarkupForms.Proofs.Separation
import MarkupForms.Proofs.Stacks
import Mathlib.Data.List.DropRight

/-!
# Contexts as values

A context that is bound to a name in another one stands there as a map of what it binds at that
moment.  Its names are the keys of the map, so a path into the map leads where it leads in the
context.  This rests on the names in frames having no signs in front of them: a key is looked up in
a map as it is, and a name is looked up in a context without its signs.

* `Frame.IsMade` : frames that are made by binding names, each without its signs.
* `Desk.isMade_perform`, `Desk.isMade_performAll` : steps make no other frames.
* `IsMade.get?_asValue` : the map has under a key what the context binds to it.
* `IsMade.resolve_embedded` : a path into the map leads where it leads in the context.
* `Desk.context?_placed` : later steps on other contexts do not change where the map stands.
* `embedded_context` : all of this together.
-/

namespace MarkupForms

/-- Without its signs, a name has none left to take away. -/
theorem Context.normalize_normalize (name : String) :
    normalize (normalize name) = normalize name := by
  rw [normalize, normalize, String.toList_ofList, List.dropWhile_idempotent]

/-- Exactly the names without a sign in front have no signs to take away. -/
theorem Context.normalize_eq_self_iff (name : String) :
    normalize name = name ↔ name.toList.head? ≠ some '$' := by
  rw [← String.toList_inj, normalize, String.toList_ofList]
  cases name.toList with
  | nil => simp
  | cons c rest => simp [List.dropWhile_eq_self_iff]

/-! ## Errors of paths -/

/-- The name of the type of the error for a path that leads nowhere. -/
def PathError.typeName (e : PathError) : String :=
  (RenderError.ofPath e).typeName

/-- Wherever a value was reached, keys lead from it to the same value or the same type of error. -/
theorem Value.follow_typeName (v : Value) (walked walked' : String) (keys : List String) :
    (v.follow walked keys).mapError PathError.typeName =
      (v.follow walked' keys).mapError PathError.typeName := by
  induction keys generalizing v walked walked' with
  | nil => rfl
  | cons key keys ih =>
    cases v with
    | map entries =>
      cases hkey : (Value.map entries).get? key with
      | none =>
        rw [follow_cons_of_missing ⟨entries, rfl⟩ hkey, follow_cons_of_missing ⟨entries, rfl⟩ hkey]
        rfl
      | some w =>
        rw [follow_cons_of_get? hkey, follow_cons_of_get? hkey]
        exact ih w _ _
    | scalar | list => rfl

/-! ## Frames that are made by binding -/

/-- Whether a frame was made by binding names, each without the signs in front of it. -/
inductive Frame.IsMade : Frame → Prop where
  /-- The frame that binds nothing. -/
  | empty : IsMade .empty
  /-- One more binding. -/
  | bind {f : Frame} (h : IsMade f) (name : String) (v : Value) :
      IsMade (f.bind (Context.normalize name) v)

namespace Frame.IsMade

variable {f : Frame}

/-- The names in such a frame have no signs in front of them. -/
theorem normalize_of_mem (h : f.IsMade) {name : String} (hname : name ∈ f.names) :
    Context.normalize name = name := by
  induction h with
  | empty => cases hname
  | bind _ key v ih =>
    rw [names_bind] at hname
    split at hname
    · exact ih hname
    · rcases List.mem_append.1 hname with hname | hname
      · exact ih hname
      · rw [List.mem_singleton.1 hname, Context.normalize_normalize]

/-- Bindings that are made in turn. -/
theorem putAll (h : f.IsMade) (bindings : List (String × Value)) :
    (Frame.mk (Entries.putAll (bindings.map fun b => (Context.normalize b.1, b.2))
      f.bindings)).IsMade := by
  induction bindings generalizing f with
  | nil => exact h
  | cons b bindings ih => exact ih (h.bind b.1 b.2)

end Frame.IsMade

/-- Whether all frames in a store are made by binding. -/
def Store.IsMade (s : Store) : Prop :=
  ∀ f ∈ s.frames, f.IsMade

namespace Store.IsMade

variable {s : Store}

theorem frame (h : s.IsMade) (i : Nat) : (s.frame i).IsMade := by
  rw [Store.frame]
  cases hi : s.frames[i]? with
  | none => exact .empty
  | some f => exact h f (List.mem_of_getElem? hi)

theorem append (h : s.IsMade) {fs : List Frame} (hfs : ∀ f ∈ fs, f.IsMade) :
    (Store.mk (s.frames ++ fs)).IsMade := by
  intro f hf
  rcases List.mem_append.1 hf with hf | hf
  · exact h f hf
  · exact hfs f hf

theorem concat (h : s.IsMade) {f : Frame} (hf : f.IsMade) :
    (Store.mk (s.frames ++ [f])).IsMade :=
  h.append fun _ hg => List.mem_singleton.1 hg ▸ hf

theorem modify (h : s.IsMade) (i : Nat) (name : String) (v : Value) :
    (Store.mk (s.frames.modify i fun f => f.bind (Context.normalize name) v)).IsMade := by
  intro f hf
  obtain ⟨k, hk⟩ := List.mem_iff_getElem?.1 hf
  rw [List.getElem?_modify, Option.map_eq_map, Option.map_eq_some_iff] at hk
  obtain ⟨g, hg, rfl⟩ := hk
  have hmade := h g (List.mem_of_getElem? hg)
  split
  · exact hmade.bind name v
  · exact hmade

end Store.IsMade

namespace Context

/-- Whether all frames of a context are made by binding. -/
def IsMade (c : Context) : Prop :=
  ∀ f ∈ c.frames, f.IsMade

theorem isMade_root_ofList (bindings : List (String × Value)) : (ofList bindings).root.IsMade :=
  Frame.IsMade.empty.putAll bindings

namespace Desk

variable {d : Desk}

/-! ## Frames on a desk -/

theorem isMade_create (h : d.store.IsMade) (slot : String) {made : Except DataError Context}
    (hmade : ∀ c, made = .ok c → c.root.IsMade) : (d.create slot made).1.store.IsMade := by
  cases made with
  | error e => exact h
  | ok c => exact h.concat (hmade c rfl)

theorem isMade_root_ofPairs {pairs : Pairs} {c : Context} (h : Context.ofPairs? pairs = .ok c) :
    c.root.IsMade := by
  rw [Context.ofPairs?] at h
  cases hentries : Data.toEntries? pairs with
  | error e => rw [hentries] at h; cases h
  | ok bindings =>
    rw [hentries] at h
    cases h
    exact isMade_root_ofList bindings

theorem isMade_root_ofData {data : Data} {c : Context} (h : Context.ofData? data = .ok c) :
    c.root.IsMade := by
  unfold Context.ofData? at h
  split at h
  · exact isMade_root_ofPairs h
  · cases h

theorem isMade_root_build {b : Except DataError Builder} {c : Context}
    (h : b.map Builder.build = .ok c) : c.root.IsMade := by
  cases b with
  | error e => cases h
  | ok b =>
    cases h
    exact isMade_root_ofList b.bindings

theorem isMade_withNumber (h : d.store.IsMade) (slot : String) {f : Nat → Desk × Outcome}
    (hf : ∀ i, (f i).1.store.IsMade) : (d.withNumber slot f).1.store.IsMade := by
  unfold Desk.withNumber
  split
  · exact hf _
  · exact h

theorem isMade_child (h : d.store.IsMade) (slot : String) (pairs : Pairs) (i : Nat) :
    (d.child slot pairs i).1.store.IsMade := by
  rw [Desk.child]
  cases Data.toBindings? pairs with
  | error e => exact h
  | ok bindings => exact h.concat (isMade_root_ofList bindings)

theorem isMade_copy (h : d.store.IsMade) (slot : String) (i : Nat) :
    (d.place slot (d.store.copy (d.ref i))).store.IsMade := by
  refine h.append fun f hf => ?_
  rw [Store.frames_view, List.mem_map] at hf
  obtain ⟨k, -, rfl⟩ := hf
  exact h.frame k

theorem isMade_bind (h : d.store.IsMade) (name : String) (data : Data) (i : Nat) :
    (d.bind name data i).1.store.IsMade := by
  unfold Desk.bind Store.bind
  cases (d.ref i).opened with
  | nil => exact h
  | cons f outer =>
    simp only [List.isEmpty_cons, Bool.false_eq_true, if_false]
    cases data.toValue? with
    | error e => exact h
    | ok v => exact h.modify f name v

theorem isMade_push (h : d.store.IsMade) (i : Nat) : (d.push i).store.IsMade :=
  h.concat .empty

theorem isMade_pop (h : d.store.IsMade) {i : Nat} {e : Desk} (hpop : d.pop i = .ok e) :
    e.store.IsMade := by
  rw [Desk.pop] at hpop
  cases hr : (d.ref i).pop with
  | error err => rw [hr] at hpop; cases hpop
  | ok r =>
    rw [hr] at hpop
    cases hpop
    exact h

theorem isMade_leave (h : d.store.IsMade) (i : Nat) (inner : List Report)
    (gaveUp : Option String) : (d.leave i inner gaveUp).1.store.IsMade := by
  rw [Desk.leave]
  cases hpop : d.pop i with
  | error e => exact h
  | ok e => cases gaveUp <;> exact isMade_pop h hpop

mutual

/-- A step makes frames by binding only. -/
theorem isMade_perform {d : Desk} (h : d.store.IsMade) (step : Step) :
    (d.perform step).1.store.IsMade := by
  match step with
  | .create slot pairs =>
    rw [Desk.perform]
    exact isMade_create h slot fun _ => isMade_root_ofPairs
  | .fromData slot data =>
    rw [Desk.perform]
    exact isMade_create h slot fun _ => isMade_root_ofData
  | .build slot bindings =>
    rw [Desk.perform]
    exact isMade_create h slot fun _ => isMade_root_build
  | .child source slot pairs =>
    rw [Desk.perform]
    exact isMade_withNumber h source fun i => isMade_child h slot pairs i
  | .copy source slot =>
    rw [Desk.perform]
    exact isMade_withNumber h source fun i => isMade_copy h slot i
  | .embed source slot name =>
    rw [Desk.perform]
    refine isMade_withNumber h source fun i => isMade_create h slot ?_
    rintro _ ⟨rfl⟩
    exact isMade_root_ofList _
  | .bind slot name data =>
    rw [Desk.perform]
    exact isMade_withNumber h slot fun i => isMade_bind h name data i
  | .push slot =>
    rw [Desk.perform]
    exact isMade_withNumber h slot fun i => isMade_push h i
  | .pop slot =>
    rw [Desk.perform]
    refine isMade_withNumber h slot fun i => ?_
    cases hpop : d.pop i with
    | error e => exact h
    | ok e => exact isMade_pop h hpop
  | .lookup slot _ | .resolve slot _ | .isSet slot _ | .contains slot _ | .names slot
  | .asValue slot | .display slot =>
    rw [Desk.perform]
    exact isMade_withNumber h slot fun _ => h
  | .block slot steps =>
    rw [Desk.perform]
    cases d.number? slot with
    | none => exact h
    | some i => exact isMade_leave (isMade_performAll (isMade_push h i) steps) i _ _
  | .giveUp _ | .refused _ _ =>
    rw [Desk.perform]
    exact h

/-- Any steps make frames by binding only. -/
theorem isMade_performAll {d : Desk} (h : d.store.IsMade) (steps : List Step) :
    (d.performAll steps).1.store.IsMade := by
  match steps with
  | [] =>
    rw [Desk.performAll]
    exact h
  | step :: steps =>
    by_cases hgive : ∃ message, step = .giveUp message
    · obtain ⟨message, rfl⟩ := hgive
      rw [Desk.performAll]
      exact h
    · rw [performAll_cons d (not_exists.1 hgive)]
      exact isMade_performAll (isMade_perform h step) steps

end

/-- The contexts on the desk of a script have frames that are made by binding. -/
theorem isMade_of_runScript {script : List Step} {slot : String} {c : Context}
    (h : (runScript script).1.context? slot = some c) : c.IsMade := by
  have hmade : (runScript script).1.store.IsMade :=
    isMade_performAll (fun _ hf => by cases hf) script
  obtain ⟨i, -, rfl⟩ := Option.map_eq_some_iff.1 h
  intro f hf
  rw [Store.frames_view, List.mem_map] at hf
  obtain ⟨k, -, rfl⟩ := hf
  exact hmade.frame k

end Desk

/-! ## The map of what a context binds -/

variable {c outer : Context} {name : String}

theorem isMap_asValue (c : Context) : c.asValue.IsMap :=
  ⟨_, rfl⟩

/-- The visible names have no signs in front of them. -/
theorem IsMade.normalize_of_mem (h : c.IsMade) (hname : name ∈ c.names) :
    normalize name = name := by
  simp only [names, List.mem_eraseDups, List.mem_flatMap, List.mem_reverse] at hname
  obtain ⟨f, hf, hname⟩ := hname
  exact (h f hf).normalize_of_mem hname

/-- The entries of the map, with the names and their values in order. -/
theorem IsMade.entries (h : c.IsMade) :
    ∃ entries, c.asValue = .map entries ∧
      entries.map (fun e => (e.1, some e.2)) = c.names.map fun name => (name, c.lookup name) := by
  refine ⟨_, rfl, ?_⟩
  have hvalue (name : String) (hname : name ∈ c.names) : (c.lookup name).isSome := by
    rwa [lookup, ← mem_names_iff, h.normalize_of_mem hname]
  generalize c.names = names at hvalue
  induction names with
  | nil => rfl
  | cons name names ih =>
    obtain ⟨v, hv⟩ := Option.isSome_iff_exists.1 (hvalue name List.mem_cons_self)
    rw [List.filterMap_cons, hv, Option.map_some, List.map_cons, List.map_cons, hv,
      ih fun key hkey => hvalue key (List.mem_cons_of_mem name hkey)]

/-- The map has the visible names as its keys, and their values. -/
theorem get?_asValue_eq_ite (c : Context) (key : String) :
    c.asValue.get? key = if key ∈ c.names then c.lookup key else none := by
  rw [asValue, Value.get?]
  generalize c.names = names
  induction names with
  | nil => rfl
  | cons name names ih =>
    rw [List.filterMap_cons]
    cases hv : c.lookup name with
    | none =>
      by_cases hkey : key = name
      · subst hkey
        simpa [hv] using ih
      · simpa [hkey] using ih
    | some v =>
      rw [Option.map_some, Entries.lookup_cons_eq, ih]
      by_cases hkey : key = name
      · simp [hkey, hv]
      · simp [hkey]

/-- The map has under a key what the context binds to it. -/
theorem IsMade.get?_asValue (h : c.IsMade) (key : String) : c.asValue.get? key = c.find? key := by
  rw [get?_asValue_eq_ite]
  split
  · rename_i hkey
    rw [lookup, h.normalize_of_mem hkey]
  · rename_i hkey
    rw [mem_names_iff, Option.not_isSome_iff_eq_none] at hkey
    exact hkey.symm

/-- A path after a name is written as a path with one more key. -/
theorem spells_append (hname : Text.isName name.toList = true) {path head : String}
    {keys : List String} (hpath : path.toList.head? ≠ some '$') (h : Spells path head keys) :
    Spells (name ++ "." ++ path) name (head :: keys) := by
  have hdot := (Text.isName_iff.1 hname).2
  have hfirst : (name ++ "." ++ path).toList.head? ≠ some '$' := by
    have hhead := (normalize_eq_self_iff name).1 (normalize_of_isName hname)
    rw [String.toList_append, String.toList_append, List.append_assoc]
    cases hchars : name.toList with
    | nil => simp [hchars, Text.isName] at hname
    | cons c rest => simpa [hchars] using hhead
  refine ⟨?_, List.forall_mem_cons.2 ⟨hdot, h.2⟩⟩
  rw [Text.dotted_cons_cons, ← h.1, (normalize_eq_self_iff _).2 hpath,
    (normalize_eq_self_iff _).2 hfirst]

/-- A path into the map leads where it leads in the context, or to an error of the same type. -/
theorem IsMade.resolve_embedded (h : c.IsMade) (hname : Text.isName name.toList = true)
    (houter : outer.find? name = some c.asValue) {path : String}
    (hpath : path.toList.head? ≠ some '$') :
    (outer.resolve (name ++ "." ++ path)).mapError PathError.typeName =
      (c.resolve path).mapError PathError.typeName := by
  obtain ⟨head, keys, hspells⟩ := exists_spells path
  have hlonger := spells_append hname hpath hspells
  have hget := h.get?_asValue head
  rw [resolve_eq outer hlonger.pathSegments, resolve_eq c hspells.pathSegments, hlonger.lookup,
    hspells.lookup, houter, ← hget]
  dsimp only
  cases hhead : c.asValue.get? head with
  | none =>
    rw [Value.follow_cons_of_missing c.isMap_asValue hhead]
    rfl
  | some v =>
    rw [Value.follow_cons_of_get? hhead]
    exact v.follow_typeName _ _ keys

/-! ## Where the map stands -/

/-- A new context stays as it is when later steps are about contexts under other names. -/
theorem Desk.context?_placed {d : Desk} (h : d.IsSound) {slot : String} (root : Frame)
    {steps : List Step} (hsteps : ∀ step ∈ steps, step.concerns (· != slot) = true) :
    ((d.place slot (d.store.create root)).performAll steps).1.context? slot = some ⟨[], root⟩ := by
  have hle : d.store.frames.length ≤ (d.store.create root).1.frames.length := by
    simp [Store.create]
  have hsound := (h.place slot hle (Store.holds_create d.store root)).sound
  have hself := number?_place d slot (d.store.create root) slot
  rw [if_pos rfl] at hself
  have hspares : Spares (· == slot) .nothing d (d.place slot (d.store.create root)) :=
    spares_place .nothing d (by simp) (fun f hf => d.store.frame_append [root] hf) hle
  -- All other contexts have old numbers and old frames, and the new one has neither.
  have hmirrors : Mirrors (· != slot) (.before d) (d.place slot (d.store.create root)) d :=
    h.mirrors_before hspares fun key hkey => by simpa using hkey
  obtain ⟨-, m, hadvance⟩ := hmirrors.performAll steps (allConcern_of_forall hsteps)
  rw [hadvance.spares.context?_eq hsound (by simp) hself, context?_place, d.store.view_create]
  · rintro j ⟨-, hlt⟩
    exact Nat.lt_irrefl _ hlt
  · rw [ref_place_new]
    rintro f hf g ⟨-, hlt⟩
    simp only [Store.create, Store.Ref.frames, List.nil_append, List.mem_singleton] at hf
    exact Nat.lt_irrefl _ (hf ▸ hlt)

/-- A context is bound to a name in a new one, as the map that it is. -/
theorem Desk.perform_embed {d : Desk} {source : String} (h : d.context? source = some c)
    (slot name : String) :
    (d.perform (.embed source slot name)).1 =
      d.place slot (d.store.create (ofList [(name, c.asValue)]).root) := by
  obtain ⟨i, hi, hview⟩ := Option.map_eq_some_iff.1 h
  rw [Desk.perform, Desk.withNumber, hi, ← hview]
  rfl

/-- **A context as a value behaves like the context.**  For every context that can be made:

* The visible names are distinct and have no signs in front of them, and they are those that have a
  value.
* The context as a value is a map, which has the visible names as its keys, in order, and under each
  of them what the context binds to it.
* Bound to a name in a new context, it leads along every path to what the path leads to in the
  context, or to an error of the same type.  It goes on to do so, whatever is done next with the
  context itself or with others. -/
theorem embedded_context (script : List Step) (source : String) (c : Context)
    (hsource : (runScript script).1.context? source = some c) :
    (c.names.Nodup ∧ (∀ name ∈ c.names, name.toList.head? ≠ some '$') ∧
      ∀ name, (c.lookup name).isSome ↔ normalize name ∈ c.names) ∧
    (∃ entries, Value.ofEntries entries = .ok c.asValue ∧
      entries.map (fun e => (e.1, some e.2)) = c.names.map fun name => (name, c.lookup name)) ∧
    ∀ name slot later, Text.isName name.toList = true →
      (∀ step ∈ later, step.concerns (· != slot) = true) →
      ∃ outer, Context.ofPairs? [(.text name, .context c)] = .ok outer ∧
        (((runScript script).1.perform (.embed source slot name)).1.performAll later).1.context?
          slot = some outer ∧
        ∀ path, path.toList.head? ≠ some '$' →
          (outer.resolve (name ++ "." ++ path)).mapError PathError.typeName =
            (c.resolve path).mapError PathError.typeName := by
  have hmade := Desk.isMade_of_runScript hsource
  obtain ⟨entries, hmap, hentries⟩ := hmade.entries
  have hnodup : c.names.Nodup := Entries.nodup_eraseDups _
  have hkeys : entries.map Prod.fst = c.names := by
    have hfst := congrArg (List.map Prod.fst) hentries
    simpa [Function.comp_def] using hfst
  refine ⟨⟨hnodup, fun name hname => ?_, fun name => (c.mem_names_iff _).symm⟩,
    ⟨entries, ?_, hentries⟩, fun name slot later hname hlater => ?_⟩
  · exact (normalize_eq_self_iff name).1 (hmade.normalize_of_mem hname)
  · rw [Value.ofEntries, Value.ofEntries?, if_pos (hkeys ▸ hnodup), hmap]
  · have hbound : (ofList [(name, c.asValue)]).find? name = some c.asValue := by
      simp [ofList, normalize_of_isName hname, find?, frames, Frame.ofList, Frame.lookup,
        Entries.ofList, Entries.putAll, Entries.put]
    refine ⟨ofList [(name, c.asValue)], ?_, ?_, fun path => hmade.resolve_embedded hname hbound⟩
    · rw [ofPairs?, Data.toEntries?, Data.toValue?, Key.toText?]
      rfl
    · rw [Desk.perform_embed hsource]
      exact Desk.context?_placed (Desk.isSound_runScript script) _ hlater

/-- The open frame, in which `a` is bound again, is closed after the context was put under `ctx`,
and `b` is bound in another one; the map under `ctx` keeps what was bound before. -/
theorem embedded_context_later_frames :
    let script : List Step := [.create "c" [(.text "a", .text "1"),
      (.text "$b", .map [(.text "k", .text "2")])], .push "c", .bind "c" "$a" (.text "3")]
    let later : List Step := [.pop "c", .push "c", .bind "c" "b" (.int 4)]
    let c : Context :=
      ⟨[⟨[("a", .scalar "3")]⟩], ⟨[("a", .scalar "1"), ("b", .map [("k", .scalar "2")])]⟩⟩
    let outer : Context :=
      .ofList [("ctx", .map [("a", .scalar "3"), ("b", .map [("k", .scalar "2")])])]
    (runScript script).1.context? "c" = some c ∧ c.names = ["a", "b"] ∧
      (((runScript script).1.perform (.embed "c" "o" "ctx")).1.performAll later).1.context? "o" =
        some outer ∧
      (outer.resolve "ctx.b.k").mapError PathError.typeName = .ok (.scalar "2") ∧
      (outer.resolve "ctx.b.x").mapError PathError.typeName = .error "UndefinedVariableError" ∧
      (outer.resolve "ctx.a.k").mapError PathError.typeName = .error "TypeMismatchError" := by
  intro script later c outer
  have hsource : (runScript script).1.context? "c" = some c := rfl
  obtain ⟨-, -, hembedded⟩ := embedded_context script "c" c hsource
  obtain ⟨made, hmade, hplaced, hpaths⟩ := hembedded "ctx" "o" later (by decide) (by decide)
  have hpairs : Context.ofPairs? [(.text "ctx", .context c)] = .ok outer := rfl
  have houter : outer = made := Except.ok.inj (hpairs.symm.trans hmade)
  rw [← houter] at hplaced hpaths
  refine ⟨hsource, by decide, hplaced, ?_, ?_, ?_⟩
  · exact (hpaths "b.k" (by decide)).trans (by decide)
  · exact (hpaths "b.x" (by decide)).trans (by decide)
  · exact (hpaths "a.k" (by decide)).trans (by decide)

end Context

end MarkupForms

import MarkupForms.Context.Script
import Mathlib.Algebra.Order.BigOperators.Group.List
import Mathlib.Algebra.Order.Ring.Nat
import Mathlib.Data.List.Forall2

/-!
# What contexts that share frames do to each other

A context that is made over another one shares its frames, and what is bound in a shared frame is
seen by both.  Work on some contexts of a desk changes the frames of the others in one way only: by
the bindings that land in them.  A binding lands in the innermost frame of the context that it is
made on, wherever that frame came from.

* `Desk.IsSound.performAll` : on every desk the numbers of contexts and frames have a meaning.
* `Desk.ref_performAll` : work on some contexts moves no other one.
* `Desk.frame_performAll` : a frame afterwards is the frame before with what landed in it.
* `Desk.unchanged_iff_aims` : other contexts stay as they are, whatever is bound, exactly when no
  binding is aimed at one of their frames.
-/

namespace MarkupForms

/-! ## Frames in a store -/

namespace Store

variable {s t : Store} {r : Ref}

theorem Holds.mono (h : s.Holds r) (hle : s.frames.length ≤ t.frames.length) : t.Holds r :=
  ⟨Nat.lt_of_lt_of_le h.1 hle, fun i hi => Nat.lt_of_lt_of_le (h.2 i hi) hle⟩

theorem holds_create (s : Store) (root : Frame) : (s.create root).1.Holds (s.create root).2 := by
  refine ⟨?_, fun i hi => ?_⟩
  · simp [create]
  · simp [create] at hi

theorem Holds.extend (h : s.Holds r) (f : Frame) : (s.extend r f).1.Holds (s.extend r f).2 := by
  have hle : s.frames.length ≤ (s.extend r f).1.frames.length := by simp [Store.extend]
  refine ⟨(h.mono hle).1, fun i hi => ?_⟩
  rcases List.mem_cons.1 hi with rfl | hmem
  · simp [Store.extend]
  · exact (h.mono hle).2 i hmem

theorem holds_copy (s : Store) (r : Ref) : (s.copy r).1.Holds (s.copy r).2 := by
  have hlen : (s.copy r).1.frames.length = s.frames.length + (r.opened.length + 1) := by
    simp [copy, view, Context.frames]
  refine ⟨?_, fun i hi => ?_⟩
  · rw [hlen]
    simp only [copy]
    omega
  · simp only [copy, List.mem_map, List.mem_range] at hi
    obtain ⟨j, hj, rfl⟩ := hi
    omega

theorem Holds.pop (h : s.Holds r) {r' : Ref} (hpop : r.pop = .ok r') : s.Holds r' := by
  unfold Ref.pop at hpop
  split at hpop
  · cases hpop
  · cases hpop
    rename_i i outer hopened
    exact ⟨h.1, fun j hj => h.2 j (hopened ▸ List.mem_cons_of_mem i hj)⟩

/-- The numbers of the frames of a context. -/
def Ref.frames (r : Ref) : List Nat :=
  r.opened ++ [r.root]

theorem frames_view (s : Store) (r : Ref) : (s.view r).frames = r.frames.map s.frame := by
  simp [view, Context.frames, Ref.frames]

theorem Holds.lt (h : s.Holds r) {f : Nat} (hf : f ∈ r.frames) : f < s.frames.length := by
  rcases List.mem_append.1 hf with hf | hf
  · exact h.2 f hf
  · rw [List.mem_singleton.1 hf]
    exact h.1

/-- Changing one frame leaves the others alone. -/
theorem frame_modify (s : Store) (i : Nat) (g : Frame → Frame) {f : Nat}
    (hf : f < s.frames.length) :
    (Store.mk (s.frames.modify i g)).frame f = if i = f then g (s.frame f) else s.frame f := by
  simp only [frame, List.getElem?_modify, List.getElem?_eq_getElem hf, Option.map_eq_map,
    Option.map_some, Option.getD_some]

end Store

namespace Context.Desk

variable {d : Desk}

/-! ## Desks on which the numbers have a meaning -/

/-- Whether all frames of the contexts are there, and all contexts that have a name. -/
structure IsSound (d : Desk) : Prop where
  /-- The frames of the contexts are in the store. -/
  holds : ∀ r ∈ d.contexts, d.store.Holds r
  /-- The names stand for contexts. -/
  known : ∀ slot i, d.number? slot = some i → i < d.contexts.length

theorem isSound_empty : empty.IsSound :=
  ⟨fun r hr => by simp [empty] at hr, fun slot i hi => by simp [empty, number?] at hi⟩

theorem IsSound.ref (h : d.IsSound) {i : Nat} (hi : i < d.contexts.length) :
    d.store.Holds (d.ref i) := by
  apply h.holds
  rw [Desk.ref, List.getElem?_eq_getElem hi]
  exact List.getElem_mem hi

/-- A desk that came from another one: its numbers have a meaning, and nothing went away. -/
structure Follows (d e : Desk) : Prop where
  /-- The numbers have a meaning. -/
  sound : e.IsSound
  /-- No context went away. -/
  contexts : d.contexts.length ≤ e.contexts.length
  /-- No frame went away. -/
  frames : d.store.frames.length ≤ e.store.frames.length

theorem IsSound.stay (h : d.IsSound) : d.Follows d :=
  ⟨h, Nat.le_refl _, Nat.le_refl _⟩

/-- A new context has the next number. -/
theorem number?_place (d : Desk) (slot : String) (made : Store × Store.Ref) (name : String) :
    (d.place slot made).number? name =
      if name = slot then some d.contexts.length else d.number? name := by
  rw [number?, Desk.place, Entries.lookup_put]
  rfl

theorem IsSound.place (h : d.IsSound) (slot : String) {made : Store × Store.Ref}
    (hle : d.store.frames.length ≤ made.1.frames.length) (hr : made.1.Holds made.2) :
    d.Follows (d.place slot made) := by
  have hlen : (d.place slot made).contexts.length = d.contexts.length + 1 := by
    simp [Desk.place]
  refine ⟨⟨fun r hmem => ?_, fun name i hi => ?_⟩, by omega, hle⟩
  · rcases List.mem_append.1 hmem with hmem | hmem
    · exact (h.holds r hmem).mono hle
    · exact List.mem_singleton.1 hmem ▸ hr
  · rw [number?_place] at hi
    split at hi
    · cases hi
      omega
    · have hknown := h.known name i hi
      omega

theorem IsSound.move (h : d.IsSound) (i : Nat) {made : Store × Store.Ref}
    (hle : d.store.frames.length ≤ made.1.frames.length) (hr : made.1.Holds made.2) :
    d.Follows (d.move i made) := by
  have hlen : (d.move i made).contexts.length = d.contexts.length := List.length_set
  refine ⟨⟨fun r hmem => ?_, fun name j hj => ?_⟩, Nat.le_of_eq hlen.symm, hle⟩
  · rcases List.mem_or_eq_of_mem_set hmem with hmem | rfl
    · exact (h.holds r hmem).mono hle
    · exact hr
  · rw [hlen]
    exact h.known name j hj

theorem IsSound.create (h : d.IsSound) (slot : String) (made : Except DataError Context) :
    d.Follows (d.create slot made).1 := by
  unfold Desk.create
  split
  · refine h.place slot ?_ (Store.holds_create _ _)
    simp [Store.create]
  · exact h.stay

theorem IsSound.withNumber (h : d.IsSound) (slot : String) {f : Nat → Desk × Outcome}
    (hf : ∀ i < d.contexts.length, d.Follows (f i).1) : d.Follows (d.withNumber slot f).1 := by
  unfold Desk.withNumber
  split
  case h_1 i hi => exact hf i (h.known slot i hi)
  case h_2 => exact h.stay

theorem IsSound.child (h : d.IsSound) (slot : String) (pairs : Pairs) {i : Nat}
    (hi : i < d.contexts.length) : d.Follows (d.child slot pairs i).1 := by
  unfold Desk.child
  split
  · refine h.place slot ?_ ((h.ref hi).extend _)
    simp [Store.extend]
  · exact h.stay

theorem IsSound.bind (h : d.IsSound) (name : String) (data : Data) (i : Nat) :
    d.Follows (d.bind name data i).1 := by
  unfold Desk.bind Store.bind
  split
  · exact h.stay
  split
  · exact h.stay
  split
  · exact h.stay
  · rename_i store hstore
    split at hstore
    · cases hstore
    · cases hstore
      have hlen (g : Frame → Frame) (j : Nat) :
          d.store.frames.length = (d.store.frames.modify j g).length := by simp
      exact ⟨⟨fun r hr => (h.holds r hr).mono (Nat.le_of_eq (hlen _ _)), h.known⟩, Nat.le_refl _,
        Nat.le_of_eq (hlen _ _)⟩

theorem IsSound.push (h : d.IsSound) {i : Nat} (hi : i < d.contexts.length) :
    d.Follows (d.push i) := by
  refine h.move i ?_ ((h.ref hi).extend _)
  simp [Store.extend]

theorem IsSound.pop (h : d.IsSound) {i : Nat} (hi : i < d.contexts.length) {e : Desk}
    (hpop : d.pop i = .ok e) : d.Follows e := by
  unfold Desk.pop at hpop
  cases hr : (d.ref i).pop with
  | error err => rw [hr] at hpop; cases hpop
  | ok r =>
    rw [hr] at hpop
    cases hpop
    exact h.move i (Nat.le_refl _) ((h.ref hi).pop hr)

theorem IsSound.leave (h : d.IsSound) {i : Nat} (hi : i < d.contexts.length) (inner : List Report)
    (gaveUp : Option String) : d.Follows (d.leave i inner gaveUp).1 := by
  unfold Desk.leave
  split
  · exact h.stay
  · rename_i e hpop
    split <;> exact h.pop hi hpop

theorem IsSound.ask (h : d.IsSound) (slot : String) (f : Context → Outcome) :
    d.Follows (d.ask slot f).1 :=
  h.withNumber slot fun _ _ => h.stay

theorem Follows.trans {e f : Desk} (h : d.Follows e) (h' : e.Follows f) : d.Follows f :=
  ⟨h'.sound, Nat.le_trans h.contexts h'.contexts, Nat.le_trans h.frames h'.frames⟩

/-- A step that does not give up is followed by the others. -/
theorem performAll_cons (d : Desk) {step : Step} (h : ∀ message, step ≠ .giveUp message)
    (steps : List Step) :
    (d.performAll (step :: steps)).1 = ((d.perform step).1.performAll steps).1 := by
  rw [Desk.performAll]
  exact fun message => h message

/-- The reports of the others come after the report of a step that does not give up. -/
theorem reports_cons (d : Desk) {step : Step} (h : ∀ message, step ≠ .giveUp message)
    (steps : List Step) :
    (d.performAll (step :: steps)).2.1 =
      ((d.perform step).2, (d.perform step).1.look (subject step)) ::
        ((d.perform step).1.performAll steps).2.1 := by
  rw [Desk.performAll]
  exact fun message => h message

mutual

/-- A step leaves the numbers their meaning. -/
theorem IsSound.perform {d : Desk} (h : d.IsSound) (step : Step) :
    d.Follows (d.perform step).1 := by
  match step with
  | .create slot pairs | .fromData slot data | .build slot bindings =>
    rw [Desk.perform]
    exact h.create slot _
  | .child source slot pairs =>
    rw [Desk.perform]
    exact h.withNumber source fun i hi => h.child slot pairs hi
  | .copy source slot =>
    rw [Desk.perform]
    refine h.withNumber source fun i _ => h.place slot ?_ (Store.holds_copy _ _)
    simp [Store.copy]
  | .embed source slot name =>
    rw [Desk.perform]
    exact h.withNumber source fun i _ => h.create slot _
  | .bind slot name data =>
    rw [Desk.perform]
    exact h.withNumber slot fun i _ => h.bind name data i
  | .push slot =>
    rw [Desk.perform]
    exact h.withNumber slot fun i hi => h.push hi
  | .pop slot =>
    rw [Desk.perform]
    refine h.withNumber slot ?_
    intro i hi
    split
    case h_1 e hpop => exact h.pop hi hpop
    case h_2 => exact h.stay
  | .lookup slot _ | .resolve slot _ | .isSet slot _ | .contains slot _ | .names slot
  | .asValue slot | .display slot =>
    rw [Desk.perform]
    exact h.ask slot _
  | .block slot steps =>
    rw [Desk.perform]
    split
    · exact h.stay
    · rename_i i hi
      have hlt := h.known slot i hi
      have hpush := h.push hlt
      have hinner := hpush.trans (hpush.sound.performAll steps)
      exact hinner.trans (hinner.sound.leave (Nat.lt_of_lt_of_le hlt hinner.contexts) _ _)
  | .giveUp message =>
    rw [Desk.perform]
    exact h.stay
  | .refused _ reason =>
    rw [Desk.perform]
    exact h.stay

/-- Any steps leave the numbers their meaning. -/
theorem IsSound.performAll {d : Desk} (h : d.IsSound) (steps : List Step) :
    d.Follows (d.performAll steps).1 := by
  match steps with
  | [] =>
    rw [Desk.performAll]
    exact h.stay
  | step :: steps =>
    by_cases hgive : ∃ message, step = .giveUp message
    · obtain ⟨message, rfl⟩ := hgive
      rw [Desk.performAll]
      exact h.stay
    · rw [performAll_cons d (not_exists.1 hgive)]
      have hstep := h.perform step
      exact hstep.trans (hstep.sound.performAll steps)

end

theorem isSound_runScript (steps : List Step) : (runScript steps).1.IsSound :=
  (isSound_empty.performAll steps).sound

/-! ## Where bindings land -/

/-- The frame that a binding is aimed at: the innermost one of its context. -/
def aim? (d : Desk) : Step → Option Nat
  | .bind slot _ _ => (d.number? slot).bind fun i => (d.ref i).opened.head?
  | _ => none

/-- A binding in a frame. -/
structure Landing where
  /-- The number of the frame. -/
  frame : Nat
  /-- The name. -/
  name : String
  /-- The value. -/
  value : Value

/-- The binding that a step makes. -/
def landing? (d : Desk) (step : Step) : Option Landing :=
  match step, d.aim? step with
  | .bind _ name data, some f => data.toValue?.toOption.map fun v => ⟨f, normalize name, v⟩
  | _, _ => none

/-- The frames that the bindings of steps are aimed at. -/
def aims (d : Desk) : List Step → List Nat
  | [] => []
  | step :: steps => (d.aim? step).toList ++ aims (d.perform step).1 steps

/-- The bindings that steps make. -/
def landings (d : Desk) : List Step → List Landing
  | [] => []
  | step :: steps => (d.landing? step).toList ++ landings (d.perform step).1 steps

/-- What bindings make of the frame with a number. -/
def settle (ls : List Landing) (f : Nat) (g : Frame) : Frame :=
  (ls.filter fun l => l.frame == f).foldl (fun g l => g.bind l.name l.value) g

theorem settle_append (ls ms : List Landing) (f : Nat) (g : Frame) :
    settle (ls ++ ms) f g = settle ms f (settle ls f g) := by
  simp [settle]

/-- Bindings elsewhere do not count. -/
theorem settle_eq_self {ls : List Landing} {f : Nat} (h : ∀ l ∈ ls, l.frame ≠ f) (g : Frame) :
    settle ls f g = g := by
  have hnone : (ls.filter fun l => l.frame == f) = [] := by
    rw [List.filter_eq_nil_iff]
    intro l hl
    simpa using h l hl
  rw [settle, hnone, List.foldl_nil]

/-- A name that was bound stays bound. -/
theorem mem_names_settle {f : Nat} {name : String} (ls : List Landing) {g : Frame}
    (h : name ∈ g.names) : name ∈ (settle ls f g).names := by
  induction ls generalizing g with
  | nil => exact h
  | cons l ls ih =>
    rw [← List.singleton_append, settle_append]
    apply ih
    by_cases hf : l.frame = f
    · simp only [settle, hf, List.filter_cons, beq_self_eq_true, if_true, List.filter_nil,
        List.foldl_cons, List.foldl_nil, Frame.names_bind]
      split
      · exact h
      · exact List.mem_append_left _ h
    · rwa [settle_eq_self (by simpa using hf)]

/-- A name that lands in a frame is bound there. -/
theorem mem_names_settle_of_mem {f : Nat} {l : Landing} {ls : List Landing} (hl : l ∈ ls)
    (hf : l.frame = f) (g : Frame) : l.name ∈ (settle ls f g).names := by
  obtain ⟨us, vs, rfl⟩ := List.append_of_mem hl
  rw [settle_append, ← List.singleton_append, settle_append]
  apply mem_names_settle
  simp only [settle, hf, List.filter_cons, beq_self_eq_true, if_true, List.filter_nil,
    List.foldl_cons, List.foldl_nil, Frame.names_bind]
  split
  · assumption
  · simp

/-! ## Work on some contexts -/

/-- The name of the context that a step binds in, opens, closes or makes a child of. -/
def worksOn? : Step → Option String
  | .bind slot _ _ | .push slot | .pop slot => some slot
  | .child source _ _ => some source
  | _ => none

/-- Whether steps only bind, open and close frames and make children, and do so only on contexts
with certain numbers. -/
def Works (own : Nat → Prop) (d : Desk) : List Step → Prop
  | [] => True
  | step :: steps =>
      (∃ slot i, worksOn? step = some slot ∧ d.number? slot = some i ∧ own i) ∧
        Works own (d.perform step).1 steps

/-- What a step on a context does to a desk. -/
structure Effect (d e : Desk) (i : Nat) (landed : List Landing) : Prop where
  /-- The desk comes from the one before. -/
  follows : d.Follows e
  /-- Other contexts do not move. -/
  refs : ∀ k < d.contexts.length, k ≠ i → e.ref k = d.ref k
  /-- Frames change by what lands in them. -/
  frames : ∀ f < d.store.frames.length, e.store.frame f = settle landed f (d.store.frame f)

theorem Effect.stay (h : d.IsSound) (i : Nat) : Effect d d i [] :=
  ⟨h.stay, fun _ _ _ => rfl, fun _ _ => rfl⟩

theorem ref_place (d : Desk) (slot : String) (made : Store × Store.Ref) {k : Nat}
    (hk : k < d.contexts.length) : (d.place slot made).ref k = d.ref k := by
  rw [Desk.ref, Desk.ref, Desk.place, List.getElem?_append_left hk]

theorem ref_move (d : Desk) (made : Store × Store.Ref) {i k : Nat} (hk : k ≠ i) :
    (d.move i made).ref k = d.ref k := by
  rw [Desk.ref, Desk.ref, Desk.move, List.getElem?_set_ne hk.symm]

/-- A new context has the frames it was made with. -/
theorem ref_place_new (d : Desk) (slot : String) (made : Store × Store.Ref) :
    (d.place slot made).ref d.contexts.length = made.2 := by
  rw [Desk.ref, Desk.place, List.getElem?_concat_length, Option.getD_some]

/-- A new context is found under its name. -/
theorem context?_place (d : Desk) (slot : String) (made : Store × Store.Ref) :
    (d.place slot made).context? slot = some (made.1.view made.2) := by
  rw [context?, number?_place, if_pos rfl, Option.map_some, ref_place_new]
  rfl

/-- A context that moves has the frames it moved to. -/
theorem ref_move_self (d : Desk) (made : Store × Store.Ref) {i : Nat} (hi : i < d.contexts.length) :
    (d.move i made).ref i = made.2 := by
  rw [Desk.ref, Desk.move, List.getElem?_set_self hi, Option.getD_some]

theorem frame_extend (s : Store) (r : Store.Ref) (g : Frame) {f : Nat} (hf : f < s.frames.length) :
    (s.extend r g).1.frame f = s.frame f :=
  s.frame_append [g] hf

theorem effect_child (h : d.IsSound) (slot : String) (pairs : Pairs) {i : Nat}
    (hi : i < d.contexts.length) : Effect d (d.child slot pairs i).1 i [] := by
  refine ⟨h.child slot pairs hi, fun k hk _ => ?_, fun f hf => ?_⟩
  · unfold Desk.child
    split
    · exact ref_place d slot _ hk
    · rfl
  · unfold Desk.child
    split
    · exact frame_extend d.store (d.ref i) _ hf
    · rfl

theorem effect_push (h : d.IsSound) {i : Nat} (hi : i < d.contexts.length) :
    Effect d (d.push i) i [] :=
  ⟨h.push hi, fun _ _ hk => ref_move d _ hk,
    fun _ hf => frame_extend d.store (d.ref i) _ hf⟩

theorem effect_pop (h : d.IsSound) {i : Nat} (hi : i < d.contexts.length) {e : Desk}
    (hpop : d.pop i = .ok e) : Effect d e i [] := by
  have hfollows := h.pop hi hpop
  unfold Desk.pop at hpop
  cases hr : (d.ref i).pop with
  | error err => rw [hr] at hpop; cases hpop
  | ok r =>
    rw [hr] at hpop
    cases hpop
    exact ⟨hfollows, fun k _ hk => ref_move d _ hk, fun f _ => rfl⟩

theorem effect_bind (h : d.IsSound) {slot : String} (name : String) (data : Data) {i : Nat}
    (hslot : d.number? slot = some i) :
    Effect d (d.bind name data i).1 i (d.landing? (.bind slot name data)).toList := by
  have haim : d.aim? (.bind slot name data) = (d.ref i).opened.head? := by
    rw [aim?, hslot, Option.bind_some]
  have hfollows := h.bind name data i
  unfold Desk.bind Store.bind at hfollows ⊢
  cases hopened : (d.ref i).opened with
  | nil => simpa [landing?, haim, hopened] using Effect.stay h i
  | cons g outer =>
    cases hdata : data.toValue? with
    | error e => simpa [landing?, haim, hopened, hdata, Except.toOption] using Effect.stay h i
    | ok v =>
      simp only [landing?, haim, hopened, hdata, List.isEmpty_cons, Bool.false_eq_true, if_false,
        List.head?_cons, Except.toOption, Option.map_some, Option.toList_some] at hfollows ⊢
      refine ⟨hfollows, fun k _ _ => rfl, fun f hf => ?_⟩
      have hmodify := d.store.frame_modify g (fun f => f.bind (normalize name) v) hf
      rw [hmodify]
      by_cases hg : g = f <;> simp [settle, hg]

/-- What a step does that binds, opens, closes or makes a child. -/
theorem effect_perform (h : d.IsSound) {step : Step} {slot : String} {i : Nat}
    (hstep : worksOn? step = some slot) (hslot : d.number? slot = some i) :
    Effect d (d.perform step).1 i (d.landing? step).toList := by
  have hi := h.known slot i hslot
  cases step <;> cases hstep
  case bind name data =>
    rw [Desk.perform, Desk.withNumber, hslot]
    exact effect_bind h name data hslot
  case push =>
    rw [Desk.perform, Desk.withNumber, hslot]
    exact effect_push h hi
  case pop =>
    rw [Desk.perform, Desk.withNumber, hslot]
    dsimp only
    cases hpop : d.pop i with
    | ok e => exact effect_pop h hi hpop
    | error e => exact Effect.stay h i
  case child target pairs =>
    rw [Desk.perform, Desk.withNumber, hslot]
    exact effect_child h target pairs hi

variable {own : Nat → Prop} {steps : List Step}

theorem ne_giveUp {step : Step} {slot : String} (h : worksOn? step = some slot) (message : String) :
    step ≠ .giveUp message := by
  rintro rfl
  cases h

/-- Work on some contexts moves no other one. -/
theorem ref_performAll (h : d.IsSound) (hw : d.Works own steps) {k : Nat}
    (hk : k < d.contexts.length) (hown : ¬ own k) : (d.performAll steps).1.ref k = d.ref k := by
  induction steps generalizing d with
  | nil => rw [Desk.performAll]
  | cons step steps ih =>
    obtain ⟨⟨slot, i, hstep, hslot, hi⟩, hrest⟩ := hw
    have heffect := effect_perform h hstep hslot
    have hne : k ≠ i := fun heq => hown (heq ▸ hi)
    rw [performAll_cons d (ne_giveUp hstep)]
    rw [ih heffect.follows.sound hrest (Nat.lt_of_lt_of_le hk heffect.follows.contexts)]
    exact heffect.refs k hk hne

/-- A frame afterwards is the frame before with what landed in it. -/
theorem frame_performAll (h : d.IsSound) (hw : d.Works own steps) {f : Nat}
    (hf : f < d.store.frames.length) :
    (d.performAll steps).1.store.frame f = settle (d.landings steps) f (d.store.frame f) := by
  induction steps generalizing d with
  | nil =>
    rw [Desk.performAll]
    rfl
  | cons step steps ih =>
    obtain ⟨⟨slot, i, hstep, hslot, -⟩, hrest⟩ := hw
    have heffect := effect_perform h hstep hslot
    rw [performAll_cons d (ne_giveUp hstep), landings, settle_append, ← heffect.frames f hf]
    exact ih heffect.follows.sound hrest (Nat.lt_of_lt_of_le hf heffect.follows.frames)

/-- A context afterwards is the context before with what landed in its frames. -/
theorem view_performAll (h : d.IsSound) (hw : d.Works own steps) {k : Nat}
    (hk : k < d.contexts.length) (hown : ¬ own k) :
    let after := (d.performAll steps).1
    let settled := fun f => settle (d.landings steps) f (d.store.frame f)
    after.store.view (after.ref k) = ⟨(d.ref k).opened.map settled, settled (d.ref k).root⟩ := by
  have hholds := h.ref hk
  intro after settled
  rw [Store.view, ref_performAll h hw hk hown]
  rw [frame_performAll h hw hholds.1]
  have hopened : (d.ref k).opened.map after.store.frame = (d.ref k).opened.map settled :=
    List.map_congr_left fun f hf => frame_performAll h hw (hholds.2 f hf)
  rw [hopened]

/-! ## Whatever is bound -/

/-- Whether two steps are the same up to what they bind. -/
inductive Alike : Step → Step → Prop where
  /-- The same step. -/
  | same (step : Step) : Alike step step
  /-- Two bindings on the same context. -/
  | bind (slot name name' : String) (data data' : Data) :
      Alike (.bind slot name data) (.bind slot name' data')

/-- Two desks with the same contexts, whatever is bound in their frames. -/
structure SameShape (d e : Desk) : Prop where
  /-- The contexts are the same. -/
  contexts : d.contexts = e.contexts
  /-- The names are the same. -/
  slots : d.slots = e.slots
  /-- There are as many frames. -/
  frames : d.store.frames.length = e.store.frames.length

theorem Alike.worksOn? {step step' : Step} (h : Alike step step') :
    worksOn? step = worksOn? step' := by
  cases h <;> rfl

theorem SameShape.aim? {e : Desk} (h : d.SameShape e) {step step' : Step}
    (hstep : Alike step step') : d.aim? step = e.aim? step' := by
  have hnumber (slot : String) : d.number? slot = e.number? slot := by
    rw [number?, number?, h.slots]
  have href (i : Nat) : d.ref i = e.ref i := by rw [Desk.ref, Desk.ref, h.contexts]
  cases hstep with
  | bind slot => simp only [Desk.aim?, hnumber, href]
  | same step => cases step <;> simp only [Desk.aim?, hnumber, href]

/-- Binding changes no shape. -/
theorem sameShape_bind (d : Desk) (name : String) (data : Data) (i : Nat) :
    d.SameShape (d.bind name data i).1 := by
  unfold Desk.bind Store.bind
  split
  · exact ⟨rfl, rfl, rfl⟩
  split
  · exact ⟨rfl, rfl, rfl⟩
  split
  · exact ⟨rfl, rfl, rfl⟩
  · rename_i hstore
    split at hstore
    · cases hstore
    · cases hstore
      exact ⟨rfl, rfl, by simp⟩

theorem SameShape.symm {e : Desk} (h : d.SameShape e) : e.SameShape d :=
  ⟨h.contexts.symm, h.slots.symm, h.frames.symm⟩

theorem SameShape.trans {e f : Desk} (h : d.SameShape e) (h' : e.SameShape f) : d.SameShape f :=
  ⟨h.contexts.trans h'.contexts, h.slots.trans h'.slots, h.frames.trans h'.frames⟩

/-- Steps that are the same up to what they bind lead to the same contexts. -/
theorem SameShape.perform {e : Desk} (h : d.SameShape e) {step step' : Step} {slot : String}
    {i : Nat} (hstep : Desk.worksOn? step = some slot) (hslot : d.number? slot = some i)
    (halike : Alike step step') : (d.perform step).1.SameShape (e.perform step').1 := by
  have hnumber (slot : String) : e.number? slot = d.number? slot := by
    rw [number?, number?, h.slots]
  have href (i : Nat) : e.ref i = d.ref i := by rw [Desk.ref, Desk.ref, h.contexts]
  have hboth : ∀ name name' data data',
      (d.bind name data i).1.SameShape (e.bind name' data' i).1 := fun name name' data data' =>
    ((sameShape_bind d name data i).symm.trans h).trans (sameShape_bind e name' data' i)
  cases halike with
  | bind target name name' data data' =>
    cases hstep
    simp only [Desk.perform, Desk.withNumber, hnumber, hslot]
    exact hboth name name' data data'
  | same step =>
    cases step <;> cases hstep
    case same.bind.refl name data =>
      simp only [Desk.perform, Desk.withNumber, hnumber, hslot]
      exact hboth name name data data
    case same.push.refl =>
      simp only [Desk.perform, Desk.withNumber, hnumber, hslot, Desk.push, Desk.move, Store.extend,
        href]
      exact ⟨by simp [h.contexts, h.frames], h.slots, by simp [h.frames]⟩
    case same.pop.refl =>
      simp only [Desk.perform, Desk.withNumber, hnumber, hslot, Desk.pop, href]
      cases (d.ref i).pop with
      | error err => exact h
      | ok r => exact ⟨by simp [Except.map, Desk.move, h.contexts], h.slots, h.frames⟩
    case same.child.refl target pairs =>
      simp only [Desk.perform, Desk.withNumber, hnumber, hslot, Desk.child, href]
      cases Data.toBindings? pairs with
      | error err => exact h
      | ok c =>
        refine ⟨?_, ?_, ?_⟩
        · simp [Desk.place, Store.extend, h.contexts, h.frames]
        · simp [Desk.place, h.contexts, h.slots]
        · simp [Desk.place, Store.extend, h.frames]

/-- Steps that are the same up to what they bind are aimed at the same frames. -/
theorem SameShape.aims {e : Desk} (h : d.SameShape e) (hw : d.Works own steps) {steps' : List Step}
    (halike : List.Forall₂ Alike steps steps') :
    d.aims steps = e.aims steps' ∧ e.Works own steps' := by
  induction halike generalizing d e with
  | nil => exact ⟨rfl, trivial⟩
  | cons hstep _ ih =>
    obtain ⟨⟨slot, i, hslot, hi, hown⟩, hrest⟩ := hw
    have hnext := h.perform hslot hi hstep
    obtain ⟨haims, hworks⟩ := ih hnext hrest
    rw [Desk.aims, Desk.aims, h.aim? hstep, haims]
    refine ⟨rfl, ⟨slot, i, hstep.worksOn? ▸ hslot, ?_, hown⟩, hworks⟩
    rw [← hi, number?, number?, h.slots]

/-- Whether a context reads the same on two desks: its names, its depth and the values of names. -/
def Unchanged (d e : Desk) (k : Nat) : Prop :=
  let before := d.store.view (d.ref k)
  let after := e.store.view (e.ref k)
  after.names = before.names ∧ after.depth = before.depth ∧
    ∀ name, after.lookup name = before.lookup name

/-- A binding lands where it is aimed. -/
theorem mem_aims_of_mem_landings {l : Landing} (h : l ∈ d.landings steps) :
    l.frame ∈ d.aims steps := by
  induction steps generalizing d with
  | nil => cases h
  | cons step steps ih =>
    rw [landings, List.mem_append, Option.mem_toList] at h
    rw [aims, List.mem_append, Option.mem_toList]
    rcases h with h | h
    · left
      unfold landing? at h
      split at h
      · rename_i hf
        simp only [Option.map_eq_some_iff] at h
        obtain ⟨v, -, rfl⟩ := h
        exact hf
      · cases h
    · exact .inr (ih h)

/-- The same step, but binding a value under a given name. -/
def probe (name : String) (v : Value) : Step → Step
  | .bind slot _ _ => .bind slot name (.ready v)
  | step => step

theorem alike_probe (name : String) (v : Value) (step : Step) : Alike step (probe name v step) := by
  cases step
  case bind slot name' data => exact .bind slot name' name data (.ready v)
  all_goals exact .same _

/-- A value lands wherever it is aimed. -/
theorem mem_landings_of_mem_aims {name : String} {v : Value} {f : Nat}
    (h : f ∈ d.aims (steps.map (probe name v))) :
    ⟨f, normalize name, v⟩ ∈ d.landings (steps.map (probe name v)) := by
  induction steps generalizing d with
  | nil => cases h
  | cons step steps ih =>
    rw [List.map_cons, aims, List.mem_append, Option.mem_toList] at h
    rw [List.map_cons, landings, List.mem_append, Option.mem_toList]
    rcases h with h | h
    · left
      cases step <;> simp only [probe, aim?, reduceCtorEq] at h
      case bind slot _ _ => simp [probe, landing?, aim?, h, Except.toOption]
    · exact .inr (ih h)

/-- There is a name that is not in a list. -/
theorem exists_fresh (names : List String) : ∃ name, normalize name ∉ names := by
  obtain ⟨total, htotal⟩ : ∃ n, n = (names.map String.length).sum := ⟨_, rfl⟩
  refine ⟨String.ofList (List.replicate (total + 1) 'x'), ?_⟩
  have hname : normalize (String.ofList (List.replicate (total + 1) 'x')) =
      String.ofList (List.replicate (total + 1) 'x') := by
    simp [normalize, List.replicate_succ]
  rw [hname]
  intro hmem
  have hle := List.single_le_sum (fun n _ => Nat.zero_le n) _
    (List.mem_map_of_mem (f := String.length) hmem)
  rw [String.length_ofList, List.length_replicate] at hle
  omega

/-- Other contexts stay as they are, whatever is bound, exactly when no binding is aimed at one of
their frames. -/
theorem unchanged_iff_aims (h : d.IsSound) (hw : d.Works own steps) {k : Nat}
    (hk : k < d.contexts.length) (hown : ¬ own k) :
    (∀ steps', List.Forall₂ Alike steps steps' → d.Unchanged (d.performAll steps').1 k) ↔
      ∀ f ∈ d.aims steps, f ∉ (d.ref k).frames := by
  have hshape : d.SameShape d := ⟨rfl, rfl, rfl⟩
  constructor
  · intro hall f haim hf
    obtain ⟨name, hfresh⟩ := exists_fresh (d.store.view (d.ref k)).names
    have halike : List.Forall₂ Alike steps (steps.map (probe name (.scalar ""))) := by
      rw [List.forall₂_map_right_iff]
      exact List.forall₂_same.2 fun step _ => alike_probe name _ step
    obtain ⟨haims, hworks⟩ := hshape.aims hw halike
    rw [haims] at haim
    have hland := mem_landings_of_mem_aims haim
    apply hfresh
    rw [← (hall _ halike).1, Context.names, List.mem_eraseDups, List.mem_flatMap]
    refine ⟨_, ?_, mem_names_settle_of_mem hland rfl (d.store.frame f)⟩
    rw [List.mem_reverse, Store.frames_view, ref_performAll h hworks hk hown,
      ← frame_performAll h hworks ((h.ref hk).lt hf)]
    exact List.mem_map_of_mem hf
  · intro hnone steps' halike
    obtain ⟨haims, hworks⟩ := hshape.aims hw halike
    have hframe : ∀ f ∈ (d.ref k).frames,
        settle (d.landings steps') f (d.store.frame f) = d.store.frame f := by
      intro f hf
      apply settle_eq_self
      intro l hl hfl
      exact hnone l.frame (haims ▸ mem_aims_of_mem_landings hl) (hfl ▸ hf)
    have hview := view_performAll h hworks hk hown
    have hsame : (d.performAll steps').1.store.view ((d.performAll steps').1.ref k) =
        d.store.view (d.ref k) := by
      rw [hview, Store.view, Context.mk.injEq]
      exact ⟨List.map_congr_left fun f hf => hframe f (List.mem_append_left _ hf),
        hframe _ (List.mem_append_right _ (List.mem_singleton_self _))⟩
    simp only [Unchanged, hsame, implies_true, and_self]

end Context.Desk

end MarkupForms

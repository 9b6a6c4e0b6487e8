import MarkupForms.Proofs.Sharing

/-!
# Contexts that share no frames

A step of a script is about the contexts whose names it mentions.  When the contexts under some
names share no frames with the others, steps about them do the same whatever happens to the others:
they make contexts and frames with other numbers, but the contexts read the same.  So a desk is
followed next to another one on which the steps about other contexts are left out, and a matching
tells which numbers on the two desks stand for each other.

* `Step.concerns` : whether a step is only about contexts under certain names.
* `Desk.Mirrors` : whether contexts under certain names read the same on two desks.
* `Desk.Mirrors.perform`, `Desk.Mirrors.performAll` : steps about these contexts have the same
  outcomes on both desks, and the contexts go on to read the same.
* `Desk.Advance` : what such steps do not touch.
* `Desk.Mirrors.spared` : steps about other contexts leave the contexts as they are.
* `Desk.reportsOf_performAll` : leaving out the steps about other contexts changes no answer.
-/

namespace MarkupForms.Context

/-! ## What steps are about -/

mutual

/-- Whether a step is only about contexts under certain names. -/
def Step.concerns (own : String → Bool) : Step → Bool
  | .child source slot _ | .copy source slot | .embed source slot _ => own source && own slot
  | .block slot steps => own slot && Step.allConcern own steps
  | .giveUp _ => false
  | .create slot _ | .fromData slot _ | .build slot _ | .bind slot _ _ | .push slot | .pop slot
  | .lookup slot _ | .resolve slot _ | .isSet slot _ | .contains slot _ | .names slot
  | .asValue slot | .display slot | .refused slot _ => own slot

/-- Whether the steps of a block are only about contexts under certain names. -/
def Step.allConcern (own : String → Bool) : List Step → Bool
  | [] => true
  | .giveUp _ :: steps => Step.allConcern own steps
  | step :: steps => step.concerns own && Step.allConcern own steps

end

namespace Desk

variable {own : String → Bool} {d e : Desk}

/-- A step is about the context that it reports on. -/
theorem own_subject {step : Step} (h : step.concerns own = true) : own (subject step) = true := by
  cases step <;> simp_all [Step.concerns, subject]

theorem ne_giveUp_of_concerns {step : Step} (h : step.concerns own = true) (message : String) :
    step ≠ .giveUp message := by
  rintro rfl
  simp [Step.concerns] at h

/-! ## Matchings -/

/-- Which numbers of contexts and of frames on two desks stand for each other. -/
structure Matching where
  /-- The numbers of contexts. -/
  contexts : Nat → Nat → Prop
  /-- The numbers of frames. -/
  frames : Nat → Nat → Prop

namespace Matching

variable (m : Matching) (d e : Desk)

/-- Whether two references have frames that stand for each other. -/
def Refs (r r' : Store.Ref) : Prop :=
  List.Forall₂ m.frames r.opened r'.opened ∧ m.frames r.root r'.root

/-- Some more frames stand for each other, those that come next on both desks. -/
def withFrames (count : Nat) : Matching :=
  { m with frames := fun f g => m.frames f g ∨
      ∃ k < count, f = d.store.frames.length + k ∧ g = e.store.frames.length + k }

/-- One more context stands for another one, those that come next on both desks. -/
def withContext : Matching :=
  { m with contexts := fun i j => m.contexts i j ∨ (i = d.contexts.length ∧ j = e.contexts.length) }

/-- No number stands for any other one. -/
def nothing : Matching :=
  ⟨fun _ _ => False, fun _ _ => False⟩

/-- Certain numbers stand for themselves. -/
def only (isContext isFrame : Nat → Prop) : Matching :=
  ⟨fun i j => i = j ∧ isContext i, fun f g => f = g ∧ isFrame f⟩

/-- What is on a desk stands for itself. -/
def before : Matching :=
  .only (· < d.contexts.length) (· < d.store.frames.length)

/-- What is on the second desk and not yet on the first one stands for itself. -/
def since : Matching :=
  .only (fun i => d.contexts.length ≤ i ∧ i < e.contexts.length) fun f =>
    d.store.frames.length ≤ f ∧ f < e.store.frames.length

end Matching

/-- Whether contexts under certain names read the same on two desks, with numbers that a matching
relates one to one. -/
structure Mirrors (own : String → Bool) (m : Matching) (d e : Desk) : Prop where
  /-- The names stand for matching contexts, or for none on both desks. -/
  slots : ∀ slot, own slot = true → Option.Rel m.contexts (d.number? slot) (e.number? slot)
  /-- Matching contexts have matching frames. -/
  refs : ∀ i j, m.contexts i j → m.Refs (d.ref i) (e.ref j)
  /-- Matching frames bind the same. -/
  frames : ∀ f g, m.frames f g → d.store.frame f = e.store.frame g
  /-- Matching contexts are on the desks. -/
  contexts_lt : ∀ i j, m.contexts i j → i < d.contexts.length ∧ j < e.contexts.length
  /-- Matching frames are in the stores. -/
  frames_lt : ∀ f g, m.frames f g → f < d.store.frames.length ∧ g < e.store.frames.length
  /-- No context matches two others. -/
  contexts_iff : ∀ i j i' j', m.contexts i j → m.contexts i' j' → (i = i' ↔ j = j')
  /-- No frame matches two others. -/
  frames_iff : ∀ f g f' g', m.frames f g → m.frames f' g' → (f = f' ↔ g = g')

/-- What steps about contexts with matching numbers do to a desk: the others stay as they are. -/
structure Spares (own : String → Bool) (m : Matching) (d d' : Desk) : Prop where
  /-- Other names stand for the same contexts. -/
  slots : ∀ slot, own slot = false → d'.number? slot = d.number? slot
  /-- Other contexts do not move. -/
  refs : ∀ k < d.contexts.length, (∀ j, ¬ m.contexts k j) → d'.ref k = d.ref k
  /-- Other frames stay. -/
  frames : ∀ f < d.store.frames.length, (∀ g, ¬ m.frames f g) → d'.store.frame f = d.store.frame f
  /-- No context goes away. -/
  contexts_le : d.contexts.length ≤ d'.contexts.length
  /-- No frame goes away. -/
  frames_le : d.store.frames.length ≤ d'.store.frames.length

/-- Two desks that read the same, and read the same again after something was done on both. -/
structure Advance (own : String → Bool) (m m' : Matching) (d e d' e' : Desk) : Prop where
  /-- They read the same afterwards. -/
  mirrors : Mirrors own m' d' e'
  /-- Contexts that matched still do. -/
  contexts : ∀ i j, m.contexts i j → m'.contexts i j
  /-- Only new contexts match that did not before. -/
  newContexts : ∀ i j, m'.contexts i j → m.contexts i j ∨ d.contexts.length ≤ i
  /-- Only new frames match that did not before. -/
  newFrames : ∀ f g, m'.frames f g → m.frames f g ∨ d.store.frames.length ≤ f
  /-- Nothing else was changed. -/
  spares : Spares own m d d'

variable {m m' m'' : Matching} {d' e' d'' e'' : Desk}

theorem Mirrors.stay (h : Mirrors own m d e) : Advance own m m d e d e :=
  ⟨h, fun _ _ h => h, fun _ _ => .inl, fun _ _ => .inl,
    ⟨fun _ _ => rfl, fun _ _ _ => rfl, fun _ _ _ => rfl, Nat.le_refl _, Nat.le_refl _⟩⟩

theorem Advance.trans (h : Advance own m m' d e d' e') (h' : Advance own m' m'' d' e' d'' e'') :
    Advance own m m'' d e d'' e'' := by
  have hcontexts := h.spares.contexts_le
  have hframes := h.spares.frames_le
  refine ⟨h'.mirrors, fun i j hij => h'.contexts i j (h.contexts i j hij), fun i j hij => ?_,
    fun f g hfg => ?_, ⟨fun slot hslot => ?_, fun k hk hnone => ?_, fun f hf hnone => ?_,
      Nat.le_trans hcontexts h'.spares.contexts_le, Nat.le_trans hframes h'.spares.frames_le⟩⟩
  · rcases h'.newContexts i j hij with hij | hle
    · exact h.newContexts i j hij
    · exact .inr (Nat.le_trans hcontexts hle)
  · rcases h'.newFrames f g hfg with hfg | hle
    · exact h.newFrames f g hfg
    · exact .inr (Nat.le_trans hframes hle)
  · rw [h'.spares.slots slot hslot, h.spares.slots slot hslot]
  · rw [h'.spares.refs k (by omega) fun j hj => ?_, h.spares.refs k hk hnone]
    rcases h.newContexts k j hj with hj | hle
    · exact hnone j hj
    · omega
  · rw [h'.spares.frames f (by omega) fun g hg => ?_, h.spares.frames f hf hnone]
    rcases h.newFrames f g hg with hg | hle
    · exact hnone g hg
    · omega

/-- A name stands for matching contexts, or for none on both desks. -/
theorem Mirrors.number?_eq (h : Mirrors own m d e) {slot : String} (hslot : own slot = true) :
    (d.number? slot = none ∧ e.number? slot = none) ∨
      ∃ i j, m.contexts i j ∧ d.number? slot = some i ∧ e.number? slot = some j := by
  have hrel := h.slots slot hslot
  generalize d.number? slot = x, e.number? slot = y at hrel
  cases hrel with
  | none => exact .inl ⟨rfl, rfl⟩
  | some hij => exact .inr ⟨_, _, hij, rfl, rfl⟩

/-- Matching contexts read the same. -/
theorem Mirrors.view_eq (h : Mirrors own m d e) {r r' : Store.Ref} (hr : m.Refs r r') :
    d.store.view r = e.store.view r' := by
  have hopened : r.opened.map d.store.frame = r'.opened.map e.store.frame := by
    rw [← List.forall₂_eq_eq_eq, List.forall₂_map_left_iff, List.forall₂_map_right_iff]
    exact hr.1.imp fun f g hfg => h.frames f g hfg
  rw [Store.view, Store.view, hopened, h.frames _ _ hr.2]

/-- What is asked of the context under a name is answered the same. -/
theorem Mirrors.look_eq (h : Mirrors own m d e) {slot : String} (hslot : own slot = true) :
    d.look slot = e.look slot := by
  rw [look, look, context?, context?]
  rcases h.number?_eq hslot with ⟨hd, he⟩ | ⟨i, j, hij, hd, he⟩
  · rw [hd, he]
    rfl
  · simp only [hd, he, Option.map_some, h.view_eq (h.refs i j hij)]

/-- A context whose number and frames match nothing stays as it is. -/
theorem Spares.context?_eq (h : Spares own m d d') (hd : d.IsSound) {slot : String}
    (hslot : own slot = false) {i : Nat} (hi : d.number? slot = some i)
    (hcontext : ∀ j, ¬ m.contexts i j) (hframes : ∀ f ∈ (d.ref i).frames, ∀ g, ¬ m.frames f g) :
    d'.context? slot = d.context? slot := by
  have hlt := hd.known slot i hi
  have hframe (f : Nat) (hf : f ∈ (d.ref i).frames) : d'.store.frame f = d.store.frame f :=
    h.frames f ((hd.ref hlt).lt hf) (hframes f hf)
  have hopened : (d.ref i).opened.map d'.store.frame = (d.ref i).opened.map d.store.frame :=
    List.map_congr_left fun f hf => hframe f (List.mem_append_left _ hf)
  have hroot := hframe (d.ref i).root (List.mem_append_right _ (List.mem_singleton_self _))
  rw [context?, context?, h.slots slot hslot, hi, Option.map_some, Option.map_some,
    h.refs i hlt hcontext, Store.view, Store.view, hopened, hroot]

/-- A new context comes next to what is there. -/
theorem spares_place (m : Matching) (d : Desk) {slot : String} (hslot : own slot = true)
    {made : Store × Store.Ref}
    (hframes : ∀ f < d.store.frames.length, made.1.frame f = d.store.frame f)
    (hle : d.store.frames.length ≤ made.1.frames.length) :
    Spares own m d (d.place slot made) := by
  refine ⟨fun name hname => ?_, fun k hk _ => ref_place d slot _ hk, fun f hf _ => hframes f hf, ?_,
    hle⟩
  · rw [number?_place, if_neg]
    rintro rfl
    rw [hslot] at hname
    cases hname
  · simp [Desk.place]

/-! ## What is done to two desks at once -/

/-- A desk with more frames. -/
def grow (d : Desk) (fs : List Frame) : Desk :=
  { d with store := ⟨d.store.frames ++ fs⟩ }

/-- Frames come up in both stores. -/
theorem Mirrors.grow (h : Mirrors own m d e) (fs : List Frame) :
    Advance own m (m.withFrames d e fs.length) d e (d.grow fs) (e.grow fs) := by
  have hlen (d : Desk) : (d.grow fs).store.frames.length = d.store.frames.length + fs.length := by
    simp [Desk.grow]
  have hold (d : Desk) {f : Nat} (hf : f < d.store.frames.length) :
      (d.grow fs).store.frame f = d.store.frame f := d.store.frame_append fs hf
  have hnew (d : Desk) (k : Nat) :
      (d.grow fs).store.frame (d.store.frames.length + k) = fs[k]?.getD .empty := by
    rw [Store.frame, Desk.grow, List.getElem?_append_right (Nat.le_add_right _ _),
      Nat.add_sub_cancel_left]
  refine ⟨⟨h.slots, fun i j hij => ?_, ?_, h.contexts_lt, ?_, h.contexts_iff, ?_⟩, fun _ _ h => h,
    fun _ _ => .inl, ?_, ⟨fun _ _ => rfl, fun _ _ _ => rfl, fun f hf _ => hold d hf, Nat.le_refl _,
      by rw [hlen]; omega⟩⟩
  · obtain ⟨hopened, hroot⟩ := h.refs i j hij
    exact ⟨hopened.imp fun _ _ => .inl, .inl hroot⟩
  · rintro f g (hfg | ⟨k, -, rfl, rfl⟩)
    · obtain ⟨hf, hg⟩ := h.frames_lt f g hfg
      rw [hold d hf, hold e hg, h.frames f g hfg]
    · rw [hnew, hnew]
  · rintro f g (hfg | ⟨k, hk, rfl, rfl⟩)
    · have hlt := h.frames_lt f g hfg
      rw [hlen, hlen]
      omega
    · rw [hlen, hlen]
      omega
  · rintro f g f' g' (hfg | ⟨k, -, rfl, rfl⟩) (hfg' | ⟨k', -, rfl, rfl⟩)
    · exact h.frames_iff f g f' g' hfg hfg'
    · have hlt := h.frames_lt f g hfg
      omega
    · have hlt := h.frames_lt f' g' hfg'
      omega
    · omega
  · rintro f g (hfg | ⟨k, -, rfl, -⟩)
    · exact .inl hfg
    · exact .inr (Nat.le_add_right _ _)

/-- A context with matching frames is put under a name. -/
theorem Mirrors.place (h : Mirrors own m d e) {slot : String} (hslot : own slot = true)
    {r r' : Store.Ref} (hr : m.Refs r r') :
    Advance own m (m.withContext d e) d e (d.place slot (d.store, r))
      (e.place slot (e.store, r')) := by
  have hlen (d : Desk) (r : Store.Ref) :
      (d.place slot (d.store, r)).contexts.length = d.contexts.length + 1 := by simp [Desk.place]
  refine ⟨⟨fun name hname => ?_, ?_, h.frames, ?_, h.frames_lt, ?_, h.frames_iff⟩,
    fun _ _ => .inl, ?_, fun _ _ => .inl, spares_place m d hslot (fun _ _ => rfl) (Nat.le_refl _)⟩
  · rw [number?_place, number?_place]
    by_cases heq : name = slot
    · rw [if_pos heq, if_pos heq]
      exact .some (.inr ⟨rfl, rfl⟩)
    · rw [if_neg heq, if_neg heq]
      rcases h.number?_eq hname with ⟨hd, he⟩ | ⟨i, j, hij, hd, he⟩
      · rw [hd, he]
        exact .none
      · rw [hd, he]
        exact .some (.inl hij)
  · rintro i j (hij | ⟨rfl, rfl⟩)
    · obtain ⟨hi, hj⟩ := h.contexts_lt i j hij
      rw [ref_place d slot _ hi, ref_place e slot _ hj]
      exact h.refs i j hij
    · rw [ref_place_new, ref_place_new]
      exact hr
  · rintro i j (hij | ⟨rfl, rfl⟩)
    · have hlt := h.contexts_lt i j hij
      rw [hlen, hlen]
      omega
    · rw [hlen, hlen]
      omega
  · rintro i j i' j' (hij | ⟨rfl, rfl⟩) (hij' | ⟨rfl, rfl⟩)
    · exact h.contexts_iff i j i' j' hij hij'
    · have hlt := h.contexts_lt i j hij
      omega
    · have hlt := h.contexts_lt i' j' hij'
      omega
    · simp
  · rintro i j (hij | ⟨rfl, -⟩)
    · exact .inl hij
    · exact .inr (Nat.le_refl _)

/-- Matching contexts move to matching frames. -/
theorem Mirrors.move (h : Mirrors own m d e) {i j : Nat} (hij : m.contexts i j)
    {r r' : Store.Ref} (hr : m.Refs r r') :
    Advance own m m d e (d.move i (d.store, r)) (e.move j (e.store, r')) := by
  have hlen (d : Desk) (i : Nat) (r : Store.Ref) :
      (d.move i (d.store, r)).contexts.length = d.contexts.length := List.length_set
  obtain ⟨hi, hj⟩ := h.contexts_lt i j hij
  refine ⟨⟨h.slots, fun k l hkl => ?_, h.frames, fun k l hkl => ?_, h.frames_lt, h.contexts_iff,
    h.frames_iff⟩, fun _ _ h => h, fun _ _ => .inl, fun _ _ => .inl, ⟨fun _ _ => rfl,
      fun k hk hnone => ref_move d _ ?_, fun _ _ _ => rfl, Nat.le_of_eq (hlen d i r).symm,
      Nat.le_refl _⟩⟩
  · have hiff := h.contexts_iff k l i j hkl hij
    by_cases hk : k = i
    · rw [hk, hiff.1 hk, ref_move_self d _ hi, ref_move_self e _ hj]
      exact hr
    · rw [ref_move d _ hk, ref_move e _ (mt hiff.2 hk)]
      exact h.refs k l hkl
  · rw [hlen, hlen]
    exact h.contexts_lt k l hkl
  · rintro rfl
    exact hnone j hij

/-- Matching frames are changed in the same way. -/
theorem Mirrors.modify (h : Mirrors own m d e) {f g : Nat} (hfg : m.frames f g)
    (change : Frame → Frame) :
    Advance own m m d e { d with store := ⟨d.store.frames.modify f change⟩ }
      { e with store := ⟨e.store.frames.modify g change⟩ } := by
  have hlen (s : Store) (f : Nat) : (s.frames.modify f change).length = s.frames.length := by simp
  refine ⟨⟨h.slots, h.refs, fun k l hkl => ?_, h.contexts_lt, fun k l hkl => ?_, h.contexts_iff,
    h.frames_iff⟩, fun _ _ h => h, fun _ _ => .inl, fun _ _ => .inl, ⟨fun _ _ => rfl,
      fun _ _ _ => rfl, fun k hk hnone => ?_, Nat.le_refl _, Nat.le_of_eq (hlen d.store f).symm⟩⟩
  · obtain ⟨hk, hl⟩ := h.frames_lt k l hkl
    rw [d.store.frame_modify f change hk, e.store.frame_modify g change hl, h.frames k l hkl]
    simp only [h.frames_iff f g k l hfg hkl]
  · rw [hlen, hlen]
    exact h.frames_lt k l hkl
  · rw [d.store.frame_modify f change hk, if_neg]
    rintro rfl
    exact hnone g hfg

/-! ## Steps on two desks at once -/

/-- Whether something has the same outcome on two desks, which go on to read the same. -/
def Together (own : String → Bool) (m : Matching) (d e : Desk) (p q : Desk × Outcome) : Prop :=
  p.2 = q.2 ∧ ∃ m', Advance own m m' d e p.1 q.1

variable {slot : String}

theorem Mirrors.answer (h : Mirrors own m d e) (o : Outcome) : Together own m d e (d, o) (e, o) :=
  ⟨rfl, m, h.stay⟩

theorem Mirrors.withNumber (h : Mirrors own m d e) (hslot : own slot = true)
    {f g : Nat → Desk × Outcome}
    (hfg : ∀ i j, m.contexts i j → Together own m d e (f i) (g j)) :
    Together own m d e (d.withNumber slot f) (e.withNumber slot g) := by
  rw [Desk.withNumber, Desk.withNumber]
  rcases h.number?_eq hslot with ⟨hd, he⟩ | ⟨i, j, hij, hd, he⟩
  · rw [hd, he]
    exact h.answer _
  · rw [hd, he]
    exact hfg i j hij

theorem Mirrors.ask (h : Mirrors own m d e) (hslot : own slot = true) (f : Context → Outcome) :
    Together own m d e (d.ask slot f) (e.ask slot f) := by
  refine h.withNumber hslot fun i j hij => ?_
  rw [h.view_eq (h.refs i j hij)]
  exact h.answer _

/-- The next frame on one desk stands for the next frame on the other one. -/
theorem Matching.frames_next (m : Matching) (d e : Desk) {count k : Nat} (hk : k < count) :
    (m.withFrames d e count).frames (d.store.frames.length + k) (e.store.frames.length + k) :=
  .inr ⟨k, hk, rfl, rfl⟩

/-- The frames of matching contexts with one more on both desks. -/
theorem Mirrors.refs_extend (h : Mirrors own m d e) {i j : Nat} (hij : m.contexts i j) (f : Frame) :
    (m.withFrames d e 1).Refs (d.store.extend (d.ref i) f).2 (e.store.extend (e.ref j) f).2 := by
  obtain ⟨hopened, hroot⟩ := h.refs i j hij
  exact ⟨.cons (m.frames_next d e Nat.zero_lt_one) (hopened.imp fun _ _ => .inl), .inl hroot⟩

/-- A new context is put under a name, with frames that are new or match. -/
theorem Mirrors.placeWith (h : Mirrors own m d e) (hslot : own slot = true) (fs : List Frame)
    {r r' : Store.Ref} (hr : (m.withFrames d e fs.length).Refs r r') (o : Outcome) :
    Together own m d e (d.place slot (⟨d.store.frames ++ fs⟩, r), o)
      (e.place slot (⟨e.store.frames ++ fs⟩, r'), o) := by
  have hgrow := h.grow fs
  exact ⟨rfl, _, hgrow.trans (hgrow.mirrors.place hslot hr)⟩

theorem Mirrors.create (h : Mirrors own m d e) (hslot : own slot = true)
    (made : Except DataError Context) :
    Together own m d e (d.create slot made) (e.create slot made) := by
  cases made with
  | error err => exact h.answer _
  | ok c => exact h.placeWith hslot [c.root] ⟨.nil, m.frames_next d e Nat.zero_lt_one⟩ _

theorem Mirrors.child (h : Mirrors own m d e) (hslot : own slot = true) (pairs : Pairs) {i j : Nat}
    (hij : m.contexts i j) : Together own m d e (d.child slot pairs i) (e.child slot pairs j) := by
  rw [Desk.child, Desk.child]
  cases Data.toBindings? pairs with
  | error err => exact h.answer _
  | ok bindings =>
    exact h.placeWith hslot [(ofList bindings).root] (h.refs_extend hij (ofList bindings).root) _

theorem Mirrors.copy (h : Mirrors own m d e) (hslot : own slot = true) {i j : Nat}
    (hij : m.contexts i j) :
    Together own m d e (d.place slot (d.store.copy (d.ref i)), .done)
      (e.place slot (e.store.copy (e.ref j)), .done) := by
  have hrefs := h.refs i j hij
  have hlength := hrefs.1.length_eq
  have hframes : (d.store.view (d.ref i)).frames.length = (d.ref i).opened.length + 1 := by
    simp [Store.view, Context.frames]
  rw [Store.copy, Store.copy, ← h.view_eq hrefs, ← hlength]
  refine h.placeWith hslot _ ⟨?_, m.frames_next d e (by omega)⟩ _
  rw [List.forall₂_map_left_iff, List.forall₂_map_right_iff]
  refine List.forall₂_same.2 fun k hk => m.frames_next d e ?_
  rw [List.mem_range] at hk
  omega

theorem Mirrors.push (h : Mirrors own m d e) {i j : Nat} (hij : m.contexts i j) :
    ∃ m', Advance own m m' d e (d.push i) (e.push j) := by
  have hgrow := h.grow [.empty]
  exact ⟨_, hgrow.trans (hgrow.mirrors.move hij (h.refs_extend hij .empty))⟩

/-- Closing a frame is refused on both desks or on none. -/
theorem Mirrors.pop (h : Mirrors own m d e) {i j : Nat} (hij : m.contexts i j) :
    (∃ err, d.pop i = .error err ∧ e.pop j = .error err) ∨
      ∃ d' e' m', d.pop i = .ok d' ∧ e.pop j = .ok e' ∧ Advance own m m' d e d' e' := by
  obtain ⟨hopened, hroot⟩ := h.refs i j hij
  rw [Desk.pop, Desk.pop, Store.Ref.pop, Store.Ref.pop]
  generalize (d.ref i).opened = fs, (e.ref j).opened = gs at hopened
  cases hopened with
  | nil => exact .inl ⟨_, rfl, rfl⟩
  | cons _ hrest => exact .inr ⟨_, _, m, rfl, rfl, h.move hij ⟨hrest, hroot⟩⟩

theorem Mirrors.bind (h : Mirrors own m d e) (name : String) (data : Data) {i j : Nat}
    (hij : m.contexts i j) : Together own m d e (d.bind name data i) (e.bind name data j) := by
  obtain ⟨hopened, -⟩ := h.refs i j hij
  unfold Desk.bind Store.bind
  generalize (d.ref i).opened = fs, (e.ref j).opened = gs at hopened
  cases hopened with
  | nil => exact h.answer _
  | cons hfg _ =>
    simp only [List.isEmpty_cons, Bool.false_eq_true, if_false]
    cases data.toValue? with
    | error err => exact h.answer _
    | ok v => exact ⟨rfl, m, h.modify hfg _⟩

/-- The frame of a block is closed on both desks. -/
theorem Mirrors.leave (h : Mirrors own m d e) {i j : Nat} (hij : m.contexts i j)
    {p q : List Report × Option String} (hpq : p = q) :
    Together own m d e (d.leave i p.1 p.2) (e.leave j q.1 q.2) := by
  obtain ⟨inner, gaveUp⟩ := p
  rw [← hpq, Desk.leave, Desk.leave]
  rcases h.pop hij with ⟨err, hd, he⟩ | ⟨d', e', m', hd, he, hadvance⟩
  · rw [hd, he]
    exact h.answer _
  · rw [hd, he]
    cases gaveUp <;> exact ⟨rfl, m', hadvance⟩

mutual

/-- A step about contexts that read the same has the same outcome on both desks. -/
theorem Mirrors.perform {m : Matching} {d e : Desk} (h : Mirrors own m d e) (step : Step)
    (hstep : step.concerns own = true) :
    Together own m d e (d.perform step) (e.perform step) := by
  match step with
  | .create slot _ | .fromData slot _ | .build slot _ =>
    rw [Desk.perform, Desk.perform]
    exact h.create hstep _
  | .child source slot pairs =>
    rw [Step.concerns, Bool.and_eq_true] at hstep
    rw [Desk.perform, Desk.perform]
    exact h.withNumber hstep.1 fun i j hij => h.child hstep.2 pairs hij
  | .copy source slot =>
    rw [Step.concerns, Bool.and_eq_true] at hstep
    rw [Desk.perform, Desk.perform]
    exact h.withNumber hstep.1 fun i j hij => h.copy hstep.2 hij
  | .embed source slot name =>
    rw [Step.concerns, Bool.and_eq_true] at hstep
    rw [Desk.perform, Desk.perform]
    refine h.withNumber hstep.1 fun i j hij => ?_
    rw [h.view_eq (h.refs i j hij)]
    exact h.create hstep.2 _
  | .bind slot name data =>
    rw [Desk.perform, Desk.perform]
    exact h.withNumber hstep fun i j hij => h.bind name data hij
  | .push slot =>
    rw [Desk.perform, Desk.perform]
    exact h.withNumber hstep fun i j hij => ⟨rfl, h.push hij⟩
  | .pop slot =>
    rw [Desk.perform, Desk.perform]
    refine h.withNumber hstep fun i j hij => ?_
    rcases h.pop hij with ⟨err, hd, he⟩ | ⟨d', e', m', hd, he, hadvance⟩
    · rw [hd, he]
      exact h.answer _
    · rw [hd, he]
      exact ⟨rfl, m', hadvance⟩
  | .lookup slot _ | .resolve slot _ | .isSet slot _ | .contains slot _ | .names slot
  | .asValue slot | .display slot =>
    rw [Desk.perform, Desk.perform]
    exact h.ask hstep _
  | .block slot steps =>
    rw [Step.concerns, Bool.and_eq_true] at hstep
    rw [Desk.perform, Desk.perform]
    rcases h.number?_eq hstep.1 with ⟨hd, he⟩ | ⟨i, j, hij, hd, he⟩
    · rw [hd, he]
      exact h.answer _
    · rw [hd, he]
      obtain ⟨m₁, hpush⟩ := h.push hij
      obtain ⟨hreports, m₂, hinner⟩ := hpush.mirrors.performAll steps hstep.2
      have hij' := hinner.contexts i j (hpush.contexts i j hij)
      obtain ⟨houtcome, m₃, hadvance⟩ := hinner.mirrors.leave hij' hreports
      exact ⟨houtcome, m₃, (hpush.trans hinner).trans hadvance⟩
  | .giveUp message => simp [Step.concerns] at hstep
  | .refused slot reason =>
    rw [Desk.perform, Desk.perform]
    exact h.answer _

/-- Steps about contexts that read the same have the same outcomes on both desks. -/
theorem Mirrors.performAll {m : Matching} {d e : Desk} (h : Mirrors own m d e) (steps : List Step)
    (hsteps : Step.allConcern own steps = true) :
    (d.performAll steps).2 = (e.performAll steps).2 ∧
      ∃ m', Advance own m m' d e (d.performAll steps).1 (e.performAll steps).1 := by
  match steps with
  | [] =>
    rw [Desk.performAll, Desk.performAll]
    exact ⟨rfl, m, h.stay⟩
  | step :: steps =>
    by_cases hgive : ∃ message, step = .giveUp message
    · obtain ⟨message, rfl⟩ := hgive
      rw [Desk.performAll, Desk.performAll]
      exact ⟨rfl, m, h.stay⟩
    · have hne := not_exists.1 hgive
      rw [Step.allConcern, Bool.and_eq_true] at hsteps
      · obtain ⟨houtcome, m₁, hfirst⟩ := h.perform step hsteps.1
        obtain ⟨hreports, m₂, hrest⟩ := hfirst.mirrors.performAll steps hsteps.2
        have hlook := hfirst.mirrors.look_eq (own_subject hsteps.1)
        rw [Desk.performAll, Desk.performAll]
        · dsimp only
          rw [houtcome, hlook]
          exact ⟨congrArg (fun p => (_ :: p.1, p.2)) hreports, m₂, hfirst.trans hrest⟩
        all_goals exact fun message => hne message
      · exact fun message => hne message

end

/-! ## Steps about other contexts -/

/-- Whether no number on the first desk is matched by two matchings. -/
def Matching.Disjoint (m n : Matching) : Prop :=
  (∀ i j k, m.contexts i j → ¬ n.contexts i k) ∧ ∀ f g k, m.frames f g → ¬ n.frames f k

variable {other : String → Bool} {n : Matching} {e₂ : Desk} {steps : List Step}

theorem Matching.Disjoint.symm (h : m.Disjoint n) : n.Disjoint m :=
  ⟨fun i j k hn hm => h.1 i k j hm hn, fun f g k hn hm => h.2 f k g hm hn⟩

/-- What was there before is none of what came since. -/
theorem Matching.disjoint_since (d e : Desk) : (Matching.since d e).Disjoint (.before d) := by
  refine ⟨?_, ?_⟩
  · rintro i j k ⟨-, hle, -⟩ ⟨-, hlt⟩
    exact Nat.not_lt.2 hle hlt
  · rintro f g k ⟨-, hle, -⟩ ⟨-, hlt⟩
    exact Nat.not_lt.2 hle hlt

/-- What comes to match is matched by no other matching. -/
theorem Advance.disjoint (h : Advance own m m' d e d' e') (hn : Mirrors other n d e₂)
    (hdisjoint : m.Disjoint n) : m'.Disjoint n := by
  refine ⟨fun i j k hij hik => ?_, fun f g k hfg hfk => ?_⟩
  · rcases h.newContexts i j hij with hij | hle
    · exact hdisjoint.1 i j k hij hik
    · have hlt := hn.contexts_lt i k hik
      omega
  · rcases h.newFrames f g hfg with hfg | hle
    · exact hdisjoint.2 f g k hfg hfk
    · have hlt := hn.frames_lt f k hfk
      omega

/-- Steps about other contexts leave the contexts as they are. -/
theorem Mirrors.spared (h : Mirrors own m d e) (hspares : Spares other n d d')
    (hnames : ∀ slot, own slot = true → other slot = false) (hdisjoint : m.Disjoint n) :
    Mirrors own m d' e := by
  have hframe (f g : Nat) (hfg : m.frames f g) : d'.store.frame f = d.store.frame f :=
    hspares.frames f (h.frames_lt f g hfg).1 fun k => hdisjoint.2 f g k hfg
  have href (i j : Nat) (hij : m.contexts i j) : d'.ref i = d.ref i :=
    hspares.refs i (h.contexts_lt i j hij).1 fun k => hdisjoint.1 i j k hij
  refine ⟨fun slot hslot => ?_, fun i j hij => ?_, fun f g hfg => ?_, fun i j hij => ?_,
    fun f g hfg => ?_, h.contexts_iff, h.frames_iff⟩
  · rw [hspares.slots slot (hnames slot hslot)]
    exact h.slots slot hslot
  · rw [href i j hij]
    exact h.refs i j hij
  · rw [hframe f g hfg]
    exact h.frames f g hfg
  · obtain ⟨hi, hj⟩ := h.contexts_lt i j hij
    exact ⟨Nat.lt_of_lt_of_le hi hspares.contexts_le, hj⟩
  · obtain ⟨hf, hg⟩ := h.frames_lt f g hfg
    exact ⟨Nat.lt_of_lt_of_le hf hspares.frames_le, hg⟩

/-- The reports of the steps about contexts under certain names. -/
def reportsOf (own : String → Bool) (steps : List Step) (reports : List Report) : List Report :=
  ((steps.zip reports).filter fun p => own (subject p.1)).map Prod.snd

theorem reportsOf_cons (own : String → Bool) (step : Step) (steps : List Step) (report : Report)
    (reports : List Report) :
    reportsOf own (step :: steps) (report :: reports) =
      if own (subject step) = true then report :: reportsOf own steps reports
      else reportsOf own steps reports := by
  rw [reportsOf, List.zip_cons_cons, List.filter_cons]
  split <;> rfl

/-- Leaving out the steps about other contexts changes no answer. -/
theorem reportsOf_performAll (h : Mirrors own m d e) (h₂ : Mirrors other n d e₂)
    (hnames : ∀ slot, own slot = true → other slot = false) (hdisjoint : m.Disjoint n)
    (hsteps : ∀ step ∈ steps, step.concerns own = true ∨ step.concerns other = true) :
    reportsOf own steps (d.performAll steps).2.1 =
      (e.performAll (steps.filter fun step => own (subject step))).2.1 := by
  have hothers (slot : String) (hslot : other slot = true) : own slot = false := by
    rw [← Bool.not_eq_true]
    intro hown
    rw [hnames slot hown] at hslot
    cases hslot
  induction steps generalizing m n d e e₂ with
  | nil =>
    rw [List.filter_nil, Desk.performAll, Desk.performAll]
    rfl
  | cons step steps ih =>
    have hrest := fun s hs => hsteps s (List.mem_cons_of_mem step hs)
    rcases hsteps step List.mem_cons_self with hown | hother
    · obtain ⟨houtcome, m', hadvance⟩ := h.perform step hown
      have hsubject := own_subject hown
      have hlater := ih hadvance.mirrors
        (h₂.spared hadvance.spares hothers hdisjoint.symm) (hadvance.disjoint h₂ hdisjoint) hrest
      rw [reports_cons d (ne_giveUp_of_concerns hown), reportsOf_cons, if_pos hsubject, hlater,
        houtcome, hadvance.mirrors.look_eq hsubject, List.filter_cons, if_pos hsubject,
        reports_cons e (ne_giveUp_of_concerns hown)]
    · obtain ⟨-, n', hadvance⟩ := h₂.perform step hother
      have hsubject := hothers _ (own_subject hother)
      have hlater := ih (h.spared hadvance.spares hnames hdisjoint) hadvance.mirrors
        (hadvance.disjoint h hdisjoint.symm).symm hrest
      have hnot : ¬ own (subject step) = true := Bool.not_eq_true _ ▸ hsubject
      rw [reports_cons d (ne_giveUp_of_concerns hother), reportsOf_cons, if_neg hnot, hlater,
        List.filter_cons, if_neg hnot]

/-! ## A desk next to itself -/

/-- A desk mirrors itself, as far as the contexts under certain names and their frames go. -/
theorem mirrors_only {isContext isFrame : Nat → Prop}
    (hslots : ∀ slot i, own slot = true → d.number? slot = some i → isContext i)
    (hrefs : ∀ i, isContext i → i < d.contexts.length ∧ ∀ f ∈ (d.ref i).frames, isFrame f)
    (hframes : ∀ f, isFrame f → f < d.store.frames.length) :
    Mirrors own (.only isContext isFrame) d d := by
  refine ⟨fun slot hslot => ?_, ?_, ?_, ?_, ?_, ?_, ?_⟩
  · cases hi : d.number? slot with
    | none => exact .none
    | some i => exact .some ⟨rfl, hslots slot i hslot hi⟩
  · rintro i j ⟨rfl, hi⟩
    have hframe := (hrefs i hi).2
    exact ⟨List.forall₂_same.2 fun f hf => ⟨rfl, hframe f (List.mem_append_left _ hf)⟩, rfl,
      hframe _ (List.mem_append_right _ (List.mem_singleton_self _))⟩
  · rintro f g ⟨rfl, -⟩
    rfl
  · rintro i j ⟨rfl, hi⟩
    exact ⟨(hrefs i hi).1, (hrefs i hi).1⟩
  · rintro f g ⟨rfl, hf⟩
    exact ⟨hframes f hf, hframes f hf⟩
  · rintro i j i' j' ⟨rfl, -⟩ ⟨rfl, -⟩
    rfl
  · rintro f g f' g' ⟨rfl, -⟩ ⟨rfl, -⟩
    rfl

/-- A desk with something new on it mirrors the desk before, as far as it was there before. -/
theorem IsSound.mirrors_before (h : d.IsSound) (hspares : Spares other .nothing d d')
    (hnames : ∀ slot, own slot = true → other slot = false) :
    Mirrors own (.before d) d' d := by
  refine Mirrors.spared ?_ hspares hnames ⟨fun _ _ _ _ => id, fun _ _ _ _ => id⟩
  exact mirrors_only (fun slot i _ hi => h.known slot i hi)
    (fun i hi => ⟨hi, fun f hf => (h.ref hi).lt hf⟩) fun _ => id

/-- Steps that are one by one about contexts under certain names are so as steps of a block. -/
theorem allConcern_of_forall (h : ∀ step ∈ steps, step.concerns own = true) :
    Step.allConcern own steps = true := by
  induction steps with
  | nil => rw [Step.allConcern]
  | cons step steps ih =>
    have hstep := h step List.mem_cons_self
    rw [Step.allConcern, hstep, Bool.true_and]
    · exact ih fun s hs => h s (List.mem_cons_of_mem step hs)
    · exact ne_giveUp_of_concerns hstep

end Desk

end MarkupForms.Context

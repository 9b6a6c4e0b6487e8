import MarkupForms.Context.Scope
import MarkupForms.Proofs.Sharing

/-!
# Sealed scopes are roots

A scope is made with its seal or without it, and nothing ever changes the seal.  Whatever is done
with contexts, copies included, the sealed scopes are those without a parent.  So it comes to the
same whether a context is closed and bound in by the seals of its scopes or by the place of its
frames: both ways of keeping contexts refuse the same moves, and all contexts read the same in both.

* `Scopes.IsSound` : exactly the roots are sealed, and parents are older than the scopes in them.
* `Scopes.Stands.create`, `Scopes.Stands.child`, `Scopes.Stands.copy` : new contexts are the same
  with scopes and with frames.
* `Scopes.Mirrors.perform`, `Scopes.Mirrors.run` : one move, and any moves, do the same in both.
* `Scopes.isSealed_iff_parent` : after any moves exactly the roots are sealed.
* `Scopes.refusals_and_readings` : any moves are refused alike and leave the same readings.
* `Desk.exists_moves` : what a script does with its contexts are moves.
-/

namespace MarkupForms

/-- Frames that are added to a store are found in a row. -/
theorem Store.map_frame_append (t : Store) (fs : List Frame) :
    (List.range' t.frames.length fs.length).map (Store.mk (t.frames ++ fs)).frame = fs := by
  refine List.ext_getElem (by simp) fun k _ hk => ?_
  simp [frame, hk]

section

variable {α β : Type} {R : α → β → Prop} {as : List α} {bs : List β}

/-- Elements of related lists are related. -/
theorem forall₂_getElem? (h : List.Forall₂ R as bs) (k : Nat) :
    as[k]? = none ∧ bs[k]? = none ∨ ∃ x y, as[k]? = some x ∧ bs[k]? = some y ∧ R x y := by
  induction h generalizing k with
  | nil => exact .inl ⟨rfl, rfl⟩
  | @cons x y _ _ hxy _ ih =>
    cases k with
    | zero => exact .inr ⟨x, y, rfl, rfl, hxy⟩
    | succ k => exact ih k

theorem forall₂_set (h : List.Forall₂ R as bs) (k : Nat) {x : α} {y : β} (hxy : R x y) :
    List.Forall₂ R (as.set k x) (bs.set k y) := by
  induction h generalizing k with
  | nil => exact .nil
  | cons hfirst hrest ih =>
    cases k with
    | zero => exact .cons hxy hrest
    | succ k => exact .cons hfirst (ih k)

end

namespace Scopes

variable {s : Scopes}

/-! ## Scopes by number -/

theorem scope_add_of_lt (s : Scopes) (new : Scope) {i : Nat} (hi : i < s.scopes.length) :
    (s.add new).1.scope i = s.scope i := by
  simp [add, scope, List.getElem?_append_left hi]

@[simp] theorem scope_add_self (s : Scopes) (new : Scope) :
    (s.add new).1.scope s.scopes.length = new := by
  simp [add, scope]

@[simp] theorem length_add (s : Scopes) (new : Scope) :
    (s.add new).1.scopes.length = s.scopes.length + 1 := by
  simp [add]

theorem lt_length_add (s : Scopes) (new : Scope) : (s.add new).2 < (s.add new).1.scopes.length := by
  simp [add]

/-- The numbers of the scopes from a parent to the root; there are none without a parent. -/
def around (s : Scopes) (parent : Option Nat) : List Nat :=
  parent.elim [] s.chain

/-! ## Sound scopes -/

/-- Whether exactly the roots are sealed, and every parent was there before the scopes in it. -/
structure IsSound (s : Scopes) : Prop where
  /-- Parents are older. -/
  older : ∀ i < s.scopes.length, ∀ p, (s.scope i).parent = some p → p < i
  /-- Exactly the roots are sealed. -/
  isSealed : ∀ i < s.scopes.length, (s.scope i).isSealed = true ↔ (s.scope i).parent = none

theorem isSound_empty : empty.IsSound :=
  ⟨fun _ hi => absurd hi (Nat.not_lt_zero _), fun _ hi => absurd hi (Nat.not_lt_zero _)⟩

/-- A scope more is sound when it is over an older one and not sealed, or a root and sealed. -/
theorem IsSound.add (h : s.IsSound) {new : Scope}
    (holder : ∀ p, new.parent = some p → p < s.scopes.length)
    (hsealed : new.isSealed = true ↔ new.parent = none) : (s.add new).1.IsSound := by
  have hcases : ∀ i < (s.add new).1.scopes.length,
      i < s.scopes.length ∧ (s.add new).1.scope i = s.scope i ∨
        i = s.scopes.length ∧ (s.add new).1.scope i = new := by
    intro i hi
    rcases Nat.lt_succ_iff_lt_or_eq.1 (length_add s new ▸ hi) with hlt | rfl
    · exact .inl ⟨hlt, scope_add_of_lt s new hlt⟩
    · exact .inr ⟨rfl, scope_add_self s new⟩
  constructor
  · intro i hi p hp
    rcases hcases i hi with ⟨hlt, hscope⟩ | ⟨rfl, hscope⟩
    · exact h.older i hlt p (hscope ▸ hp)
    · exact holder p (hscope ▸ hp)
  · intro i hi
    rcases hcases i hi with ⟨hlt, hscope⟩ | ⟨rfl, hscope⟩
    · rw [hscope]
      exact h.isSealed i hlt
    · rw [hscope]
      exact hsealed

/-- From a scope the way to the root goes on with its parent. -/
theorem IsSound.chain_eq (h : s.IsSound) {i : Nat} (hi : i < s.scopes.length) :
    s.chain i = i :: s.around (s.scope i).parent := by
  rw [chain]
  cases hp : (s.scope i).parent with
  | none => rfl
  | some p => simp [h.older i hi p hp, around]

theorem le_of_mem_chain (s : Scopes) (i : Nat) : ∀ j ∈ s.chain i, j ≤ i := by
  induction i using Nat.strongRecOn with
  | ind i ih =>
    rw [chain]
    split
    · simp
    · split
      · rename_i p _ hlt
        intro j hj
        rcases List.mem_cons.1 hj with rfl | hj
        · exact Nat.le_refl _
        · exact (ih p hlt j hj).trans hlt.le
      · simp

/-- The way to the root depends on the older scopes only. -/
theorem chain_congr {s' : Scopes} {i : Nat}
    (h : ∀ j ≤ i, (s'.scope j).parent = (s.scope j).parent) : s'.chain i = s.chain i := by
  induction i using Nat.strongRecOn with
  | ind i ih =>
    rw [chain, chain, h i (Nat.le_refl i)]
    split
    · rfl
    · rename_i p _
      split
      · rename_i hlt
        rw [ih p hlt fun j hj => h j (hj.trans hlt.le)]
      · rfl

theorem chain_add (s : Scopes) (new : Scope) {i : Nat} (hi : i < s.scopes.length) :
    (s.add new).1.chain i = s.chain i :=
  chain_congr fun j hj => by rw [scope_add_of_lt s new (Nat.lt_of_le_of_lt hj hi)]

/-! ## Scopes and frames -/

/-- Whether scopes stand for frames of a store, each one at a place of its own. -/
structure Stands (s : Scopes) (t : Store) (place : Nat → Nat) : Prop where
  /-- The frames are there. -/
  lt : ∀ i < s.scopes.length, place i < t.frames.length
  /-- They bind the same. -/
  frame : ∀ i < s.scopes.length, t.frame (place i) = (s.scope i).bindings
  /-- No two scopes have the same place. -/
  injective : ∀ i < s.scopes.length, ∀ j < s.scopes.length, place i = place j → i = j

/-- Whether a scope stands for a context in a store. -/
def Refers (s : Scopes) (place : Nat → Nat) (i : Nat) (r : Store.Ref) : Prop :=
  i < s.scopes.length ∧ (s.chain i).map place = r.frames

variable {t : Store} {place : Nat → Nat}

theorem stands_empty (place : Nat → Nat) : empty.Stands .empty place :=
  ⟨fun _ hi => absurd hi (Nat.not_lt_zero _), fun _ hi => absurd hi (Nat.not_lt_zero _),
    fun _ hi => absurd hi (Nat.not_lt_zero _)⟩

/-- A scope more stands at a place that no other one has. -/
theorem Stands.add (h : s.Stands t place) {new : Scope} {f : Nat} (hf : f < t.frames.length)
    (hframe : t.frame f = new.bindings) (hfree : ∀ i < s.scopes.length, place i ≠ f) :
    (s.add new).1.Stands t (Function.update place s.scopes.length f) := by
  have hcases : ∀ i < (s.add new).1.scopes.length,
      i < s.scopes.length ∧ (s.add new).1.scope i = s.scope i ∧
          Function.update place s.scopes.length f i = place i ∨
        i = s.scopes.length ∧ (s.add new).1.scope i = new ∧
          Function.update place s.scopes.length f i = f := by
    intro i hi
    rcases Nat.lt_succ_iff_lt_or_eq.1 (length_add s new ▸ hi) with hlt | rfl
    · exact .inl ⟨hlt, scope_add_of_lt s new hlt, Function.update_of_ne hlt.ne _ _⟩
    · exact .inr ⟨rfl, scope_add_self s new, Function.update_self ..⟩
  constructor
  · intro i hi
    rcases hcases i hi with ⟨hlt, -, hplace⟩ | ⟨-, -, hplace⟩
    · rw [hplace]
      exact h.lt i hlt
    · rwa [hplace]
  · intro i hi
    rcases hcases i hi with ⟨hlt, hscope, hplace⟩ | ⟨-, hscope, hplace⟩
    · rw [hplace, hscope]
      exact h.frame i hlt
    · rwa [hplace, hscope]
  · intro i hi j hj hij
    rcases hcases i hi with ⟨hi, -, hplacei⟩ | ⟨hi, -, hplacei⟩ <;>
      rcases hcases j hj with ⟨hj, -, hplacej⟩ | ⟨hj, -, hplacej⟩ <;>
      rw [hplacei, hplacej] at hij
    · exact h.injective i hi j hj hij
    · exact absurd hij (hfree i hi)
    · exact absurd hij.symm (hfree j hj)
    · rw [hi, hj]

/-- Adding frames to the store does not matter. -/
theorem Stands.append (h : s.Stands t place) (fs : List Frame) :
    s.Stands ⟨t.frames ++ fs⟩ place where
  lt i hi := by
    rw [List.length_append]
    exact Nat.lt_add_right _ (h.lt i hi)
  frame i hi := by rw [t.frame_append fs (h.lt i hi), h.frame i hi]
  injective := h.injective

/-- The scopes of a context bind what its frames bind. -/
theorem Stands.frames_eq (h : s.Stands t place) {i : Nat} {r : Store.Ref}
    (hr : s.Refers place i r) : s.frames i = (t.view r).frames := by
  rw [t.frames_view, ← hr.2, List.map_map]
  exact List.map_congr_left fun j hj =>
    (h.frame j (Nat.lt_of_le_of_lt (s.le_of_mem_chain i j hj) hr.1)).symm

/-! ## More scopes -/

/-- Whether scopes, and where they stand, are as before, apart from those that were added. -/
structure Grown (s : Scopes) (place : Nat → Nat) (s' : Scopes) (place' : Nat → Nat) : Prop where
  /-- None went away. -/
  length_le : s.scopes.length ≤ s'.scopes.length
  /-- The ways to the roots are the same. -/
  chain : ∀ i < s.scopes.length, s'.chain i = s.chain i
  /-- The places are the same. -/
  place : ∀ i < s.scopes.length, place' i = place i

variable {s' s'' : Scopes} {place' place'' : Nat → Nat}

theorem Grown.refl (s : Scopes) (place : Nat → Nat) : s.Grown place s place :=
  ⟨Nat.le_refl _, fun _ _ => rfl, fun _ _ => rfl⟩

theorem Grown.trans (h : s.Grown place s' place') (h' : s'.Grown place' s'' place'') :
    s.Grown place s'' place'' where
  length_le := h.length_le.trans h'.length_le
  chain i hi := (h'.chain i (hi.trans_le h.length_le)).trans (h.chain i hi)
  place i hi := (h'.place i (hi.trans_le h.length_le)).trans (h.place i hi)

theorem grown_add (s : Scopes) (place : Nat → Nat) (new : Scope) (f : Nat) :
    s.Grown place (s.add new).1 (Function.update place s.scopes.length f) where
  length_le := by simp
  chain i hi := s.chain_add new hi
  place i hi := Function.update_of_ne hi.ne _ _

theorem Grown.map_chain (h : s.Grown place s' place') {i : Nat} (hi : i < s.scopes.length) :
    (s'.chain i).map place' = (s.chain i).map place := by
  rw [h.chain i hi]
  exact List.map_congr_left fun j hj =>
    h.place j (Nat.lt_of_le_of_lt (s.le_of_mem_chain i j hj) hi)

theorem Grown.refers (h : s.Grown place s' place') {i : Nat} {r : Store.Ref}
    (hr : s.Refers place i r) : s'.Refers place' i r :=
  ⟨hr.1.trans_le h.length_le, (h.map_chain hr.1).trans hr.2⟩

/-! ## New contexts -/

/-- From a new scope the way to the root goes on from its parent. -/
theorem map_chain_add (place : Nat → Nat) (hs : s.IsSound) {new : Scope}
    (holder : ∀ p, new.parent = some p → p < s.scopes.length)
    (hsealed : new.isSealed = true ↔ new.parent = none) (f : Nat) :
    let place' := Function.update place s.scopes.length f
    ((s.add new).1.chain (s.add new).2).map place' = f :: (s.around new.parent).map place := by
  intro place'
  have hchain := (hs.add holder hsealed).chain_eq (lt_length_add s new)
  have hnew : (s.add new).1.scope (s.add new).2 = new := scope_add_self s new
  have hplace : place' (s.add new).2 = f := Function.update_self ..
  rw [hchain, hnew, List.map_cons, hplace]
  cases hparent : new.parent with
  | none => rfl
  | some p => exact congrArg (f :: ·) ((s.grown_add place new f).map_chain (holder p hparent))

/-- A new root is a new context in the store. -/
theorem Stands.create (hs : s.IsSound) (h : s.Stands t place) (root : Frame) :
    ∃ place', (s.create root).1.IsSound ∧ (s.create root).1.Stands (t.create root).1 place' ∧
      s.Grown place (s.create root).1 place' ∧
      (s.create root).1.Refers place' (s.create root).2 (t.create root).2 := by
  have holder : ∀ p, (Scope.mk root none true).parent = some p → p < s.scopes.length :=
    fun _ hp => by cases hp
  have hsealed : (Scope.mk root none true).isSealed = true ↔
      (Scope.mk root none true).parent = none := iff_of_true rfl rfl
  refine ⟨Function.update place s.scopes.length t.frames.length, hs.add holder hsealed,
    (h.append [root]).add ?_ ?_ ?_, s.grown_add place _ _, ?_, ?_⟩
  · simp
  · simp [Store.frame]
  · exact fun i hi => (h.lt i hi).ne
  · exact lt_length_add s _
  · exact map_chain_add place hs holder hsealed _

/-- A new scope over a context is that context extended in the store. -/
theorem Stands.extend (hs : s.IsSound) (h : s.Stands t place) {i : Nat} {r : Store.Ref}
    (hr : s.Refers place i r) (f : Frame) :
    ∃ place', (s.add ⟨f, some i, false⟩).1.IsSound ∧
      (s.add ⟨f, some i, false⟩).1.Stands (t.extend r f).1 place' ∧
      s.Grown place (s.add ⟨f, some i, false⟩).1 place' ∧
      (s.add ⟨f, some i, false⟩).1.Refers place' (s.add ⟨f, some i, false⟩).2 (t.extend r f).2 := by
  have holder : ∀ p, (Scope.mk f (some i) false).parent = some p → p < s.scopes.length :=
    fun p hp => Option.some.inj hp ▸ hr.1
  have hsealed : (Scope.mk f (some i) false).isSealed = true ↔
      (Scope.mk f (some i) false).parent = none := iff_of_false Bool.false_ne_true nofun
  refine ⟨Function.update place s.scopes.length t.frames.length, hs.add holder hsealed,
    (h.append [f]).add ?_ ?_ ?_, s.grown_add place _ _, ?_, ?_⟩
  · simp
  · simp [Store.frame]
  · exact fun i hi => (h.lt i hi).ne
  · exact lt_length_add s _
  · rw [map_chain_add place hs holder hsealed, around, Option.elim_some, hr.2]
    rfl

/-- Names bound in a frame one after the other are bound in it at once. -/
theorem foldl_bind (bindings : List (String × Value)) (f : Frame) :
    bindings.foldl (fun f b => f.bind (Context.normalize b.1) b.2) f =
      ⟨Entries.putAll (bindings.map fun b => (Context.normalize b.1, b.2)) f.bindings⟩ := by
  induction bindings generalizing f with
  | nil => rfl
  | cons b bindings ih => exact ih _

/-- Binding in a scope that is not sealed, one name after the other. -/
theorem foldlM_bind (scopes : List Scope) (f : Frame) (parent : Option Nat)
    (bindings : List (String × Value)) :
    bindings.foldlM (fun s b => s.bind scopes.length b.1 b.2)
        (Scopes.mk (scopes ++ [⟨f, parent, false⟩])) =
      .ok (Scopes.mk (scopes ++ [⟨bindings.foldl (fun f b => f.bind (Context.normalize b.1) b.2) f,
        parent, false⟩])) := by
  induction bindings generalizing f with
  | nil => rfl
  | cons b bindings ih =>
    have hbind : (Scopes.mk (scopes ++ [⟨f, parent, false⟩])).bind scopes.length b.1 b.2 =
        .ok (Scopes.mk (scopes ++ [⟨f.bind (Context.normalize b.1) b.2, parent, false⟩])) := by
      have hscope : (Scopes.mk (scopes ++ [⟨f, parent, false⟩])).scope scopes.length =
          ⟨f, parent, false⟩ := by
        simp [scope]
      rw [bind, hscope, if_neg Bool.false_ne_true]
      exact congrArg (fun l => Except.ok (Scopes.mk l)) (List.modifyTailIdx_add _ 0 scopes [_])
    rw [List.foldlM_cons, hbind]
    exact ih _

/-- A context over another one is made with its names at once. -/
theorem child_eq (s : Scopes) (i : Nat) (bindings : List (String × Value)) :
    s.child i bindings = .ok (s.add ⟨(Context.ofList bindings).root, some i, false⟩) := by
  have hfold := foldlM_bind s.scopes .empty (some i) bindings
  rw [foldl_bind] at hfold
  simp only [child, push, add, hfold]
  rfl

/-- A context over another one is the same with scopes and with frames. -/
theorem Stands.child (hs : s.IsSound) (h : s.Stands t place) {i : Nat} {r : Store.Ref}
    (hr : s.Refers place i r) (bindings : List (String × Value)) :
    ∃ made place', s.child i bindings = .ok made ∧ made.1.IsSound ∧
      made.1.Stands (t.extend r (Context.ofList bindings).root).1 place' ∧
      s.Grown place made.1 place' ∧
      made.1.Refers place' made.2 (t.extend r (Context.ofList bindings).root).2 :=
  ⟨_, (h.extend hs hr _).choose, s.child_eq i bindings, (h.extend hs hr _).choose_spec⟩

/-! ## Copies -/

/-- The last scope on the way to the root is the only one that is sealed. -/
theorem IsSound.exists_root (hs : s.IsSound) {i : Nat} (hi : i < s.scopes.length) :
    ∃ inner root, s.chain i = inner ++ [root] ∧ (s.scope root).isSealed = true ∧
      ∀ j ∈ inner, (s.scope j).isSealed = false := by
  induction i using Nat.strongRecOn with
  | ind i ih =>
    rw [hs.chain_eq hi]
    cases hparent : (s.scope i).parent with
    | none => exact ⟨[], i, rfl, (hs.isSealed i hi).2 hparent, fun j hj => by cases hj⟩
    | some p =>
      have hlt := hs.older i hi p hparent
      obtain ⟨inner, root, hchain, hroot, hinner⟩ := ih p hlt (hlt.trans hi)
      refine ⟨i :: inner, root, congrArg (i :: ·) hchain, hroot, ?_⟩
      refine List.forall_mem_cons.2 ⟨?_, hinner⟩
      rw [← Bool.not_eq_true, hs.isSealed i hi, hparent]
      exact Option.some_ne_none p

/-- Copies of scopes that are not sealed, made from the outermost one inwards, stand for a row of
frames that bind the same, innermost first. -/
theorem Stands.copyInto (hs : s.IsSound) (h : s.Stands t place) {p : Nat}
    (hp : p < s.scopes.length) {ts : List Scope} (hopen : ∀ x ∈ ts, x.isSealed = false) {f : Nat}
    (hlt : f + ts.length ≤ t.frames.length)
    (hframes : (List.range' f ts.length).map t.frame = ts.reverse.map Scope.bindings)
    (hfree : ∀ i < s.scopes.length, place i < f ∨ f + ts.length ≤ place i) :
    ∃ place' j, (s.copyInto (some p) ts).2 = some j ∧ (s.copyInto (some p) ts).1.IsSound ∧
      (s.copyInto (some p) ts).1.Stands t place' ∧
      s.Grown place (s.copyInto (some p) ts).1 place' ∧
      j < (s.copyInto (some p) ts).1.scopes.length ∧
      ((s.copyInto (some p) ts).1.chain j).map place' =
        List.range' f ts.length ++ (s.chain p).map place := by
  induction ts generalizing s place p with
  | nil => exact ⟨place, p, rfl, hs, h, .refl s place, hp, rfl⟩
  | cons x inner ih =>
    obtain ⟨hx, hinner⟩ := List.forall_mem_cons.1 hopen
    rw [List.length_cons, List.range'_concat, Nat.one_mul, List.map_append, List.reverse_cons,
      List.map_append] at hframes
    obtain ⟨hrest, hlast⟩ := List.append_inj' hframes rfl
    rw [List.length_cons] at hlt hfree
    have holder : ∀ q, (x.within (some p)).parent = some q → q < s.scopes.length :=
      fun q hq => Option.some.inj hq ▸ hp
    have hsealed : (x.within (some p)).isSealed = true ↔
        (x.within (some p)).parent = none :=
      iff_of_false (Bool.not_eq_true _ ▸ hx) (Option.some_ne_none p)
    have hf : f + inner.length < t.frames.length := by omega
    have hframe : t.frame (f + inner.length) = (x.within (some p)).bindings :=
      (List.cons.inj hlast).1
    have hstands := h.add hf hframe fun i hi => by
      have := hfree i hi
      omega
    have hgrown := s.grown_add place (x.within (some p)) (f + inner.length)
    obtain ⟨place', j, hj, hs', hstands', hgrown', hjlt, hchain⟩ :=
      ih (hs.add holder hsealed) hstands (lt_length_add s _) hinner (by omega) hrest fun i hi => by
        rcases Nat.lt_succ_iff_lt_or_eq.1 (length_add s _ ▸ hi) with hi | rfl
        · have := hfree i hi
          rw [Function.update_of_ne hi.ne]
          omega
        · rw [Function.update_self]
          exact .inr (Nat.le_refl _)
    refine ⟨place', j, hj, hs', hstands', hgrown.trans hgrown', hjlt, hchain.trans ?_⟩
    have hchain := map_chain_add place hs holder hsealed (f + inner.length)
    rw [List.length_cons, List.range'_concat, List.append_assoc, Nat.one_mul]
    exact congrArg (List.range' f inner.length ++ ·) hchain

/-- The frames of a copy are the scopes of the context, from the innermost one to the root. -/
theorem Stands.frame_copy (h : s.Stands t place) {i root : Nat} {inner : List Nat} {r : Store.Ref}
    (hr : s.Refers place i r) (hchain : s.chain i = inner ++ [root]) :
    (List.range' t.frames.length inner.length).map (t.copy r).1.frame =
        inner.map (fun j => (s.scope j).bindings) ∧
      (t.copy r).1.frame (t.frames.length + inner.length) = (s.scope root).bindings ∧
      (t.copy r).1.frames.length = t.frames.length + (inner.length + 1) := by
  have hframes : (t.view r).frames =
      inner.map (fun j => (s.scope j).bindings) ++ [(s.scope root).bindings] := by
    rw [← h.frames_eq hr, frames, hchain, List.map_append, List.map_singleton]
  have hread : (List.range' t.frames.length (t.view r).frames.length).map (t.copy r).1.frame =
      (t.view r).frames := t.map_frame_append _
  rw [hframes, List.length_append, List.length_map, List.length_singleton, List.range'_concat,
    List.map_append, Nat.one_mul] at hread
  obtain ⟨hrest, hlast⟩ := List.append_inj' hread rfl
  exact ⟨hrest, (List.cons.inj hlast).1, by simp [Store.copy, hframes]⟩

/-- A copy of a context is the same with scopes and with frames. -/
theorem Stands.copy (hs : s.IsSound) (h : s.Stands t place) {i : Nat} {r : Store.Ref}
    (hr : s.Refers place i r) :
    ∃ place', (s.copy i).1.IsSound ∧ (s.copy i).1.Stands (t.copy r).1 place' ∧
      s.Grown place (s.copy i).1 place' ∧
      (s.copy i).1.Refers place' (s.copy i).2 (t.copy r).2 := by
  obtain ⟨inner, root, hchain, hroot, hinner⟩ := hs.exists_root hr.1
  obtain ⟨hrest, hlast, hlt⟩ := h.frame_copy hr hchain
  have hopened : inner.length = r.opened.length := by
    have hlength := congrArg List.length hr.2
    rw [hchain] at hlength
    simpa [Store.Ref.frames] using hlength
  have hsealed : ((s.scope root).within none).isSealed = true ↔
      ((s.scope root).within none).parent = none := iff_of_true hroot rfl
  have holder : ∀ p, ((s.scope root).within none).parent = some p → p < s.scopes.length :=
    fun _ hp => by cases hp
  have hstands : s.Stands (t.copy r).1 place := h.append _
  have hgrown := s.grown_add place ((s.scope root).within none)
    (t.frames.length + inner.length)
  have hroots : (s.add ((s.scope root).within none)).1.Stands (t.copy r).1
      (Function.update place s.scopes.length (t.frames.length + inner.length)) := by
    refine hstands.add (by omega) hlast fun i hi => ?_
    have := h.lt i hi
    omega
  -- The open scopes are copied from the root on, into frames that no scope stands in so far.
  have hopen : ∀ x ∈ inner.reverse.map s.scope, x.isSealed = false := by simpa using hinner
  have hscopes : (List.range' t.frames.length (inner.reverse.map s.scope).length).map
      (t.copy r).1.frame = (inner.reverse.map s.scope).reverse.map Scope.bindings := by
    simpa [← List.map_reverse, Function.comp_def] using hrest
  obtain ⟨place', j, hj, hs', hstands', hgrown', hjlt, hmap⟩ :=
    hroots.copyInto (hs.add holder hsealed) (lt_length_add s _) hopen (by simp; omega) hscopes
      fun i hi => by
        rw [List.length_map, List.length_reverse]
        rcases Nat.lt_succ_iff_lt_or_eq.1 (length_add s _ ▸ hi) with hi | rfl
        · rw [Function.update_of_ne hi.ne]
          exact .inl (h.lt i hi)
        · rw [Function.update_self]
          exact .inr (Nat.le_refl _)
  have hcopy : s.copy i =
      (((s.add ((s.scope root).within none)).1.copyInto (some s.scopes.length)
        (inner.reverse.map s.scope)).1, j) := by
    rw [Scopes.copy, hchain, List.reverse_append, List.reverse_singleton, List.singleton_append,
      List.map_cons, Scopes.copyInto]
    exact Prod.ext rfl (congrArg (Option.getD · i) hj)
  rw [hcopy]
  refine ⟨place', hs', hstands', hgrown.trans hgrown', hjlt, hmap.trans ?_⟩
  rw [map_chain_add place hs holder hsealed, List.length_map, List.length_reverse, hopened,
    List.range'_eq_map_range]
  rfl

/-! ## Closing and binding -/

/-- A context either stands at a root, which is sealed, and no frame of it is open, or it stands in
a scope that is not sealed, and the parent stands for what is left when the frame is closed. -/
theorem Refers.root_or_opened (hs : s.IsSound) {i : Nat} {r : Store.Ref}
    (hr : s.Refers place i r) :
    (s.scope i).parent = none ∧ (s.scope i).isSealed = true ∧ r.opened = [] ∨
      ∃ p outer, (s.scope i).parent = some p ∧ (s.scope i).isSealed = false ∧
        r.opened = place i :: outer ∧ s.Refers place p { r with opened := outer } := by
  have hframes := hr.2
  rw [hs.chain_eq hr.1, Store.Ref.frames, List.map_cons] at hframes
  have hsealed := hs.isSealed i hr.1
  cases hparent : (s.scope i).parent with
  | none =>
    rw [hparent] at hframes hsealed
    refine .inl ⟨rfl, hsealed.2 rfl, List.length_eq_zero_iff.1 ?_⟩
    simpa [around] using (congrArg List.length hframes).symm
  | some p =>
    have hp := (hs.older i hr.1 p hparent).trans hr.1
    rw [hparent] at hframes hsealed
    have hopen : (s.scope i).isSealed = false := by
      rw [← Bool.not_eq_true, hsealed]
      exact Option.some_ne_none p
    rw [around, Option.elim_some] at hframes
    cases hopened : r.opened with
    | nil =>
      rw [hopened, hs.chain_eq hp] at hframes
      simp at hframes
    | cons f outer =>
      rw [hopened] at hframes
      obtain ⟨hf, houter⟩ := List.cons.inj hframes
      exact .inr ⟨p, outer, rfl, hopen, by rw [hf], hp, houter⟩

@[simp] theorem length_rebind (s : Scopes) (i : Nat) (g : Frame → Frame) :
    (s.rebind i g).scopes.length = s.scopes.length := by
  simp [rebind]

theorem scope_rebind (s : Scopes) (i : Nat) (g : Frame → Frame) {j : Nat}
    (hj : j < s.scopes.length) :
    (s.rebind i g).scope j =
      if i = j then { s.scope j with bindings := g (s.scope j).bindings } else s.scope j := by
  simp only [scope, rebind, List.getElem?_modify, List.getElem?_eq_getElem hj, Option.map_eq_map,
    Option.map_some, Option.getD_some]

/-- What is bound in a scope changes neither its parent nor its seal. -/
theorem parent_and_seal_rebind (s : Scopes) (i : Nat) (g : Frame → Frame) {j : Nat}
    (hj : j < s.scopes.length) :
    ((s.rebind i g).scope j).parent = (s.scope j).parent ∧
      ((s.rebind i g).scope j).isSealed = (s.scope j).isSealed := by
  rw [scope_rebind s i g hj]
  split <;> exact ⟨rfl, rfl⟩

theorem IsSound.rebind (hs : s.IsSound) (i : Nat) (g : Frame → Frame) :
    (s.rebind i g).IsSound where
  older j hj p hp := by
    rw [length_rebind] at hj
    exact hs.older j hj p ((parent_and_seal_rebind s i g hj).1 ▸ hp)
  isSealed j hj := by
    rw [length_rebind] at hj
    rw [(parent_and_seal_rebind s i g hj).1, (parent_and_seal_rebind s i g hj).2]
    exact hs.isSealed j hj

theorem grown_rebind (s : Scopes) (place : Nat → Nat) (i : Nat) (g : Frame → Frame) :
    s.Grown place (s.rebind i g) place where
  length_le := (length_rebind s i g).ge
  chain _ hj := chain_congr fun _ hk =>
    (parent_and_seal_rebind s i g (Nat.lt_of_le_of_lt hk hj)).1
  place _ _ := rfl

/-- Changing a scope is changing the frame that it stands for. -/
theorem Stands.rebind (h : s.Stands t place) {i : Nat} (hi : i < s.scopes.length)
    (g : Frame → Frame) : (s.rebind i g).Stands ⟨t.frames.modify (place i) g⟩ place where
  lt j hj := by
    rw [length_rebind] at hj
    rw [List.length_modify]
    exact h.lt j hj
  frame j hj := by
    rw [length_rebind] at hj
    rw [t.frame_modify (place i) g (h.lt j hj), scope_rebind s i g hj, h.frame j hj]
    by_cases hij : i = j
    · rw [if_pos (congrArg place hij), if_pos hij]
    · rw [if_neg fun heq => hij (h.injective i hi j hj heq), if_neg hij]
  injective j hj k hk := by
    rw [length_rebind] at hj hk
    exact h.injective j hj k hk

/-! ## Moves -/

open Context

/-- Whether contexts that are kept as scopes are contexts that are kept in a store. -/
def Mirrors (a : Work Scopes Nat) (b : Work Store Store.Ref) : Prop :=
  a.state.IsSound ∧ ∃ place, a.state.Stands b.state place ∧
    List.Forall₂ (a.state.Refers place) a.contexts b.contexts

/-- Whether a move was refused for the same reason, or has led to contexts that mirror each
other. -/
inductive SameEnd : Except ScopeError (Work Scopes Nat) →
    Except ScopeError (Work Store Store.Ref) → Prop where
  /-- The move was refused. -/
  | refused (e : ScopeError) : SameEnd (.error e) (.error e)
  /-- The move was made. -/
  | made {a : Work Scopes Nat} {b : Work Store Store.Ref} (h : Mirrors a b) :
      SameEnd (.ok a) (.ok b)

variable {a : Work Scopes Nat} {b : Work Store Store.Ref}

theorem mirrors_place {scopes : Scopes} {i : Nat} {store : Store} {r : Store.Ref}
    (h : List.Forall₂ (a.state.Refers place) a.contexts b.contexts)
    (hs : scopes.IsSound) (hstands : scopes.Stands store place')
    (hgrown : a.state.Grown place scopes place') (hr : scopes.Refers place' i r) :
    Mirrors (a.place (scopes, i)) (b.place (store, r)) :=
  ⟨hs, place', hstands, List.rel_append (h.imp fun _ _ => hgrown.refers) (.cons hr .nil)⟩

theorem mirrors_replace {scopes : Scopes} {i : Nat} {store : Store} {r : Store.Ref} (k : Nat)
    (h : List.Forall₂ (a.state.Refers place) a.contexts b.contexts)
    (hs : scopes.IsSound) (hstands : scopes.Stands store place')
    (hgrown : a.state.Grown place scopes place') (hr : scopes.Refers place' i r) :
    Mirrors (a.replace k (scopes, i)) (b.replace k (store, r)) :=
  ⟨hs, place', hstands, forall₂_set (h.imp fun _ _ => hgrown.refers) k hr⟩

/-- What is done with a context has the same end in both if it has for contexts that correspond. -/
theorem sameEnd_withContext (hs : a.state.IsSound) (hstands : a.state.Stands b.state place)
    (h : List.Forall₂ (a.state.Refers place) a.contexts b.contexts) (k : Nat)
    {f : Nat → Except ScopeError (Work Scopes Nat)}
    {g : Store.Ref → Except ScopeError (Work Store Store.Ref)}
    (hfg : ∀ i r, a.state.Refers place i r → SameEnd (f i) (g r)) :
    SameEnd (a.withContext k f) (b.withContext k g) := by
  rcases forall₂_getElem? h k with ⟨hi, hr⟩ | ⟨i, r, hi, hr, hrefers⟩
  · simp only [Work.withContext, hi, hr]
    exact .made ⟨hs, place, hstands, h⟩
  · simp only [Work.withContext, hi, hr]
    exact hfg i r hrefers

/-- A move is refused in both for the same reason, or does the same in both. -/
theorem Mirrors.perform (h : Mirrors a b) (move : Move) :
    SameEnd (keeping.perform a move) (Store.keeping.perform b move) := by
  obtain ⟨hs, place, hstands, hcontexts⟩ := h
  cases move with
  | create root =>
    obtain ⟨place', hs', hstands', hgrown, hr'⟩ := hstands.create hs root
    exact .made (mirrors_place hcontexts hs' hstands' hgrown hr')
  | child k bindings =>
    refine sameEnd_withContext hs hstands hcontexts k fun i r hr => ?_
    obtain ⟨made, place', hmade, hs', hstands', hgrown, hr'⟩ := hstands.child hs hr bindings
    simp only [keeping, hmade]
    exact .made (mirrors_place hcontexts hs' hstands' hgrown hr')
  | copy k =>
    refine sameEnd_withContext hs hstands hcontexts k fun i r hr => ?_
    obtain ⟨place', hs', hstands', hgrown, hr'⟩ := hstands.copy hs hr
    exact .made (mirrors_place hcontexts hs' hstands' hgrown hr')
  | push k =>
    refine sameEnd_withContext hs hstands hcontexts k fun i r hr => ?_
    obtain ⟨place', hs', hstands', hgrown, hr'⟩ := hstands.extend hs hr .empty
    exact .made (mirrors_replace k hcontexts hs' hstands' hgrown hr')
  | pop k =>
    refine sameEnd_withContext hs hstands hcontexts k fun i r hr => ?_
    simp only [keeping, Store.keeping, Scopes.pop, Store.Ref.pop]
    obtain ⟨hparent, -, hopened⟩ | ⟨p, outer, hparent, hopen, hopened, hp⟩ := hr.root_or_opened hs
    · simp only [hparent, hopened]
      exact .refused _
    · simp only [hparent, hopen, hopened]
      exact .made (mirrors_replace k hcontexts hs hstands (.refl _ _) hp)
  | bind k name v =>
    refine sameEnd_withContext hs hstands hcontexts k fun i r hr => ?_
    simp only [keeping, Store.keeping, Scopes.bind, Store.bind]
    obtain ⟨-, hsealed, hopened⟩ | ⟨p, outer, -, hopen, hopened, -⟩ := hr.root_or_opened hs
    · simp only [hsealed, hopened]
      exact .refused _
    · simp only [hopen, hopened]
      let g : Frame → Frame := fun f => f.bind (normalize name) v
      exact .made ⟨hs.rebind i g, place, hstands.rebind hr.1 g,
        hcontexts.imp fun _ _ => (a.state.grown_rebind place i g).refers⟩

/-- Any moves are refused alike, and do the same in both. -/
theorem Mirrors.run (h : Mirrors a b) (moves : List Move) :
    Mirrors (keeping.run a moves).1 (Store.keeping.run b moves).1 ∧
      (keeping.run a moves).2 = (Store.keeping.run b moves).2 := by
  induction moves generalizing a b with
  | nil => exact ⟨h, rfl⟩
  | cons move moves ih =>
    have hsame := h.perform move
    rw [Keeping.run, Keeping.run]
    generalize keeping.perform a move = o at hsame
    generalize Store.keeping.perform b move = o' at hsame
    cases hsame with
    | refused e => exact ⟨(ih h).1, congrArg (some e :: ·) (ih h).2⟩
    | made h' => exact ⟨(ih h').1, congrArg (none :: ·) (ih h').2⟩

theorem mirrors_start : Mirrors ⟨keeping.start, []⟩ ⟨Store.keeping.start, []⟩ :=
  ⟨isSound_empty, id, stands_empty id, .nil⟩

/-- Contexts that mirror each other read the same. -/
theorem Mirrors.readings_eq (h : Mirrors a b) : keeping.readings a = Store.keeping.readings b := by
  obtain ⟨-, place, hstands, hcontexts⟩ := h
  rw [Keeping.readings, Keeping.readings, ← List.forall₂_eq_eq_eq, List.forall₂_map_left_iff,
    List.forall₂_map_right_iff]
  exact hcontexts.imp fun i r hr => hstands.frames_eq hr

/-- Whatever is done with contexts, copies included, exactly the roots are sealed. -/
theorem isSealed_iff_parent (moves : List Move) {i : Nat}
    (hi : i < (keeping.runAll moves).1.state.scopes.length) :
    ((keeping.runAll moves).1.state.scope i).isSealed = true ↔
      ((keeping.runAll moves).1.state.scope i).parent = none :=
  (mirrors_start.run moves).1.1.isSealed i hi

/-- Going by the seals of scopes and going by the places of frames come to the same: the same moves
are refused for the same reasons, and all contexts read the same. -/
theorem refusals_and_readings (moves : List Move) :
    (keeping.runAll moves).2 = (Store.keeping.runAll moves).2 ∧
      keeping.readings (keeping.runAll moves).1 =
        Store.keeping.readings (Store.keeping.runAll moves).1 :=
  ⟨(mirrors_start.run moves).2, (mirrors_start.run moves).1.readings_eq⟩

end Scopes

/-! ## Scripts -/

namespace Context.Desk

variable {d : Desk}

/-- The contexts of a desk, without the names they have on it. -/
def work (d : Desk) : Work Store Store.Ref :=
  ⟨d.store, d.contexts⟩

/-- Whether the contexts of one desk become those of another one by moves. -/
def Moves (d e : Desk) : Prop :=
  ∃ moves, (Store.keeping.run d.work moves).1 = e.work

theorem Moves.refl (d : Desk) : d.Moves d :=
  ⟨[], rfl⟩

theorem Moves.trans {e f : Desk} (h : d.Moves e) (h' : e.Moves f) : d.Moves f := by
  obtain ⟨moves, hmoves⟩ := h
  obtain ⟨moves', hmoves'⟩ := h'
  exact ⟨moves ++ moves', by rw [Keeping.run_append, hmoves, hmoves']⟩

/-- A move that is made is one of them. -/
theorem moves_of_perform {e : Desk} (move : Move)
    (h : Store.keeping.perform d.work move = .ok e.work) : d.Moves e :=
  ⟨[move], by rw [Keeping.run, h]; rfl⟩

/-- A move on a context of the desk is made on its frames. -/
theorem withContext_work {i : Nat} (hi : i < d.contexts.length)
    (f : Store.Ref → Except ScopeError (Work Store Store.Ref)) :
    d.work.withContext i f = f (d.ref i) := by
  rw [Work.withContext, work, Desk.ref, List.getElem?_eq_getElem hi]
  rfl

theorem moves_create (d : Desk) (slot : String) (made : Except DataError Context) :
    d.Moves (d.create slot made).1 := by
  cases made with
  | error e => exact .refl d
  | ok c => exact moves_of_perform (.create c.root) rfl

theorem IsSound.moves_withNumber (h : d.IsSound) (slot : String) {f : Nat → Desk × Outcome}
    (hf : ∀ i < d.contexts.length, d.Moves (f i).1) : d.Moves (d.withNumber slot f).1 := by
  unfold Desk.withNumber
  split
  case h_1 i hi => exact hf i (h.known slot i hi)
  case h_2 => exact .refl d

theorem moves_child (d : Desk) (slot : String) (pairs : Pairs) {i : Nat}
    (hi : i < d.contexts.length) : d.Moves (d.child slot pairs i).1 := by
  unfold Desk.child
  split
  · rename_i bindings _
    exact moves_of_perform (.child i bindings) (withContext_work hi _)
  · exact .refl d

theorem moves_bind (d : Desk) (name : String) (data : Data) {i : Nat}
    (hi : i < d.contexts.length) : d.Moves (d.bind name data i).1 := by
  unfold Desk.bind
  split
  · exact .refl d
  split
  · exact .refl d
  split
  · exact .refl d
  · rename_i v _ _ store hstore
    refine moves_of_perform (.bind i name v) ((withContext_work hi _).trans ?_)
    exact congrArg (Except.map _) hstore

theorem moves_push {i : Nat} (hi : i < d.contexts.length) :
    d.Moves (d.push i) :=
  moves_of_perform (.push i) (withContext_work hi _)

theorem moves_pop {i : Nat} (hi : i < d.contexts.length) {e : Desk}
    (hpop : d.pop i = .ok e) : d.Moves e := by
  refine moves_of_perform (.pop i) ((withContext_work hi _).trans ?_)
  unfold Desk.pop at hpop
  cases hr : (d.ref i).pop with
  | error err => rw [hr] at hpop; cases hpop
  | ok r =>
    rw [hr] at hpop
    cases hpop
    exact congrArg (Except.map _) hr

theorem moves_leave {i : Nat} (hi : i < d.contexts.length)
    (inner : List Report) (gaveUp : Option String) : d.Moves (d.leave i inner gaveUp).1 := by
  unfold Desk.leave
  split
  · exact .refl d
  · rename_i e hpop
    split <;> exact moves_pop hi hpop

mutual

/-- A step makes moves. -/
theorem IsSound.moves_perform {d : Desk} (h : d.IsSound) (step : Step) :
    d.Moves (d.perform step).1 := by
  match step with
  | .create slot pairs | .fromData slot data | .build slot bindings =>
    rw [Desk.perform]
    exact moves_create d slot _
  | .child source slot pairs =>
    rw [Desk.perform]
    exact h.moves_withNumber source fun i hi => moves_child d slot pairs hi
  | .copy source slot =>
    rw [Desk.perform]
    exact h.moves_withNumber source fun i hi => moves_of_perform (.copy i) (withContext_work hi _)
  | .embed source slot name =>
    rw [Desk.perform]
    exact h.moves_withNumber source fun i _ => moves_create d slot _
  | .bind slot name data =>
    rw [Desk.perform]
    exact h.moves_withNumber slot fun i hi => moves_bind d name data hi
  | .push slot =>
    rw [Desk.perform]
    exact h.moves_withNumber slot fun i hi => moves_push hi
  | .pop slot =>
    rw [Desk.perform]
    refine h.moves_withNumber slot ?_
    intro i hi
    split
    case h_1 e hpop => exact moves_pop hi hpop
    case h_2 => exact .refl d
  | .lookup slot _ | .resolve slot _ | .isSet slot _ | .contains slot _ | .names slot
  | .asValue slot | .display slot =>
    rw [Desk.perform]
    exact h.moves_withNumber slot fun _ _ => .refl d
  | .block slot steps =>
    rw [Desk.perform]
    split
    · exact .refl d
    · rename_i i hi
      have hlt := h.known slot i hi
      have hpush := h.push hlt
      have hinner := hpush.trans (hpush.sound.performAll steps)
      exact ((moves_push hlt).trans (hpush.sound.moves_performAll steps)).trans
        (moves_leave (Nat.lt_of_lt_of_le hlt hinner.contexts) _ _)
  | .giveUp message =>
    rw [Desk.perform]
    exact .refl d
  | .refused _ reason =>
    rw [Desk.perform]
    exact .refl d

/-- Any steps make moves. -/
theorem IsSound.moves_performAll {d : Desk} (h : d.IsSound) (steps : List Step) :
    d.Moves (d.performAll steps).1 := by
  match steps with
  | [] =>
    rw [Desk.performAll]
    exact .refl d
  | step :: steps =>
    by_cases hgive : ∃ message, step = .giveUp message
    · obtain ⟨message, rfl⟩ := hgive
      rw [Desk.performAll]
      exact .refl d
    · rw [performAll_cons d (not_exists.1 hgive)]
      exact (h.moves_perform step).trans ((h.perform step).sound.moves_performAll steps)

end

/-- What a script does with its contexts are moves.  Made with scopes, the same moves leave contexts
that read the same, and exactly the roots among the scopes are sealed. -/
theorem exists_moves (steps : List Step) :
    ∃ moves, let d := (runScript steps).1
      let scopes := (Scopes.keeping.runAll moves).1
      (Store.keeping.runAll moves).1 = d.work ∧
        Scopes.keeping.readings scopes = d.contexts.map (fun r => (d.store.view r).frames) ∧
        ∀ i < scopes.state.scopes.length, (scopes.state.scope i).isSealed = true ↔
          (scopes.state.scope i).parent = none := by
  obtain ⟨moves, hmoves⟩ := isSound_empty.moves_performAll steps
  refine ⟨moves, hmoves, ?_, fun i hi => Scopes.isSealed_iff_parent moves hi⟩
  rw [(Scopes.refusals_and_readings moves).2, Keeping.runAll]
  exact congrArg Store.keeping.readings hmoves

end Context.Desk

end MarkupForms

import MarkupForms.Context

/-!
# Frames that contexts share

A context that is made from another one shares the frames of it: later bindings in a shared frame
are seen by both.  A store keeps the frames by number, and a context in the store is the list of the
numbers of its frames.  Frames are only added and rebound, so that a number keeps its meaning.

* `Store.view_extend` : a context in the store is extended like a context of its own.
* `Store.view_create` : a new context has the root it was made with.
* `Store.frame_append` : adding frames changes none that is there.
-/

namespace MarkupForms

/-- Frames by number. -/
structure Store where
  /-- The frames, the first one under the number zero. -/
  frames : List Frame
deriving Inhabited, Repr

/-- A context in a store: the numbers of its frames. -/
structure Store.Ref where
  /-- The frames over the root, innermost first. -/
  opened : List Nat
  /-- The root. -/
  root : Nat
deriving DecidableEq, Repr, Inhabited

namespace Store

/-- The store without frames. -/
def empty : Store := ⟨[]⟩

/-- The frame under a number. -/
def frame (s : Store) (i : Nat) : Frame :=
  s.frames[i]?.getD .empty

/-- The context that a reference stands for. -/
def view (s : Store) (r : Ref) : Context :=
  ⟨r.opened.map s.frame, s.frame r.root⟩

/-- Make a context with a root of its own. -/
def create (s : Store) (root : Frame) : Store × Ref :=
  (⟨s.frames ++ [root]⟩, ⟨[], s.frames.length⟩)

/-- Open a frame over the frames of a context. -/
def extend (s : Store) (r : Ref) (f : Frame) : Store × Ref :=
  (⟨s.frames ++ [f]⟩, { r with opened := s.frames.length :: r.opened })

/-- Close the innermost frame of a context.  The frame stays in the store. -/
def Ref.pop (r : Ref) : Except ScopeError Ref :=
  match r.opened with
  | [] => .error .atRoot
  | _ :: outer => .ok { r with opened := outer }

/-- Bind a name in the innermost frame of a context. -/
def bind (s : Store) (r : Ref) (name : String) (v : Value) : Except ScopeError Store :=
  match r.opened with
  | [] => .error .sealedRoot
  | i :: _ => .ok ⟨s.frames.modify i fun f => f.bind (Context.normalize name) v⟩

/-- Make a context with copies of the frames of another one. -/
def copy (s : Store) (r : Ref) : Store × Ref :=
  let n := s.frames.length
  (⟨s.frames ++ (s.view r).frames⟩,
    ⟨(List.range r.opened.length).map (n + ·), n + r.opened.length⟩)

/-- Whether the numbers of a context belong to frames of the store. -/
def Holds (s : Store) (r : Ref) : Prop :=
  r.root < s.frames.length ∧ ∀ i ∈ r.opened, i < s.frames.length

/-- Adding frames changes none that is there. -/
theorem frame_append (s : Store) (fs : List Frame) {i : Nat} (h : i < s.frames.length) :
    (Store.mk (s.frames ++ fs)).frame i = s.frame i := by
  simp [frame, List.getElem?_append_left h]

/-- Adding frames changes no context that is there. -/
theorem view_append (s : Store) (fs : List Frame) {r : Ref} (h : s.Holds r) :
    (Store.mk (s.frames ++ fs)).view r = s.view r := by
  simp only [view, frame_append s fs h.1, Context.mk.injEq, and_true]
  exact List.map_congr_left fun i hi => frame_append s fs (h.2 i hi)

/-- A new context has the root it was made with. -/
theorem view_create (s : Store) (root : Frame) :
    (s.create root).1.view (s.create root).2 = ⟨[], root⟩ := by
  simp [create, view, frame]

/-- A context in the store is extended like a context of its own. -/
theorem view_extend (s : Store) {r : Ref} (h : s.Holds r) (f : Frame) :
    (s.extend r f).1.view (s.extend r f).2 = (s.view r).pushFrame f := by
  have hv := view_append s [f] h
  simp only [view, Context.mk.injEq] at hv
  simp only [extend, view, Context.pushFrame, List.map_cons, hv.1, hv.2]
  simp [frame]

end Store

end MarkupForms

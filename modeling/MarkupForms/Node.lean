import MarkupForms.Text.Identifier

/-!
# The tree of a template

A node is a text, a reference to a variable, or a tag with children.  A tag may carry a block of
attributes, which keeps the order of its keys and has each key once; no block and an empty block
are different.  A hole is a place left open: it can be put into a tree, but it has no written form
and cannot be evaluated.

* `decEq` : equality of trees is decidable.
* `Attributes.ofPairs?_eq_ok_iff` : a block is accepted exactly when its keys are distinct.
-/

namespace MarkupForms

/-- A node of a template. -/
inductive Node where
  /-- A text, in which references to variables are replaced on evaluation. -/
  | text (content : String)
  /-- A reference to a variable, or to a place inside its value. -/
  | var (name : String)
  /-- A tag with its attributes, if it has a block of them, and its children. -/
  | tag (name : String) (attributes : Option (List (String × Node))) (children : List Node)
  /-- A place left open. -/
  | hole
deriving Inhabited, Repr

/-- A block of attributes in the order of writing. -/
abbrev Attributes := List (String × Node)

namespace Node

mutual

/-- Equality of nodes is decidable. -/
def decEq : (m n : Node) → Decidable (m = n)
  | .text s, .text t =>
      if h : s = t then .isTrue (by rw [h]) else .isFalse (by simpa using h)
  | .var s, .var t =>
      if h : s = t then .isTrue (by rw [h]) else .isFalse (by simpa using h)
  | .hole, .hole => .isTrue rfl
  | .tag s none cs, .tag t none ds =>
      if h : s = t then
        match decEqAll cs ds with
        | .isTrue hc => .isTrue (by rw [h, hc])
        | .isFalse hc => .isFalse (by simp [hc])
      else .isFalse (by simp [h])
  | .tag s (some as) cs, .tag t (some bs) ds =>
      if h : s = t then
        match decEqEntries as bs with
        | .isTrue ha =>
            match decEqAll cs ds with
            | .isTrue hc => .isTrue (by rw [h, ha, hc])
            | .isFalse hc => .isFalse (by simp [hc])
        | .isFalse ha => .isFalse (by simp [ha])
      else .isFalse (by simp [h])
  | .tag _ none _, .tag _ (some _) _ => .isFalse (by simp)
  | .tag _ (some _) _, .tag _ none _ => .isFalse (by simp)
  | .text _, .var _ | .text _, .tag _ _ _ | .text _, .hole => .isFalse (by simp)
  | .var _, .text _ | .var _, .tag _ _ _ | .var _, .hole => .isFalse (by simp)
  | .tag _ _ _, .text _ | .tag _ _ _, .var _ | .tag _ _ _, .hole => .isFalse (by simp)
  | .hole, .text _ | .hole, .var _ | .hole, .tag _ _ _ => .isFalse (by simp)

/-- Equality of lists of nodes is decidable. -/
def decEqAll : (ms ns : List Node) → Decidable (ms = ns)
  | [], [] => .isTrue rfl
  | [], _ :: _ => .isFalse (by simp)
  | _ :: _, [] => .isFalse (by simp)
  | m :: ms, n :: ns =>
      match decEq m n with
      | .isTrue h =>
          match decEqAll ms ns with
          | .isTrue hs => .isTrue (by rw [h, hs])
          | .isFalse hs => .isFalse (by simp [hs])
      | .isFalse h => .isFalse (by simp [h])

/-- Equality of blocks of attributes is decidable. -/
def decEqEntries : (as bs : List (String × Node)) → Decidable (as = bs)
  | [], [] => .isTrue rfl
  | [], _ :: _ => .isFalse (by simp)
  | _ :: _, [] => .isFalse (by simp)
  | (k, m) :: as, (l, n) :: bs =>
      if hk : k = l then
        match decEq m n with
        | .isTrue h =>
            match decEqEntries as bs with
            | .isTrue hs => .isTrue (by rw [hk, h, hs])
            | .isFalse hs => .isFalse (by simp [hs])
        | .isFalse h => .isFalse (by simp [h])
      else .isFalse (by simp [hk])

end

instance : DecidableEq Node := decEq

/-- Whether a node is a text or a variable. -/
def IsLeaf : Node → Prop
  | .text _ | .var _ => True
  | .tag _ _ _ | .hole => False

/-- The children of a node; only tags have any. -/
def children : Node → List Node
  | .tag _ _ children => children
  | _ => []

/-- The segments of the path of a variable. -/
def path (name : String) : List String :=
  Text.pathSegments name

mutual

/-- The node, the values of its attributes and what lies below, in the order of writing.  What lies
below an attribute's value is not visited. -/
def walk : Node → List Node
  | .tag name attributes children =>
      .tag name attributes children ::
        ((attributes.getD []).map Prod.snd ++ walkAll children)
  | n => [n]

/-- The walks of several nodes, one after the other. -/
def walkAll : List Node → List Node
  | [] => []
  | n :: ns => walk n ++ walkAll ns

end

/-- The variables that a node's subtree refers to, by the first segment of their paths, in the order
of first mention. -/
def variableNames (n : Node) : List String :=
  (n.walk.filterMap fun
    | .var name => (path name).head?
    | _ => none).eraseDups

end Node

/-! ## Attributes -/

namespace Attributes

/-- The first element of a list that stands in it before. -/
def firstRepeat (seen : List String) : List String → Option String
  | [] => none
  | k :: ks => if k ∈ seen then some k else firstRepeat (k :: seen) ks

theorem firstRepeat_eq_none_iff (seen ks : List String) :
    firstRepeat seen ks = none ↔ ks.Nodup ∧ ∀ k ∈ ks, k ∉ seen := by
  induction ks generalizing seen with
  | nil => simp [firstRepeat]
  | cons k ks ih =>
    by_cases h : k ∈ seen
    · simp [firstRepeat, h]
    · simp only [firstRepeat, if_neg h, ih, List.nodup_cons, List.mem_cons, not_or]
      constructor
      · rintro ⟨hn, hs⟩
        exact ⟨⟨fun hk => (hs k hk).1 rfl, hn⟩,
          fun x hx => hx.elim (fun e => e ▸ h) fun hx => (hs x hx).2⟩
      · rintro ⟨⟨hk, hn⟩, hs⟩
        exact ⟨hn, fun x hx => ⟨fun e => hk (e ▸ hx), hs x (Or.inr hx)⟩⟩

/-- A block of attributes, or the key that stands in it twice. -/
def ofPairs? (pairs : List (String × Node)) : Except String Attributes :=
  match firstRepeat [] (pairs.map Prod.fst) with
  | some key => .error key
  | none => .ok pairs

theorem ofPairs?_eq_ok_iff {pairs : List (String × Node)} :
    ofPairs? pairs = .ok pairs ↔ (pairs.map Prod.fst).Nodup := by
  have := firstRepeat_eq_none_iff [] (pairs.map Prod.fst)
  unfold ofPairs?
  split <;> simp_all

/-- The value of an attribute. -/
def get? (attributes : Attributes) (key : String) : Option Node :=
  attributes.lookup key

/-- The keys in the order of writing. -/
def keys (attributes : Attributes) : List String :=
  attributes.map Prod.fst

end Attributes

/-! ## Forms -/

/-- A tag with what belongs to it: the only kind of node that may stand alone. -/
structure Form where
  /-- The name of the tag. -/
  tag : String
  /-- The attributes, if there is a block of them. -/
  attributes : Option Attributes
  /-- The children. -/
  children : List Node
deriving DecidableEq, Inhabited, Repr

/-- A form as a node. -/
def Form.toNode (f : Form) : Node :=
  .tag f.tag f.attributes f.children

/-- A node as a form, if it is a tag. -/
def Node.form? : Node → Option Form
  | .tag name attributes children => some ⟨name, attributes, children⟩
  | _ => none

@[simp] theorem Node.form?_toNode (f : Form) : f.toNode.form? = some f := rfl

end MarkupForms

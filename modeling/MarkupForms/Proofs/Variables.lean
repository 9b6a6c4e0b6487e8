import MarkupForms.Proofs.RoundTrip
import MarkupForms.Proofs.Stacks
import MarkupForms.Proofs.Unmentioned

/-!
# The variables of a template

A template lists the variables that it refers to.  It finds them on a walk over its tree, which
comes to the attributes of a tag before its children.  That is the order of writing: what the walk
finds are the references among the tokens, one after the other, and of these the list has the first
segments, each where it occurs first.

A token between quotes is no reference, whatever it means on evaluation.

* `FirstOccurrences` : the elements of a list, each where it occurs first.
* `Grammar.variablePaths_of_isForm` : the walk over a form finds the references among its tokens.
* `Template.variableNames_of_tokens` : the variables that a template lists.
-/

namespace MarkupForms

/-! ## First occurrences -/

/-- Whether a list has the elements of another one, each of them once, in the order in which they
occur there first. -/
structure FirstOccurrences (all firsts : List String) : Prop where
  /-- Nothing is repeated. -/
  nodup : firsts.Nodup
  /-- All elements are there, and no others. -/
  mem_iff : ∀ x, x ∈ firsts ↔ x ∈ all
  /-- An element comes before those that occur after it. -/
  ordered : firsts.Pairwise fun x y => all.idxOf x < all.idxOf y

/-- One more element at the end is a first occurrence unless it was there before. -/
theorem FirstOccurrences.concat {all firsts : List String} (h : FirstOccurrences all firsts)
    (x : String) : FirstOccurrences (all ++ [x]) (if x ∈ all then firsts else firsts ++ [x]) := by
  have hidx {y : String} (hy : y ∈ all) : (all ++ [x]).idxOf y = all.idxOf y :=
    List.idxOf_append_of_mem hy
  have hordered : firsts.Pairwise fun y z => (all ++ [x]).idxOf y < (all ++ [x]).idxOf z := by
    refine h.ordered.imp_of_mem fun {y z} hy hz hlt => ?_
    rwa [hidx ((h.mem_iff y).1 hy), hidx ((h.mem_iff z).1 hz)]
  by_cases hx : x ∈ all
  · rw [if_pos hx]
    refine ⟨h.nodup, fun y => ?_, hordered⟩
    rw [h.mem_iff, List.mem_append, List.mem_singleton]
    exact ⟨.inl, fun hy => hy.elim id fun heq => heq ▸ hx⟩
  · rw [if_neg hx]
    have hlast : (all ++ [x]).idxOf x = all.length := by simp [List.idxOf_append, hx]
    refine ⟨?_, fun y => ?_, ?_⟩
    · refine List.nodup_append.2 ⟨h.nodup, List.nodup_singleton x, ?_⟩
      rintro y hy _ hz rfl
      exact hx ((h.mem_iff _).1 (List.mem_singleton.1 hz ▸ hy))
    · rw [List.mem_append, List.mem_append, h.mem_iff]
    · refine List.pairwise_append.2 ⟨hordered, List.pairwise_singleton _ _, ?_⟩
      intro y hy z hz
      have hy' := (h.mem_iff y).1 hy
      rw [List.mem_singleton.1 hz, hlast, hidx hy']
      exact List.idxOf_lt_length_of_mem hy'

theorem firstOccurrences_eraseDups (all : List String) : FirstOccurrences all all.eraseDups := by
  induction all using List.reverseRecOn with
  | nil => exact ⟨List.nodup_nil, fun _ => Iff.rfl, .nil⟩
  | append_singleton all x ih =>
    rw [Entries.eraseDups_concat]
    exact ih.concat x

/-! ## References -/

/-- What stands before the first dot of a path. -/
def Text.firstSegment (path : String) : String :=
  String.ofList (path.toList.takeWhile (· != '.'))

/-- The path that a token refers to, if it is a reference to a variable. -/
def Token.reference? (t : Token) : Option String :=
  if t.kind = .var then some t.value else none

namespace Node

/-- The path that a node refers to, if it is a reference to a variable. -/
def reference? : Node → Option String
  | .var path => some path
  | _ => none

/-- The paths that a node and what lies below it refer to, in the order of the walk. -/
def variablePaths (n : Node) : List String :=
  n.walk.filterMap reference?

/-- The variables of a node are the first segments of its references. -/
theorem variableNames_eq (n : Node) :
    n.variableNames = (n.variablePaths.map Text.firstSegment).eraseDups := by
  rw [variableNames, variablePaths, List.map_filterMap]
  congr 2
  funext m
  cases m with
  | var name =>
    have hhead := Text.head?_splitDots name.toList
    simp [path, Text.pathSegments, Text.firstSegment, reference?, hhead]
  | _ => rfl

end Node

/-! ## The references of a derivation -/

namespace Grammar

open Token (reference?)

theorem reference?_of_isLeaf {t : Token} {n : Node} (h : IsLeaf t n) :
    n.reference? = t.reference? := by
  cases h with
  | atom ht | string ht | var ht => simp [Node.reference?, Token.reference?, ht]

/-- A leaf is all that a walk over it visits. -/
theorem walk_of_isLeaf {t : Token} {n : Node} (h : IsLeaf t n) : n.walk = [n] := by
  cases h <;> rfl

theorem reference?_of_ne {t : Token} {k : Token.Kind} (ht : t.kind = k) (hk : k ≠ .var) :
    t.reference? = none :=
  if_neg (ht ▸ hk)

/-- The values of attributes refer to what their tokens refer to. -/
theorem variablePaths_of_isPairs {ts : List Token} {as : Attributes} (h : IsPairs ts as) :
    (as.map Prod.snd).filterMap Node.reference? = ts.filterMap reference? := by
  induction h with
  | nil => rfl
  | cons ho hk hv hc _ ih =>
    simp only [List.map_cons, List.filterMap_cons, reference?_of_ne ho (by decide),
      reference?_of_ne hk (by decide), reference?_of_ne hc (by decide), reference?_of_isLeaf hv, ih]

theorem variablePaths_of_isOptionalBlock {ts : List Token} {as : Option Attributes}
    (h : IsOptionalBlock ts as) :
    ((as.getD []).map Prod.snd).filterMap Node.reference? = ts.filterMap reference? := by
  cases h with
  | none => rfl
  | some h =>
    obtain ⟨ho, hm, hpairs, hc, -⟩ := h
    simp [reference?_of_ne ho (by decide), reference?_of_ne hm (by decide),
      reference?_of_ne hc (by decide), variablePaths_of_isPairs hpairs]

mutual

/-- The walk over a form finds the references among its tokens, in their order. -/
theorem variablePaths_of_isForm {ts : List Token} {f : Form} (h : IsForm ts f) :
    f.toNode.variablePaths = ts.filterMap reference? := by
  match h with
  | .mk ho ha hblock hchildren hc =>
    rw [Node.variablePaths, Form.toNode, Node.walk, List.filterMap_cons, List.filterMap_append,
      variablePaths_of_isOptionalBlock hblock, variablePaths_of_isChildren hchildren]
    simp [reference?_of_ne ho (by decide), reference?_of_ne ha (by decide),
      reference?_of_ne hc (by decide), Node.reference?]

/-- The same for children. -/
theorem variablePaths_of_isChildren {ts : List Token} {ns : List Node} (h : IsChildren ts ns) :
    (Node.walkAll ns).filterMap Node.reference? = ts.filterMap reference? := by
  match h with
  | .nil => rfl
  | .leaf hleaf hrest =>
    rw [Node.walkAll, List.filterMap_append, walk_of_isLeaf hleaf,
      variablePaths_of_isChildren hrest, List.filterMap_cons, List.filterMap_cons,
      List.filterMap_nil, reference?_of_isLeaf hleaf]
    cases reference? _ <;> rfl
  | .form hform hrest =>
    have hfirst := variablePaths_of_isForm hform
    rw [Node.variablePaths] at hfirst
    rw [Node.walkAll, List.filterMap_append, hfirst, variablePaths_of_isChildren hrest,
      List.filterMap_append]

end

end Grammar

/-! ## The variables of a template -/

namespace Template

/-- **The variables of a template.**  The tree of a template refers to what the tokens of its text
refer to, in their order, whether in attributes or below any number of tags.  The variables that the
template lists are the first segments of these references, each once, in the order in which they
occur first. -/
theorem variableNames_of_tokens {text name : String} {t : Template}
    (h : ofText? text name = .ok t) :
    ∃ tokens, Token.ofText text = .ok tokens ∧
      t.root.toNode.variablePaths = tokens.filterMap Token.reference? ∧
      FirstOccurrences ((tokens.filterMap Token.reference?).map Text.firstSegment)
        t.variableNames := by
  obtain ⟨form, hform, rfl⟩ : ∃ form, Form.ofText? text = .ok form ∧ t = ⟨form, name⟩ := by
    rw [ofText?] at h
    cases hread : Form.ofText? text <;> rw [hread] at h <;> cases h
    exact ⟨_, rfl, rfl⟩
  obtain ⟨ts, e, hscan, he, -, hderived⟩ := Form.ofText?_eq_ok_iff.1 hform
  have hreferences : form.toNode.variablePaths = (ts ++ [e]).filterMap Token.reference? := by
    rw [List.filterMap_append, ← Grammar.variablePaths_of_isForm hderived]
    simp [Grammar.reference?_of_ne he]
  refine ⟨ts ++ [e], hscan, hreferences, ?_⟩
  rw [variableNames, Node.variableNames_eq, ← hreferences]
  exact firstOccurrences_eraseDups _

/-- The variable `a` is mentioned in an attribute and again further below, so it is listed once and
first; the text between quotes mentions no variable. -/
theorem variableNames_of_nested :
    ofText? "(p (@ (k $a.b)) \"$d\" (q $c (r $a $e)))" "" =
        .ok ⟨⟨"p", some [("k", .var "a.b")],
          [.text "$d", .tag "q" none [.var "c", .tag "r" none [.var "a", .var "e"]]]⟩, ""⟩ ∧
      (∃ tokens, Token.ofText "(p (@ (k $a.b)) \"$d\" (q $c (r $a $e)))" = .ok tokens ∧
        (Node.tag "p" (some [("k", .var "a.b")]) [.text "$d", .tag "q" none
          [.var "c", .tag "r" none [.var "a", .var "e"]]]).variablePaths =
            tokens.filterMap Token.reference? ∧
        FirstOccurrences ((tokens.filterMap Token.reference?).map Text.firstSegment)
          ["a", "c", "e"]) := by
  have hread : ofText? "(p (@ (k $a.b)) \"$d\" (q $c (r $a $e)))" "" =
      .ok ⟨⟨"p", some [("k", .var "a.b")],
        [.text "$d", .tag "q" none [.var "c", .tag "r" none [.var "a", .var "e"]]]⟩, ""⟩ := by
    decide +kernel
  exact ⟨hread, variableNames_of_tokens hread⟩

end Template

end MarkupForms

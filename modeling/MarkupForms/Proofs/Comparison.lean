import MarkupForms.Proofs.Autoescape
import MarkupForms.Proofs.Balance
import Mathlib.Data.List.Nodup

/-!
# Comparisons and escaping

A comparison looks at the texts of its operands.  A leaf as an operand is never escaped, so what it
is compared with does not depend on the configuration.  A tag as an operand is evaluated like
everywhere else, and values inside of it are escaped if the configuration says so.

Whether this can be noticed depends on the values.  Where no text with a meaning in markup can be
reached, all comparisons agree.  Where one can be reached, even deep inside lists and maps, loops
and switches lead to it, and there is a comparison that comes out differently.

* `Text.escape_eq_self_iff` : the texts that escaping leaves alone.
* `Renderer.alike_of_comparesLeaves`, `Renderer.alike_of_ofText?` : what compares leaves only comes
  out the same.
* `Renderer.exists_splits` : a template gets at every part of a value.
* `Renderer.comparisons_agree_iff` : when comparisons agree.
-/

namespace MarkupForms

/-! ## Plain texts and plain values -/

namespace Text

/-- Whether no character of a text has a meaning in markup. -/
def IsPlain (s : String) : Prop :=
  ∀ c ∈ s.toList, c ∉ ['&', '<', '>', '"', '\'']

theorem escapeChar_of_plain {c : Char} (h : c ∉ ['&', '<', '>', '"', '\'']) :
    escapeChar c = [c] := by
  unfold escapeChar
  split <;> simp_all

theorem length_escapeChar (c : Char) : 1 ≤ (escapeChar c).length := by
  unfold escapeChar
  split <;> simp

theorem length_escapeChar_of_special {c : Char} (h : c ∈ ['&', '<', '>', '"', '\'']) :
    1 < (escapeChar c).length := by
  simp only [List.mem_cons, List.not_mem_nil, or_false] at h
  rcases h with rfl | rfl | rfl | rfl | rfl <;> decide

theorem length_le_escapeChars (s : List Char) : s.length ≤ (escapeChars s).length := by
  induction s with
  | nil => exact Nat.zero_le _
  | cons c s ih =>
    have hc := length_escapeChar c
    rw [escapeChars] at ih
    rw [escapeChars, List.flatMap_cons, List.length_append, List.length_cons]
    omega

/-- Escaping leaves exactly the plain texts alone. -/
theorem escape_eq_self_iff (s : String) : escape s = s ↔ IsPlain s := by
  constructor
  · intro h c hc hspecial
    have hchars := congrArg String.toList h
    rw [escape, String.toList_ofList] at hchars
    obtain ⟨before, after, hs⟩ := List.append_of_mem hc
    have hlength := congrArg List.length hchars
    have hbefore := length_le_escapeChars before
    have hafter := length_le_escapeChars after
    have hat := length_escapeChar_of_special hspecial
    rw [hs, escapeChars_append, escapeChars, escapeChars, List.flatMap_cons] at hlength
    simp only [List.length_append, List.length_cons, escapeChars] at hlength hbefore hafter
    omega
  · intro h
    have hchars : ∀ t : List Char, (∀ c ∈ t, c ∉ ['&', '<', '>', '"', '\'']) →
        escapeChars t = t := by
      intro t ht
      induction t with
      | nil => rfl
      | cons c t ih =>
        rw [escapeChars] at ih
        rw [escapeChars, List.flatMap_cons, escapeChar_of_plain (ht c List.mem_cons_self),
          ih fun d hd => ht d (List.mem_cons_of_mem c hd)]
        rfl
    rw [escape, hchars _ h, String.ofList_toList]

end Text

namespace Value

/-- Whether a value is another one or stands somewhere inside of it, where the keys of a map count
as texts. -/
inductive Within (w : Value) : Value → Prop where
  /-- The value itself. -/
  | here : Within w w
  /-- Inside an item of a list. -/
  | item {items : List Value} {v : Value} (hv : v ∈ items) (h : Within w v) :
      Within w (.list items)
  /-- The key of an entry of a map. -/
  | key {entries : List (String × Value)} {e : String × Value} (he : e ∈ entries)
      (h : Within w (.scalar e.1)) : Within w (.map entries)
  /-- Inside the value of an entry of a map. -/
  | entry {entries : List (String × Value)} {e : String × Value} (he : e ∈ entries)
      (h : Within w e.2) : Within w (.map entries)

/-- Whether all texts inside a value are plain. -/
def IsPlain (v : Value) : Prop :=
  ∀ s, Within (.scalar s) v → Text.IsPlain s

/-- Whether all maps inside a value have distinct keys, as those have that are made of entries. -/
def IsProper (v : Value) : Prop :=
  ∀ entries, Within (.map entries) v → (entries.map Prod.fst).Nodup

end Value

/-! ## Values that agree anyway -/

/-- Without a condition on the values, evaluation takes the same course. -/
theorem simulation_course : Simulation (fun _ => True) (fun _ _ => True) where
  source _ := trivial
  append _ _ := trivial
  value _ := trivial
  item _ _ _ := trivial
  entry _ _ _ := ⟨trivial, trivial⟩
  number _ := trivial

theorem Text.isPlain_repr (n : Nat) : Text.IsPlain n.repr := by
  intro c hc hspecial
  rw [Nat.toList_repr] at hc
  have hdigit := Nat.isDigit_of_mem_toDigits (by decide) (by decide) hc
  simp only [List.mem_cons, List.not_mem_nil, or_false] at hspecial
  rcases hspecial with rfl | rfl | rfl | rfl | rfl <;> exact absurd hdigit (by decide)

/-- No digit and no sign of a number has a meaning in markup. -/
theorem Text.isPlain_toString (n : Int) : Text.IsPlain (toString n) := by
  cases n with
  | ofNat m => exact isPlain_repr m
  | negSucc m =>
    intro c hc
    change c ∈ ("-" ++ (m + 1).repr).toList at hc
    rw [String.toList_append, List.mem_append] at hc
    rcases hc with hsign | hdigit
    · rw [List.mem_singleton.1 hsign]
      decide
    · exact isPlain_repr (m + 1) c hdigit

theorem Value.isPlain_scalar (s : String) : IsPlain (.scalar s) ↔ Text.IsPlain s := by
  constructor
  · exact fun h => h s .here
  · intro h t ht
    cases ht
    exact h

theorem Value.isProper_scalar (s : String) : IsProper (.scalar s) :=
  fun _ h => by cases h

/-- What loops bind is as proper as what they go over. -/
theorem simulation_proper : Simulation Value.IsProper (fun _ _ => True) where
  source _ := trivial
  append _ _ := trivial
  value _ := trivial
  item hv _ hmem entries h := hv entries (.item hmem h)
  entry hv e hmem := ⟨Value.isProper_scalar e.1, fun entries h => hv entries (.entry hmem h)⟩
  number _ := Value.isProper_scalar _

/-- Plain values have the same text with and without escaping. -/
theorem simulation_plain : Simulation Value.IsPlain Eq where
  source _ := rfl
  append hs ht := by rw [hs, ht]
  value {s} hs := ((Text.escape_eq_self_iff s).2 (hs s .here)).symm
  item hv _ hmem s hs := hv s (.item hmem hs)
  entry hv _ hmem := ⟨fun s hs => hv s (.key hmem hs), fun s hs => hv s (.entry hmem hs)⟩
  number n := (Value.isPlain_scalar _).2 (Text.isPlain_toString n)

/-! ## Comparing -/

namespace Renderer

/-- The position of the case that a switch selects, if there is one. -/
def selection (r : Renderer) (children : List Node) : Eval (Option Nat) :=
  Control.selection (children.map r.top.meaning)

/-- Whether a form has the same truth value with and without escaping, or the same failure. -/
def TestsAlike (r : Renderer) (c : Context) (n : Node) : Prop :=
  ((r.escaping true).test n).run c = ((r.escaping false).test n).run c

/-- Whether a switch selects the same case with and without escaping, or has the same failure. -/
def SelectsAlike (r : Renderer) (c : Context) (children : List Node) : Prop :=
  ((r.escaping true).selection children).run c = ((r.escaping false).selection children).run c

end Renderer

theorem Eval.Matches.run_eq {α : Type} {V : Value → Prop} {m m' : Eval α}
    (h : Eval.Matches V Eq m m') {c : Context} (hc : c.All V) : m'.run c = m.run c := by
  obtain ⟨o, o', hrun, hrun', hsame⟩ := h c hc
  rw [hrun, hrun']
  cases hsame with
  | ok hab => rw [hab]
  | error f => rfl

namespace Renderer

variable {V : Value → Prop} {T : String → String → Prop} {r : Renderer} {c : Context}

theorem testsAlike_of_fits (hS : Simulation V T) (hr : r.IsStandard) (hc : c.All V) {n : Node}
    (hfit : n.Fits T) : r.TestsAlike c n := by
  have hmatch := (matches_handle hS hr r.config.limit).meaning n (hfit.every_suits hS)
  exact Eval.Matches.run_eq hmatch.test hc

theorem selectsAlike_of_fits (hS : Simulation V T) (hr : r.IsStandard) (hc : c.All V)
    {attributes : Option Attributes} {children : List Node}
    (hfit : (Node.tag "switch" attributes children).Fits T) : r.SelectsAlike c children := by
  have hhandle := matches_handle hS hr r.config.limit
  refine Eval.Matches.run_eq (Control.pairs_selection (R := hS.pairing) (W := hS.rewriting) ?_
    fun m hm => ?_) hc
  · exact AllPaired.map fun n hn => hhandle.meaning n ((hfit.child hn).every_suits hS)
  · rw [List.head?_map] at hm
    obtain ⟨n, hn, rfl⟩ := Option.map_eq_some_iff.1 hm
    have hnode : ((r.escaping false).top.meaning n).node = n := hhandle.node n
    rw [hnode]
    exact hfit.head (.inl rfl) hn

/-- What compares leaves only comes out the same with and without escaping. -/
theorem alike_of_comparesLeaves (hr : r.IsStandard) (c : Context) {n : Node}
    (hn : n.ComparesLeaves) :
    r.TestsAlike c n ∧ ∀ attributes children, n = .tag "switch" attributes children →
      r.SelectsAlike c children := by
  refine ⟨testsAlike_of_fits simulation_course hr (fun _ _ _ => trivial) (.inl hn), ?_⟩
  rintro attributes children rfl
  exact selectsAlike_of_fits simulation_course hr (fun _ _ _ => trivial) (.inl hn)

end Renderer

/-! ## Templates that are read from a text -/

namespace Node

/-- Whether the operands of all comparisons in a tree are leaves. -/
def HasLeafOperands (n : Node) : Prop :=
  n.Every fun m => ∀ name attributes children, m = .tag name attributes children →
    OperandsAreLeaves name children

/-- In what can be written the values of attributes are leaves anyway, so only operands count. -/
theorem comparesLeaves_iff {n : Node} (hn : n.Writable) : n.ComparesLeaves ↔ n.HasLeafOperands := by
  constructor
  · rintro h m hm name attributes children rfl
    exact (h.of_mem_subtrees hm).operands
  intro hoperands
  induction n using Node.induction with
  | text s => trivial
  | var name => trivial
  | hole => trivial
  | tag name attributes children hattributes hchildren =>
    obtain ⟨-, hvalues, hwritable⟩ := hn.parts
    have hself := Every.self hoperands name attributes children rfl
    have hall : AllCompareLeaves children := allCompareLeaves_iff.2 fun m hm =>
      hchildren m hm (hwritable m hm) (Every.child hoperands hm)
    cases attributes with
    | none => exact ⟨hself, hall⟩
    | some attributes => exact ⟨hself, fun e he => (hvalues e he).2.1, hall⟩

end Node

/-- In a template that is read from a text, a form with leaves for operands comes out the same with
and without escaping. -/
theorem Renderer.alike_of_ofText? {r : Renderer} (hr : r.IsStandard) {text name : String}
    {t : Template} (ht : Template.ofText? text name = .ok t) (c : Context) {n : Node}
    (hmem : n ∈ t.root.toNode.subtrees) (hoperands : n.HasLeafOperands) :
    r.TestsAlike c n ∧ ∀ attributes children, n = .tag "switch" attributes children →
      r.SelectsAlike c children := by
  have hwritable := Node.every_writable _ (Template.writable_of_ofText? ht) n hmem
  exact alike_of_comparesLeaves hr c ((Node.comparesLeaves_iff hwritable).2 hoperands)

/-! ## Texts that stand for themselves -/

namespace Segment

/-- A text in which signs are doubled, so that it stands for the text itself. -/
def doubled (s : List Char) : List Char :=
  s.flatMap fun c => if c = '$' then ['$', '$'] else [c]

theorem segments_doubled (s : List Char) :
    segments (doubled s) = s.map fun c => if c = '$' then .sign else .char c := by
  induction s with
  | nil => rfl
  | cons c s ih =>
    rw [segments] at ih
    rw [segments, doubled, List.flatMap_cons, List.map_cons, ← ih]
    by_cases hc : c = '$'
    · simp [hc, segmentsAfter, doubled]
    · simp [hc, segmentsAfter, doubled]

end Segment

namespace Eval

variable {α : Type} {c : Context}

theorem run_bind_ok {β : Type} {m : Eval α} {a : α} (h : m.run c = (.ok a, c))
    (k : α → Eval β) : (m >>= k).run c = (k a).run c := by
  rw [run_bind, h]

/-- A loop whose rounds all end well in the same context. -/
theorem run_forEach {body : α → Eval (List String)} {parts : α → List String} {xs : List α}
    (h : ∀ x ∈ xs, (body x).run c = (.ok (parts x), c)) :
    (forEach body xs).run c = (.ok (xs.flatMap parts), c) := by
  induction xs with
  | nil => rfl
  | cons x xs ih =>
    have hrest := ih fun y hy => h y (List.mem_cons_of_mem x hy)
    rw [forEach, run_bind_ok (h x List.mem_cons_self), run_bind_ok hrest, List.flatMap_cons]
    rfl

theorem forEach_map {β : Type} (body : β → Eval (List String)) (f : α → β) (xs : List α) :
    forEach body (xs.map f) = forEach (fun x => body (f x)) xs := by
  induction xs with
  | nil => rfl
  | cons x xs ih => rw [List.map_cons, forEach, forEach, ih]

theorem run_resolve_ok {path : String} {v : Value} (h : c.resolve path = .ok v) :
    (resolve path).run c = (.ok v, c) := by
  rw [run_resolve, h]
  rfl

theorem run_scalar {path text : String} (h : c.resolve path = .ok (.scalar text)) :
    (scalar path).run c = (.ok text, c) := by
  rw [scalar, run_bind_ok (run_resolve_ok h)]
  rfl

/-- A text whose signs are doubled stands for itself. -/
theorem run_interpolate_doubled (r : Renderer) (escaping : Bool) (s : String) (c : Context) :
    (interpolate r escaping (String.ofList (Segment.doubled s.toList))).run c = (.ok s, c) := by
  have hsegment (d : Char) : segment r escaping (if d = '$' then .sign else .char d) =
      pure (String.ofList [d]) := by
    split
    · rename_i hd
      rw [hd]
      rfl
    · rfl
  have hsegments : (segments r escaping (Segment.segments (Segment.doubled s.toList))).run c =
      (.ok (s.toList.flatMap fun d => [String.ofList [d]]), c) := by
    rw [Segment.segments_doubled, segments, forEach_map]
    refine run_forEach ?_
    intro d _
    rw [hsegment, pure_bind]
    rfl
  have hjoin (t : List Char) :
      String.join (t.flatMap fun d => [String.ofList [d]]) = String.ofList t := by
    induction t with
    | nil => rfl
    | cons d t ih =>
      rw [List.flatMap_cons, List.singleton_append, String.join_cons, ih, ← String.ofList_append]
      rfl
  rw [interpolate, joined, String.toList_ofList, run_bind_ok hsegments, hjoin, String.ofList_toList]
  rfl

end Eval

/-! ## Templates that get at a part of a value -/

namespace Node

/-- A leaf with a given text. -/
def literal (s : String) : Node :=
  .text (String.ofList (Segment.doubled s.toList))

/-- A node under the condition that a leaf has a given text. -/
def pick (scrutinee : Node) (label : String) (body : Node) : Node :=
  .tag "switch" none [scrutinee, .tag "case" none [literal label, body]]

/-- A node for each item of a list or each entry of a map, where `x` stands for it and `i` for its
position or its key. -/
def each (path : String) (body : Node) : Node :=
  .tag "for" (some [("iterate", .var path), ("var", .text "x"), ("index", .text "i"),
    ("key", .text "i"), ("value", .text "x")]) [body]

end Node

namespace Renderer

variable {r : Renderer} {inner : Option Handle} {c : Context}

theorem run_operand_literal (s : String) :
    (r.denote inner (.literal s)).operand.run c = (.ok s, c) := by
  rw [Node.literal, denote]
  exact Eval.run_interpolate_doubled r false s c

theorem run_operand_var {path s : String} (h : c.resolve path = .ok (.scalar s)) :
    (r.denote inner (.var path)).operand.run c = (.ok s, c) := by
  rw [denote]
  show ((Eval.scalar path) >>= fun text => pure (r.outputIf false text)).run c = _
  rw [Eval.run_bind_ok (Eval.run_scalar h)]
  rfl

theorem run_evaluate_var {path s : String} (h : c.resolve path = .ok (.scalar s)) :
    (r.denote inner (.var path)).evaluate.run c = (.ok [r.output s], c) := by
  rw [denote]
  show ((Eval.scalar path) >>= fun text => pure [r.output text]).run c = _
  rw [Eval.run_bind_ok (Eval.run_scalar h)]
  rfl

theorem evaluateAll_singleton (m : Meaning) : evaluateAll [m] = m.evaluate := by
  simp [evaluateAll, Eval.forEach]

/-- A node is evaluated if the leaf has the text, and nothing is otherwise. -/
theorem run_pick {scrutinee : Node} {s : String}
    (h : (r.denote inner scrutinee).operand.run c = (.ok s, c)) (label : String) (body : Node) :
    (r.denote inner (.pick scrutinee label body)).evaluate.run c =
      if s = label then (r.denote inner body).evaluate.run c else (.ok [], c) := by
  have harm : Control.switchArms [r.denote inner (.tag "case" none [.literal label, body])] =
      pure [⟨(r.denote inner (.literal label)).operand, evaluateAll [r.denote inner body]⟩] := by
    rw [denote, denoteAll, denoteAll, denoteAll]
    rfl
  have hswitch : (r.denote inner (.pick scrutinee label body)).evaluate = Control.switch
      [r.denote inner scrutinee, r.denote inner (.tag "case" none [.literal label, body])] := by
    rw [Node.pick, denote, denoteAll, denoteAll, denoteAll]
    rfl
  rw [hswitch, Control.switch, harm, pure_bind, Eval.run_bind_ok h, Control.select,
    Eval.run_bind_ok (run_operand_literal label), evaluateAll_singleton]
  by_cases hs : s = label
  · rw [if_pos hs, if_pos hs.symm]
  · rw [if_neg hs, if_neg (Ne.symm hs)]
    rfl

/-- The meanings of the attributes of a loop over what a path leads to. -/
def eachAttributes (r : Renderer) (path : String) : List (String × Meaning) :=
  [("iterate", .ofVar r path), ("var", .ofText r "x"), ("index", .ofText r "i"),
    ("key", .ofText r "i"), ("value", .ofText r "x")]

theorem evaluate_each (path : String) (body : Node) :
    (r.denote inner (.each path body)).evaluate =
      Control.sourceLoop (r.eachAttributes path) path [r.denote inner body] := by
  rw [Node.each, denote, denoteAll, denoteAll]
  simp only [denoteEntries, denote]
  rfl

theorem requiredName_of_text {es : List (String × Meaning)} {key name : String} {m : Meaning}
    (h : es.lookup key = some m) (hnode : m.node = .text name) :
    Control.requiredName es key = Control.loopName (.text name) := by
  rw [Control.requiredName, h]
  dsimp only
  rw [hnode]

theorem requiredName_of_lookup {es : List (String × Meaning)} {key name : String} {m : Meaning}
    (h : es.lookup key = some m) (hnode : m.node = .text name)
    (hname : Text.isName name.toList = true) : Control.requiredName es key = pure name :=
  (requiredName_of_text h hnode).trans (if_pos hname)

theorem optionalName_of_lookup {es : List (String × Meaning)} {key name : String} {m : Meaning}
    (h : es.lookup key = some m) (hnode : m.node = .text name)
    (hname : Text.isName name.toList = true) :
    Control.optionalName es key = pure (some name) := by
  have hloop : (Control.loopName (.text name) : Eval String) = pure name := if_pos hname
  rw [Control.optionalName, h]
  dsimp only
  rw [hnode, hloop]
  rfl

/-- A loop over a list binds the items and their positions. -/
theorem run_each_list {path : String} {items : List Value} (h : c.resolve path = .ok (.list items))
    (body : Node) : (r.denote inner (.each path body)).evaluate.run c =
      (Control.overPositions "x" "i" items [r.denote inner body]).run c := by
  have hvar : Control.requiredName (r.eachAttributes path) "var" = pure "x" :=
    requiredName_of_lookup rfl rfl (by decide)
  have hindex : Control.optionalName (r.eachAttributes path) "index" = pure (some "i") :=
    optionalName_of_lookup rfl rfl (by decide)
  rw [evaluate_each, Control.sourceLoop, Eval.run_bind_ok (Eval.run_resolve_ok h)]
  dsimp only
  rw [hvar, hindex, pure_bind, pure_bind]

/-- A loop over a map binds the keys and the values. -/
theorem run_each_map {path : String} {entries : List (String × Value)}
    (h : c.resolve path = .ok (.map entries)) (body : Node) :
    (r.denote inner (.each path body)).evaluate.run c =
      (Control.overEntries "i" "x" entries [r.denote inner body]).run c := by
  have hkey : Control.requiredName (r.eachAttributes path) "key" = pure "i" :=
    requiredName_of_lookup rfl rfl (by decide)
  have hvalue : Control.requiredName (r.eachAttributes path) "value" = pure "x" :=
    requiredName_of_lookup rfl rfl (by decide)
  rw [evaluate_each, Control.sourceLoop, Eval.run_bind_ok (Eval.run_resolve_ok h)]
  dsimp only
  rw [hkey, hvalue, pure_bind, pure_bind]

/-- Whether a node has different texts with and without escaping. -/
def Splits (r : Renderer) (c : Context) (n : Node) : Prop :=
  ∃ parts : Bool → List String,
    (∀ b inner, ((r.escaping b).denote inner n).evaluate.run c = (.ok (parts b), c)) ∧
      String.join (parts false) ≠ String.join (parts true)

theorem splits_var {path s : String} (h : c.resolve path = .ok (.scalar s))
    (hs : ¬ Text.IsPlain s) : Splits r c (.var path) := by
  refine ⟨fun b => [(r.escaping b).output s], fun b inner => run_evaluate_var h, fun heq => hs ?_⟩
  have hescape : s = Text.escape s := by simpa [output, escaping] using heq
  exact (Text.escape_eq_self_iff s).1 hescape.symm

theorem flatMap_label {α β : Type} {xs : List α} {label : α → String}
    (hxs : (xs.map label).Nodup) {x : α} (hx : x ∈ xs) (ys : List β) :
    (xs.flatMap fun y => if label y = label x then ys else []) = ys := by
  induction xs with
  | nil => cases hx
  | cons a xs ih =>
    rw [List.map_cons, List.nodup_cons] at hxs
    rw [List.flatMap_cons]
    rcases List.mem_cons.1 hx with rfl | hx
    · have hrest : (xs.flatMap fun y => if label y = label x then ys else []) = [] := by
        refine List.flatMap_eq_nil_iff.2 fun y hy => if_neg fun hlabel => hxs.1 ?_
        rw [← hlabel]
        exact List.mem_map_of_mem hy
      rw [if_pos rfl, hrest, List.append_nil]
    · have ha : label a ≠ label x := by
        intro hlabel
        refine hxs.1 ?_
        rw [hlabel]
        exact List.mem_map_of_mem hx
      rw [if_neg ha, List.nil_append, ih hxs.2 hx]

/-- A loop gets at whatever one of its rounds gets at, if the rounds have distinct labels. -/
theorem Splits.each {α : Type} {xs : List α} {bindings : α → List (String × Value)}
    {label : α → String} {path : String}
    (hloop : ∀ (r : Renderer) inner body, (r.denote inner (.each path body)).evaluate.run c =
      (Eval.forEach (fun x => Control.round (bindings x) [r.denote inner body]) xs).run c)
    (hlabel : ∀ x ∈ xs, (c.pushFrame (.ofList (bindings x))).resolve "i" = .ok (.scalar (label x)))
    (hnodup : (xs.map label).Nodup) {x : α} (hx : x ∈ xs) {n : Node}
    (h : Splits r (c.pushFrame (.ofList (bindings x))) n) :
    Splits r c (.each path (.pick (.var "i") (label x) n)) := by
  obtain ⟨parts, hparts, hne⟩ := h
  refine ⟨parts, fun b inner => ?_, hne⟩
  have hround : ∀ y ∈ xs, (Control.round (bindings y)
      [(r.escaping b).denote inner (.pick (.var "i") (label x) n)]).run c =
        (.ok (if label y = label x then parts b else []), c) := by
    intro y hy
    rw [Control.round, Eval.run_inChild, evaluateAll_singleton,
      run_pick (run_operand_var (hlabel y hy))]
    by_cases hxy : label y = label x
    · obtain rfl := List.inj_on_of_nodup_map hnodup hy hx hxy
      rw [if_pos rfl, if_pos rfl, hparts]
      rfl
    · rw [if_neg hxy, if_neg hxy]
      rfl
  rw [hloop, Eval.run_forEach hround, flatMap_label hnodup hx]

theorem resolve_pushFrame {name : String}
    (hname : Text.pathSegments (Context.normalize name) = [name])
    (hnormal : Context.normalize name = name) {bindings : List (String × Value)} {v : Value}
    (h : (Frame.ofList bindings).lookup name = some v) :
    (c.pushFrame (.ofList bindings)).resolve name = .ok v := by
  rw [Context.resolve, hname, Context.resolveSegments, Context.lookup, Context.find?_pushFrame,
    hnormal, h]
  rfl

/-- What a loop binds for an item of a list at some position. -/
def position (p : Value × Nat) : List (String × Value) :=
  [("x", p.1), ("i", .scalar (toString p.2))]

/-- What a loop binds for an entry of a map. -/
def binding (e : String × Value) : List (String × Value) :=
  [("i", .scalar e.1), ("x", e.2)]

theorem repr_injective : Function.Injective Nat.repr := by
  intro m n h
  have hdigits := congrArg String.toList h
  rw [Nat.toList_repr, Nat.toList_repr] at hdigits
  calc m = Nat.ofDigitChars 10 (Nat.toDigits 10 m) 0 := Nat.ofDigitChars_ten_toDigits.symm
    _ = Nat.ofDigitChars 10 (Nat.toDigits 10 n) 0 := by rw [hdigits]
    _ = n := Nat.ofDigitChars_ten_toDigits

theorem nodup_positions (items : List Value) :
    (items.zipIdx.map fun p => toString p.2).Nodup := by
  have hmap : (items.zipIdx.map fun p => toString p.2) =
      (List.range' 0 items.length).map Nat.repr := by
    rw [← List.zipIdx_map_snd 0 items, List.map_map]
    rfl
  rw [hmap]
  exact List.Nodup.map repr_injective List.nodup_range'

theorem Splits.ofItem {path : String} {items : List Value}
    (hpath : c.resolve path = .ok (.list items)) {p : Value × Nat} (hp : p ∈ items.zipIdx)
    {n : Node}
    (h : Splits r (c.pushFrame (.ofList (position p))) n) :
    Splits r c (.each path (.pick (.var "i") (toString p.2) n)) := by
  refine Splits.each (fun r inner body => ?_) (fun p _ => ?_) (nodup_positions items) hp h
  · exact run_each_list hpath body
  · exact resolve_pushFrame (by decide) (by decide) rfl

theorem Splits.ofEntry {path : String} {entries : List (String × Value)}
    (hpath : c.resolve path = .ok (.map entries)) (hnodup : (entries.map Prod.fst).Nodup)
    {e : String × Value} (he : e ∈ entries) {n : Node}
    (h : Splits r (c.pushFrame (.ofList (binding e))) n) :
    Splits r c (.each path (.pick (.var "i") e.1 n)) := by
  refine Splits.each (fun r inner body => ?_) (fun e _ => ?_) hnodup he h
  · exact run_each_map hpath body
  · exact resolve_pushFrame (by decide) (by decide) rfl

/-- Loops and switches get at every part of a value. -/
theorem exists_splits {s : String} (hs : ¬ Text.IsPlain s) {v : Value}
    (hv : Value.Within (.scalar s) v) (hproper : v.IsProper) (c : Context) (path : String)
    (hpath : c.resolve path = .ok v) : ∃ n, Splits r c n := by
  induction hv generalizing c path with
  | here => exact ⟨.var path, splits_var hpath hs⟩
  | @item items v hv _ ih =>
    obtain ⟨j, hj⟩ := List.mem_iff_getElem?.1 hv
    have hmem : (v, j) ∈ items.zipIdx := List.mem_zipIdx_iff_getElem?.2 hj
    obtain ⟨n, hn⟩ := ih (fun entries h => hproper entries (.item hv h))
      (c.pushFrame (.ofList (position (v, j)))) "x" (resolve_pushFrame (by decide) (by decide) rfl)
    exact ⟨_, hn.ofItem hpath hmem⟩
  | @key entries e he _ ih =>
    obtain ⟨n, hn⟩ := ih (fun entries h => by cases h)
      (c.pushFrame (.ofList (binding e))) "i" (resolve_pushFrame (by decide) (by decide) rfl)
    exact ⟨_, hn.ofEntry hpath (hproper entries .here) he⟩
  | @entry entries e he _ ih =>
    obtain ⟨n, hn⟩ := ih (fun inside h => hproper inside (.entry he h))
      (c.pushFrame (.ofList (binding e))) "x" (resolve_pushFrame (by decide) (by decide) rfl)
    exact ⟨_, hn.ofEntry hpath (hproper entries .here) he⟩

/-! ## Comparisons that differ -/

theorem exists_meaning_top (r : Renderer) : ∃ inner, ∀ n, r.top.meaning n = r.denote inner n := by
  unfold top
  cases r.config.limit with
  | zero => exact ⟨none, fun _ => rfl⟩
  | succ room => exact ⟨some (r.handle room), fun _ => rfl⟩

/-- A node under a condition that always holds is an operand with the text of the node. -/
theorem run_operand_pick {n : Node} {parts : List String}
    (h : (r.denote inner n).evaluate.run c = (.ok parts, c)) (s : String) :
    (r.denote inner (.pick (.literal s) s n)).operand.run c = (.ok (String.join parts), c) := by
  have hparts : (r.denote inner (.pick (.literal s) s n)).evaluate.run c = (.ok parts, c) := by
    rw [run_pick (run_operand_literal s), if_pos rfl, h]
  have hoperand : (r.denote inner (.pick (.literal s) s n)).operand =
      Eval.joined (r.denote inner (.pick (.literal s) s n)).evaluate := by
    rw [Node.pick, denote]
    rfl
  rw [hoperand, Eval.joined, Eval.run_bind_ok hparts]
  rfl

theorem run_test {name : String} {p : Predicate}
    (hp : r.registry.get? name = some (.predicate p)) {left right : Node} {b : Bool}
    (h : (p.holds [r.denote inner left, r.denote inner right]).run c.push = (.ok b, c.push)) :
    (r.denote inner (.tag name none [left, right])).test.run c = (.ok b, c) := by
  have hpredicate : r.registry.predicate? name = some p := by
    rw [Registry.predicate?, hp]
  have hguarded : (Eval.guarded name (p.holds [r.denote inner left, r.denote inner right])).run
      c.push = (.ok b, c.push) := by
    rw [Eval.guarded, Eval.run_tryCatch, h]
  rw [denote, denoteAll, denoteAll, denoteAll]
  show (r.condition _ name [r.denote inner left, r.denote inner right]).run c = _
  rw [condition, hpredicate]
  show (Eval.inChild .empty (Eval.guarded name _)).run c = _
  rw [Eval.run_inChild, show c.pushFrame .empty = c.push from rfl, hguarded]
  rfl

theorem exists_not_testsAlike {name : String} {p : Predicate}
    (hp : r.registry.get? name = some (.predicate p)) (hcompares : p = .equal ∨ p = .unequal)
    {n : Node} (h : Splits r c.push n) :
    ∃ attributes children, ¬ r.TestsAlike c (.tag name attributes children) := by
  obtain ⟨parts, hparts, hne⟩ := h
  let text (b : Bool) : String := String.join (parts b)
  have hsame (b : Bool) (inner : Option Handle) (form : String) :
      (Predicate.sameOperands form [(r.escaping b).denote inner (.pick (.literal "") "" n),
        (r.escaping b).denote inner (.literal (text false))]).run c.push =
        (.ok (text b == text false), c.push) := by
    rw [Predicate.sameOperands, Eval.run_bind_ok (run_operand_pick (hparts b inner) ""),
      Eval.run_bind_ok (run_operand_literal (text false))]
    rfl
  have hholds : ∃ f : Bool → Bool, f true ≠ f false ∧ ∀ b inner,
      (p.holds [(r.escaping b).denote inner (.pick (.literal "") "" n),
        (r.escaping b).denote inner (.literal (text false))]).run c.push =
        (.ok (f (text b == text false)), c.push) := by
    rcases hcompares with rfl | rfl
    · exact ⟨id, by decide, fun b inner => hsame b inner "eq"⟩
    · refine ⟨not, by decide, fun b inner => ?_⟩
      rw [Predicate.holds, Eval.run_bind_ok (hsame b inner "ne")]
      rfl
  obtain ⟨f, hf, hholds⟩ := hholds
  refine ⟨none, [.pick (.literal "") "" n, .literal (text false)], fun halike => ?_⟩
  have htest (b : Bool) : ((r.escaping b).test (.tag name none
      [.pick (.literal "") "" n, .literal (text false)])).run c =
        (.ok (f (text b == text false)), c) := by
    obtain ⟨inner, hinner⟩ := exists_meaning_top (r.escaping b)
    have hregistered : (r.escaping b).registry.get? name = some (.predicate p) := hp
    rw [test, hinner]
    exact run_test hregistered (hholds b inner)
  have hdiffers : (text true == text false) = false := beq_false_of_ne (Ne.symm hne)
  rw [TestsAlike, htest, htest, hdiffers, beq_self_eq_true] at halike
  exact hf (Except.ok.inj (Prod.mk.inj halike).1).symm

theorem exists_not_selectsAlike {n : Node} (h : Splits r c n) :
    ∃ children, ¬ r.SelectsAlike c children := by
  obtain ⟨parts, hparts, hne⟩ := h
  let text (b : Bool) : String := String.join (parts b)
  let children : List Node :=
    [.pick (.literal "") "" n, .tag "case" none [.literal (text false)]]
  have hselection (b : Bool) : ((r.escaping b).selection children).run c =
      (.ok (if text false = text b then some 0 else none), c) := by
    obtain ⟨inner, hinner⟩ := exists_meaning_top (r.escaping b)
    have harm : Control.switchArms [(r.escaping b).denote inner
        (.tag "case" none [.literal (text false)])] =
          pure [⟨((r.escaping b).denote inner (.literal (text false))).operand, pure []⟩] := by
      rw [denote, denoteAll, denoteAll]
      rfl
    rw [selection, List.map_cons, List.map_cons, List.map_nil, hinner, hinner, Control.selection,
      harm, pure_bind, Eval.run_bind_ok (run_operand_pick (hparts b inner) ""), Control.choose,
      Eval.run_bind_ok (run_operand_literal (text false))]
    split <;> rfl
  refine ⟨children, fun halike => hne ?_⟩
  rw [SelectsAlike, hselection, hselection, if_pos rfl] at halike
  by_contra htexts
  rw [if_neg htexts] at halike
  cases halike

end Renderer

/-! ## When comparisons agree -/

theorem Context.resolve_push (c : Context) (path : String) :
    c.push.resolve path = c.resolve path := by
  rw [resolve, resolve]
  cases Text.pathSegments (normalize path) with
  | nil => rfl
  | cons head keys => rw [resolveSegments, resolveSegments, lookup_push]

theorem Context.all_empty {V : Value → Prop} : Context.empty.All V := by
  intro path v hv
  unfold resolve at hv
  cases hsegments : Text.pathSegments (normalize path) with
  | nil =>
    rw [hsegments] at hv
    cases hv
  | cons head keys =>
    rw [hsegments] at hv
    cases hv

theorem Context.all_push {V : Value → Prop} {c : Context} : c.push.All V ↔ c.All V := by
  simp only [All, resolve_push]

namespace Renderer

variable {r : Renderer} {c : Context}

/-- Where a text that is not plain can be reached, some node has different texts. -/
theorem exists_splits_of_not_plain (hproper : c.All Value.IsProper) (h : ¬ c.All Value.IsPlain) :
    ∃ n, Splits r c n := by
  simp only [Context.All, Value.IsPlain, not_forall] at h
  obtain ⟨path, v, hv, s, hs, hplain⟩ := h
  exact exists_splits hplain hs (hproper path v hv) c path hv

theorem forall_testsAlike_iff (hr : r.IsStandard) {name : String} {p : Predicate}
    (hp : r.registry.get? name = some (.predicate p)) (hcompares : p = .equal ∨ p = .unequal)
    (hproper : c.All Value.IsProper) :
    (∀ attributes children, r.TestsAlike c (.tag name attributes children)) ↔
      c.All Value.IsPlain := by
  constructor
  · intro h
    by_contra hplain
    obtain ⟨n, hn⟩ := exists_splits_of_not_plain (r := r) (Context.all_push.2 hproper)
      (mt Context.all_push.1 hplain)
    obtain ⟨attributes, children, hdiffer⟩ := exists_not_testsAlike hp hcompares hn
    exact hdiffer (h attributes children)
  · intro hc attributes children
    exact testsAlike_of_fits simulation_plain hr hc (.inr fun _ _ h => h)

theorem forall_selectsAlike_iff (hr : r.IsStandard) (hproper : c.All Value.IsProper) :
    (∀ children, r.SelectsAlike c children) ↔ c.All Value.IsPlain := by
  constructor
  · intro h
    by_contra hplain
    obtain ⟨n, hn⟩ := exists_splits_of_not_plain (r := r) hproper hplain
    obtain ⟨children, hdiffer⟩ := exists_not_selectsAlike hn
    exact hdiffer (h children)
  · intro hc children
    have hfit : (Node.tag "switch" none children).Fits Eq := .inr fun _ _ h => h
    exact selectsAlike_of_fits simulation_plain hr hc hfit

/-- **When comparisons agree.**  The predicates of the library and switches come out the same with
and without escaping wherever all operands are leaves.  Other operands are escaped if the
configuration says so.  So in a given context all comparisons for equality agree exactly when all
texts that can be reached are plain; and so do all for inequality, and all switches. -/
theorem comparisons_agree_iff (r : Renderer) (hr : Registry.create [] true = .ok r.registry) :
    (∀ (c : Context) (n : Node), n.ComparesLeaves → r.TestsAlike c n ∧
        ∀ attributes children, n = .tag "switch" attributes children →
          r.SelectsAlike c children) ∧
      ∀ c : Context, c.All Value.IsProper →
        ((∀ attributes children, r.TestsAlike c (.tag "eq" attributes children)) ↔
            c.All Value.IsPlain) ∧
          ((∀ attributes children, r.TestsAlike c (.tag "ne" attributes children)) ↔
            c.All Value.IsPlain) ∧
          ((∀ children, r.SelectsAlike c children) ↔ c.All Value.IsPlain) := by
  have hstandard := isStandard_of_create hr
  have heq : r.registry.get? "eq" = some (.predicate .equal) := by
    rw [Registry.get?, Registry.entries_of_create hr]
    rfl
  have hne : r.registry.get? "ne" = some (.predicate .unequal) := by
    rw [Registry.get?, Registry.entries_of_create hr]
    rfl
  refine ⟨fun c n hn => alike_of_comparesLeaves hstandard c hn, fun c hproper => ⟨?_, ?_, ?_⟩⟩
  · exact forall_testsAlike_iff hstandard heq (.inl rfl) hproper
  · exact forall_testsAlike_iff hstandard hne (.inr rfl) hproper
  · exact forall_selectsAlike_iff hstandard hproper

/-- Where a variable stands for a text that is not plain, some comparison depends on escaping. -/
theorem not_forall_testsAlike_library : Registry.create [] true = .ok library.registry ∧
    ¬ ∀ attributes children,
      library.TestsAlike (Context.empty.pushFrame (.ofList [("x", .scalar "<")]))
        (.tag "eq" attributes children) := by
  have hproper : (Context.empty.pushFrame (.ofList [("x", .scalar "<")])).All Value.IsProper := by
    refine Context.all_empty.pushFrame simulation_proper ?_
    intro b hb
    rw [List.mem_singleton.1 hb]
    exact Value.isProper_scalar "<"
  refine ⟨rfl, fun h => ?_⟩
  have hplain := ((comparisons_agree_iff library rfl).2 _ hproper).1.1 h
  have hx := hplain "x" (.scalar "<") (resolve_pushFrame (by decide) (by decide) rfl)
  exact (Value.isPlain_scalar "<").1 hx '<' (by decide) (by decide)

/-- The form `(eq (b $x) "<b><</b>")`, whose first operand is a tag. -/
def tagComparison : Node :=
  .tag "eq" none [.tag "b" none [.var "x"], .text "<b><</b>"]

/-- A comparison of a tag that holds without escaping and fails with it. -/
theorem tagComparison_depends_on_escaping : Registry.create [] true = .ok library.registry ∧
    (((library.escaping false).test tagComparison).run (.ofList [("x", .scalar "<")])).1 =
      .ok true ∧
    (((library.escaping true).test tagComparison).run (.ofList [("x", .scalar "<")])).1 =
      .ok false :=
  ⟨rfl, rfl, rfl⟩

end Renderer

end MarkupForms

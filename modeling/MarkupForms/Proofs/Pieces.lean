import MarkupForms.Proofs.Comparison
import MarkupForms.Proofs.Endings

/-!
# Escaping replaces the values and nothing else

The output is made of pieces: what stands in the template and in the markup that is written for its
tags, and the values that are put in.  Here evaluation is gone through again in a way that keeps the
pieces apart.  A fragment has a mark in front of it that says whether it is a value; so control
forms, which only put fragments together, are the same as ever.

With escaping and without it, a template is rendered from the same pieces; in the one case the
values are escaped in their places, in the other they are not.

* `Piece` : a piece of the output.
* `Renderer.marking` : evaluation with marks; `Renderer.pieces` : the pieces of a template.
* `Renderer.paired_marked` : fragments with marks and fragments of the output.
* `Renderer.run_render_escaping`, `Renderer.run_render_escaping_ofText?` : what is rendered are the
  pieces; of a template that is read from a text, only operands are asked to be leaves.
* `Renderer.escaping_replaces_values` : the output, with and without escaping.
-/

namespace MarkupForms

open Eval

/-! ## Pieces -/

/-- A piece of the output. -/
inductive Piece where
  /-- What stands in the template or belongs to the markup. -/
  | source (s : String)
  /-- A value that is put in. -/
  | value (s : String)
deriving DecidableEq, Repr

namespace Piece

/-- A piece in the output, where values are escaped or not. -/
def written (escaping : Bool) : Piece → String
  | .source s => s
  | .value s => if escaping then Text.escape s else s

/-- Pieces in the output, one after the other. -/
def output (escaping : Bool) (ps : List Piece) : String :=
  String.join (ps.map (written escaping))

theorem output_append (escaping : Bool) (ps qs : List Piece) :
    output escaping (ps ++ qs) = output escaping ps ++ output escaping qs := by
  rw [output, List.map_append, String.join_append, output, output]

/-- A piece as a fragment with a mark in front of it. -/
def code : Piece → String
  | .source s => "s" ++ s
  | .value s => "v" ++ s

/-- The piece that a fragment with a mark stands for. -/
def ofCode (code : String) : Piece :=
  match code.toList with
  | 'v' :: cs => .value (String.ofList cs)
  | cs => .source (String.ofList cs.tail)

theorem ofCode_code (p : Piece) : ofCode p.code = p := by
  cases p <;> simp [code, ofCode]

/-- What fragments with marks stand for in the output. -/
def outputOf (escaping : Bool) (codes : List String) : String :=
  output escaping (codes.map ofCode)

theorem outputOf_nil (escaping : Bool) : outputOf escaping [] = "" := rfl

theorem outputOf_append (escaping : Bool) (cs ds : List String) :
    outputOf escaping (cs ++ ds) = outputOf escaping cs ++ outputOf escaping ds := by
  rw [outputOf, List.map_append, output_append, outputOf, outputOf]

theorem outputOf_code (escaping : Bool) (p : Piece) (codes : List String) :
    outputOf escaping (p.code :: codes) = p.written escaping ++ outputOf escaping codes := by
  rw [outputOf, List.map_cons, ofCode_code, output, List.map_cons, String.join_cons]
  rfl

theorem outputOf_single (escaping : Bool) (p : Piece) :
    outputOf escaping [p.code] = p.written escaping := by
  rw [outputOf_code, outputOf_nil, String.append_empty]

end Piece

/-! ## Evaluation with marks -/

/-- The piece that a segment of a text is. -/
def Segment.piece : Segment → Eval Piece
  | .char c => pure (.source (String.ofList [c]))
  | .sign => pure (.source "$")
  | .reference path => do return .value (← Eval.scalar (String.ofList path))

/-- The pieces of a text, with marks. -/
def Eval.marked (text : String) : Eval (List String) :=
  Eval.forEach (fun s => do return [(← Segment.piece s).code]) (Segment.segments text.toList)

namespace Meaning

/-- The meaning of a text, with marks. -/
def markText (r : Renderer) (s : String) : Meaning :=
  { ofText r s with
    evaluate := Eval.marked s
    attributeText := fun escaping =>
      if escaping then Eval.joined (Eval.marked s) else Eval.interpolate r false s }

/-- The meaning of a variable, with a mark. -/
def markVar (r : Renderer) (name : String) : Meaning :=
  { ofVar r name with evaluate := do return [(Piece.value (← Eval.scalar name)).code] }

end Meaning

namespace Renderer

/-- The attributes of an element, with marks. -/
def markAttributes : List (String × Meaning) → Eval (List String)
  | [] => pure []
  | (key, m) :: rest => do
      let codes ← m.evaluate
      let others ← markAttributes rest
      return (Piece.source (" " ++ key ++ "=\"")).code :: codes ++
        (Piece.source "\"").code :: others

/-- The fragments of an element, with marks. -/
def markElement (r : Renderer) (tag : String) (attributes : List (String × Meaning))
    (children : List Meaning) : Eval (List String) := do
  let codes ← markAttributes attributes
  let head := (Piece.source ("<" ++ tag)).code :: codes
  if r.config.isVoid tag then
    if children.isEmpty then return head ++ [(Piece.source " />").code]
    else Eval.fail (.voidElement tag)
  else
    let content ← evaluateAll children
    return head ++ (Piece.source ">").code :: content ++
      [(Piece.source (Markup.closeTag tag)).code]

/-- The fragments of a tag, with marks.  What a handler yields is no value. -/
def markFragments (r : Renderer) (inner : Option Handle) (tag : String)
    (attributes : Option Attributes) (children : List Node)
    (attributeMeanings : Option (List (String × Meaning))) (childMeanings : List Meaning) :
    Eval (List String) :=
  match ControlForm.ofName? tag with
  | some form => Control.evaluate form attributeMeanings childMeanings
  | none =>
      match r.registry.get? tag with
      | some handler => do
          let parts ← r.call inner handler tag attributes children
          return parts.map fun s => (Piece.source s).code
      | none => r.markElement tag (attributeMeanings.getD []) childMeanings

/-- Evaluation with marks. -/
def marking (r : Renderer) (inner : Option Handle) : Interpretation where
  text := .markText r
  var := .markVar r
  hole := .ofHole
  tag name attributes children es ms :=
    .ofTag name attributes children (r.markFragments inner name attributes children es ms)
      (r.condition (.tag name attributes children) name ms) ms
  node_text _ := rfl
  node_var _ := rfl
  node_hole := Meaning.node_ofHole
  node_tag _ _ _ _ _ := rfl

/-- Evaluation with marks and room for a number of nested calls.  Forms are rendered without
marks. -/
def marked (r : Renderer) : Nat → Handle
  | 0 => ⟨(r.marking none).denote, (r.handle 0).render⟩
  | room + 1 => ⟨(r.marking (some (r.marked room))).denote, (r.handle (room + 1)).render⟩

/-- The pieces of a template. -/
def pieces (r : Renderer) (t : Template) : Eval (List Piece) := do
  let codes ← ((r.marked (r.config.limit - 1)).meaning t.root.toNode).evaluate
  return .source (r.preamble t.root) :: codes.map Piece.ofCode

end Renderer

/-! ## Marks and output -/

namespace Rewriting

/-- Fragments with marks against those of the output. -/
def marks (escaping : Bool) : Rewriting where
  Text _ _ := True
  Fragments codes ss := String.join ss = Piece.outputOf escaping codes
  Comparable := Node.IsLeaf
  nil := rfl
  append h h' := by rw [String.join_append, Piece.outputOf_append, h, h']
  join _ := trivial
  compound hnode h := absurd h hnode

theorem marks_single {escaping : Bool} {p : Piece} {s : String} (h : s = p.written escaping) :
    (marks escaping).Fragments [p.code] [s] := by
  show String.join [s] = Piece.outputOf escaping [p.code]
  rw [h, Piece.outputOf_single, String.join_cons, String.join_nil, String.append_empty]

end Rewriting

section

variable {r : Renderer} {b : Bool} {inner inner' : Option Handle}

/-- A segment and its piece. -/
theorem Segment.runs_piece (s : Segment) :
    Runs .exact (fun p text => text = p.written b) s.piece (segment (r.escaping b) true s) := by
  cases s with
  | char c => exact runs_pure rfl
  | sign => exact runs_pure rfl
  | reference path => exact (runs_scalar _).andThen fun value => runs_pure rfl

theorem Eval.runs_marked (text : String) :
    Runs .exact (Rewriting.marks b).Fragments (marked text)
      (segments (r.escaping b) true (Segment.segments text.toList)) := by
  refine Pairing.pairs_forEach (R := Endings.exact.pairing) (List.forall₂_same.2 fun s _ => ?_)
  exact Runs.bind s.runs_piece fun p text htext => runs_pure (Rewriting.marks_single htext)

namespace Meaning

theorem paired_markText (s : String) :
    (markText r s).Paired Endings.exact.pairing (.marks b) (ofText (r.escaping b) s) where
  node := rfl
  legible := ⟨trivial, fun _ => rfl⟩
  evaluate := by
    show Runs _ _ (marked s) (do return [← interpolate (r.escaping b) true s])
    rw [interpolate, joined, bind_assoc, ← bind_pure (marked s)]
    refine Runs.bind (runs_marked s) fun codes ss hss => ?_
    rw [pure_bind]
    refine runs_pure ?_
    show String.join [String.join ss] = Piece.outputOf b codes
    rw [← show String.join ss = _ from hss, String.join_cons, String.join_nil, String.append_empty]
  attributeText := Pairing.joined (R := Endings.exact.pairing) (W := .marks b) (runs_marked s)
  raw _ := by
    show Runs _ _ (interpolate r false s) (interpolate (r.escaping b) false s)
    rw [interpolate_raw r (r.escaping b)]
    exact runs_refl _
  test := runs_refl _
  arm _ _ hnode := by cases hnode

theorem paired_markVar (name : String) :
    (markVar r name).Paired Endings.exact.pairing (.marks b) (ofVar (r.escaping b) name) where
  node := rfl
  legible := ⟨trivial, fun _ => rfl⟩
  evaluate := (runs_scalar name).andThen fun value =>
    runs_pure (Rewriting.marks_single (p := .value value) rfl)
  attributeText := (runs_scalar name).andThen fun value => runs_pure trivial
  raw _ := (runs_scalar name).andThen fun value => runs_pure rfl
  test := runs_refl _
  arm _ _ hnode := by cases hnode

end Meaning

namespace Meaning

theorem paired_markHole : ofHole.Paired Endings.exact.pairing (.marks b) ofHole where
  node := rfl
  legible := ⟨trivial, fun _ => rfl⟩
  evaluate := runs_throw rfl
  attributeText := runs_throw rfl
  raw _ := runs_throw rfl
  test := runs_refl _
  arm _ _ hnode := by cases hnode

end Meaning

/-! ## Elements and trees -/

namespace Renderer

/-- The value of an attribute is the text of its fragments. -/
theorem attributeText_denote (r : Renderer) (inner : Option Handle) (n : Node) :
    (r.denote inner n).attributeText true = joined (r.denote inner n).evaluate := by
  cases n with
  | text s =>
    rw [denote]
    exact (joined_single _).symm
  | var name =>
    rw [denote]
    show (do return r.outputIf true (← scalar name)) = joined (do return [r.output (← scalar name)])
    rw [← joined_single (do return r.outputIf true (← scalar name)), bind_assoc]
    rfl
  | hole =>
    rw [denote]
    rfl
  | tag name attributes children =>
    rw [denote_tag]
    rfl

/-- The attributes of an element, with marks and in the output. -/
theorem runs_markAttributes {es es' : List (String × Meaning)}
    (h : EntriesPaired Endings.exact.pairing (.marks b) es es')
    (hmeanings : ∀ e ∈ es', ∃ n, e.2 = (r.denote inner' n)) :
    Runs .exact (fun codes pairs => Markup.attributes pairs = Piece.outputOf b codes)
      (markAttributes es) (attributeTexts es') := by
  induction h with
  | nil => exact runs_pure rfl
  | @cons e e' es es' he _ ih =>
    obtain ⟨key, m⟩ := e
    obtain ⟨key', m'⟩ := e'
    obtain ⟨hkey, hm⟩ := he
    obtain rfl : key' = key := hkey
    obtain ⟨n, hn⟩ := hmeanings _ List.mem_cons_self
    obtain rfl : m' = r.denote inner' n := hn
    have hrest := ih fun e he => hmeanings e (List.mem_cons_of_mem _ he)
    rw [markAttributes, attributeTexts, attributeText_denote, joined, bind_assoc]
    refine Runs.bind hm.evaluate fun codes ss hss => ?_
    rw [pure_bind]
    refine hrest.bind fun others pairs hpairs => runs_pure ?_
    have hvalue : String.join ss = Piece.outputOf b codes := hss
    rw [List.cons_append, Piece.outputOf_code, Piece.outputOf_append, Piece.outputOf_code, ← hvalue,
      ← hpairs, Markup.attributes, List.map_cons, String.join_cons]
    simp only [Piece.written, Markup.attributes, String.append_assoc]

/-- The fragments of an element, with marks and in the output. -/
theorem runs_markElement (inner' : Option Handle) (tag : String) {es es' : List (String × Meaning)}
    (hes : EntriesPaired Endings.exact.pairing (.marks b) es es')
    (hmeanings : ∀ e ∈ es', ∃ n, e.2 = (r.escaping b).denote inner' n) {ms ms' : List Meaning}
    (hms : AllPaired Endings.exact.pairing (.marks b) ms ms') :
    Runs .exact (Rewriting.marks b).Fragments (r.markElement tag es ms)
      ((r.escaping b).element tag es' ms') := by
  refine (runs_markAttributes hes hmeanings).bind fun codes pairs hpairs => ?_
  show Runs _ _ (if r.config.isVoid tag then _ else _) (if r.config.isVoid tag then _ else _)
  split
  · cases hms with
    | nil =>
      refine runs_pure ?_
      show String.join [Markup.voidTag tag pairs] = Piece.outputOf b _
      rw [List.cons_append, Piece.outputOf_code, Piece.outputOf_append, ← hpairs,
        Piece.outputOf_single, String.join_cons, String.join_nil, String.append_empty]
      simp only [Piece.written, Markup.voidTag, String.append_assoc]
    | cons _ _ => exact runs_throw rfl
  · refine Runs.bind (pairs_evaluateAll hms) fun content ss hss => runs_pure ?_
    have hcontent : String.join ss = Piece.outputOf b content := hss
    show String.join (Markup.openTag tag pairs :: ss ++ [Markup.closeTag tag]) = Piece.outputOf b _
    simp only [List.cons_append, Piece.outputOf_code, Piece.outputOf_append, ← hpairs, ← hcontent,
      Piece.outputOf_nil, String.join_cons, String.join_append, String.join_nil]
    simp only [Piece.written, Markup.openTag, String.append_assoc]

theorem guards_exact : Endings.exact.pairing.Guards := by
  intro α P m m' tag h
  exact Runs.guarded h (fun hf => hf.elim) fun _ _ hf => congrArg (Failure.leaving tag) hf

/-- Evaluation with marks against evaluation. -/
theorem paired_marking (hr : r.IsStandard)
    (hinner : Option.Rel (Handle.Paired Endings.exact.pairing (.marks b)) inner inner') :
    (r.marking inner).Paired Endings.exact.pairing (.marks b)
      ((r.escaping b).interpretation inner') where
  text s _ := Meaning.paired_markText s
  var name _ := Meaning.paired_markVar name
  hole _ := Meaning.paired_markHole
  tag {tag attributes children} hn hes hms := by
    have hnodes := (r.marking inner).map_node_denote children
    have hvalues := (r.marking inner).comparable_entries hn.self
    rw [Interpretation.denote_tag, Interpretation.denote_tag]
    refine Meaning.paired_ofTag hn.self ?_ ?_ hms hnodes
    swap
    · refine pairs_condition rfl hn.self.legible fun p hp => ?_
      exact pairs_condition_of_standard hr guards_exact hp hn.self hms hnodes
    show Runs _ _ (r.markFragments inner tag attributes children _ _)
      ((r.escaping b).tagFragments inner' tag attributes children _ _)
    unfold markFragments tagFragments
    cases hform : ControlForm.ofName? tag with
    | some form => exact pairs_form hform hn.self hes hvalues hms hnodes
    | none =>
      dsimp only
      show Runs _ _ (match r.registry.get? tag with | some _ => _ | none => _)
        (match r.registry.get? tag with | some _ => _ | none => _)
      cases hget : r.registry.get? tag with
      | some handler =>
        have hcall : Runs .exact Eq (r.call inner handler tag attributes children)
            ((r.escaping b).call inner' handler tag attributes children) :=
          pairs_call_of_standard hr guards_exact rfl hinner hget hn
        dsimp only
        rw [← bind_pure ((r.escaping b).call inner' handler tag attributes children)]
        refine hcall.andThen fun parts => runs_pure ?_
        show String.join parts = Piece.outputOf b (parts.map fun s => (Piece.source s).code)
        induction parts with
        | nil => rfl
        | cons s parts ih =>
          rw [List.map_cons, Piece.outputOf_code, ← ih, String.join_cons]
          rfl
      | none =>
        refine runs_markElement inner' tag ?_ ?_ hms
        · cases attributes with
          | none => exact .nil
          | some attributes =>
            cases hes with
            | some hes => exact hes
        · intro e he
          cases attributes with
          | none => cases he
          | some attributes =>
            obtain ⟨a, -, rfl⟩ := List.mem_map.1 he
            exact ⟨a.2, (denote_eq _ _ a.2).symm⟩

/-- Fragments with marks stand for those of the output. -/
theorem paired_marked (hr : r.IsStandard) (room : Nat) :
    (r.marked room).Paired Endings.exact.pairing (.marks b) ((r.escaping b).handle room) := by
  have hlayer {inner inner' : Option Handle}
      (hinner : Option.Rel (Handle.Paired Endings.exact.pairing (.marks b)) inner inner') (n : Node)
      (hn : n.Every (Node.Suits Endings.exact.pairing (.marks b))) :
      ((r.marking inner).denote n).Paired Endings.exact.pairing (.marks b)
        ((r.escaping b).denote inner' n) := by
    rw [denote_eq]
    exact Interpretation.paired_denote (paired_marking hr hinner) n hn
  induction room with
  | zero => exact ⟨(r.marking none).node_denote, hlayer .none⟩
  | succ room ih => exact ⟨(r.marking (some (r.marked room))).node_denote, hlayer (.some ih)⟩

/-- What a template is rendered to is what its pieces are in the output. -/
theorem run_render_escaping (hr : r.IsStandard) {t : Template}
    (ht : t.root.toNode.ComparesLeaves) (b : Bool) (c : Context) :
    ((r.escaping b).render t).run c =
      (((r.pieces t).run c).1.map (Piece.output b), ((r.pieces t).run c).2) := by
  obtain ⟨room, hroom⟩ : ∃ room, r.config.limit = room + 1 :=
    ⟨r.config.limit - 1, by have := r.config.limit_pos; omega⟩
  have hsuits : t.root.toNode.Every (Node.Suits Endings.exact.pairing (.marks b)) :=
    ht.every_suits (fun _ => And.intro trivial fun _ => rfl) fun _ h => h
  have hpaired := ((paired_marked (b := b) hr room).meaning _ hsuits).evaluate c
  have hrender : (r.escaping b).render t = (do
      let text ← (((r.escaping b).handle room).meaning t.root.toNode).text
      return r.preamble t.root ++ text) := by
    show ((r.escaping b).handle r.config.limit).render t.root = _
    rw [hroom]
    rfl
  rw [hrender, Meaning.text, joined, bind_assoc, pieces, hroom, Nat.add_sub_cancel, run_bind,
    run_bind]
  generalize ((r.marked room).meaning t.root.toNode).evaluate.run c = x at hpaired
  generalize (((r.escaping b).handle room).meaning t.root.toNode).evaluate.run c = y at hpaired
  cases hpaired with
  | ok hab =>
    rename_i codes ss after
    have houtput : String.join ss = Piece.output b (codes.map Piece.ofCode) := hab
    show ((.ok (r.preamble t.root ++ String.join ss), after) : Except Failure String × Context) =
      (.ok (Piece.output b (.source (r.preamble t.root) :: codes.map Piece.ofCode)), after)
    rw [houtput, Piece.output, Piece.output, List.map_cons, String.join_cons]
    rfl
  | failed hf =>
    rw [show _ = _ from hf]
    rfl
  | stopped hf => exact hf.elim

/-- In a template that is read from a text, only operands that are tags could tell the two outputs
apart in another way. -/
theorem run_render_escaping_ofText? (hr : r.IsStandard) {text name : String} {t : Template}
    (ht : Template.ofText? text name = .ok t) (hoperands : t.root.toNode.HasLeafOperands) (b : Bool)
    (c : Context) :
    ((r.escaping b).render t).run c =
      (((r.pieces t).run c).1.map (Piece.output b), ((r.pieces t).run c).2) :=
  run_render_escaping hr
    ((Node.comparesLeaves_iff (Template.writable_of_ofText? ht)).2 hoperands) b c

/-- **Escaping replaces the values and nothing else.**  With no handlers but the predicates of the
library, and for every template that compares leaves only, in every context: either rendering fails
with the same failure with and without escaping, or there is one list of pieces, those of the
template, and the output without escaping is what they are one after the other, while the output
with escaping is the same with every value escaped in its place. -/
theorem escaping_replaces_values (hr : r.IsStandard) {t : Template}
    (ht : t.root.toNode.ComparesLeaves) (c : Context) :
    (∃ f, (((r.escaping false).render t).run c).1 = .error f ∧
        (((r.escaping true).render t).run c).1 = .error f) ∨
      ∃ ps, ((r.pieces t).run c).1 = .ok ps ∧
        (((r.escaping false).render t).run c).1 = .ok (Piece.output false ps) ∧
        (((r.escaping true).render t).run c).1 = .ok (Piece.output true ps) := by
  rw [run_render_escaping hr ht, run_render_escaping hr ht]
  cases hpieces : ((r.pieces t).run c).1 with
  | error f => exact .inl ⟨f, rfl, rfl⟩
  | ok ps => exact .inr ⟨ps, rfl, rfl, rfl⟩

/-- A paragraph with a value in an attribute, in a text and by itself. -/
def quoting : Template :=
  ⟨⟨"p", some [("title", .var "x")], [.text "<$x", .tag "if" none [.tag "eq" none
    [.var "x", .text "<"], .var "x"]]⟩, ""⟩

/-- The sign that stands in the template is left alone, and each of the values is escaped. -/
theorem quoting_replaces_values :
    library.IsStandard ∧ quoting.root.toNode.ComparesLeaves ∧
      ∃ ps, ((library.pieces quoting).run (.ofList [("x", .scalar "<")])).1 = .ok ps ∧
        (((library.escaping false).render quoting).run (.ofList [("x", .scalar "<")])).1 =
          .ok (Piece.output false ps) ∧
        (((library.escaping true).render quoting).run (.ofList [("x", .scalar "<")])).1 =
          .ok (Piece.output true ps) ∧
        Piece.output false ps = "<p title=\"<\"><<<</p>" ∧
        Piece.output true ps = "<p title=\"&lt;\"><&lt;&lt;</p>" := by
  have hleaves : quoting.root.toNode.ComparesLeaves := by
    simp [quoting, Form.toNode, Node.ComparesLeaves, Node.AllCompareLeaves, Node.OperandsAreLeaves,
      Node.IsLeaf]
  refine ⟨isStandard_library, hleaves, ?_⟩
  rcases escaping_replaces_values isStandard_library hleaves (.ofList [("x", .scalar "<")]) with
    ⟨f, hf, -⟩ | ⟨ps, hpieces, hplain, hescaped⟩
  · cases hf
  · exact ⟨ps, hpieces, hplain, hescaped, (Except.ok.inj hplain).symm,
      (Except.ok.inj hescaped).symm⟩

end Renderer

end

end MarkupForms

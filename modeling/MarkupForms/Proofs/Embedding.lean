import MarkupForms.Proofs.Comparison
import MarkupForms.Proofs.RoundTrip

/-!
# Texts embedded in a template

Any text can stand in a template.  Its signs are doubled, so that none of them refers to a variable,
and it is written between quotes, or bare where that is possible.  Reading undoes the writing, and
evaluation undoes the doubling: the output has the text as it is, whatever the configuration says
about escaping and whatever the context binds.

* `reads_spelling` : both spellings of a text are read as one leaf.
* `Renderer.run_element` : an element whose attributes and children come out well.
* `Renderer.run_renderText_child`, `Renderer.run_renderText_attribute` : a text as a child and as an
  attribute of any element.
* `Renderer.embedded_text` : both in a paragraph.
-/

namespace MarkupForms

open Scanner Grammar

/-! ## Reading -/

/-- Both spellings of a text are read as one leaf. -/
theorem reads_spelling {s q : String} (hq : q = Text.quote s ∨ q = Text.literal s) :
    Reads q.toList fun ts => ∃ t, ts = [t] ∧ IsLeaf t (.text s) := by
  rcases hq with rfl | rfl
  · rw [Text.quote, String.toList_ofList]
    intro scanner hs
    refine ⟨_, yields_quoted hs _, _, rfl, ?_⟩
    rw [String.ofList_toList]
    exact .string rfl
  · obtain ⟨u, hu, hreads⟩ := reads_leaf (n := .text s) (by simp [Node.IsLeaf])
      (by simp [Node.Writable])
    rw [Node.print?, Option.some.injEq] at hu
    rw [Text.literal, String.toList_ofList, hu]
    exact hreads

namespace Form

variable {tag key q : String} {n : Node}

/-- A tag around a leaf. -/
theorem ofText?_child (htag : IsAtom tag.toList)
    (hq : Reads q.toList fun ts => ∃ t, ts = [t] ∧ IsLeaf t n) :
    ofText? ("(" ++ tag ++ " " ++ q ++ ")") = .ok ⟨tag, none, [n]⟩ := by
  apply ofText?_of_reads
  have htext : ("(" ++ tag ++ " " ++ q ++ ")").toList =
      '(' :: (tag.toList ++ (' ' :: q.toList ++ [')'])) := by
    simp [String.toList_append]
  rw [htext]
  refine (reads_tag htag hq.blank (startsApart_cons (by decide) _)).mono ?_
  rintro ts ⟨o, a, us, c, rfl, ho, ha, hvalue, ⟨t, rfl, ht⟩, hc⟩
  rw [String.ofList_toList] at hvalue
  have hform := IsForm.mk ho ha .none (.leaf ht .nil) hc
  rw [hvalue] at hform
  exact hform

/-- A tag with one attribute, whose value is a leaf. -/
theorem ofText?_attribute (htag : IsAtom tag.toList) (hkey : IsAtom key.toList)
    (hq : Reads q.toList fun ts => ∃ t, ts = [t] ∧ IsLeaf t n) :
    ofText? ("(" ++ tag ++ " (@ (" ++ key ++ " " ++ q ++ ")))") =
      .ok ⟨tag, some [(key, n)], []⟩ := by
  apply ofText?_of_reads
  have htext : ("(" ++ tag ++ " (@ (" ++ key ++ " " ++ q ++ ")))").toList =
      '(' :: (tag.toList ++ (" (@".toList ++
        ((' ' :: '(' :: (key.toList ++ ' ' :: (q.toList ++ [')']))) ++ [')']) ++ [')'])) := by
    simp [String.toList_append]
  rw [htext]
  have hpair : Reads _ fun ts => IsPairs ts [(String.ofList key.toList, n)] :=
    reads_pair hkey hq (reads_nil.mono fun ts hts => hts ▸ .nil)
  rw [String.ofList_toList] at hpair
  have hblock := reads_marked (by simp [Attributes.keys]) (startsApart_cons (by decide) _) hpair
  refine (reads_tag htag hblock (startsApart_cons (by decide) _)).mono ?_
  rintro ts ⟨o, a, us, c, rfl, ho, ha, hvalue, hus, hc⟩
  rw [String.ofList_toList] at hvalue
  have hform := IsForm.mk ho ha hus .nil hc
  rw [hvalue, List.append_nil] at hform
  exact hform

end Form

/-! ## Rendering -/

namespace Renderer

variable {r : Renderer} {c : Context}

/-- An element whose attributes and children come out well. -/
theorem run_element {tag : String} {attributes : List (String × Meaning)}
    {children : List Meaning} {pairs : List (String × String)} {content : List String}
    (hvoid : r.config.isVoid tag = false)
    (hattributes : (attributeTexts attributes).run c = (.ok pairs, c))
    (hcontent : (evaluateAll children).run c = (.ok content, c)) :
    (r.element tag attributes children).run c =
      (.ok (Markup.openTag tag pairs :: content ++ [Markup.closeTag tag]), c) := by
  rw [element, Eval.run_bind_ok hattributes, hvoid, if_neg (by simp), Eval.run_bind_ok hcontent]
  rfl

/-- Whether a tag is written as an element with content. -/
structure IsElement (r : Renderer) (tag : String) : Prop where
  /-- It can be read as a tag. -/
  atom : IsAtom tag.toList
  /-- It is no control form. -/
  control : ControlForm.ofName? tag = none
  /-- It has no handler. -/
  handler : r.registry.get? tag = none
  /-- It has a body. -/
  body : r.config.isVoid tag = false

/-- A text that is read as a form whose fragments come out well. -/
theorem run_renderText {s : String} {form : Form} {parts : List String}
    (hread : Form.ofText? s = .ok form)
    (hparts : ∀ inner, (r.denote inner form.toNode).evaluate.run c = (.ok parts, c)) :
    (r.renderText s).run c = (.ok (r.preamble form ++ String.join parts), c) := by
  obtain ⟨room, hroom⟩ := Nat.exists_eq_succ_of_ne_zero (Nat.ne_of_gt r.config.limit_pos)
  have htext : ((r.handle room).meaning form.toNode).text.run c = (.ok (String.join parts), c) := by
    cases room with
    | zero =>
      show (Eval.joined (r.denote none form.toNode).evaluate).run c = _
      rw [Eval.joined, Eval.run_bind_ok (hparts none)]
      rfl
    | succ room =>
      show (Eval.joined (r.denote (some (r.handle room)) form.toNode).evaluate).run c = _
      rw [Eval.joined, Eval.run_bind_ok (hparts _)]
      rfl
  rw [renderText, hread, Eval.ofExcept, pure_bind, renderForm, top, hroom, handle_render_succ,
    Eval.run_bind_ok htext]
  rfl

variable {tag key q : String}

/-- The fragments of an element, made of the texts of its attributes and of its content. -/
theorem run_tagFragments (htag : r.IsElement tag) {inner : Option Handle}
    {attributes : Option Attributes} {children : List Node}
    {attributeMeanings : Option (List (String × Meaning))} {childMeanings : List Meaning}
    {pairs : List (String × String)} {content : List String}
    (hattributes : (attributeTexts (attributeMeanings.getD [])).run c = (.ok pairs, c))
    (hcontent : (evaluateAll childMeanings).run c = (.ok content, c)) :
    (r.tagFragments inner tag attributes children attributeMeanings childMeanings).run c =
      (.ok (Markup.openTag tag pairs :: content ++ [Markup.closeTag tag]), c) := by
  simp only [tagFragments, htag.control, htag.handler]
  exact run_element htag.body hattributes hcontent

/-- Whether a text is written in a template for another one: its signs are doubled, and it stands
between quotes, or bare if it can. -/
def IsSpelling (q s : String) : Prop :=
  q = Text.quote (String.ofList (Segment.doubled s.toList)) ∨
    q = Text.literal (String.ofList (Segment.doubled s.toList))

theorem run_evaluate_literal {inner : Option Handle} (s : String) :
    (r.denote inner (.literal s)).evaluate.run c = (.ok [s], c) := by
  rw [Node.literal, denote]
  show (Eval.interpolate r true _ >>= fun text => pure [text] : Eval (List String)).run c = _
  rw [Eval.run_bind_ok (Eval.run_interpolate_doubled r true s c)]
  rfl

/-- Any text as a child of an element. -/
theorem run_renderText_child (htag : r.IsElement tag) {s : String} (hq : IsSpelling q s)
    (c : Context) :
    (r.renderText ("(" ++ tag ++ " " ++ q ++ ")")).run c =
      (.ok (r.preamble ⟨tag, none, [.literal s]⟩ ++
        (Markup.openTag tag [] ++ s ++ Markup.closeTag tag)), c) := by
  have hread : Form.ofText? ("(" ++ tag ++ " " ++ q ++ ")") = .ok ⟨tag, none, [.literal s]⟩ :=
    Form.ofText?_child htag.atom (reads_spelling hq)
  have hcontent (inner : Option Handle) :
      (evaluateAll (r.denoteAll inner [.literal s])).run c = (.ok [s], c) := by
    rw [denoteAll_eq_map, evaluateAll]
    have hparts : ∀ m ∈ [r.denote inner (.literal s)], m.evaluate.run c = (.ok [s], c) := by
      intro m hm
      obtain rfl := List.mem_singleton.1 hm
      exact run_evaluate_literal s
    exact Eval.run_forEach hparts
  have hparts (inner : Option Handle) :
    (r.denote inner (.tag tag none [.literal s])).evaluate.run c =
      (.ok [Markup.openTag tag [], s, Markup.closeTag tag], c) := by
    rw [denote]
    have hattributes : (attributeTexts ((none : Option (List (String × Meaning))).getD [])).run c =
        (.ok [], c) := rfl
    exact run_tagFragments htag hattributes (hcontent inner)
  rw [run_renderText hread hparts]
  simp [String.join_cons, String.append_assoc]

/-- Any text as an attribute of an element. -/
theorem run_renderText_attribute (htag : r.IsElement tag) (hkey : IsAtom key.toList) {s : String}
    (hq : IsSpelling q s) (c : Context) :
    (r.renderText ("(" ++ tag ++ " (@ (" ++ key ++ " " ++ q ++ ")))")).run c =
      (.ok (r.preamble ⟨tag, some [(key, .literal s)], []⟩ ++
        (Markup.openTag tag [(key, s)] ++ Markup.closeTag tag)), c) := by
  have hread : Form.ofText? ("(" ++ tag ++ " (@ (" ++ key ++ " " ++ q ++ ")))") =
      .ok ⟨tag, some [(key, .literal s)], []⟩ :=
    Form.ofText?_attribute htag.atom hkey (reads_spelling hq)
  have htexts (inner : Option Handle) :
      (attributeTexts (r.denoteEntries inner [(key, .literal s)])).run c = (.ok [(key, s)], c) := by
    have htext := Eval.run_interpolate_doubled r true s c
    show (attributeTexts [(key, Meaning.ofText r _)]).run c = _
    rw [attributeTexts]
    show (Eval.interpolate r true _ >>= fun text => _).run c = _
    rw [Eval.run_bind_ok htext]
    rfl
  have hparts (inner : Option Handle) :
      (r.denote inner (.tag tag (some [(key, .literal s)]) [])).evaluate.run c =
        (.ok [Markup.openTag tag [(key, s)], Markup.closeTag tag], c) := by
    rw [denote]
    have hcontent : (evaluateAll (r.denoteAll inner [])).run c = (.ok [], c) := rfl
    have hrun : (r.tagFragments inner tag (some [(key, .literal s)]) []
        (some (r.denoteEntries inner [(key, .literal s)])) (r.denoteAll inner [])).run c =
        (.ok (Markup.openTag tag [(key, s)] :: [] ++ [Markup.closeTag tag]), c) :=
      run_tagFragments htag (htexts inner) hcontent
    exact hrun
  rw [run_renderText hread hparts]
  simp [String.join_cons]

/-- **Any text can be embedded.**  A text whose signs are doubled, written between quotes or as an
atom, is in the output as it is, as a child of a paragraph and as an attribute of one. -/
theorem embedded_text (r : Renderer) (hhandler : r.registry.get? "p" = none)
    (hbody : r.config.isVoid "p" = false) (s q : String) (hq : IsSpelling q s) (c : Context) :
    (r.renderText ("(p " ++ q ++ ")")).run c = (.ok ("<p>" ++ s ++ "</p>"), c) ∧
      (r.renderText ("(p (@ (k " ++ q ++ ")))")).run c =
        (.ok ("<p k=\"" ++ s ++ "\"></p>"), c) := by
  have htag : r.IsElement "p" := ⟨by decide, by decide, hhandler, hbody⟩
  have hkey : IsAtom "k".toList := by decide
  have hpreamble (attributes : Option Attributes) (children : List Node) :
      r.preamble ⟨"p", attributes, children⟩ = "" := rfl
  constructor
  · have hsource : "(" ++ "p" ++ " " = "(p " := by decide
    have hopen : Markup.openTag "p" [] = "<p>" := by decide
    have hclose : Markup.closeTag "p" = "</p>" := by decide
    have hrun := run_renderText_child htag hq c
    rwa [hsource, hpreamble, String.empty_append, hopen, hclose] at hrun
  · have hsource : "(" ++ "p" ++ " (@ (" ++ "k" ++ " " = "(p (@ (k " := by decide
    have houtput : Markup.openTag "p" [("k", s)] ++ Markup.closeTag "p" =
        "<p k=\"" ++ s ++ "\"></p>" := by
      rw [← String.toList_inj]
      simp [Markup.openTag, Markup.closeTag, Markup.attributes, String.toList_append]
    have hrun := run_renderText_attribute htag hkey hq c
    rwa [hsource, hpreamble, String.empty_append, houtput] at hrun

/-- A renderer without handlers. -/
def bare : Renderer :=
  ⟨.standard, .empty, []⟩

/-- A reference between quotes after a backslash, and a word that needs no quotes. -/
theorem embedded_reference :
    bare.registry.get? "p" = none ∧ bare.config.isVoid "p" = false ∧
      (bare.renderText "(p \"\\\\\\\"$$x\\\"\")").run .empty = (.ok "<p>\\\"$x\"</p>", .empty) ∧
      (bare.renderText "(p (@ (k word)))").run .empty = (.ok "<p k=\"word\"></p>", .empty) := by
  have hhandler : bare.registry.get? "p" = none := by decide
  have hbody : bare.config.isVoid "p" = false := by decide
  have hquote : "\"\\\\\\\"$$x\\\"\"" =
      Text.quote (String.ofList (Segment.doubled "\\\"$x\"".toList)) := by decide
  have hliteral : "word" = Text.literal (String.ofList (Segment.doubled "word".toList)) := by decide
  refine ⟨hhandler, hbody, ?_, ?_⟩
  · exact (embedded_text bare hhandler hbody _ _ (.inl hquote) .empty).1
  · exact (embedded_text bare hhandler hbody _ _ (.inr hliteral) .empty).2

end Renderer

end MarkupForms

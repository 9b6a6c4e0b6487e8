import MarkupForms.Proofs.Interpolation
import MarkupForms.Proofs.Iteration

/-!
# References to variables, bare and in texts

A variable can be written bare, where the scanner makes a token of it, or as a text that is nothing
but a reference, where evaluation finds it.  The scanner asks whether all of a run is a path, and
evaluation takes the longest path after a sign.  A loop asks whether the text of a node is a name.
All three mean the same by a name, so a variable has the same value however it is written, and it
can be written as a variable what a loop binds.

* `Text.isName_iff` : a name is a path without dots.
* `Scanner.finish_run_reference` : a sign and a path are one token, wherever they stand.
* `Meaning.SameValue` : when two nodes have the same value, in all places for one.
* `Context.Inside` : a context with more frames that do not bind a name.
* `Renderer.references_agree` : all of this together.
-/

namespace MarkupForms

open Eval

/-! ## Names -/

namespace Text

/-- A name is a path without dots. -/
theorem isName_iff {s : List Char} : isName s = true ↔ isPath s = true ∧ '.' ∉ s := by
  constructor
  · intro hname
    have hdot : '.' ∉ s := fun hmem => absurd (isNameChar_of_mem_name hname hmem) (by decide)
    refine ⟨(isPath_iff s).2 ?_, hdot⟩
    rw [splitDots_of_not_mem hdot]
    exact fun seg hseg => List.mem_singleton.1 hseg ▸ hname
  · rintro ⟨hpath, hdot⟩
    have hnames := (isPath_iff s).1 hpath
    rw [splitDots_of_not_mem hdot] at hnames
    exact hnames s (List.mem_singleton_self s)

end Text

namespace Context

variable {name : String} {c d : Context}

theorem normalize_of_isName (hname : Text.isName name.toList = true) : normalize name = name := by
  have hsign : '$' ∉ name.toList := fun hmem =>
    absurd (Text.isNameChar_of_mem_name hname hmem) (by decide)
  rw [← String.toList_inj, normalize, String.toList_ofList]
  cases hchars : name.toList with
  | nil => rfl
  | cons c r =>
    have hc : c ≠ '$' := by rintro rfl; simp [hchars] at hsign
    exact List.dropWhile_cons_of_neg (by simpa using hc)

/-- A name is the path that it is the head of. -/
theorem pathHead_of_isName (hname : Text.isName name.toList = true) : pathHead name = name := by
  rw [← String.toList_inj, toList_pathHead, normalize_of_isName hname]
  refine List.takeWhile_eq_self_iff.2 fun c hc => ?_
  have hdot : c ≠ '.' := by rintro rfl; exact (Text.isName_iff.1 hname).2 hc
  simpa using hdot

/-- A name that the innermost frame binds leads to its value. -/
theorem resolve_bound (hname : Text.isName name.toList = true) (c : Context) (v : Value) :
    (c.pushFrame (.ofList [(name, v)])).resolve name = .ok v := by
  have hnormal := normalize_of_isName hname
  have hsegments : Text.pathSegments (normalize name) = [name] := by
    rw [hnormal, Text.pathSegments, Text.splitDots_of_not_mem (Text.isName_iff.1 hname).2,
      List.map_singleton, String.ofList_toList]
  refine Renderer.resolve_pushFrame hsegments hnormal ?_
  simp [Frame.ofList, Frame.lookup, Entries.ofList, Entries.putAll, Entries.put]

/-- Whether a context is another one with more frames, none of which binds a name. -/
def Inside (name : String) (c d : Context) : Prop :=
  ∃ frames : List Frame, d = { c with opened := frames ++ c.opened } ∧
    ∀ f ∈ frames, f.lookup name = none

/-- Frames that do not bind a name make no difference to it. -/
theorem Inside.resolve_eq (hname : Text.isName name.toList = true) (h : c.Inside name d) :
    d.resolve name = c.resolve name := by
  obtain ⟨inner, rfl, hinner⟩ := h
  have hnone : inner.findSome? (fun f => f.lookup name) = none :=
    List.findSome?_eq_none_iff.2 hinner
  refine resolve_congr ?_
  rw [pathHead_of_isName hname, lookup, lookup, normalize_of_isName hname, find?, find?, frames,
    frames, List.append_assoc, List.findSome?_append, hnone, Option.none_or]

end Context

/-! ## The token of a variable -/

namespace Scanner

variable {s : Scanner} {path rest : List Char}

/-- At the end of a text, a run is complete. -/
theorem finish_closeRun (h : s.IsOutside) : s.closeRun.finish = s.finish := by
  cases hm : s.mode with
  | between => rw [closeRun_of_between hm]
  | run start chars => simp [finish, closeRun, hm]
  | quoted start chars guarded => exact absurd hm (h start chars guarded)

/-- A sign and a path, where no run goes on before or after, are one token. -/
theorem finish_run_reference (hpath : Text.isPath path = true) (hs : s.mode = .between)
    (hrest : StartsApart rest) :
    (s.run ('$' :: path ++ rest)).finish =
      (Scanner.run ⟨⟨.var, String.ofList path, s.cursor⟩ :: s.tokens,
        s.cursor.advanceBy ('$' :: path), .between⟩ rest).finish := by
  have hword := isWord_reference hpath
  have hrun := run_word hs hword
  have houtside : (s.run ('$' :: path)).IsOutside := by
    rw [hrun]
    exact fun _ _ _ => by simp
  have hclosed : (s.run ('$' :: path)).closeRun =
      ⟨⟨.var, String.ofList path, s.cursor⟩ :: s.tokens, s.cursor.advanceBy ('$' :: path),
        .between⟩ := by
    rw [hrun]
    simp [closeRun, runToken, isReference, hpath]
  rw [← hclosed, run_append]
  cases rest with
  | nil => exact (finish_closeRun houtside).symm
  | cons c rest => rw [run_closeRun houtside (hrest c rfl)]

end Scanner

/-! ## The value of a variable -/

/-- Whether two nodes have the same value, or fail to have one in the same way, in every context. -/
structure Meaning.SameValue (m m' : Meaning) : Prop where
  /-- As content. -/
  evaluate : m.evaluate = m'.evaluate
  /-- As the value of an attribute, whether values of variables may be escaped or not. -/
  attributeText : ∀ escaping, m.attributeText escaping = m'.attributeText escaping
  /-- As an operand. -/
  operand : m.operand = m'.operand

namespace Segment

/-- A sign and a path are a reference and nothing else. -/
theorem segments_path {path : List Char} (hpath : Text.isPath path = true) :
    segments ('$' :: path) = [.reference path] := by
  obtain ⟨hne, hlength⟩ := Text.isNames_iff.1 ((Text.isPath_iff path).1 hpath)
  rw [segments_reference (head?_ne_of_pathLength hne) hne, hlength, List.take_length,
    List.drop_length]
  rfl

end Segment

/-- A text that is a reference comes to the value of the variable. -/
theorem Eval.interpolate_reference (r : Renderer) (escaping : Bool) {path : String}
    (hpath : Text.isPath path.toList = true) :
    interpolate r escaping ("$" ++ path) = (do return r.outputIf escaping (← scalar path)) := by
  have hchars : ("$" ++ path).toList = '$' :: path.toList := by simp
  rw [interpolate, hchars, Segment.segments_path hpath]
  simp [joined, segments, forEach, segment]

namespace Renderer

/-- A variable and the text that is a reference to it have the same value. -/
theorem sameValue_reference (r : Renderer) (room : Nat) {path : String}
    (hpath : Text.isPath path.toList = true) :
    ((r.handle room).meaning (.var path)).SameValue
      ((r.handle room).meaning (.text ("$" ++ path))) := by
  have hinterpolate (escaping : Bool) := Eval.interpolate_reference r escaping hpath
  rw [handle_eq_layer]
  refine ⟨?_, fun escaping => (hinterpolate escaping).symm, (hinterpolate false).symm⟩
  show (do return [r.output (← scalar path)] : Eval (List String)) =
    Eval.interpolate r true ("$" ++ path) >>= fun s => pure [s]
  rw [hinterpolate true, bind_assoc]
  simp only [pure_bind]
  rfl

/-! ## What a loop binds -/

variable {r : Renderer} {room : Nat} {name source : String} {body : List Node} {c : Context}
  {items : List Value}

/-- What a loop takes as its name is the text of a node, and a name. -/
theorem exists_of_loopName {n : Node} {name : String} {d : Context}
    (h : ((Control.loopName n).run d).1 = .ok name) :
    n = .text name ∧ Text.isName name.toList = true := by
  have hrefused : (Control.loopName n : Eval String) ≠ Eval.malformedAt "for" .loopName n := by
    intro hloop
    obtain ⟨f, hf⟩ : ∃ f, (Eval.malformedAt "for" .loopName n : Eval String) = throw f :=
      Eval.exists_throw_malformedAt "for" .loopName n
    rw [hloop, hf] at h
    cases h
  cases n with
  | text s =>
    by_cases hs : Text.isName s.toList = true
    · rw [Control.loopName_text hs] at h
      cases h
      exact ⟨rfl, hs⟩
    · exact absurd (if_neg hs) hrefused
  | var name => exact absurd rfl hrefused
  | hole => exact absurd rfl hrefused
  | tag tag attributes children => exact absurd rfl hrefused

/-- In a loop over a list, each round takes place in a frame with the item. -/
theorem run_rounds (hname : Text.isName name.toList = true)
    (hitems : c.resolve source = .ok (.list items)) :
    ((r.handle room).meaning (.itemsInWords name source body)).evaluate.run c =
      (forEach (fun item => inChild (.ofList [(name, item)])
        (evaluateAll (body.map (r.handle room).meaning))) items).run c := by
  rw [run_itemsInWords hname, hitems]
  rfl

/-- **A variable means the same however it is written.**  A sign and a path, where no run goes on
before or after, are one token for the variable, and the text that is a reference to it has the same
value as the variable, as content, as the value of an attribute and as an operand.  What a loop
takes as its name is a path without dots; so it can be written as a variable, and stands for the
item of the round there, as long as no frame inside binds it again. -/
theorem references_agree (r : Renderer) (room : Nat) :
    (∀ path, Text.isPath path.toList = true →
      (∀ (s : Scanner) (rest : List Char), s.mode = .between → Scanner.StartsApart rest →
        (s.run ('$' :: path.toList ++ rest)).finish =
          (Scanner.run ⟨⟨.var, path, s.cursor⟩ :: s.tokens,
            s.cursor.advanceBy ('$' :: path.toList), .between⟩ rest).finish) ∧
      ((r.handle room).meaning (.var path)).SameValue
        ((r.handle room).meaning (.text ("$" ++ path)))) ∧
    ∀ n name (d : Context), ((Control.loopName n).run d).1 = .ok name →
      n = .text name ∧ Text.isPath name.toList = true ∧ '.' ∉ name.toList ∧
      ∀ source body c items, c.resolve source = .ok (.list items) →
        ((r.handle room).meaning (.itemsInWords name source body)).evaluate.run c =
          (forEach (fun item => inChild (.ofList [(name, item)])
            (evaluateAll (body.map (r.handle room).meaning))) items).run c ∧
        ∀ item inner, (c.pushFrame (.ofList [(name, item)])).Inside name inner →
          inner.resolve name = .ok item := by
  refine ⟨fun path hpath => ⟨fun s rest hs hrest => ?_, sameValue_reference r room hpath⟩, ?_⟩
  · have hread := Scanner.finish_run_reference hpath hs hrest
    rwa [String.ofList_toList] at hread
  · intro n name d hn
    obtain ⟨htext, hname⟩ := exists_of_loopName hn
    obtain ⟨hpath, hdot⟩ := Text.isName_iff.1 hname
    refine ⟨htext, hpath, hdot, fun source body c items hitems => ⟨run_rounds hname hitems, ?_⟩⟩
    intro item inner hinside
    exact (hinside.resolve_eq hname).trans (Context.resolve_bound hname c item)

/-- The variable `m.a`, before a parenthesis and in a text, and the name `x-1` of a loop. -/
theorem references_agree_listAndMap :
    Text.isPath "m.a".toList = true ∧
      (Scanner.initial.run ('$' :: "m.a".toList ++ [')'])).finish =
        .ok [⟨.var, "m.a", ⟨0, 1, 1⟩⟩, ⟨.rparen, ")", ⟨4, 1, 5⟩⟩, ⟨.eof, "", ⟨5, 1, 6⟩⟩] ∧
      ((library.evaluate (.text "$m.a")).run listAndMap).1 = .ok ["b"] ∧
      library.evaluate (.var "m.a") = library.evaluate (.text "$m.a") ∧
      library.operand (.var "m.a") = library.operand (.text "$m.a") ∧
      ((Control.loopName (.text "x-1")).run listAndMap).1 = .ok "x-1" ∧
      ((library.evaluate (.itemsInWords "x-1" "xs" [.var "x-1"])).run listAndMap).1 =
        .ok ["1", "2"] ∧
      (((listAndMap.pushFrame (.ofList [("x-1", .scalar "1")])).push).resolve "x-1") =
        .ok (.scalar "1") := by
  obtain ⟨hpaths, hnames⟩ := references_agree library library.config.limit
  obtain ⟨htoken, hvalue⟩ := hpaths "m.a" (by decide)
  obtain ⟨-, -, -, hloop⟩ := hnames (.text "x-1") "x-1" listAndMap rfl
  obtain ⟨hrun, hitem⟩ := hloop "xs" [.var "x-1"] listAndMap _ rfl
  have hparen : Scanner.StartsApart [')'] := by simp [Scanner.StartsApart, Scanner.isDelimiter]
  refine ⟨by decide, (htoken Scanner.initial [')'] rfl hparen).trans rfl, rfl, hvalue.evaluate,
    hvalue.operand, rfl, (congrArg Prod.fst hrun).trans rfl, hitem _ _ ⟨[.empty], rfl, ?_⟩⟩
  exact List.forall_mem_singleton.2 rfl

end Renderer

end MarkupForms

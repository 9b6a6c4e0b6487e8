import MarkupForms.Proofs.Comparison
import MarkupForms.Proofs.Lexing

/-!
# Texts with references

A text is cut from the left.  A sign takes the sign after it, or else the longest path after it, or
else it stands for itself; every other character stands for itself.  This leaves no choice, so there
is one way to cut a text.

The segments are evaluated one after the other.  Each is replaced once: what a reference stands for
is not looked at again.  The first reference that has no scalar decides how the evaluation fails.

* `Text.isLongestPath_take` : `Text.pathLength` measures the longest path.
* `Segment.scans_iff` : the only way to cut a text from the left.
* `Eval.run_interpolate_ok`, `Eval.run_interpolate_error` : what the segments come to.
* `Renderer.interpolation_scans_once` : the text that comes of a text with references.
-/

namespace MarkupForms

/-! ## The longest path -/

namespace Text

/-- Whether a text is names with dots between them. -/
def IsNames (s : List Char) : Prop :=
  ∀ seg ∈ splitDots s, isName seg = true

/-- The longest path at the start of a text. -/
structure IsLongestPath (path s : List Char) : Prop where
  /-- It stands at the start. -/
  start : path <+: s
  /-- It is a path. -/
  names : IsNames path
  /-- No path there is longer. -/
  longest : ∀ q, q <+: s → IsNames q → q.length ≤ path.length

theorem isNames_iff {s : List Char} : IsNames s ↔ pathLength s ≠ 0 ∧ pathLength s = s.length := by
  rw [IsNames, ← isPath_iff, isPath, Bool.and_eq_true, bne_iff_ne, beq_iff_eq]

theorem pathTail_cons_of_ne {c : Char} (hc : c ≠ '.') (r : List Char) :
    pathTail (c :: r) = if isNameChar c then pathTail r + 1 else 0 := by
  cases r <;> simp [pathTail, hc]

/-- What continues a path is not longer than in a longer text. -/
theorem pathTail_le_append (s t : List Char) : pathTail s ≤ pathTail (s ++ t) := by
  fun_induction pathTail s with
  | case1 => exact Nat.zero_le _
  | case2 c r hc ih =>
    rw [List.cons_append, List.cons_append, pathTail, if_pos hc]
    exact Nat.add_le_add_right ih 2
  | case3 => exact Nat.zero_le _
  | case4 c r _ hc ih =>
    have hdot : c ≠ '.' := by rintro rfl; exact absurd hc (by decide)
    rw [List.cons_append, pathTail_cons_of_ne hdot, if_pos hc]
    exact Nat.add_le_add_right ih 1
  | case5 => exact Nat.zero_le _

/-- What continues a path continues it without what follows. -/
theorem pathTail_take (s : List Char) : pathTail (s.take (pathTail s)) = pathTail s := by
  fun_induction pathTail s with
  | case1 => rfl
  | case2 c r hc ih => simp only [List.take_succ_cons, pathTail, hc, if_true, ih]
  | case3 => rfl
  | case4 c r _ hc ih =>
    have hdot : c ≠ '.' := by rintro rfl; exact absurd hc (by decide)
    rw [List.take_succ_cons, pathTail_cons_of_ne hdot, if_pos hc, ih]
  | case5 => rfl

theorem pathLength_le_append (s t : List Char) : pathLength s ≤ pathLength (s ++ t) := by
  cases s with
  | nil => exact Nat.zero_le _
  | cons c r =>
    have htail := pathTail_le_append r t
    simp only [List.cons_append, pathLength]
    split <;> omega

theorem pathLength_take (s : List Char) : pathLength (s.take (pathLength s)) = pathLength s := by
  cases s with
  | nil => rfl
  | cons c r =>
    by_cases hc : isNameStart c = true
    · simp only [pathLength, hc, if_true, List.take_succ_cons, pathTail_take]
    · simp [pathLength, hc]

/-- No path at the start of a text is longer than `pathLength` says. -/
theorem length_le_pathLength {q s : List Char} (hq : q <+: s) (hnames : IsNames q) :
    q.length ≤ pathLength s := by
  obtain ⟨t, rfl⟩ := hq
  have hlength := (isNames_iff.1 hnames).2
  exact hlength ▸ pathLength_le_append q t

/-- `pathLength` measures the longest path. -/
theorem isLongestPath_take {s : List Char} (h : pathLength s ≠ 0) :
    IsLongestPath (s.take (pathLength s)) s where
  start := List.take_prefix _ s
  names := by
    have hlength : (s.take (pathLength s)).length = pathLength s :=
      List.length_take_of_le (pathLength_le s)
    exact isNames_iff.2 ⟨by rwa [pathLength_take], by rw [pathLength_take, hlength]⟩
  longest := by
    intro q hq hnames
    rw [List.length_take_of_le (pathLength_le s)]
    exact length_le_pathLength hq hnames

theorem IsLongestPath.length_eq {path s : List Char} (h : IsLongestPath path s) :
    path.length = pathLength s ∧ pathLength s ≠ 0 := by
  have hle := length_le_pathLength h.start h.names
  have hne : pathLength s ≠ 0 := by
    have hpos := isNames_iff.1 h.names
    omega
  have hge := h.longest _ (isLongestPath_take hne).start (isLongestPath_take hne).names
  rw [List.length_take_of_le (pathLength_le s)] at hge
  exact ⟨Nat.le_antisymm hle hge, hne⟩

end Text

/-! ## The segments of a text -/

namespace Segment

/-- How a text is cut from the left. -/
inductive Scans : List Char → List Segment → Prop where
  /-- Nothing is left. -/
  | nil : Scans [] []
  /-- A character that is no sign. -/
  | plain {c : Char} {r : List Char} {ss : List Segment} (hc : c ≠ '$') (hrest : Scans r ss) :
      Scans (c :: r) (.char c :: ss)
  /-- A sign and another one. -/
  | sign {r : List Char} {ss : List Segment} (hrest : Scans r ss) :
      Scans ('$' :: '$' :: r) (.sign :: ss)
  /-- A sign and the longest path after it. -/
  | reference {path r : List Char} {ss : List Segment}
      (hpath : Text.IsLongestPath path (path ++ r)) (hrest : Scans r ss) :
      Scans ('$' :: (path ++ r)) (.reference path :: ss)
  /-- A sign with neither a sign nor a path after it. -/
  | lone {r : List Char} {ss : List Segment} (hsign : r.head? ≠ some '$')
      (hpath : ∀ q, q <+: r → ¬ Text.IsNames q) (hrest : Scans r ss) :
      Scans ('$' :: r) (.char '$' :: ss)

theorem segments_cons_of_ne {c : Char} (hc : c ≠ '$') (r : List Char) :
    segments (c :: r) = .char c :: segments r := by
  simp [segments, segmentsAfter, hc]

theorem segments_sign (r : List Char) : segments ('$' :: '$' :: r) = .sign :: segments r := by
  simp [segments, segmentsAfter]

theorem segments_reference {r : List Char} (hsign : r.head? ≠ some '$')
    (hpath : Text.pathLength r ≠ 0) : segments ('$' :: r) =
      .reference (r.take (Text.pathLength r)) :: segments (r.drop (Text.pathLength r)) := by
  rw [segments, segmentsAfter, if_neg (fun h => hsign h.2), if_pos ⟨rfl, hpath⟩,
    segmentsAfter_eq_drop, segments]

theorem segments_lone {r : List Char} (hsign : r.head? ≠ some '$')
    (hpath : Text.pathLength r = 0) : segments ('$' :: r) = .char '$' :: segments r := by
  rw [segments, segmentsAfter, if_neg (fun h => hsign h.2), if_neg (fun h => h.2 hpath), segments]

/-- A path does not start with a sign. -/
theorem head?_ne_of_pathLength {r : List Char} (h : Text.pathLength r ≠ 0) :
    r.head? ≠ some '$' := by
  cases r with
  | nil => simp
  | cons c r =>
    intro hc
    obtain rfl := Option.some.inj hc
    exact h rfl

/-- The segments of a text are those that it is cut into from the left. -/
theorem scans_segments (s : List Char) : Scans s (segments s) := by
  -- what is left after a segment is shorter
  induction hlength : s.length using Nat.strongRecOn generalizing s with
  | ind n ih =>
    subst hlength
    cases s with
    | nil => exact .nil
    | cons c r =>
      have hrest {t : List Char} (hlt : t.length < (c :: r).length) : Scans t (segments t) :=
        ih t.length hlt t rfl
      by_cases hc : c = '$'
      · subst hc
        by_cases hsign : r.head? = some '$'
        · obtain ⟨t, rfl⟩ : ∃ t, r = '$' :: t := by
            cases r with
            | nil => cases hsign
            | cons d t => exact ⟨t, by rw [Option.some.inj hsign]⟩
          rw [segments_sign]
          exact .sign (hrest (by simp only [List.length_cons]; omega))
        · by_cases hpath : Text.pathLength r = 0
          · rw [segments_lone hsign hpath]
            refine .lone hsign ?_ (hrest (by simp))
            intro q hq hnames
            have hle := Text.length_le_pathLength hq hnames
            have hne := Text.isNames_iff.1 hnames
            omega
          · have hstep {path t : List Char} (hr : path ++ t = r)
                (hlongest : Text.IsLongestPath path r) (ht : Scans t (segments t)) :
                Scans ('$' :: r) (.reference path :: segments t) := by
              subst hr
              exact .reference hlongest ht
            have hlt : (r.drop (Text.pathLength r)).length < ('$' :: r).length := by
              simp only [List.length_drop, List.length_cons]
              omega
            rw [segments_reference hsign hpath]
            exact hstep (List.take_append_drop _ r) (Text.isLongestPath_take hpath) (hrest hlt)
      · rw [segments_cons_of_ne hc]
        exact .plain hc (hrest (by simp))

/-- There is one way to cut a text from the left. -/
theorem scans_iff {s : List Char} {ss : List Segment} : Scans s ss ↔ ss = segments s := by
  constructor
  · intro h
    induction h with
    | nil => rfl
    | plain hc _ ih => rw [segments_cons_of_ne hc, ih]
    | sign _ ih => rw [segments_sign, ih]
    | @reference path r ss hpath _ ih =>
      obtain ⟨hlength, hne⟩ := hpath.length_eq
      rw [segments_reference (head?_ne_of_pathLength hne) hne, ← hlength, List.take_left,
        List.drop_left, ih]
    | @lone r ss hsign hpath _ ih =>
      have hnone : Text.pathLength r = 0 := by
        by_contra hne
        exact hpath _ (List.take_prefix _ r) (Text.isLongestPath_take hne).names
      rw [segments_lone hsign hnone, ih]
  · rintro rfl
    exact scans_segments s

example : segments "$$$a.b.5$".toList =
    [.sign, .reference "a.b".toList, .char '.', .char '5', .char '$'] := by decide +kernel

/-- What a segment is replaced by, given what references stand for. -/
def replaced (value : List Char → String) : Segment → String
  | .char c => String.ofList [c]
  | .sign => "$"
  | .reference path => value path

end Segment

/-! ## What references stand for -/

namespace Context

/-- The text of the scalar that a path leads to, or why there is none. -/
def scalar? (c : Context) (path : String) : Except RenderError String :=
  match c.resolve path with
  | .ok (.scalar text) => .ok text
  | .ok v => .error (.typeMismatch "scalar" v.kind (normalize path))
  | .error e => .error (.ofPath e)

end Context

namespace Eval

variable {c : Context} {r : Renderer} {escaping : Bool} {ss : List Segment}
  {values : List Char → String}

theorem run_scalar_eq (path : String) (c : Context) :
    (scalar path).run c = ((c.scalar? path).mapError .render, c) := by
  rw [scalar, run_bind, run_resolve, Context.scalar?]
  cases c.resolve path with
  | error e => rfl
  | ok v => cases v <;> rfl

/-- A loop that stops at the first round that fails. -/
theorem run_forEach_error {α : Type} {body : α → Eval (List String)} {parts : α → List String}
    {xs ys : List α} {x : α} {f : Failure}
    (hxs : ∀ y ∈ xs, (body y).run c = (.ok (parts y), c)) (hx : (body x).run c = (.error f, c)) :
    (forEach body (xs ++ x :: ys)).run c = (.error f, c) := by
  rw [forEach_append, run_bind_ok (run_forEach hxs), forEach, run_bind, run_bind, hx]

/-- The text of a segment, where every reference among the segments has a scalar. -/
theorem run_segment_ok
    (h : ∀ path, .reference path ∈ ss → c.scalar? (String.ofList path) = .ok (values path))
    {s : Segment} (hs : s ∈ ss) :
    (do return [← segment r escaping s] : Eval (List String)).run c =
      (.ok [s.replaced fun path => r.outputIf escaping (values path)], c) := by
  cases s with
  | char d => rfl
  | sign => rfl
  | reference path =>
    have hscalar : (scalar (String.ofList path)).run c = (.ok (values path), c) := by
      rw [run_scalar_eq, h path hs]
      rfl
    have hsegment : (segment r escaping (.reference path)).run c =
        (.ok (r.outputIf escaping (values path)), c) := by
      rw [segment, run_bind_ok hscalar]
      rfl
    rw [run_bind_ok hsegment]
    rfl

/-- Segments whose references have scalars are replaced one by one. -/
theorem run_interpolate_ok {text : String} (hss : Segment.segments text.toList = ss)
    (h : ∀ path, .reference path ∈ ss → c.scalar? (String.ofList path) = .ok (values path)) :
    (interpolate r escaping text).run c =
      (.ok (String.join (ss.map (Segment.replaced fun path => r.outputIf escaping (values path)))),
        c) := by
  have hsegments : (segments r escaping ss).run c =
      (.ok (ss.map (Segment.replaced fun path => r.outputIf escaping (values path))), c) := by
    rw [segments, run_forEach fun s hs => run_segment_ok h hs, List.map_eq_flatMap]
  rw [interpolate, hss, joined, run_bind_ok hsegments]
  rfl

/-- The first reference without a scalar decides how the evaluation fails. -/
theorem run_interpolate_error {text : String} {path : List Char} {after : List Segment}
    {e : RenderError} (hss : Segment.segments text.toList = ss ++ .reference path :: after)
    (h : ∀ p, .reference p ∈ ss → c.scalar? (String.ofList p) = .ok (values p))
    (hpath : c.scalar? (String.ofList path) = .error e) :
    (interpolate r escaping text).run c = (.error (.render e), c) := by
  have hscalar : (scalar (String.ofList path)).run c = (.error (.render e), c) := by
    rw [run_scalar_eq, hpath]
    rfl
  have hsegments : (segments r escaping (ss ++ .reference path :: after)).run c =
      (.error (.render e), c) := by
    refine run_forEach_error (fun s hs => run_segment_ok h hs) ?_
    rw [segment, run_bind, run_bind, hscalar]
  rw [interpolate, hss, joined, run_bind, hsegments]

end Eval

/-- Whether all references among some segments have scalars. -/
def Segment.HaveScalars (c : Context) (ss : List Segment) : Prop :=
  ∀ path, .reference path ∈ ss → ∃ text, c.scalar? (String.ofList path) = .ok text

/-- All references have scalars, or there is a first one that has none. -/
theorem Segment.haveScalars_or_exists (c : Context) (ss : List Segment) :
    HaveScalars c ss ∨ ∃ before path after e, ss = before ++ .reference path :: after ∧
      HaveScalars c before ∧ c.scalar? (String.ofList path) = .error e := by
  have hnil : HaveScalars c [] := fun path hpath => absurd hpath List.not_mem_nil
  induction ss with
  | nil => exact .inl hnil
  | cons s ss ih =>
    -- the segment in front has what it needs, or it is the first that does not
    have hfront (h : HaveScalars c [s]) : HaveScalars c (s :: ss) ∨
        ∃ before path after e, s :: ss = before ++ .reference path :: after ∧
          HaveScalars c before ∧ c.scalar? (String.ofList path) = .error e := by
      have hcons {ts : List Segment} (hts : HaveScalars c ts) : HaveScalars c (s :: ts) := by
        intro path hpath
        rcases List.mem_cons.1 hpath with heq | hmem
        · exact h path (by simp [heq])
        · exact hts path hmem
      rcases ih with hall | ⟨before, path, after, e, rfl, hbefore, he⟩
      · exact .inl (hcons hall)
      · exact .inr ⟨s :: before, path, after, e, rfl, hcons hbefore, he⟩
    cases s with
    | char d => exact hfront fun path hpath => by simp at hpath
    | sign => exact hfront fun path hpath => by simp at hpath
    | reference path =>
      cases hpath : c.scalar? (String.ofList path) with
      | error e => exact .inr ⟨[], path, ss, e, rfl, hnil, hpath⟩
      | ok text =>
        refine hfront fun p hp => ⟨text, ?_⟩
        obtain rfl : p = path := by simpa using hp
        exact hpath

namespace Renderer

theorem outputIf_eq_ite (r : Renderer) (escaping : Bool) (text : String) :
    r.outputIf escaping text =
      if r.config.autoescape && escaping then Text.escape text else text := by
  cases escaping <;> simp [outputIf, output]

/-- **One scan from the left.**  A text is cut from the left in exactly one way.  Its value is what
its segments are replaced by: characters by themselves, a doubled sign by one, and a reference by
the text of its scalar, escaped if both the configuration and the place ask for it.  Otherwise the
evaluation fails as the first reference without a scalar does. -/
theorem interpolation_scans_once (text : String) :
    ∃ ss, (∀ ss', Segment.Scans text.toList ss' ↔ ss' = ss) ∧
      ss.flatMap Segment.source = text.toList ∧
      ∀ (r : Renderer) (escaping : Bool) (c : Context),
        (∃ values : List Char → String,
          (∀ path, .reference path ∈ ss → c.scalar? (String.ofList path) = .ok (values path)) ∧
          (r.interpolate text escaping).run c =
            (.ok (String.join (ss.map (Segment.replaced fun path =>
              if r.config.autoescape && escaping then Text.escape (values path)
              else values path))), c)) ∨
        ∃ before path after e, ss = before ++ .reference path :: after ∧
          (∀ p, .reference p ∈ before → ∃ s, c.scalar? (String.ofList p) = .ok s) ∧
          c.scalar? (String.ofList path) = .error e ∧
          (r.interpolate text escaping).run c = (.error (.render e), c) := by
  refine ⟨Segment.segments text.toList, fun ss' => Segment.scans_iff,
    Segment.source_segments text.toList, ?_⟩
  intro r escaping c
  rcases Segment.haveScalars_or_exists c (Segment.segments text.toList) with
    hall | ⟨before, path, after, e, hss, hbefore, he⟩
  · choose! values hvalues using hall
    refine .inl ⟨values, hvalues, ?_⟩
    rw [interpolate, Eval.run_interpolate_ok rfl hvalues]
    simp only [outputIf_eq_ite]
  · have hvalues := hbefore
    choose! values hvalues using hvalues
    exact .inr ⟨before, path, after, e, hss, hbefore, he,
      Eval.run_interpolate_error hss hvalues he⟩

end Renderer

end MarkupForms

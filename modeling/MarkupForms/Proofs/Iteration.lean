import MarkupForms.Proofs.Loops
import MarkupForms.Proofs.Unmentioned

/-!
# Rounds one after the other

A loop goes through its collection round by round.  Nothing of a round is left for the next one: its
frame is closed, and what handlers have bound in it is gone.  So a loop over two collections, one
after the other, comes to what the loops over either of them come to, and the first round that fails
decides the error.  The collections have to be somewhere, so three contexts are compared, which
differ in the name that leads to them; it must not matter to the rounds.

* `Control.Plan.outcome_run_append` : rounds after rounds.
* `EvalOn.GoesRound` : a computation goes through the rounds of a plan, or fails whatever they are.
* `Renderer.loop_over_append` : a loop over two collections, one after the other.
-/

namespace MarkupForms

open Eval

variable {α : Type}

/-! ## Rounds after rounds -/

/-- Items after items, in a context that is left as it is by the first ones.  In other contexts
either of them may be computed as well, if they come to the same there. -/
theorem Eval.outcome_forEach_append {body : α → Eval (List String)} {xs ys : List α}
    {c₁ c₂ c : Context} (h₁ : ((forEach body xs).run c₁).1 = ((forEach body xs).run c).1)
    (h₂ : ((forEach body ys).run c₂).1 = ((forEach body ys).run c).1)
    (hkeeps : ((forEach body xs).run c).2 = c) :
    ((forEach body (xs ++ ys)).run c).1 = (do
      let first ← ((forEach body xs).run c₁).1
      let rest ← ((forEach body ys).run c₂).1
      return first ++ rest) := by
  rw [forEach_append, run_bind, h₁, h₂]
  rcases hxs : (forEach body xs).run c with ⟨o, after⟩
  obtain rfl : after = c := by rw [← hkeeps, hxs]
  cases o with
  | error f => rfl
  | ok first =>
    dsimp only
    rw [run_bind]
    rcases (forEach body ys).run after with ⟨o, last⟩
    cases o <;> rfl

namespace Renderer

variable {r : Renderer} {name : String} {body : List Node} {c₁ c₂ c : Context}

theorem allows_plan {L : Logic} {ms : List Meaning} (hms : ∀ m ∈ ms, m.Obeys L .any)
    (rounds : List (List (String × Value))) : L.Allows (Control.Plan.run ⟨rounds, ms⟩) :=
  Logic.allows_forEach fun bindings _ => Control.holds_round bindings hms

/-- Rounds after rounds in a context, and either of them in contexts that differ from it in a name
that the body ignores. -/
theorem outcome_plan_append (hr : r.NeverPops) (hname : Context.pathHead name = name)
    (hbody : ∀ n ∈ body, r.Ignores name n) (room : Nat) (h₁ : c₁.SameBut name c)
    (h₂ : c₂.SameBut name c) (xs ys : List (List (String × Value))) :
    ((Control.Plan.run ⟨xs ++ ys, body.map (r.handle room).meaning⟩).run c).1 = (do
      let first ← ((Control.Plan.run ⟨xs, body.map (r.handle room).meaning⟩).run c₁).1
      let rest ← ((Control.Plan.run ⟨ys, body.map (r.handle room).meaning⟩).run c₂).1
      return first ++ rest) := by
  have hignores := allows_plan (Handler.obeys_map fun n hn =>
    (conforms_handle hr hname room).meaning n (hbody n hn))
  have hkeeps := allows_plan (Handler.obeys_children (keeps_handle hr.isContained room) body)
  exact outcome_forEach_append (Logic.outcome_eq_of_ignoring (hignores xs) h₁)
    (Logic.outcome_eq_of_ignoring (hignores ys) h₂) (hkeeps xs c).1.eq

end Renderer

/-! ## Names that are none -/

theorem Eval.exists_throw_malformedAt (form : String) (e : String → FormFault) (n : Node) :
    ∃ f, (malformedAt form e n : Eval α) = throw f := by
  rw [malformedAt, written]
  split <;> exact ⟨_, rfl⟩

namespace Control

theorem exists_throw_loopName {name : String} (hname : ¬ Text.isName name.toList = true) :
    ∃ f, (loopName (.text name) : Eval String) = throw f := by
  rw [loopName, if_neg hname]
  exact exists_throw_malformedAt _ _ _

theorem exists_throw_loopNames {names : List String}
    (hnames : ¬ ∀ name ∈ names, Text.isName name.toList = true) :
    ∃ f, (loopNames (names.map .text) : Eval (List String)) = throw f := by
  induction names with
  | nil => exact absurd (fun _ hname => absurd hname List.not_mem_nil) hnames
  | cons name names ih =>
    rw [List.map_cons, loopNames]
    by_cases hname : Text.isName name.toList = true
    · have hrest : ¬ ∀ n ∈ names, Text.isName n.toList = true :=
        fun hall => hnames (List.forall_mem_cons.2 ⟨hname, hall⟩)
      obtain ⟨f, hf⟩ := ih hrest
      rw [loopName_text hname, pure_bind, hf]
      exact ⟨f, rfl⟩
    · obtain ⟨f, hf⟩ := exists_throw_loopName hname
      rw [hf]
      exact ⟨f, rfl⟩

end Control

/-! ## Loops that go through rounds -/

/-- Whether a computation goes through the rounds for a collection as soon as a path leads to it, or
fails in one way whatever the collection is. -/
def EvalOn.GoesRound (m : Eval (List String)) (source : String) (collection : List α → Value)
    (rounds : List α → List (List (String × Value))) (body : List Meaning) : Prop :=
  (∀ c xs, c.resolve source = .ok (collection xs) →
    m.run c = (Control.Plan.run ⟨rounds xs, body⟩).run c) ∨
  ∃ f, ∀ c xs, c.resolve source = .ok (collection xs) → (m.run c).1 = .error f

theorem EvalOn.GoesRound.of_throw {m : Eval (List String)} (h : ∃ f, m = throw f) {source : String}
    {collection : List α → Value} {rounds : List α → List (List (String × Value))}
    {body : List Meaning} : m.GoesRound source collection rounds body := by
  obtain ⟨f, rfl⟩ := h
  exact .inr ⟨f, fun _ _ _ => rfl⟩

namespace Renderer

variable {r : Renderer} {room : Nat} {x k v source : String} {body : List Node}

theorem goesRound_itemsInWords (r : Renderer) (room : Nat) (x source : String)
    (body : List Node) :
    ((r.handle room).meaning (.itemsInWords x source body)).evaluate.GoesRound source .list
      (Control.itemRounds x) (body.map (r.handle room).meaning) := by
  by_cases hx : Text.isName x.toList = true
  · refine .inl fun c items hitems => ?_
    rw [run_itemsInWords hx, hitems, ← Control.overItems_eq]
  · refine .of_throw ?_
    have hnames : ¬ ∀ name ∈ [x], Text.isName name.toList = true :=
      fun hall => hx (hall x List.mem_cons_self)
    obtain ⟨f, hf⟩ := Control.exists_throw_loopNames hnames
    rw [evaluate_oneName, hf]
    exact ⟨f, rfl⟩

/-- The word between the names and the map cannot be the second name. -/
theorem exists_throw_secondIn (r : Renderer) (room : Nat) (k source : String) (body : List Node) :
    ∃ f, ((r.handle room).meaning (.entriesInWords k "in" source body)).evaluate = throw f := by
  have hsplit : Control.splitLoop ((.text k :: .text "in" :: .text "in" :: .var source ::
      body).map (r.handle room).meaning) = some ([(r.handle room).meaning (.text k)],
        (r.handle room).meaning (.text "in") :: (r.handle room).meaning (.var source) ::
          body.map (r.handle room).meaning) := by
    simp only [List.map_cons, Control.splitLoop, isIn_meaning, decide_true, if_true]
  rw [Node.entriesInWords, evaluate_loop, Option.map_none, Control.loop, Control.wordLoop, hsplit]
  dsimp only
  rw [List.map_singleton, node_meaning, node_meaning, ← List.map_singleton]
  by_cases hnames : ∀ name ∈ [k], Text.isName name.toList = true
  · rw [Control.loopNames_texts hnames, pure_bind]
    exact exists_throw_malformedAt _ _ _
  · obtain ⟨f, hf⟩ := Control.exists_throw_loopNames hnames
    rw [hf]
    exact ⟨f, rfl⟩

theorem goesRound_entriesInWords (r : Renderer) (room : Nat) (k v source : String)
    (body : List Node) :
    ((r.handle room).meaning (.entriesInWords k v source body)).evaluate.GoesRound source .map
      (Control.entryRounds k v) (body.map (r.handle room).meaning) := by
  by_cases hin : v = "in"
  · subst hin
    exact .of_throw (exists_throw_secondIn r room k source body)
  by_cases hnames : ∀ name ∈ [k, v], Text.isName name.toList = true
  · refine .inl fun c entries hentries => ?_
    rw [run_entriesInWords (hnames k (by simp)) (hnames v (by simp)) hin, hentries,
      ← Control.overEntries_eq]
  · refine .of_throw ?_
    obtain ⟨f, hf⟩ := Control.exists_throw_loopNames hnames
    rw [evaluate_twoNames r room k hin, hf]
    exact ⟨f, rfl⟩

theorem goesRound_itemsByAttributes (r : Renderer) (room : Nat) (x source : String)
    (body : List Node) :
    ((r.handle room).meaning (.itemsByAttributes x source body)).evaluate.GoesRound source .list
      (Control.itemRounds x) (body.map (r.handle room).meaning) := by
  by_cases hx : Text.isName x.toList = true
  · refine .inl fun c items hitems => ?_
    rw [run_itemsByAttributes hx, hitems, ← Control.overItems_eq]
  · obtain ⟨f, hf⟩ := Control.exists_throw_loopName hx
    refine .inr ⟨f, fun c items hitems => ?_⟩
    rw [Node.itemsByAttributes, evaluate_iterate rfl rfl rfl, Control.sourceLoop,
      run_bind_ok (run_resolve_ok hitems)]
    dsimp only
    rw [requiredName_of_text rfl (node_meaning r room (.text x)), hf]
    rfl

theorem goesRound_entriesByAttributes (r : Renderer) (room : Nat) (k v source : String)
    (body : List Node) :
    ((r.handle room).meaning (.entriesByAttributes k v source body)).evaluate.GoesRound source .map
      (Control.entryRounds k v) (body.map (r.handle room).meaning) := by
  have hloop {c : Context} {entries : List (String × Value)}
      (hentries : c.resolve source = .ok (.map entries)) :
      ((r.handle room).meaning (.entriesByAttributes k v source body)).evaluate.run c = (do
        let key ← Control.loopName (.text k)
        let value ← Control.loopName (.text v)
        Control.overEntries key value entries (body.map (r.handle room).meaning)).run c := by
    rw [Node.entriesByAttributes, evaluate_iterate rfl rfl rfl, Control.sourceLoop,
      run_bind_ok (run_resolve_ok hentries)]
    dsimp only
    rw [requiredName_of_text rfl (node_meaning r room (.text k)),
      requiredName_of_text rfl (node_meaning r room (.text v))]
  by_cases hk : Text.isName k.toList = true
  · by_cases hv : Text.isName v.toList = true
    · refine .inl fun c entries hentries => ?_
      rw [hloop hentries, Control.loopName_text hk, pure_bind, Control.loopName_text hv, pure_bind,
        ← Control.overEntries_eq]
    · obtain ⟨f, hf⟩ := Control.exists_throw_loopName hv
      refine .inr ⟨f, fun c entries hentries => ?_⟩
      rw [hloop hentries, Control.loopName_text hk, pure_bind, hf]
      rfl
  · obtain ⟨f, hf⟩ := Control.exists_throw_loopName hk
    refine .inr ⟨f, fun c entries hentries => ?_⟩
    rw [hloop hentries, hf]
    rfl

/-- A computation that goes through rounds, for a collection after another one. -/
theorem outcome_append_of_goesRound (hr : r.NeverPops)
    (hbody : ∀ n ∈ body, r.Ignores (Context.pathHead source) n) {c₁ c₂ c : Context}
    (h₁ : c₁.SameBut (Context.pathHead source) c) (h₂ : c₂.SameBut (Context.pathHead source) c)
    {m : Eval (List String)} {collection : List α → Value}
    {rounds : List α → List (List (String × Value))}
    (hm : m.GoesRound source collection rounds (body.map (r.handle room).meaning))
    (hrounds : ∀ xs ys, rounds (xs ++ ys) = rounds xs ++ rounds ys) {xs ys : List α}
    (hxs : c₁.resolve source = .ok (collection xs)) (hys : c₂.resolve source = .ok (collection ys))
    (hboth : c.resolve source = .ok (collection (xs ++ ys))) :
    (m.run c).1 = (do
      let first ← (m.run c₁).1
      let rest ← (m.run c₂).1
      return first ++ rest) := by
  obtain hruns | ⟨f, hfails⟩ := hm
  · rw [hruns c _ hboth, hruns c₁ xs hxs, hruns c₂ ys hys, hrounds]
    exact outcome_plan_append hr (Context.pathHead_pathHead source) hbody room h₁ h₂ _ _
  · rw [hfails c _ hboth, hfails c₁ xs hxs]
    rfl

/-- **Rounds are independent and in order.**  Let three contexts differ in the head of a path only,
which leads to a collection, to another one and to both of them, one after the other.  If neither
the body of a loop nor anything that a handler takes up because of it mentions the name, programs of
handlers overlook its value, and no handler closes frames that it has not opened, the loop over both
collections yields what the loop over the first one yields and then what the loop over the second
one yields; if one of these fails, it fails with the error of the first one that does.  This holds
of lists and of the entries of maps, however the loop is written. -/
theorem loop_over_append (hr : r.NeverPops) (room : Nat) (source : String) {body : List Node}
    (hbody : ∀ n ∈ body, r.Ignores (Context.pathHead source) n) {c₁ c₂ c : Context}
    (h₁ : c₁.SameBut (Context.pathHead source) c) (h₂ : c₂.SameBut (Context.pathHead source) c) :
    (∀ xs ys, c₁.resolve source = .ok (.list xs) → c₂.resolve source = .ok (.list ys) →
      c.resolve source = .ok (.list (xs ++ ys)) →
        ∀ x, ∀ loop ∈ [Node.itemsInWords x source body, .itemsByAttributes x source body],
          (((r.handle room).meaning loop).evaluate.run c).1 = (do
            let first ← (((r.handle room).meaning loop).evaluate.run c₁).1
            let rest ← (((r.handle room).meaning loop).evaluate.run c₂).1
            return first ++ rest)) ∧
      ∀ xs ys, c₁.resolve source = .ok (.map xs) → c₂.resolve source = .ok (.map ys) →
        c.resolve source = .ok (.map (xs ++ ys)) →
          ∀ k v, ∀ loop ∈
              [Node.entriesInWords k v source body, .entriesByAttributes k v source body],
            (((r.handle room).meaning loop).evaluate.run c).1 = (do
              let first ← (((r.handle room).meaning loop).evaluate.run c₁).1
              let rest ← (((r.handle room).meaning loop).evaluate.run c₂).1
              return first ++ rest) := by
  constructor
  · intro xs ys hxs hys hboth x loop hloop
    have hgoes : ((r.handle room).meaning loop).evaluate.GoesRound source .list
        (Control.itemRounds x) (body.map (r.handle room).meaning) := by
      rcases List.mem_pair.1 hloop with rfl | rfl
      · exact goesRound_itemsInWords r room x source body
      · exact goesRound_itemsByAttributes r room x source body
    exact outcome_append_of_goesRound hr hbody h₁ h₂ hgoes (fun _ _ => List.map_append) hxs hys
      hboth
  · intro xs ys hxs hys hboth k v loop hloop
    have hgoes : ((r.handle room).meaning loop).evaluate.GoesRound source .map
        (Control.entryRounds k v) (body.map (r.handle room).meaning) := by
      rcases List.mem_pair.1 hloop with rfl | rfl
      · exact goesRound_entriesInWords r room k v source body
      · exact goesRound_entriesByAttributes r room k v source body
    exact outcome_append_of_goesRound hr hbody h₁ h₂ hgoes (fun _ _ => List.map_append) hxs hys
      hboth

/-- A renderer with a handler that binds the name of the loop and one that renders a template, which
mentions it. -/
def rowing : Renderer where
  config := { Config.standard with limit := 2, limit_pos := Nat.two_pos }
  registry := ⟨[("let", .binding "x" (.ok (.text "9"))), ("row", .template "row" .shared)],
    by decide⟩
  templates := [("row", ⟨⟨"li", none, [.var "x"]⟩, ""⟩)]

theorem handlers_rowing {tag : String} {handler : Handler}
    (hget : rowing.registry.get? tag = some handler) :
    handler = .binding "x" (.ok (.text "9")) ∨ handler = .template "row" .shared := by
  revert hget
  apply Registry.forall_get?
  simp [rowing]

theorem neverPops_rowing : rowing.NeverPops := by
  intro tag handler hget
  rcases handlers_rowing hget with rfl | rfl <;> exact id

/-- The body `(row) (let $x)`, or more of that kind. -/
theorem ignores_rowing {n : Node} (hn : "xs" ∉ n.mentions) : rowing.Ignores "xs" n := by
  refine .of_forms hn (fun tag handler _ _ hget form hform => ?_) fun tag p hget => ?_
  · rcases handlers_rowing hget with rfl | rfl
    · cases hform
    · obtain rfl : form = ⟨"li", none, [.var "x"]⟩ := List.mem_singleton.1 hform
      decide
  · rcases handlers_rowing hget with h | h <;> cases h

/-- A frame in which `xs` has a value, over a root in which it has another one. -/
def withItems (v : Value) : Context :=
  ⟨[.ofList [("y", .scalar "0"), ("xs", v)]], .ofList [("xs", .scalar "")]⟩

theorem withItems_sameBut (v w : Value) : (withItems v).SameBut "xs" (withItems w) := by
  have hbind (u : Value) :
      Context.bind ⟨[.ofList [("y", .scalar "0")]], .ofList [("xs", .scalar "")]⟩ "xs" u =
        .ok (withItems u) := rfl
  exact Context.SameBut.of_bind (hbind v) (hbind w)

/-- The body `(row) (let $x)`: the template sees the item, and what a handler binds hides it until
the handler is done. -/
def rowBody : List Node :=
  [.tag "row" none [], .tag "let" none [.var "x"]]

/-- A list goes on after its first item, and a map does not go on after its second entry. -/
theorem rowing_goes_on :
    rowing.NeverPops ∧ (∀ n ∈ rowBody, rowing.Ignores "xs" n) ∧ rowing.Ignores "xs" (.var "v") ∧
      ((rowing.evaluate (.itemsInWords "x" "xs" rowBody)).run
          (withItems (.list [.scalar "1", .scalar "2"]))).1 =
        .ok ["<li>1</li>", "9", "<li>2</li>", "9"] ∧
      ((rowing.evaluate (.itemsInWords "x" "xs" rowBody)).run
          (withItems (.list [.scalar "1", .scalar "2"]))).1 = (do
        let first ← ((rowing.evaluate (.itemsInWords "x" "xs" rowBody)).run
          (withItems (.list [.scalar "1"]))).1
        let rest ← ((rowing.evaluate (.itemsInWords "x" "xs" rowBody)).run
          (withItems (.list [.scalar "2"]))).1
        return first ++ rest) ∧
      ((rowing.evaluate (.entriesByAttributes "k" "v" "xs" [.var "v"])).run
          (withItems (.map [("a", .scalar "1"), ("b", .list []), ("c", .map [])]))).1 =
        .error (.render (.typeMismatch "scalar" "list" "v")) ∧
      ((rowing.evaluate (.entriesByAttributes "k" "v" "xs" [.var "v"])).run
          (withItems (.map [("a", .scalar "1"), ("b", .list []), ("c", .map [])]))).1 = (do
        let first ← ((rowing.evaluate (.entriesByAttributes "k" "v" "xs" [.var "v"])).run
          (withItems (.map [("a", .scalar "1"), ("b", .list [])]))).1
        let rest ← ((rowing.evaluate (.entriesByAttributes "k" "v" "xs" [.var "v"])).run
          (withItems (.map [("c", .map [])]))).1
        return first ++ rest) := by
  have hbody : ∀ n ∈ rowBody, rowing.Ignores "xs" n := by
    intro n hn
    rcases List.mem_pair.1 hn with rfl | rfl <;> exact ignores_rowing (by decide)
  have hvalue : rowing.Ignores "xs" (.var "v") := ignores_rowing (by decide)
  have hlist := loop_over_append neverPops_rowing rowing.config.limit "xs" hbody
    (withItems_sameBut (.list [.scalar "1"]) (.list [.scalar "1", .scalar "2"]))
    (withItems_sameBut (.list [.scalar "2"]) (.list [.scalar "1", .scalar "2"]))
  have hmap := loop_over_append neverPops_rowing rowing.config.limit "xs"
    (fun n hn => List.mem_singleton.1 hn ▸ hvalue)
    (withItems_sameBut (.map [("a", .scalar "1"), ("b", .list [])])
      (.map [("a", .scalar "1"), ("b", .list []), ("c", .map [])]))
    (withItems_sameBut (.map [("c", .map [])])
      (.map [("a", .scalar "1"), ("b", .list []), ("c", .map [])]))
  refine ⟨neverPops_rowing, hbody, hvalue, by decide +kernel, ?_, by decide +kernel, ?_⟩
  · exact hlist.1 _ _ rfl rfl rfl "x" _ List.mem_cons_self
  · exact hmap.2 _ _ rfl rfl rfl "k" "v" _ (by simp)

end Renderer

end MarkupForms

import MarkupForms.Proofs.Attribution
import MarkupForms.Proofs.Relevance
import MarkupForms.Proofs.Restoration
import Mathlib.Data.List.TakeWhile
import Mathlib.Logic.Relation

/-!
# Names that are not mentioned

Two contexts may differ in the value of one name, wherever it is bound, and in nothing else: they
have the same frames, and these bind the same names.  A tree that does not mention the name cannot
tell them apart, whatever handlers it calls, as long as nothing that is evaluated on the way
mentions it either and no program looks at its value.  Handlers bind names and look at what is
visible, so the contexts afterwards may differ in that one value again, and in nothing else.

Handlers that close frames are left out here.

* `Context.SameBut` : two contexts differ in the value of one name at most.
* `Eval.Logic.ignoring` : the judgement that a computation takes no notice of the difference.
* `Renderer.Leads`, `Renderer.Ignores` : what is evaluated because of a tree, and that none of it
  mentions a name.
* `Renderer.conforms_handle` : what ignores a name takes no notice of its value.
-/

namespace MarkupForms

open Eval

/-! ## Heads of paths -/

namespace Text

/-- The first segment of a text is what stands before the first dot. -/
theorem head?_splitDots (s : List Char) : (splitDots s).head? = some (s.takeWhile (· != '.')) := by
  induction s with
  | nil => rfl
  | cons c s ih =>
    by_cases hc : c = '.'
    · simp [splitDots, hc]
    · cases hsegments : splitDots s with
      | nil => exact absurd hsegments (splitDots_ne_nil s)
      | cons segment rest =>
        rw [hsegments] at ih
        simp_all [splitDots]

end Text

namespace Context

theorem toList_pathHead (path : String) :
    (pathHead path).toList = (normalize path).toList.takeWhile (· != '.') := by
  have hhead := Text.head?_splitDots (normalize path).toList
  rw [pathHead, Text.pathSegments, List.headD_eq_head?_getD, List.head?_map, hhead]
  simp

/-- The head of a path has no sign in front of it. -/
theorem normalize_pathHead (path : String) : normalize (pathHead path) = pathHead path := by
  rw [normalize, toList_pathHead, normalize, String.toList_ofList]
  cases hrest : path.toList.dropWhile (· == '$') with
  | nil => simp [← String.toList_inj, toList_pathHead, normalize, hrest]
  | cons c rest =>
    have hc : (c == '$') = false := by
      have hnot := List.head_dropWhile_not (· == '$') (hrest ▸ List.cons_ne_nil c rest)
      simpa only [hrest, List.head_cons] using hnot
    rw [← String.toList_inj, toList_pathHead, normalize, String.toList_ofList, String.toList_ofList,
      hrest]
    by_cases hdot : c = '.' <;> simp_all

theorem pathHead_pathHead (path : String) : pathHead (pathHead path) = pathHead path := by
  rw [← String.toList_inj, toList_pathHead, normalize_pathHead, toList_pathHead,
    List.takeWhile_idem]

/-- A path that is nothing but the head of a path is led by it. -/
theorem pathHead_of_normalize_eq {name path : String} (hname : pathHead name = name)
    (h : normalize path = name) : pathHead path = name := by
  have htoList : name.toList = (normalize name).toList.takeWhile (· != '.') := by
    rw [← toList_pathHead, hname]
  rw [← String.toList_inj, toList_pathHead, h, htoList, List.takeWhile_idem]

end Context

/-! ## Frames and contexts that differ in one name -/

/-- Whether two frames bind the same names, to the same values but for one name. -/
def Frame.SameBut (name : String) (f g : Frame) : Prop :=
  List.Forall₂ (fun a b : String × Value => a.1 = b.1 ∧ (a.1 ≠ name → a.2 = b.2)) f.bindings
    g.bindings

namespace Frame.SameBut

variable {name : String} {f g : Frame}

theorem refl (name : String) (f : Frame) : f.SameBut name f :=
  List.forall₂_same.2 fun _ _ => ⟨rfl, fun _ => rfl⟩

theorem names (h : f.SameBut name g) : f.names = g.names := by
  obtain ⟨es⟩ := f
  obtain ⟨fs⟩ := g
  change List.Forall₂ _ es fs at h
  induction h with
  | nil => rfl
  | cons hab _ ih => exact congrArg₂ List.cons hab.1 ih

theorem lookup (h : f.SameBut name g) {key : String} (hkey : key ≠ name) :
    f.lookup key = g.lookup key := by
  obtain ⟨es⟩ := f
  obtain ⟨fs⟩ := g
  change List.Forall₂ _ es fs at h
  show es.lookup key = fs.lookup key
  induction h with
  | nil => rfl
  | @cons a b es fs hab _ ih =>
    obtain ⟨k, v⟩ := a
    obtain ⟨l, w⟩ := b
    obtain ⟨rfl, hvalues⟩ : k = l ∧ (k ≠ name → v = w) := hab
    rw [Entries.lookup_cons_eq, Entries.lookup_cons_eq, ih]
    split
    · rename_i heq
      rw [hvalues (heq ▸ hkey)]
    · rfl

/-- Binding a name in both frames; if it is the one that they differ in, the values may differ. -/
theorem bind_of_eq (h : f.SameBut name g) (key : String) {v w : Value}
    (hvalues : key ≠ name → v = w) : (f.bind key v).SameBut name (g.bind key w) := by
  obtain ⟨es⟩ := f
  obtain ⟨fs⟩ := g
  change List.Forall₂ _ es fs at h
  show List.Forall₂ _ (Entries.put key v es) (Entries.put key w fs)
  induction h with
  | nil => exact .cons ⟨rfl, hvalues⟩ .nil
  | @cons a b es fs hab hrest ih =>
    obtain ⟨k, x⟩ := a
    obtain ⟨l, y⟩ := b
    obtain ⟨rfl, hold⟩ : k = l ∧ (k ≠ name → x = y) := hab
    rw [Entries.put, Entries.put]
    split
    · rename_i hk
      obtain rfl := eq_of_beq hk
      exact .cons ⟨rfl, hvalues⟩ hrest
    · exact .cons ⟨rfl, hold⟩ ih

end Frame.SameBut

/-- Whether two contexts have the same frames, but for the value of one name. -/
structure Context.SameBut (name : String) (c d : Context) : Prop where
  /-- The frames over the roots, one by one. -/
  opened : List.Forall₂ (Frame.SameBut name) c.opened d.opened
  /-- The roots. -/
  root : c.root.SameBut name d.root

namespace Context.SameBut

variable {name : String} {c d : Context}

theorem refl (name : String) (c : Context) : c.SameBut name c :=
  ⟨List.forall₂_same.2 fun f _ => .refl name f, .refl name c.root⟩

theorem frames (h : c.SameBut name d) : List.Forall₂ (Frame.SameBut name) c.frames d.frames :=
  List.rel_append h.opened (.cons h.root .nil)

theorem names (h : c.SameBut name d) : c.names = d.names := by
  have hnames : c.frames.map Frame.names = d.frames.map Frame.names := by
    rw [← List.forall₂_eq_eq_eq, List.forall₂_map_left_iff, List.forall₂_map_right_iff]
    exact h.frames.imp fun _ _ hf => hf.names
  rw [Context.names, Context.names, List.flatMap_def, List.flatMap_def, List.map_reverse,
    List.map_reverse, hnames]

theorem depth (h : c.SameBut name d) : c.depth = d.depth :=
  congrArg (· + 1) h.opened.length_eq

theorem isEmpty_opened (h : c.SameBut name d) : c.opened.isEmpty = d.opened.isEmpty := by
  rw [Bool.eq_iff_iff, List.isEmpty_iff_length_eq_zero, List.isEmpty_iff_length_eq_zero,
    h.opened.length_eq]

/-- No other name is found to have another value. -/
theorem lookup (h : c.SameBut name d) {key : String} (hkey : normalize key ≠ name) :
    c.lookup key = d.lookup key := by
  have hframes := h.frames
  rw [Context.lookup, Context.lookup, find?, find?]
  generalize c.frames = fs at hframes ⊢
  generalize d.frames = gs at hframes ⊢
  induction hframes with
  | nil => rfl
  | cons hf _ ih => rw [List.findSome?_cons, List.findSome?_cons, hf.lookup hkey, ih]

theorem pushFrame (h : c.SameBut name d) (f : Frame) :
    (c.pushFrame f).SameBut name (d.pushFrame f) :=
  ⟨.cons (.refl name f) h.opened, h.root⟩

/-- The innermost frame is closed. -/
theorem close (h : c.SameBut name d) :
    Context.SameBut name { c with opened := c.opened.tail } { d with opened := d.opened.tail } := by
  obtain ⟨opened, root⟩ := c
  obtain ⟨opened', root'⟩ := d
  obtain ⟨hopened, hroot⟩ := h
  cases hopened with
  | nil => exact ⟨.nil, hroot⟩
  | cons _ hrest => exact ⟨hrest, hroot⟩

/-- Binding a name in both contexts is refused in both, or there is a new value in both. -/
theorem bind_of_eq (h : c.SameBut name d) (key : String) {v w : Value}
    (hvalues : normalize key ≠ name → v = w) :
    (∃ e, c.bind key v = .error e ∧ d.bind key w = .error e) ∨
      ∃ c' d', c.bind key v = .ok c' ∧ d.bind key w = .ok d' ∧ c'.SameBut name d' := by
  obtain ⟨opened, root⟩ := c
  obtain ⟨opened', root'⟩ := d
  obtain ⟨hopened, hroot⟩ := h
  cases hopened with
  | nil => exact .inl ⟨.sealedRoot, rfl, rfl⟩
  | cons hinner hrest =>
    exact .inr ⟨_, _, rfl, rfl, .cons (hinner.bind_of_eq _ hvalues) hrest, hroot⟩

/-- A context in which a name is bound to one value, and where it is bound to another one. -/
theorem of_bind {key : String} {v w : Value} {c₁ c₂ : Context} (h₁ : c.bind key v = .ok c₁)
    (h₂ : c.bind key w = .ok c₂) : c₁.SameBut (normalize key) c₂ := by
  have hbind := (refl (normalize key) c).bind_of_eq key (v := v) (w := w) fun hne => absurd rfl hne
  simp only [h₁, h₂] at hbind
  obtain ⟨e, he, -⟩ | ⟨c', d', hc, hd, hsame⟩ := hbind
  · cases he
  · cases hc
    cases hd
    exact hsame

end Context.SameBut

/-! ## Computations -/

/-- The judgement that a computation takes no notice of the value of a name: in contexts that
differ in this value only it comes to the same, and so do the contexts afterwards. -/
def Eval.Logic.ignoring (name : String) : Logic where
  Holds P m := ∀ c d : Context, c.SameBut name d →
    ∃ o c' d', m.run c = (o, c') ∧ m.run d = (o, d') ∧ c'.SameBut name d' ∧ ∀ a, o = .ok a → P a
  pure {α P a} ha c d h := ⟨.ok a, c, d, rfl, rfl, h, fun b hb => by cases hb; exact ha⟩
  throw f c d h := ⟨.error f, c, d, rfl, rfl, h, fun a ha => by cases ha⟩
  bind {α β P Q m k} hm hk c d h := by
    obtain ⟨o, c', d', hc, hd, hsame, hP⟩ := hm c d h
    rw [run_bind, run_bind, hc, hd]
    cases o with
    | error f => exact ⟨.error f, c', d', rfl, rfl, hsame, fun b hb => by cases hb⟩
    | ok a => exact hk a (hP a rfl) c' d' hsame
  tryCatch {α P m handler} hm hh c d h := by
    obtain ⟨o, c', d', hc, hd, hsame, hP⟩ := hm c d h
    rw [run_tryCatch, run_tryCatch, hc, hd]
    cases o with
    | error f => exact hh f c' d' hsame
    | ok a => exact ⟨.ok a, c', d', rfl, rfl, hsame, hP⟩
  inChild {α P m} f hm c d h := by
    obtain ⟨o, c', d', hc, hd, hsame, hP⟩ := hm _ _ (h.pushFrame f)
    rw [run_inChild, run_inChild, hc, hd]
    exact ⟨o, _, _, rfl, rfl, hsame.close, hP⟩

namespace Eval.Logic

variable {name : String} {α β : Type} {P : α → Prop} {m : Eval α}

theorem outcome_eq_of_ignoring (hm : (ignoring name).Holds P m) {c d : Context}
    (h : c.SameBut name d) : (m.run c).1 = (m.run d).1 := by
  obtain ⟨o, c', d', hc, hd, -, -⟩ := hm c d h
  rw [hc, hd]

/-- A computation that looks at a context, but not at the value of the name. -/
theorem holds_looking {k : Context → Eval α} (hk : ∀ c d, c.SameBut name d → k c = k d)
    (hall : ∀ c, (ignoring name).Holds P (k c)) : (ignoring name).Holds P (context >>= k) := by
  intro c d h
  rw [run_bind, run_bind, run_context, run_context]
  dsimp only
  rw [hk c d h]
  exact hall d c d h

/-- A path with another head is resolved alike. -/
theorem reads_ignoring {path : String} (hpath : Context.pathHead path ≠ name) :
    (ignoring name).Reads path := by
  have hresolve {c d : Context} (h : c.SameBut name d) : c.resolve path = d.resolve path :=
    Context.resolve_congr (h.lookup (by rwa [Context.normalize_pathHead]))
  constructor
  · refine holds_looking (fun c d h => ?_) fun c => Context.Permission.allows_ofExcept _ _ _
    rw [hresolve h]
  · refine holds_looking (fun c d h => ?_) fun c => allows_pure _
    rw [Context.isSet_congr (hresolve h)]

theorem allows_hasContent (hname : Context.pathHead name = name) {path : String}
    (hpath : Context.pathHead path ≠ name) :
    (ignoring name).Allows (do return Predicate.hasContent ((← context).lookup path)) := by
  refine holds_looking (fun c d h => ?_) fun c => allows_pure _
  rw [h.lookup fun hsame => hpath (Context.pathHead_of_normalize_eq hname hsame)]

theorem allows_bindValue (key : String) (v : Value) :
    (ignoring name).Allows (bindValue key v) := by
  intro c d h
  obtain ⟨e, hc, hd⟩ | ⟨c', d', hc, hd, hsame⟩ := h.bind_of_eq key (v := v) fun _ => rfl
  · refine ⟨.error (.fault (.scope e)), c, d, ?_, ?_, h, fun _ _ => trivial⟩
    · rw [run_bindValue, hc]
    · rw [run_bindValue, hd]
  · refine ⟨.ok (), c', d', ?_, ?_, hsame, fun _ _ => trivial⟩
    · rw [run_bindValue, hc]
    · rw [run_bindValue, hd]

theorem allows_bindData (key : String) (data : Data) :
    (ignoring name).Allows (bindData key data) := by
  have hbind : (ignoring name).Allows (do
      let v ← ofExcept (fun e => .fault (.data e)) data.toValue?
      bindValue key v) :=
    (Context.Permission.allows_ofExcept _ _ _).andThen fun v => allows_bindValue key v
  refine holds_looking (fun c d h => ?_) fun c => ?_
  · rw [h.isEmpty_opened]
  · split
    · exact Allows.andThen (Logic.throw _ _) fun _ => hbind
    · exact hbind

/-- Handlers may bind names and look at the context, as long as they overlook the value of the
name. -/
theorem rules_ignoring :
    Handler.Rules (Context.SameBut name) (ignoring name) (ignoring name) where
  enter h := h
  leave f h := (ignoring name).inChild f h
  within {α P m} other h := by
    intro c d hsame
    obtain ⟨o, c', d', hc, hd, -, hP⟩ := h other other (.refl name other)
    rw [run_within, run_within]
    exact ⟨(m.run other).1, c, d, rfl, rfl, hsame, fun a ha => hP a (by rw [← ha, hc])⟩
  bind := allows_bindData
  look := holds_looking
  names _ _ h := h.names
  depth _ _ h := h.depth

end Eval.Logic

/-! ## Trees and the forms that their handlers have rendered -/

/-- A tree mentions the names that its nodes mention. -/
theorem Node.mentions_subset {m n : Node} (hm : m ∈ n.subtrees) : m.mentions ⊆ n.mentions := by
  intro name hname
  obtain ⟨path, hpath, rfl⟩ := List.mem_map.1 hname
  obtain ⟨k, hk, hk'⟩ := List.mem_flatMap.1 hpath
  exact pathHead_mem_mentions (mem_subtrees_trans hm hk) hk'

/-- A judgement on what a handle gives to some nodes. -/
structure Handle.Conforms (L : Logic) (Comes : Node → Prop) (h : Handle) : Prop where
  /-- A meaning is that of its node. -/
  node : ∀ n, (h.meaning n).node = n
  /-- The meanings of nodes. -/
  meaning : ∀ n, Comes n → (h.meaning n).Obeys L .any
  /-- Rendering a form. -/
  render : ∀ form, Comes form.toNode → L.Allows (h.render form)

namespace Renderer

open Eval.Logic

variable {r : Renderer}

/-- Whether a tree leads to another one: a handler of one of its tags may have it rendered, or may
ask about it. -/
inductive Leads (r : Renderer) (n : Node) : Node → Prop where
  /-- A form that is rendered. -/
  | rendered {tag : String} {attributes : Option Attributes} {children : List Node}
      {handler : Handler} {form : Form} (h : .tag tag attributes children ∈ n.subtrees)
      (hget : r.registry.get? tag = some handler)
      (hform : form ∈ handler.forms r (attributes.getD []) children) : Leads r n form.toNode
  /-- A node that is asked about. -/
  | asked {tag : String} {attributes : Option Attributes} {children : List Node}
      {handler : Handler} {m : Node} (h : .tag tag attributes children ∈ n.subtrees)
      (hget : r.registry.get? tag = some handler)
      (hm : m ∈ handler.nodes (attributes.getD []) children) : Leads r n m

/-- Whether the programs that run for the tags of a tree overlook the value of a name. -/
def Overlooks (r : Renderer) (name : String) (n : Node) : Prop :=
  ∀ tag attributes children p, .tag tag attributes children ∈ n.subtrees →
    r.registry.get? tag = some (.program p) →
      (p.program (attributes.getD []) children).Overlooks (Context.SameBut name)

/-- Whether neither a tree nor any other one that is evaluated because of it mentions a name, and
the programs that run for their tags overlook its value. -/
def Ignores (r : Renderer) (name : String) (n : Node) : Prop :=
  ∀ m, Relation.ReflTransGen r.Leads n m → name ∉ m.mentions ∧ r.Overlooks name m

namespace Ignores

variable {name : String} {n m : Node}

theorem of_leads (h : r.Ignores name n) (hleads : r.Leads n m) : r.Ignores name m :=
  fun k hk => h k (.head hleads hk)

/-- What a tree ignores, all of its nodes ignore. -/
theorem every (h : r.Ignores name n) : n.Every (r.Ignores name) := by
  intro m hm k hk
  obtain rfl | ⟨l, hfirst, hrest⟩ := hk.cases_head
  · obtain ⟨hname, hprograms⟩ := h n .refl
    exact ⟨fun hmem => hname (Node.mentions_subset hm hmem), fun tag attributes children p htag =>
      hprograms tag attributes children p (Node.mem_subtrees_trans hm htag)⟩
  · cases hfirst with
    | rendered htag hget hform =>
      exact h k (.head (.rendered (Node.mem_subtrees_trans hm htag) hget hform) hrest)
    | asked htag hget hl =>
      exact h k (.head (.asked (Node.mem_subtrees_trans hm htag) hget hl) hrest)

theorem pathHead_ne (h : r.Ignores name n) {path : String} (hpath : path ∈ n.references) :
    Context.pathHead path ≠ name := by
  rintro rfl
  exact (h n .refl).1 (Node.pathHead_mem_mentions n.mem_subtrees_self hpath)

theorem allowed (h : r.Ignores name n) : n.Allowed (.ignoring name) .any :=
  allowed_of_reads fun _ hpath => reads_ignoring (h.pathHead_ne hpath)

/-- A name that no form mentions that may be rendered at all, where no handler is a program. -/
theorem of_forms (hn : name ∉ n.mentions)
    (hforms : ∀ tag handler attributes children, r.registry.get? tag = some handler →
      ∀ form ∈ handler.forms r attributes children, name ∉ form.toNode.mentions)
    (hprograms : ∀ tag p, r.registry.get? tag ≠ some (.program p)) : r.Ignores name n := by
  intro m hm
  refine ⟨?_, fun tag _ _ p _ hget => absurd hget (hprograms tag p)⟩
  obtain rfl | ⟨l, -, hlast⟩ := hm.cases_tail
  · exact hn
  · cases hlast with
    | rendered _ hget hform => exact hforms _ _ _ _ hget _ hform
    | @asked tag _ _ handler _ _ hget hm =>
      cases handler with
      | program p => exact absurd hget (hprograms tag p)
      | _ => cases hm

end Ignores

variable {name : String}

/-- A handle that takes no notice of a name serves the handlers of tags that ignore it. -/
theorem serves_of_ignores (hname : Context.pathHead name = name) {h : Handle}
    (hh : h.Conforms (.ignoring name) (r.Ignores name)) {tag : String} {handler : Handler}
    (hget : r.registry.get? tag = some handler) {attributes : Option Attributes}
    {children : List Node} (hn : r.Ignores name (.tag tag attributes children)) :
    Handler.Serves (Context.SameBut name) (.ignoring name) r h handler (attributes.getD [])
      children where
  child n hmem := hh.meaning n (hn.every.child hmem).self
  value a ha := hh.meaning a.2 (hn.every.value ha).self
  nonempty _ n hmem path hnode := by
    obtain rfl : n = .var path := (hh.node n).symm.trans hnode
    exact allows_hasContent hname ((hn.every.child hmem).self.pathHead_ne List.mem_cons_self)
  form form hform :=
    hh.render form (hn.of_leads (.rendered (Node.mem_subtrees_self _) hget hform))
  node n hmem := hh.meaning n (hn.of_leads (.asked (Node.mem_subtrees_self _) hget hmem))
  overlooks p hp := (hn _ .refl).2 tag attributes children p (Node.mem_subtrees_self _) (hp ▸ hget)

theorem obeys_ignoring (hr : r.NeverPops) (hname : Context.pathHead name = name)
    {inner : Option Handle}
    (hinner : ∀ h ∈ inner, h.Conforms (.ignoring name) (r.Ignores name)) :
    r.Obeys (.ignoring name) .any inner (r.Ignores name) where
  output _ := trivial
  nonempty tag attributes children _ hn path hmem :=
    allows_hasContent hname ((hn.child hmem).self.pathHead_ne List.mem_cons_self)
  call tag handler attributes children hget hn := by
    refine allows_call rules_ignoring tag fun h hh => ?_
    refine Handler.allows_call rules_ignoring (serves_of_ignores hname (hinner h hh) hget hn.self)
      fun times bound hpops => ?_
    have hpop : handler.Pops := by
      rw [hpops]
      trivial
    exact absurd hpop (hr tag handler hget)

theorem conforms_layer (hr : r.NeverPops) (hname : Context.pathHead name = name)
    {inner : Unit → Option Handle}
    (hinner : ∀ h ∈ inner (), h.Conforms (.ignoring name) (r.Ignores name)) :
    (r.layer inner).Conforms (.ignoring name) (r.Ignores name) where
  node n := node_denote r (inner ()) n
  meaning n hn :=
    obeys_denote (obeys_ignoring hr hname hinner) (fun _ h => h.allowed) n hn.every
  render form hform := allows_render fun h hh => (hinner h hh).meaning form.toNode hform

/-- What ignores a name takes no notice of its value, however many calls are nested. -/
theorem conforms_handle (hr : r.NeverPops) (hname : Context.pathHead name = name) (room : Nat) :
    (r.handle room).Conforms (.ignoring name) (r.Ignores name) := by
  induction room with
  | zero => exact conforms_layer hr hname fun h hh => by cases hh
  | succ room ih =>
    rw [handle_succ]
    exact conforms_layer hr hname fun h hh => Option.some.inj hh ▸ ih

end Renderer

end MarkupForms

import MarkupForms.Proofs.Conversions
import MarkupForms.Proofs.Snapshots

/-!
# Ways to make a context

The names of a map may be bound all at once, by a builder that collects them, or one by one in the
frame of a context over an empty one.  The visible bindings are the same: names that differ only in
the signs in front of them are one name, which keeps the place of the first and has the value of the
last.

When one of the names cannot be bound, none of the ways makes a context.  At once, each name is made
before its value is; one by one, it is made after it.  So the error differs where the first entry
that is refused has both a name without a text and data without a value, and nowhere else.

A builder collects in a frame of its own, and every context it builds has a root of its own.  What a
builder has built is therefore what it had collected at that time, whatever it collects afterwards.

* `toEntries?_eq_or` : where the error differs.
* `Builder.build_update` : a builder makes what is made one by one.
* `child_eq` : names that are bound one by one in a new frame make the frame of such a context.
* `names_ofList`, `lookup_ofList` : the visible bindings.
* `Builder.Bench.Shows.run` : what a builder has built goes on to show what was collected for it.
* `ways_agree` : all of this together.
-/

namespace MarkupForms

/-! ## One name after the other -/

namespace Eval

/-- Bind a key as a name in the innermost frame.  A root refuses before the data is looked at, and
the data before the text of the key is made. -/
def bindKey (k : Key) (d : Data) : Eval Unit := do
  if (← context).opened.isEmpty then fault (.scope .sealedRoot)
  let v ← ofExcept (fun e => .fault (.data e)) d.toValue?
  let name ← ofExcept (fun e => .fault (.data e)) (DataError.orLong k.toText?)
  bindValue name v

/-- Bind the names of a map in the innermost frame, one after the other. -/
def bindEach : Pairs → Eval Unit
  | [] => pure ()
  | (k, d) :: pairs => do
      bindKey k d
      bindEach pairs

end Eval

namespace Context

/-- Bindings with names without the signs in front of them. -/
def unsigned (bindings : List (String × Value)) : List (String × Value) :=
  bindings.map fun b => (normalize b.1, b.2)

/-- A context over another one, in whose frame the names of a map are bound one after the other. -/
def child (c : Context) (pairs : Pairs) : Except Failure Context :=
  let (r, after) := (Eval.bindEach pairs).run c.push
  r.map fun _ => after

/-- The names of a map as they are offered to a builder. -/
def Builder.offers (pairs : Pairs) : List (Offered (Key × Data)) :=
  pairs.map .ok

/-- The context that a builder makes of a map. -/
def Builder.made (pairs : Pairs) : Except DataError Context :=
  (empty.update (offers pairs)).map build

/-- Whether two ways to make a context fail with the same error, or make contexts with the same
visible bindings. -/
inductive Agree : Except DataError Context → Except Failure Context → Prop where
  /-- The error is the same. -/
  | refused (e : DataError) : Agree (.error e) (.error (.fault (.data e)))
  /-- The names are the same, in the same order, and so are their values. -/
  | made {c c' : Context} (hnames : c.names = c'.names)
      (hlookup : ∀ name, c.lookup name = c'.lookup name) : Agree (.ok c) (.ok c')

/-- Whether the first entry of a map that cannot be bound has both a name without a text and data
without a value, for which there is the given error. -/
inductive Clashes : Pairs → DataError → Prop where
  /-- The first entry is refused for both. -/
  | here {k : Key} {d : Data} {pairs : Pairs} {e : DataError} (hk : k.IsLong) (hd : d.Fails e) :
      Clashes ((k, d) :: pairs) e
  /-- The first entry can be bound. -/
  | later {k : Key} {d : Data} {v : Value} {pairs : Pairs} {e : DataError} (hk : ¬ k.IsLong)
      (hd : d.Denotes v) (h : Clashes pairs e) : Clashes ((k, d) :: pairs) e

/-! ## Names before values, and values before names -/

/-- One by one, no bindings are made of a map when there is no value of one of its entries or no
text of one of its keys. -/
theorem toBindings?_eq_error_iff {pairs : Pairs} {e : DataError} :
    Data.toBindings? pairs = .error e ↔ Data.FirstFails (Data.bindingSteps pairs) e := by
  induction pairs with
  | nil =>
    rw [Data.toBindings?]
    exact iff_of_false (by simp) Data.not_firstFails_nil
  | cons p pairs ih =>
    obtain ⟨k, d⟩ := p
    have hsteps : Data.bindingSteps ((k, d) :: pairs) =
        .value d :: .key k :: Data.bindingSteps pairs := rfl
    have hrest (v : Value) : (do
        let name ← DataError.orLong k.toText?
        return (name, v) :: (← Data.toBindings? pairs)) = .error e ↔
          (Data.Step.key k).Fails e ∨
            (Data.Step.key k).Passes ∧ Data.toBindings? pairs = .error e := by
      rw [Data.bind_eq_error_iff]
      simp only [Data.bind_pure_eq_error_iff, exists_and_right, Data.orLong_eq_ok_iff,
        Data.exists_toText?_iff]
      exact or_congr Data.orLong_toText?_eq_error_iff Iff.rfl
    rw [hsteps, Data.firstFails_cons_iff, Data.firstFails_cons_iff, ← ih, Data.toBindings?,
      Data.bind_eq_error_iff]
    simp only [hrest, exists_and_right]
    exact or_congr (d.toValue?_eq_error e)
      (and_congr (exists_congr fun v => d.toValue?_eq_ok v) Iff.rfl)

/-- Whether names or values come first matters for the error only where both are refused. -/
theorem toEntries?_eq_or (pairs : Pairs) :
    (∃ e, Clashes pairs e ∧ Data.toEntries? pairs = .error .longInteger ∧
      Data.toBindings? pairs = .error e) ∨
    (∀ e, ¬ Clashes pairs e) ∧ Data.toEntries? pairs = Data.toBindings? pairs := by
  induction pairs with
  | nil => exact .inr ⟨fun e => by rintro ⟨⟩, by rw [Data.toEntries?, Data.toBindings?]⟩
  | cons p pairs ih =>
    obtain ⟨k, d⟩ := p
    rw [Data.toEntries?, Data.toBindings?]
    cases hk : k.toText? with
    | none =>
      have hlong := k.toText?_eq_none_iff.1 hk
      cases hd : d.toValue? with
      | error e => exact .inl ⟨e, .here hlong ((d.toValue?_eq_error e).1 hd), rfl, rfl⟩
      | ok v =>
        refine .inr ⟨fun e hclash => ?_, rfl⟩
        cases hclash with
        | here _ hfails => exact ((d.toValue?_eq_ok v).1 hd).not_fails e hfails
        | later hnot => exact hnot hlong
    | some name =>
      have hnot : ¬ k.IsLong := by simp [← k.toText?_eq_none_iff, hk]
      cases hd : d.toValue? with
      | error e =>
        refine .inr ⟨fun e' hclash => ?_, rfl⟩
        cases hclash with
        | here hlong => exact hnot hlong
        | later _ hv => exact hv.not_fails e ((d.toValue?_eq_error e).1 hd)
      | ok v =>
        have hv := (d.toValue?_eq_ok v).1 hd
        rcases ih with ⟨e, hclash, hentries, hbindings⟩ | ⟨hnone, heq⟩
        · exact .inl ⟨e, .later hnot hv hclash, by rw [hentries]; rfl, by rw [hbindings]; rfl⟩
        · refine .inr ⟨fun e hclash => ?_, by rw [heq]; rfl⟩
          cases hclash with
          | here hlong => exact hnot hlong
          | later _ _ hclash => exact hnone e hclash

theorem ofList_eq (bindings : List (String × Value)) :
    ofList bindings = ⟨[], ⟨Entries.ofList (unsigned bindings)⟩⟩ := rfl

/-- What is made of bindings without signs binds them again to the same. -/
theorem ofList_ofList (bindings : List (String × Value)) :
    ofList (Entries.ofList (unsigned bindings)) = ofList bindings := by
  have hunsigned : unsigned (Entries.ofList (unsigned bindings)) =
      Entries.ofList (unsigned bindings) := by
    refine (List.map_congr_left fun b hb => ?_).trans (List.map_id _)
    have hname := (isMade_root_ofList bindings).normalize_of_mem (List.mem_map_of_mem hb)
    exact Prod.ext hname rfl
  rw [ofList_eq, hunsigned, Entries.ofList_eq_self (Entries.nodup_keys_ofList _)]
  rfl

/-! ## A builder -/

namespace Builder

/-- A builder collects the values of a map, or refuses with the first fault. -/
theorem update_offers (b : Builder) (pairs : Pairs) :
    b.update (offers pairs) =
      (Data.toBindings? pairs).map fun bs => ⟨Entries.putAll (unsigned bs) b.bindings⟩ := by
  induction pairs generalizing b with
  | nil => rfl
  | cons p pairs ih =>
    obtain ⟨k, d⟩ := p
    show (b.insert k d).bind (fun b => b.update (offers pairs)) = _
    rw [insert, Data.toBindings?]
    cases d.toValue? with
    | error e => rfl
    | ok v =>
      cases DataError.orLong k.toText? with
      | error e => rfl
      | ok name =>
        show Builder.update _ (offers pairs) = _
        rw [ih]
        cases Data.toBindings? pairs <;> rfl

/-- A builder makes what is made one by one. -/
theorem made_eq (pairs : Pairs) : made pairs = (Data.toBindings? pairs).map ofList := by
  rw [made, update_offers]
  cases Data.toBindings? pairs with
  | error e => rfl
  -- The builder takes the signs away when it collects, and the context takes them away again.
  | ok bindings => exact congrArg Except.ok (ofList_ofList bindings)

/-- A builder makes a context when one is made at once, and it is the same one. -/
theorem made_eq_ok_iff {pairs : Pairs} {c : Context} :
    made pairs = .ok c ↔ ofPairs? pairs = .ok c := by
  have hbindings {bindings : List (String × Value)} :=
    @Data.toBindings?_eq_ok_iff pairs bindings
  rw [made_eq, ofPairs?]
  cases hentries : Data.toEntries? pairs with
  | ok bindings => rw [hbindings.2 hentries]
  | error e =>
    cases hmade : Data.toBindings? pairs with
    | ok bindings =>
      rw [hbindings.1 hmade] at hentries
      cases hentries
    | error e' => simp [Except.map]

theorem made_eq_error_iff {pairs : Pairs} {e : DataError} :
    made pairs = .error e ↔ Data.FirstFails (Data.bindingSteps pairs) e := by
  rw [← toBindings?_eq_error_iff, made_eq]
  cases Data.toBindings? pairs <;> simp [Except.map]

/-- A builder and what is made at once differ where names and values are both refused. -/
theorem made_eq_or (pairs : Pairs) :
    (∃ e, Clashes pairs e ∧ ofPairs? pairs = .error .longInteger ∧ made pairs = .error e) ∨
      (∀ e, ¬ Clashes pairs e) ∧ made pairs = ofPairs? pairs := by
  rw [made_eq, ofPairs?]
  rcases toEntries?_eq_or pairs with ⟨e, hclash, hentries, hbindings⟩ | ⟨hnone, heq⟩
  · exact .inl ⟨e, hclash, by rw [hentries]; rfl, by rw [hbindings]; rfl⟩
  · exact .inr ⟨hnone, by rw [heq]⟩

theorem update_append (b : Builder) (first second : List (Offered (Key × Data))) :
    b.update (first ++ second) = (b.update first).bind fun b => b.update second := by
  induction first generalizing b with
  | nil => rfl
  | cons offer first ih =>
    cases offer with
    | error e => rfl
    | ok p =>
      show (b.insert p.1 p.2).bind (fun b => b.update (first ++ second)) =
        ((b.insert p.1 p.2).bind fun b => b.update first).bind fun b => b.update second
      cases b.insert p.1 p.2 with
      | error e => rfl
      | ok b => exact ih b

end Builder

/-! ## A frame over another context -/

theorem run_bindKey (c : Context) (f : Frame) (k : Key) (d : Data) :
    (Eval.bindKey k d).run (c.pushFrame f) =
      match d.toValue?, DataError.orLong k.toText? with
      | .ok v, .ok name => (.ok (), c.pushFrame (f.bind (normalize name) v))
      | .ok _, .error e => (.error (.fault (.data e)), c.pushFrame f)
      | .error e, _ => (.error (.fault (.data e)), c.pushFrame f) := by
  rw [Eval.bindKey, Eval.run_bind, Eval.run_context]
  cases d.toValue? with
  | error e => rfl
  | ok v => cases DataError.orLong k.toText? <;> rfl

/-- Names that are bound one after the other fill the frame, or fail with the first fault. -/
theorem run_bindEach (c : Context) (f : Frame) (pairs : Pairs) :
    match Data.toBindings? pairs with
    | .ok bs => (Eval.bindEach pairs).run (c.pushFrame f) =
        (.ok (), c.pushFrame ⟨Entries.putAll (unsigned bs) f.bindings⟩)
    | .error e => ((Eval.bindEach pairs).run (c.pushFrame f)).1 = .error (.fault (.data e)) := by
  induction pairs generalizing f with
  | nil => rfl
  | cons p pairs ih =>
    obtain ⟨k, d⟩ := p
    rw [Data.toBindings?, Eval.bindEach, Eval.run_bind, run_bindKey]
    cases d.toValue? with
    | error e => rfl
    | ok v =>
      cases DataError.orLong k.toText? with
      | error e => rfl
      | ok name =>
        -- The first name is bound before the others are, so the induction is over any frame.
        have hrest := ih (f.bind (normalize name) v)
        cases hbindings : Data.toBindings? pairs with
        | error | ok =>
          rw [hbindings] at hrest
          exact hrest

/-- Names that are bound one by one in a new frame make the frame of what a builder makes. -/
theorem child_eq (c : Context) (pairs : Pairs) :
    c.child pairs =
      match Builder.made pairs with
      | .ok a => .ok (c.pushFrame a.root)
      | .error e => .error (.fault (.data e)) := by
  have hbound := run_bindEach c .empty pairs
  rw [child, Builder.made_eq, push]
  cases hbindings : Data.toBindings? pairs with
  | error e =>
    rw [hbindings] at hbound
    simp only [Except.map, hbound]
  | ok bs =>
    rw [hbindings] at hbound
    simp only [Except.map, hbound]
    rfl

/-! ## The visible bindings -/

/-- Names that differ only in signs are one name, at the place of the first. -/
theorem names_ofList (bindings : List (String × Value)) :
    (ofList bindings).names = ((Entries.keys bindings).map normalize).eraseDups := by
  have hstack : ofList bindings = (Stack.mk [] (unsigned bindings)).context := rfl
  rw [hstack, Stack.names_context, Stack.names, Stack.bindings]
  simp [unsigned, Entries.keys, Function.comp_def]

/-- Names that differ only in signs are one name, with the value of the last. -/
theorem lookup_ofList (bindings : List (String × Value)) (name : String) :
    (ofList bindings).lookup name = (unsigned bindings).reverse.lookup (normalize name) := by
  have hstack : ofList bindings = (Stack.mk [] (unsigned bindings)).context := rfl
  rw [hstack, Stack.lookup_context, Stack.lookup, Stack.bindings]
  simp

/-- A frame over the empty context shows what it shows as a root. -/
theorem agree_child (pairs : Pairs) : Agree (Builder.made pairs) (empty.child pairs) := by
  rw [child_eq]
  cases hmade : Builder.made pairs with
  | error e => exact .refused e
  | ok a =>
    obtain ⟨bindings, -, rfl⟩ := ofPairs?_eq_ok_iff.1 (Builder.made_eq_ok_iff.1 hmade)
    refine .made ?_ fun name => ?_
    · simp [names, frames, pushFrame, ofList, empty]
    · rw [Context.lookup, Context.lookup, find?_pushFrame]
      simp [find?, frames, ofList, empty]

namespace Desk

/-- A script makes a context over another one as names are bound in a new frame. -/
theorem perform_child {desk : Desk} {source : String} {i : Nat} (hi : desk.number? source = some i)
    (hholds : desk.store.Holds (desk.ref i)) (slot : String) (pairs : Pairs) :
    match (desk.store.view (desk.ref i)).child pairs with
    | .ok c => (desk.perform (.child source slot pairs)).2 = .done ∧
        (desk.perform (.child source slot pairs)).1.context? slot = some c
    | .error f => ∃ e, f = .fault (.data e) ∧
        desk.perform (.child source slot pairs) = (desk, .refused (.data e)) := by
  rw [child_eq, Builder.made_eq, perform, withNumber, hi]
  simp only [Desk.child]
  cases Data.toBindings? pairs with
  | error e => exact ⟨e, rfl, rfl⟩
  | ok bindings =>
    refine ⟨rfl, ?_⟩
    rw [context?_place, desk.store.view_extend hholds]

theorem perform_child_of_create (desk : Desk) (source slot : String) (pairs : Pairs) :
    let start := (desk.perform (.create source [])).1
    match Context.empty.child pairs with
    | .ok c => (start.perform (.child source slot pairs)).2 = .done ∧
        (start.perform (.child source slot pairs)).1.context? slot = some c
    | .error f => ∃ e, f = .fault (.data e) ∧
        start.perform (.child source slot pairs) = (start, .refused (.data e)) := by
  have hstart : (desk.perform (.create source [])).1 =
      desk.place source (desk.store.create .empty) := by
    rw [perform, ofPairs?_nil]
    rfl
  have hi := number?_place desk source (desk.store.create .empty) source
  have href := ref_place_new desk source (desk.store.create .empty)
  rw [if_pos rfl] at hi
  have hchild := perform_child hi (href ▸ Store.holds_create desk.store .empty) slot pairs
  rw [href] at hchild
  rw [hstart]
  have hview : (desk.place source (desk.store.create .empty)).store.view
      (desk.store.create .empty).2 = Context.empty := Store.view_create desk.store .empty
  rwa [hview] at hchild

end Desk

/-! ## A builder that goes on -/

namespace Builder

/-- What is done with a builder. -/
inductive Work where
  /-- Collect the names of a map in turn, until one of them is refused. -/
  | collect (pairs : Pairs)
  /-- Build a context. -/
  | build

/-- Whether an entry of a map can be collected. -/
def isAccepted (p : Key × Data) : Bool :=
  p.2.toValue?.isOk && p.1.toText?.isSome

/-- The entries of a map before the first one that is refused. -/
def accepted (pairs : Pairs) : Pairs :=
  pairs.takeWhile isAccepted

/-- What was collected at each time when a context is built. -/
def Work.collected (now : Pairs) : List Work → List Pairs
  | [] => []
  | .collect pairs :: works => collected (now ++ accepted pairs) works
  | .build :: works => now :: collected now works

/-- A builder that collects in a frame of its own, and the contexts it has built. -/
structure Bench where
  /-- The frames. -/
  store : Store
  /-- The frame in which the builder collects. -/
  own : Nat
  /-- The contexts that were built, the first one first. -/
  built : List Store.Ref

namespace Bench

/-- A new builder. -/
def new : Bench := ⟨⟨[.empty]⟩, 0, []⟩

/-- The builder with what it has collected. -/
def builder (b : Bench) : Builder :=
  ⟨(b.store.frame b.own).bindings⟩

/-- Collect a name. -/
def bind (b : Bench) (name : String) (v : Value) : Bench :=
  { b with store := ⟨b.store.frames.modify b.own fun f => f.bind (normalize name) v⟩ }

/-- Collect the names of a map in turn, until one of them is refused. -/
def collect (b : Bench) : Pairs → Bench
  | [] => b
  | (k, d) :: pairs =>
    match d.toValue?, k.toText? with
    | .ok v, some name => (b.bind name v).collect pairs
    | _, _ => b

/-- Build a context, with a root of its own. -/
def build (b : Bench) : Bench :=
  let (store, r) := b.store.create b.builder.build.root
  { b with store, built := b.built ++ [r] }

/-- Do something. -/
def perform (b : Bench) : Work → Bench
  | .collect pairs => b.collect pairs
  | .build => b.build

/-- Do one thing after the other. -/
def run (b : Bench) (works : List Work) : Bench :=
  works.foldl perform b

/-- The contexts that were built, as they are now. -/
def contexts (b : Bench) : List Context :=
  b.built.map b.store.view

/-- Whether the frame of the builder is in no context that was built. -/
structure IsApart (b : Bench) : Prop where
  /-- The frame of the builder is there. -/
  own : b.own < b.store.frames.length
  /-- The frames of the contexts are there. -/
  holds : ∀ r ∈ b.built, b.store.Holds r
  /-- The contexts do without the frame of the builder. -/
  apart : ∀ r ∈ b.built, b.own ∉ r.frames

/-- Whether a builder has collected the names of a map, and its contexts show what was collected for
them. -/
structure Shows (b : Bench) (now : Pairs) (before : List Pairs) : Prop where
  /-- The frame of the builder is its own. -/
  isApart : b.IsApart
  /-- All names have been collected. -/
  collected : Builder.empty.update (offers now) = .ok b.builder
  /-- The contexts are those made of what was collected. -/
  contexts : b.contexts.map .ok = before.map ofPairs?

variable {b : Bench} {now : Pairs} {before : List Pairs}

/-- What a builder collects leaves a context as it is that does without its frame. -/
theorem view_bind {r : Store.Ref} (hr : b.store.Holds r) (hown : b.own ∉ r.frames)
    (name : String) (v : Value) : (b.bind name v).store.view r = b.store.view r := by
  have hframe {f : Nat} (hf : f ∈ r.frames) : (b.bind name v).store.frame f = b.store.frame f := by
    rw [bind, Store.frame_modify _ _ _ (hr.lt hf), if_neg]
    rintro rfl
    exact hown hf
  rw [Store.view, Store.view, Context.mk.injEq]
  exact ⟨List.map_congr_left fun f hf => hframe (List.mem_append_left _ hf),
    hframe (List.mem_append_right _ (List.mem_singleton_self _))⟩

theorem IsApart.contexts_bind (h : b.IsApart) (name : String) (v : Value) :
    (b.bind name v).contexts = b.contexts :=
  List.map_congr_left fun r hr => view_bind (h.holds r hr) (h.apart r hr) name v

theorem IsApart.bind (h : b.IsApart) (name : String) (v : Value) : (b.bind name v).IsApart := by
  have hlength : (b.bind name v).store.frames.length = b.store.frames.length :=
    List.length_modify ..
  exact ⟨hlength ▸ h.own, fun r hr => (h.holds r hr).mono hlength.ge, h.apart⟩

theorem IsApart.builder_bind (h : b.IsApart) (name : String) (v : Value) :
    (b.bind name v).builder = ⟨Entries.put (normalize name) v b.builder.bindings⟩ := by
  have hframe := b.store.frame_modify b.own (fun f => f.bind (normalize name) v) h.own
  rw [if_pos rfl] at hframe
  exact congrArg (fun f : Frame => Builder.mk f.bindings) hframe

/-- What is built stands in a new frame, and nothing else changes. -/
theorem IsApart.build (h : b.IsApart) :
    b.build.IsApart ∧ b.build.builder = b.builder ∧
      b.build.contexts = b.contexts ++ [b.builder.build] := by
  have hlength : b.store.frames.length ≤ b.build.store.frames.length := by
    simp [Bench.build, Store.create]
  have hview {r : Store.Ref} (hr : r ∈ b.built) : b.build.store.view r = b.store.view r :=
    b.store.view_append _ (h.holds r hr)
  have hnew : b.build.built = b.built ++ [⟨[], b.store.frames.length⟩] := rfl
  refine ⟨⟨h.own.trans_le hlength, fun r hr => ?_, fun r hr => ?_⟩, ?_, ?_⟩
  · rcases List.mem_append.1 (hnew ▸ hr) with hr | hr
    · exact (h.holds r hr).mono hlength
    · exact List.mem_singleton.1 hr ▸ Store.holds_create b.store _
  · rcases List.mem_append.1 (hnew ▸ hr) with hr | hr
    · exact h.apart r hr
    · rw [List.mem_singleton.1 hr]
      exact fun hown => h.own.ne (List.mem_singleton.1 hown)
  · have hframe := b.store.frame_append [b.builder.build.root] h.own
    exact congrArg (fun f : Frame => Builder.mk f.bindings) hframe
  · rw [contexts, hnew, List.map_append, List.map_singleton, contexts]
    refine congrArg₂ _ (List.map_congr_left fun r hr => hview hr) ?_
    exact congrArg (fun c => [c]) (Store.view_create b.store b.builder.build.root)

/-- One more name is collected, and what was built shows what it showed before. -/
theorem Shows.bind (h : b.Shows now before) {k : Key} {d : Data} {v : Value} {name : String}
    (hv : d.toValue? = .ok v) (hname : k.toText? = some name) :
    (b.bind name v).Shows (now ++ [(k, d)]) before := by
  refine ⟨h.isApart.bind _ v, ?_, (congrArg _ (h.isApart.contexts_bind _ v)).trans h.contexts⟩
  rw [offers, List.map_append, update_append, ← offers, h.collected, h.isApart.builder_bind]
  show ((b.builder.insert k d).bind fun b => b.update []) = _
  rw [insert, hv, hname]
  rfl

/-- The names of a map are collected until one is refused. -/
theorem Shows.collect (h : b.Shows now before) (pairs : Pairs) :
    (b.collect pairs).Shows (now ++ accepted pairs) before := by
  induction pairs generalizing b now with
  | nil => simpa [Bench.collect, accepted] using h
  | cons p pairs ih =>
    obtain ⟨k, d⟩ := p
    rw [Bench.collect, accepted, List.takeWhile_cons, isAccepted]
    cases hv : d.toValue? with
    | error e => simpa [Except.isOk, Except.toBool] using h
    | ok v =>
      cases hname : k.toText? with
      | none => simpa using h
      | some name => simpa [Except.isOk, Except.toBool, accepted] using ih (h.bind hv hname)

/-- What is built shows what was collected. -/
theorem Shows.build (h : b.Shows now before) : b.build.Shows now (before ++ [now]) := by
  obtain ⟨hapart, hbuilder, hcontexts⟩ := h.isApart.build
  refine ⟨hapart, hbuilder ▸ h.collected, ?_⟩
  -- All that was collected is accepted, so the context could have been made at once.
  have hmade : made now = .ok b.builder.build := by rw [made, h.collected]; rfl
  rw [hcontexts, List.map_append, h.contexts, List.map_append, List.map_singleton,
    List.map_singleton, made_eq_ok_iff.1 hmade]

/-- What a builder has built goes on to show what was collected for it. -/
theorem Shows.run (h : b.Shows now before) (works : List Work) :
    (b.run works).contexts.map .ok = (before ++ Work.collected now works).map ofPairs? := by
  induction works generalizing b now before with
  | nil => exact h.contexts.trans (by rw [Work.collected, List.append_nil])
  | cons work works ih =>
    cases work with
    | collect pairs => exact ih (h.collect pairs)
    | build =>
      rw [Work.collected, List.append_cons]
      exact ih h.build

theorem shows_new : new.Shows [] [] :=
  ⟨⟨Nat.zero_lt_one, by simp [new], by simp [new]⟩, rfl, rfl⟩

theorem Work.collected_append (now : Pairs) (works later : List Work) :
    ∃ more, Work.collected now (works ++ later) = Work.collected now works ++ more := by
  induction works generalizing now with
  | nil => exact ⟨_, rfl⟩
  | cons work works ih =>
    cases work with
    | collect pairs => exact ih _
    | build =>
      obtain ⟨more, hmore⟩ := ih now
      exact ⟨more, congrArg (now :: ·) hmore⟩

/-- What was built stays what it was, whatever is done with the builder later. -/
theorem contexts_run_append (works later : List Work) :
    (new.run works).contexts <+: (new.run (works ++ later)).contexts := by
  obtain ⟨more, hmore⟩ := Work.collected_append [] works later
  have hnow := shows_new.run works
  have hlater := shows_new.run (works ++ later)
  rw [hmore, ← List.append_assoc, List.map_append, ← hnow] at hlater
  obtain ⟨first, last, hcontexts, hfirst, -⟩ := List.map_eq_append_iff.1 hlater
  have hinjective : Function.Injective (Except.ok : Context → Except DataError Context) :=
    fun _ _ => Except.ok.inj
  exact ⟨last, by rw [hcontexts, hinjective.list_map hfirst]⟩

end Bench

end Builder

/-- **All ways to make a context agree.**  For every map:

* A context that is made of the map as data is the one that is made of the names at once.
* A context over the empty one in whose frame the names are bound one after the other shows the same
  as what a builder makes that collects them one after the other, and fails as it does; this is what
  a script does to make a context over another one.
* A builder makes a context exactly when one is made at once, and it is the same one.
* The error at once is that of the first name without a text or without a value; the name is made
  before its value.  One by one, the value is made first.
* So both ways fail with different errors only when the first entry that is refused has both a name
  without a text and data without a value; otherwise they do the same.
* Names that differ only in the signs in front of them are one name, at the place of the first and
  with the value of the last.
* What a builder has built is what is made of the names that it had collected until then, up to the
  first one refused of each map.  It stays so, whatever is done with the builder later. -/
theorem ways_agree (pairs : Pairs) :
    ofData? (.map pairs) = ofPairs? pairs ∧
    Agree (Builder.made pairs) (empty.child pairs) ∧
    (∀ (desk : Desk) (source slot : String),
      let start := (desk.perform (.create source [])).1
      match empty.child pairs with
      | .ok c => (start.perform (.child source slot pairs)).2 = .done ∧
          (start.perform (.child source slot pairs)).1.context? slot = some c
      | .error f => ∃ e, f = .fault (.data e) ∧
          start.perform (.child source slot pairs) = (start, .refused (.data e))) ∧
    (∀ c, Builder.made pairs = .ok c ↔ ofPairs? pairs = .ok c) ∧
    (∀ e, ofPairs? pairs = .error e ↔ Data.FirstFails (Data.entrySteps pairs) e) ∧
    (∀ e, Builder.made pairs = .error e ↔ Data.FirstFails (Data.bindingSteps pairs) e) ∧
    ((∃ e, Clashes pairs e ∧ ofPairs? pairs = .error .longInteger ∧
        Builder.made pairs = .error e) ∨
      (∀ e, ¬ Clashes pairs e) ∧ Builder.made pairs = ofPairs? pairs) ∧
    (∀ c, ofPairs? pairs = .ok c → ∃ texts values, Data.keyTexts? pairs = some texts ∧
      List.Forall₂ Data.Denotes (pairs.map Prod.snd) values ∧
      c.names = (texts.map normalize).eraseDups ∧
      ∀ name, c.lookup name =
        ((texts.map normalize).zip values).reverse.lookup (normalize name)) ∧
    ∀ works later : List Builder.Work,
      (Builder.Bench.new.run works).contexts.map .ok =
        (Builder.Work.collected [] works).map ofPairs? ∧
      (Builder.Bench.new.run works).contexts <+:
        (Builder.Bench.new.run (works ++ later)).contexts := by
  refine ⟨rfl, agree_child pairs, fun desk source slot => ?_, fun c => Builder.made_eq_ok_iff,
    fun e => ofPairs?_eq_error_iff, fun e => Builder.made_eq_error_iff, Builder.made_eq_or pairs,
    fun c hc => ?_, fun works later =>
      ⟨Builder.Bench.shows_new.run works, Builder.Bench.contexts_run_append works later⟩⟩
  · exact Desk.perform_child_of_create desk source slot pairs
  · obtain ⟨bindings, ⟨hkeys, hvalues⟩, rfl⟩ := ofPairs?_eq_ok_iff.1 hc
    refine ⟨_, _, hkeys, hvalues, names_ofList bindings, fun name => ?_⟩
    have hzip : unsigned bindings =
        ((Entries.keys bindings).map normalize).zip (bindings.map Prod.snd) := by
      rw [Entries.keys, List.map_map, List.zip_map']
      rfl
    rw [lookup_ofList, hzip]

/-- Nothing under an integer with too many digits: at once, the integer is refused, and one by one,
what stands under it. -/
theorem not_forall_made_eq : ¬ ∀ (pairs : Pairs) (e : DataError),
    ofPairs? pairs = .error e → Builder.made pairs = .error e := by
  intro h
  have hlong : (Key.int Text.digitBound).IsLong := .int (Int.natAbs_natCast _).ge
  have hnull : Data.null.Fails .null := (Data.fails_iff_of_steps rfl).2 .null
  have hatOnce : ofPairs? [(.int Text.digitBound, .null)] = .error .longInteger :=
    ofPairs?_eq_error_iff.2 ⟨[], .key _, [.value .null], rfl, by simp, hlong, rfl⟩
  have hbuilt : Builder.made [(.int Text.digitBound, .null)] = .error .null :=
    Builder.made_eq_error_iff.2 ⟨[], .value .null, [.key _], rfl, by simp, hnull⟩
  rw [h _ _ hatOnce] at hbuilt
  cases hbuilt

end Context

end MarkupForms

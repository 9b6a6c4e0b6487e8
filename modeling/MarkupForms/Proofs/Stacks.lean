import MarkupForms.Proofs.Sharing
import Mathlib.Data.List.Induction

/-!
# Contexts as stacks of frames

A context that is made of data is a stack.  At the bottom stand the bindings it was made with, which
never change; over them stand the frames that were opened, each with what was bound in it, in order.
That is all there is to know: the value of a name is what was bound to it last in the uppermost
frame that binds it, and the visible names come in the order in which they were first bound, from
the bottom up.

* `Stack.lookup_context`, `Stack.names_context` : ordered frames answer like the bindings in order.
* `Desk.IsStack.call`, `Desk.IsStack.run` : one call, and any calls, on a context are calls on its
  stack.
* `Stack.call_of_refused` : a call that is refused changes nothing.
* `Stack.run_of_balances` : calls that close what they open leave the stack as it was.
* `stack_of_frames` : all of this together, for contexts that are made of data.
-/

namespace MarkupForms

/-! ## First occurrences -/

namespace Entries

variable {κ α : Type} [DecidableEq κ]

/-- One more element is a first occurrence unless it was there before. -/
theorem eraseDups_concat (ks : List κ) (k : κ) :
    (ks ++ [k]).eraseDups = if k ∈ ks then ks.eraseDups else ks.eraseDups ++ [k] := by
  rw [List.eraseDups_append]
  by_cases hk : k ∈ ks <;> simp [List.removeAll, hk, List.eraseDups_cons]

/-- First occurrences in the second part may be taken beforehand. -/
theorem eraseDups_append_right (ks ls : List κ) :
    (ks ++ ls.eraseDups).eraseDups = (ks ++ ls).eraseDups := by
  induction ls using List.reverseRecOn with
  | nil => rfl
  | append_singleton ls l ih =>
    rw [eraseDups_concat, ← List.append_assoc, eraseDups_concat]
    by_cases hl : l ∈ ls
    · simp [hl, ih]
    · rw [if_neg hl, ← List.append_assoc, eraseDups_concat, ih]
      simp

/-- What comes after a part adds the same to it, whatever is repeated in the part. -/
theorem eraseDups_append_congr {ks ls : List κ} (h : ks.eraseDups = ls.eraseDups) (ms : List κ) :
    (ks ++ ms).eraseDups = (ls ++ ms).eraseDups := by
  have hmem : ∀ k, k ∈ ks ↔ k ∈ ls := fun k => by rw [← List.mem_eraseDups, h, List.mem_eraseDups]
  rw [List.eraseDups_append, List.eraseDups_append, h]
  simp [List.removeAll, hmem]

/-- Entries have their keys in the order of first occurrence. -/
theorem keys_ofList (es : List (κ × α)) : keys (ofList es) = (es.map Prod.fst).eraseDups := by
  induction es using List.reverseRecOn with
  | nil => rfl
  | append_singleton es e ih =>
    have hput : ofList (es ++ [e]) = put e.1 e.2 (ofList es) := by simp [ofList, putAll]
    rw [hput, keys_put, ih, List.map_append, List.map_singleton, eraseDups_concat]
    simp only [List.mem_eraseDups]

/-- First occurrences are distinct. -/
theorem nodup_eraseDups (ks : List κ) : ks.eraseDups.Nodup := by
  have hkeys : (ks.map fun k => (k, ())).map Prod.fst = ks := by simp [Function.comp_def]
  rw [← hkeys, ← keys_ofList]
  exact nodup_keys_ofList _

/-- What was put last under a key is found there. -/
theorem lookup_ofList (es : List (κ × α)) (key : κ) :
    (ofList es).lookup key = es.reverse.lookup key := by
  induction es using List.reverseRecOn with
  | nil => rfl
  | append_singleton es e ih =>
    have hput : ofList (es ++ [e]) = put e.1 e.2 (ofList es) := by simp [ofList, putAll]
    rw [hput, lookup_put, ih, List.reverse_append, List.reverse_singleton, List.singleton_append,
      lookup_cons_eq]

theorem put_of_notMem {key : κ} {es : List (κ × α)} (h : key ∉ keys es) (x : α) :
    put key x es = es ++ [(key, x)] := by
  induction es with
  | nil => rfl
  | cons e es ih =>
    rw [keys, List.map_cons, List.mem_cons, not_or] at h
    have hb : (e.1 == key) = false := by simpa using Ne.symm h.1
    rw [put, hb, if_neg Bool.false_ne_true, ih h.2, List.cons_append]

/-- Entries with distinct keys are what putting them in turn leaves. -/
theorem ofList_eq_self {es : List (κ × α)} (h : (keys es).Nodup) : ofList es = es := by
  induction es using List.reverseRecOn with
  | nil => rfl
  | append_singleton es e ih =>
    rw [keys, List.map_append, List.nodup_append] at h
    have hput : ofList (es ++ [e]) = put e.1 e.2 (ofList es) := by simp [ofList, putAll]
    rw [hput, ih h.1, put_of_notMem fun he => h.2.2 _ he _ (by simp) rfl]

end Entries

/-! ## Frames that stand in a context once -/

namespace Store

variable {s : Store} {r : Ref}

/-- Closing the innermost frame of a context in a store is closing it in a context of its own. -/
theorem view_pop (s : Store) (r : Ref) : r.pop.map s.view = (s.view r).pop := by
  rw [Ref.pop, Context.pop, view]
  cases r.opened <;> rfl

/-- Binding in a context whose frames are distinct is binding in a context of its own. -/
theorem view_bind (h : s.Holds r) (hr : r.frames.Nodup) (name : String) (v : Value) :
    (s.bind r name v).map (fun t => t.view r) = (s.view r).bind name v := by
  rw [Store.bind, Context.bind, view]
  cases hopened : r.opened with
  | nil => rfl
  | cons f outer =>
    rw [Ref.frames, hopened, List.cons_append, List.nodup_cons, List.mem_append, not_or] at hr
    have hframe {g : Nat} (hg : g ∈ r.frames) :=
      s.frame_modify f (fun k => k.bind (Context.normalize name) v) (h.lt hg)
    have hmem {g : Nat} (hg : g = f ∨ g ∈ outer ∨ g = r.root) : g ∈ r.frames := by
      simpa [Ref.frames, hopened] using hg
    have hself := hframe (hmem (.inl rfl))
    have hroot := hframe (hmem (.inr (.inr rfl)))
    have houter : outer.map (mk (s.frames.modify f fun k =>
        k.bind (Context.normalize name) v)).frame = outer.map s.frame := by
      refine List.map_congr_left fun g hg => (hframe (hmem (.inr (.inl hg)))).trans (if_neg ?_)
      rintro rfl
      exact hr.1.1 hg
    rw [if_pos rfl] at hself
    rw [if_neg fun heq => hr.1.2 (by simp [heq])] at hroot
    simp only [Except.map, view, hopened, List.map_cons, hself, houter, hroot]

theorem Ref.nodup_pop {r' : Ref} (hr : r.frames.Nodup) (h : r.pop = .ok r') : r'.frames.Nodup := by
  unfold Ref.pop at h
  split at h
  · cases h
  · cases h
    rename_i hopened
    rw [Ref.frames, hopened, List.cons_append] at hr
    exact (List.nodup_cons.1 hr).2

end Store

namespace Context

/-! ## Calls -/

/-- A call on a context.  Every call reports the names and the depth of the context after it. -/
inductive Call where
  /-- Open a frame. -/
  | push
  /-- Close the innermost frame. -/
  | pop
  /-- Bind a name. -/
  | bind (name : String) (data : Data)
  /-- Ask for the value of a name. -/
  | lookup (name : String)
  /-- Ask for the value at the end of a path. -/
  | resolve (path : String)
  /-- Ask whether a path leads to a value. -/
  | isSet (path : String)
  /-- Ask for the visible names. -/
  | names

namespace Call

/-- The step of a script that makes a call. -/
def step (slot : String) : Call → Step
  | .push => .push slot
  | .pop => .pop slot
  | .bind name data => .bind slot name data
  | .lookup name => .lookup slot name
  | .resolve path => .resolve slot path
  | .isSet path => .isSet slot path
  | .names => .names slot

/-- Whether calls that have some frames of their own open leave none open in the end, and close no
other frame and bind in no other frame on the way. -/
def balances : Nat → List Call → Bool
  | own, [] => own == 0
  | own, .push :: calls => balances (own + 1) calls
  | 0, .pop :: _ => false
  | own + 1, .pop :: calls => balances own calls
  | 0, .bind _ _ :: _ => false
  | own + 1, .bind _ _ :: calls => balances (own + 1) calls
  | own, _ :: calls => balances own calls

end Call

/-! ## Stacks -/

/-- Bindings in the order in which they were made. -/
abbrev Bindings := List (String × Value)

/-- What was bound in the open frames, innermost first, over what stands at the bottom. -/
structure Stack where
  /-- The bindings in the open frames. -/
  opened : List Bindings
  /-- The bindings at the bottom, which never change. -/
  bottom : Bindings

namespace Stack

/-- All bindings from the bottom up. -/
def bindings (s : Stack) : Bindings :=
  (s.opened ++ [s.bottom]).reverse.flatten

/-- The last binding of a name from the bottom up: the first one from the top down. -/
def lookup (s : Stack) (name : String) : Option Value :=
  s.bindings.reverse.lookup (normalize name)

/-- The names in the order of their first bindings from the bottom up. -/
def names (s : Stack) : List String :=
  (s.bindings.map Prod.fst).eraseDups

/-- The number of frames. -/
def depth (s : Stack) : Nat :=
  s.opened.length + 1

/-- The value at the end of a path. -/
def resolve (s : Stack) (path : String) : Except PathError Value :=
  match Text.pathSegments (normalize path) with
  | [] => .error (.unbound (normalize path))
  | head :: keys =>
      match s.lookup head with
      | none => .error (.unbound (normalize path))
      | some v => v.follow head keys

/-- Answer a call. -/
def call (s : Stack) : Call → Stack × Outcome
  | .push => ({ s with opened := [] :: s.opened }, .done)
  | .pop =>
      match s.opened with
      | [] => (s, .refused (.scope .atRoot))
      | _ :: below => ({ s with opened := below }, .done)
  | .bind name data =>
      match s.opened, data.toValue? with
      | [], _ => (s, .refused (.scope .sealedRoot))
      | _ :: _, .error e => (s, .refused (.data e))
      | top :: below, .ok v => ({ s with opened := (top ++ [(normalize name, v)]) :: below }, .done)
  | .lookup name => (s, .found (s.lookup name))
  | .resolve path => (s, Desk.resolved (s.resolve path))
  | .isSet path => (s, .truth (s.resolve path).isOk)
  | .names => (s, .names s.names)

/-- Answer calls one after the other, each with the names and the depth after it. -/
def run (s : Stack) : List Call → Stack × List Report
  | [] => (s, [])
  | c :: calls =>
      let (s, outcome) := s.call c
      let (after, reports) := s.run calls
      (after, (outcome, some (s.names, s.depth)) :: reports)

/-- The context whose frames are made by the bindings. -/
def context (s : Stack) : Context :=
  ⟨s.opened.map .ofList, .ofList s.bottom⟩

variable {s : Stack} {calls : List Call}

theorem frames_context (s : Stack) : s.context.frames = (s.opened ++ [s.bottom]).map .ofList := by
  simp [frames, context]

/-- Frames from the top down have for a name what was bound to it last, from the top down. -/
theorem findSome?_frames (bs : List Bindings) (key : String) :
    (bs.map Frame.ofList).findSome? (·.lookup key) =
      (bs.map List.reverse).flatten.lookup key := by
  induction bs with
  | nil => rfl
  | cons b bs ih =>
    have hb : (Frame.ofList b).lookup key = b.reverse.lookup key := Entries.lookup_ofList b key
    rw [List.map_cons, List.map_cons, List.flatten_cons, List.lookup_append, ← ih, ← hb,
      List.findSome?_cons]
    cases (Frame.ofList b).lookup key <;> rfl

/-- Frames from the bottom up have their names in the order of first binding. -/
theorem eraseDups_frames (bs : List Bindings) :
    ((bs.map Frame.ofList).flatMap Frame.names).eraseDups =
      (bs.flatten.map Prod.fst).eraseDups := by
  induction bs using List.reverseRecOn with
  | nil => rfl
  | append_singleton bs b ih =>
    have hb : (Frame.ofList b).names = (b.map Prod.fst).eraseDups := Entries.keys_ofList b
    have hlast := Entries.eraseDups_append_right ((bs.map Frame.ofList).flatMap Frame.names)
      (b.map Prod.fst)
    simp only [List.map_append, List.map_singleton, List.flatMap_append, List.flatMap_singleton,
      List.flatten_append, List.flatten_singleton, hb, hlast]
    exact Entries.eraseDups_append_congr ih _

/-- A name has the value that was bound to it last. -/
theorem lookup_context (s : Stack) (name : String) : s.context.lookup name = s.lookup name := by
  rw [Context.lookup, find?, frames_context, findSome?_frames, lookup, bindings,
    List.reverse_flatten, ← List.map_reverse, List.reverse_reverse]

/-- The names stand in the order in which they were first bound. -/
theorem names_context (s : Stack) : s.context.names = s.names := by
  rw [Context.names, frames_context, ← List.map_reverse, eraseDups_frames, names, bindings]

theorem depth_context (s : Stack) : s.context.depth = s.depth := by
  simp [Context.depth, depth, context]

theorem resolve_context (s : Stack) (path : String) : s.context.resolve path = s.resolve path := by
  rw [Context.resolve, resolve]
  cases Text.pathSegments (normalize path) with
  | nil => rfl
  | cons head keys =>
    cases hv : s.lookup head <;> simp only [resolveSegments, lookup_context, hv]

theorem isSet_context (s : Stack) (path : String) :
    s.context.isSet path = (s.resolve path).isOk := by
  rw [isSet, resolve_context]
  cases s.resolve path <;> rfl

/-! ## Calls that change nothing -/

/-- A call that is refused changes nothing. -/
theorem call_of_refused {c : Call} {e : Refusal} (h : (s.call c).2 = .refused e) :
    (s.call c).1 = s := by
  cases c with
  | push => cases h
  | pop | bind =>
    unfold call at h ⊢
    dsimp only at h ⊢
    split at h <;> simp_all
  | lookup | resolve | isSet | names => rfl

theorem run_append (s : Stack) (calls later : List Call) :
    s.run (calls ++ later) =
      (((s.run calls).1.run later).1, (s.run calls).2 ++ ((s.run calls).1.run later).2) := by
  induction calls generalizing s with
  | nil => rfl
  | cons c calls ih => simp [run, ih]

/-- Calls that close what they open, on a stack with some frames of their own at the top, leave what
is below these frames. -/
theorem run_of_balances {own : Nat} (h : Call.balances own calls = true) {top : List Bindings}
    (htop : top.length = own) (below : List Bindings) (bottom : Bindings) :
    ((Stack.mk (top ++ below) bottom).run calls).1 = ⟨below, bottom⟩ := by
  induction calls generalizing own top with
  | nil =>
    have hown : top = [] := by simpa [Call.balances, htop.symm] using h
    rw [hown, List.nil_append, run]
  | cons c calls ih =>
    have hnext {own' : Nat} (top' : List Bindings) (hcalls : Call.balances own' calls = true)
        (hlen : top'.length = own')
        (hcall : ((Stack.mk (top ++ below) bottom).call c).1 = ⟨top' ++ below, bottom⟩) :
        ((Stack.mk (top ++ below) bottom).run (c :: calls)).1 = ⟨below, bottom⟩ := by
      rw [run]
      dsimp only
      rw [hcall, ih hcalls hlen]
    cases c with
    | push =>
      rw [Call.balances] at h
      exact hnext ([] :: top) h (by simp [htop]) rfl
    | pop =>
      cases top with
      | nil => simp [Call.balances, ← htop] at h
      | cons b top =>
        rw [← htop, List.length_cons, Call.balances] at h
        exact hnext top h rfl rfl
    | bind name data =>
      cases top with
      | nil => simp [Call.balances, ← htop] at h
      | cons b top =>
        rw [← htop, List.length_cons, Call.balances] at h
        cases hdata : data.toValue? with
        | error e => exact hnext (b :: top) h rfl (by simp [call, hdata])
        | ok v =>
          exact hnext ((b ++ [(normalize name, v)]) :: top) h rfl (by simp [call, hdata])
    | lookup | resolve | isSet | names =>
      rw [Call.balances] at h
      · exact hnext top h htop rfl
      all_goals simp

end Stack

/-! ## Stacks on a desk -/

namespace Desk

/-- The reports of calls on the context under a name. -/
def answers (d : Desk) (slot : String) (calls : List Call) : List Report :=
  (d.performAll (calls.map (Call.step slot))).2.1

/-- The desk after calls on the context under a name. -/
def after (d : Desk) (slot : String) (calls : List Call) : Desk :=
  (d.performAll (calls.map (Call.step slot))).1

/-- Whether the context under a name has the frames of a stack, none of them twice. -/
structure IsStack (d : Desk) (slot : String) (i : Nat) (s : Stack) : Prop where
  /-- The numbers on the desk have a meaning. -/
  sound : d.IsSound
  /-- The context has a number. -/
  number : d.number? slot = some i
  /-- What is bound in one of its frames is bound in no other. -/
  distinct : (d.ref i).frames.Nodup
  /-- Its frames are those of the stack. -/
  view : d.store.view (d.ref i) = s.context

variable {d : Desk} {slot : String} {i : Nat} {s : Stack}

theorem IsStack.look (h : d.IsStack slot i s) : d.look slot = some (s.names, s.depth) := by
  rw [Desk.look, context?, h.number, Option.map_some, Option.map_some, h.view,
    Stack.names_context, Stack.depth_context]

/-- A context that moves is a stack when the frames it moves to are. -/
theorem IsStack.move (h : d.IsStack slot i s) {made : Store × Store.Ref} {t : Stack}
    (hfollows : d.Follows (d.move i made)) (hdistinct : made.2.frames.Nodup)
    (hview : made.1.view made.2 = t.context) : (d.move i made).IsStack slot i t := by
  have href := ref_move_self d made (h.sound.known slot i h.number)
  exact ⟨hfollows.sound, h.number, by rwa [href], by rw [href]; exact hview⟩

theorem IsStack.push (h : d.IsStack slot i s) :
    (d.push i).IsStack slot i { s with opened := [] :: s.opened } := by
  have hi := h.sound.known slot i h.number
  have hholds := h.sound.ref hi
  refine h.move (h.sound.push hi) ?_ ?_
  · refine List.nodup_cons.2 ⟨fun hmem => ?_, h.distinct⟩
    exact Nat.lt_irrefl _ (hholds.lt hmem)
  · rw [Store.view_extend d.store hholds, h.view]
    rfl

theorem IsStack.pop (h : d.IsStack slot i s) {b : Bindings} {below : List Bindings}
    (hs : s.opened = b :: below) :
    ∃ e, d.pop i = .ok e ∧ e.IsStack slot i { s with opened := below } := by
  have hview := d.store.view_pop (d.ref i)
  rw [h.view, Stack.context, hs] at hview
  cases hr : (d.ref i).pop with
  | error e => rw [hr] at hview; cases hview
  | ok r =>
    rw [hr] at hview
    have hpop : d.pop i = .ok (d.move i (d.store, r)) := by rw [Desk.pop, hr]; rfl
    have hfollows := h.sound.pop (h.sound.known slot i h.number) hpop
    exact ⟨_, hpop, h.move hfollows (Store.Ref.nodup_pop h.distinct hr) (Except.ok.inj hview)⟩

theorem IsStack.pop_bottom (h : d.IsStack slot i s) (hs : s.opened = []) :
    d.pop i = .error .atRoot := by
  have hview := d.store.view_pop (d.ref i)
  rw [h.view, Stack.context, hs] at hview
  rw [Desk.pop]
  cases hr : (d.ref i).pop with
  | error e => rw [hr] at hview; cases hview; rfl
  | ok r => rw [hr] at hview; cases hview

theorem IsStack.isEmpty_opened (h : d.IsStack slot i s) :
    (d.ref i).opened.isEmpty = s.opened.isEmpty := by
  have hopened := congrArg (fun c => c.opened.isEmpty) h.view
  simpa [Store.view, Stack.context] using hopened

theorem IsStack.bind (h : d.IsStack slot i s) {b : Bindings} {below : List Bindings}
    (hs : s.opened = b :: below) (name : String) {data : Data} {v : Value}
    (hdata : data.toValue? = .ok v) :
    (d.bind name data i).2 = .done ∧ (d.bind name data i).1.IsStack slot i
      { s with opened := (b ++ [(normalize name, v)]) :: below } := by
  have hfollows := h.sound.bind name data i
  have hview := Store.view_bind (h.sound.ref (h.sound.known slot i h.number)) h.distinct name v
  have hput : (Frame.ofList b).bind (normalize name) v = .ofList (b ++ [(normalize name, v)]) := by
    simp [Frame.ofList, Frame.bind, Entries.ofList, Entries.putAll]
  rw [h.view, Stack.context, hs, Context.bind] at hview
  simp only [List.map_cons, hput] at hview
  simp only [Desk.bind, h.isEmpty_opened, hs, List.isEmpty_cons, Bool.false_eq_true, if_false,
    hdata] at hfollows ⊢
  cases hbind : d.store.bind (d.ref i) name v with
  | error e => rw [hbind] at hview; cases hview
  | ok store =>
    rw [hbind] at hview hfollows
    exact ⟨rfl, hfollows.sound, h.number, h.distinct, Except.ok.inj hview⟩

/-- A call on a context is a call on its stack. -/
theorem IsStack.call (h : d.IsStack slot i s) (c : Call) :
    (d.perform (c.step slot)).2 = (s.call c).2 ∧
      (d.perform (c.step slot)).1.IsStack slot i (s.call c).1 := by
  cases c with
  | push =>
    rw [Call.step, Desk.perform, Desk.withNumber, h.number]
    exact ⟨rfl, h.push⟩
  | pop =>
    rw [Call.step, Desk.perform, Desk.withNumber, h.number, Stack.call]
    dsimp only
    cases hs : s.opened with
    | nil =>
      rw [h.pop_bottom hs]
      exact ⟨rfl, h⟩
    | cons b below =>
      obtain ⟨e, hpop, he⟩ := h.pop hs
      rw [hpop]
      exact ⟨rfl, he⟩
  | bind name data =>
    rw [Call.step, Desk.perform, Desk.withNumber, h.number, Stack.call]
    dsimp only
    cases hs : s.opened with
    | nil =>
      simp only [Desk.bind, h.isEmpty_opened, hs, List.isEmpty_nil, if_true]
      exact ⟨trivial, h⟩
    | cons b below =>
      cases hdata : data.toValue? with
      | error e =>
        simp only [Desk.bind, h.isEmpty_opened, hs, List.isEmpty_cons, Bool.false_eq_true, if_false,
          hdata]
        exact ⟨trivial, h⟩
      | ok v => exact h.bind hs name hdata
  | lookup | resolve | isSet | names =>
    rw [Call.step, Desk.perform, Desk.ask, Desk.withNumber, h.number]
    refine ⟨?_, h⟩
    simp only [h.view, Stack.lookup_context, Stack.resolve_context, Stack.isSet_context,
      Stack.names_context, Stack.call]

theorem ne_giveUp_step (slot : String) (c : Call) (message : String) :
    c.step slot ≠ .giveUp message := by
  cases c <;> exact fun h => by cases h

theorem subject_step (slot : String) (c : Call) : subject (c.step slot) = slot := by
  cases c <;> rfl

/-- Calls on a context are answered like calls on its stack. -/
theorem IsStack.run (h : d.IsStack slot i s) (calls : List Call) :
    d.answers slot calls = (s.run calls).2 ∧
      (d.after slot calls).IsStack slot i (s.run calls).1 := by
  induction calls generalizing d s with
  | nil =>
    rw [answers, Desk.after, List.map_nil, Desk.performAll]
    exact ⟨rfl, h⟩
  | cons c calls ih =>
    obtain ⟨houtcome, hnext⟩ := h.call c
    obtain ⟨hanswers, hafter⟩ := ih hnext
    rw [answers, Desk.after, List.map_cons, reports_cons d (ne_giveUp_step slot c),
      performAll_cons d (ne_giveUp_step slot c), houtcome, subject_step, hnext.look]
    rw [answers] at hanswers
    rw [hanswers]
    exact ⟨rfl, hafter⟩

/-- A context that is made of data is a stack with nothing but a bottom. -/
theorem IsSound.isStack_create (h : d.IsSound) (slot : String) {pairs : Pairs}
    {bs : List (String × Value)} (hpairs : Data.toEntries? pairs = .ok bs) :
    (d.perform (.create slot pairs)).1.IsStack slot d.contexts.length
      ⟨[], bs.map fun b => (normalize b.1, b.2)⟩ := by
  have hfollows := h.perform (.create slot pairs)
  have hcreate : (d.perform (.create slot pairs)).1 =
      d.place slot (d.store.create (.ofList (bs.map fun b => (normalize b.1, b.2)))) := by
    rw [Desk.perform, Context.ofPairs?, hpairs]
    rfl
  rw [hcreate] at hfollows ⊢
  refine ⟨hfollows.sound, ?_, ?_, ?_⟩
  · rw [number?_place, if_pos rfl]
  · rw [ref_place_new]
    simp [Store.create, Store.Ref.frames]
  · rw [ref_place_new]
    exact Store.view_create d.store _

end Desk

/-- **A context is a stack of frames.**  A context that is made of data, with whatever is on the
desk besides:

* answers all calls like a stack whose bottom is the data: the value of a name is the last one from
  the bottom up, names come in the order in which they were first bound, the bottom takes no
  bindings and is not closed; and its frames are what the bindings in them make, in turn;
* answers later calls as if a call that was refused had not been made;
* answers later calls as before after calls that close each frame they open, close no other one and
  bind in no other one. -/
theorem stack_of_frames (script : List Step) (slot : String) (pairs : Pairs)
    (bs : List (String × Value)) (hpairs : Data.toEntries? pairs = .ok bs) :
    let d := ((runScript script).1.perform (.create slot pairs)).1
    let s : Stack := ⟨[], bs.map fun b => (normalize b.1, b.2)⟩
    (∀ calls, d.answers slot calls = (s.run calls).2 ∧
      (d.after slot calls).context? slot = some (s.run calls).1.context) ∧
    (∀ before c e, ((d.after slot before).perform (c.step slot)).2 = .refused e →
      ∀ later, (d.after slot (before ++ [c])).answers slot later =
        (d.after slot before).answers slot later) ∧
    (∀ before calls, Call.balances 0 calls = true →
      ∀ later, (d.after slot (before ++ calls)).answers slot later =
        (d.after slot before).answers slot later) := by
  intro d s
  have hd : d.IsStack slot _ s := (Desk.isSound_runScript script).isStack_create slot hpairs
  have hanswers (calls later : List Call) :
      (d.after slot calls).answers slot later = ((s.run calls).1.run later).2 :=
    ((hd.run calls).2.run later).1
  refine ⟨fun calls => ?_, fun before c e hrefused later => ?_, fun before calls h later => ?_⟩
  · obtain ⟨hreports, hafter⟩ := hd.run calls
    exact ⟨hreports, by rw [Desk.context?, hafter.number, Option.map_some, hafter.view]⟩
  · rw [((hd.run before).2.call c).1] at hrefused
    rw [hanswers, hanswers, Stack.run_append]
    simp only [Stack.run, Stack.call_of_refused hrefused]
  · have hsame : (Stack.run ⟨[] ++ (s.run before).1.opened, (s.run before).1.bottom⟩ calls).1 =
        (s.run before).1 := Stack.run_of_balances h rfl _ _
    rw [List.nil_append] at hsame
    rw [hanswers, hanswers, Stack.run_append, hsame]

/-- The name `x` is given twice, hidden by an open frame, and seen again after it is closed; neither
binding at the bottom nor closing the bottom leaves a trace. -/
theorem stack_of_frames_hiding :
    let pairs : Pairs := [(.text "x", .text "1"), (.text "y", .truth true), (.text "$x", .int 2)]
    let d := ((runScript []).1.perform (.create "c" pairs)).1
    Data.toEntries? pairs = .ok [("x", .scalar "1"), ("y", .scalar "true"), ("$x", .scalar "2")] ∧
      d.answers "c" [.bind "z" (.text "0"), .push, .bind "$z" (.text "3"), .bind "x" (.text "4"),
          .lookup "$x", .pop, .pop, .lookup "x"] =
        [(.refused (.scope .sealedRoot), some (["x", "y"], 1)), (.done, some (["x", "y"], 2)),
          (.done, some (["x", "y", "z"], 2)), (.done, some (["x", "y", "z"], 2)),
          (.found (some (.scalar "4")), some (["x", "y", "z"], 2)), (.done, some (["x", "y"], 1)),
          (.refused (.scope .atRoot), some (["x", "y"], 1)),
          (.found (some (.scalar "2")), some (["x", "y"], 1))] ∧
      (d.after "c" [.pop]).answers "c" [.names] = d.answers "c" [.names] ∧
      (d.after "c" [.push, .bind "x" .null, .push, .bind "x" (.int 5), .pop, .pop]).answers "c"
        [.names] = d.answers "c" [.names] := by
  intro pairs d
  have hpairs : Data.toEntries? pairs =
      .ok [("x", .scalar "1"), ("y", .scalar "true"), ("$x", .scalar "2")] := rfl
  obtain ⟨hcalls, hrefused, hbalanced⟩ := stack_of_frames [] "c" pairs _ hpairs
  refine ⟨hpairs, (hcalls _).1.trans rfl, ?_, ?_⟩
  · exact hrefused [] .pop (.scope .atRoot) rfl [.names]
  · exact hbalanced [] _ (by decide) [.names]

end Context

end MarkupForms

import MarkupForms.Eval.Carrier
import MarkupForms.Failure

/-!
# Computations on a context

Evaluation computes with a context: it looks names up, opens frames for a while and may bind names
in frames that are open.  It may fail, and what was bound until then stays bound.

* `Eval.run_inChild` : a frame is opened before and closed after, also on failure.
* `Eval.run_popping_zero` : closing no frame changes nothing.
* `Eval.forEach_append` : items are computed one after the other.
* `Eval.run_within` : work on another context leaves this one alone.
-/

namespace MarkupForms

/-- A computation on a state that may fail. -/
abbrev EvalOn (σ : Type) := ExceptT Failure (StateM σ)

/-- A computation on a context that may fail. -/
abbrev Eval := EvalOn Context

/-- What comes of a computation on a state, and the state after it. -/
def EvalOn.run {σ α : Type} (m : EvalOn σ α) (s : σ) : Except Failure α × σ :=
  m s

namespace Eval

variable {σ α : Type}

/-! ## Failing and looking -/

/-- The computation with a given effect. -/
def ofFun (f : σ → Except Failure α × σ) : EvalOn σ α :=
  f

/-- A computation that is only set up when it is run. -/
def delay (m : Unit → EvalOn σ α) : EvalOn σ α :=
  ofFun fun s => (m ()).run s

/-- Fail with a render error. -/
def fail (e : RenderError) : EvalOn σ α :=
  throw (.render e)

/-- Fail with a fault. -/
def fault (f : Fault) : EvalOn σ α :=
  throw (.fault f)

/-- Fail unless there is a result. -/
def ofExcept {ε : Type} (wrap : ε → Failure) (r : Except ε α) : EvalOn σ α :=
  match r with
  | .ok a => pure a
  | .error e => throw (wrap e)

/-! ## Contexts and frames -/

section

variable [Carrier σ]

/-- The context. -/
def context : EvalOn σ Context :=
  ofFun fun s => (.ok (Carrier.context s), s)

/-- Compute in a new frame, which is closed afterwards. -/
def inChild (f : Frame) (m : EvalOn σ α) : EvalOn σ α :=
  ofFun fun s =>
    let c := Carrier.context s
    let (r, after) := m.run (Carrier.withContext s (c.pushFrame f))
    let inside := Carrier.context after
    (r, Carrier.withContext after { inside with opened := inside.opened.tail })

/-- Compute with a number of frames closed, which are opened again afterwards. -/
def popping (n : Nat) (m : EvalOn σ α) : EvalOn σ α :=
  ofFun fun s =>
    let c := Carrier.context s
    if n ≤ c.opened.length then
      let (r, after) := m.run (Carrier.withContext s { c with opened := c.opened.drop n })
      let inside := Carrier.context after
      (r, Carrier.withContext after { inside with opened := c.opened.take n ++ inside.opened })
    else (.error (.fault (.scope .atRoot)), s)

/-- Compute on another context. -/
def within (other : Context) (m : EvalOn σ α) : EvalOn σ α :=
  ofFun fun s =>
    let (r, after) := m.run (Carrier.withContext s other)
    (r, Carrier.withContext after (Carrier.context s))

/-- Bind a name in the innermost frame. -/
def bindValue (name : String) (v : Value) : EvalOn σ Unit :=
  ofFun fun s =>
    match (Carrier.context s).bind name v with
    | .ok after => (.ok (), Carrier.withContext s after)
    | .error e => (.error (.fault (.scope e)), s)

/-- Bind a name to data in the innermost frame.  A root refuses before the data is looked at. -/
def bindData (name : String) (d : Data) : EvalOn σ Unit := do
  if (← context).opened.isEmpty then fault (.scope .sealedRoot)
  let v ← ofExcept (fun e => .fault (.data e)) d.toValue?
  bindValue name v

/-! ## Nested calls -/

/-- Compute one call deeper, unless the limit is reached. -/
def oneDeeper (limit : Nat) (tag : String) (m : EvalOn σ α) : EvalOn σ α :=
  ofFun fun s =>
    match Carrier.enter? limit s with
    | none => (.error (.render (.recursionLimit limit tag)), s)
    | some inside =>
      let (r, after) := m.run inside
      (r, Carrier.leave s after)

end

/-! ## Failures and fragments -/

/-- Let a failure leave a handler. -/
def guarded (tag : String) (m : EvalOn σ α) : EvalOn σ α :=
  tryCatch m fun f => throw (f.leaving tag)

/-- Go on with the result, also if it is a render error. -/
def attempt (m : EvalOn σ α) : EvalOn σ (Except RenderError α) :=
  tryCatch (do return .ok (← m)) fun f =>
    match f with
    | .render e => pure (.error e)
    | .fault _ => throw f

/-- Compute the fragments of items, one after the other. -/
def forEach {β : Type} (body : β → EvalOn σ (List String)) : List β → EvalOn σ (List String)
  | [] => pure []
  | x :: xs => do
      let first ← body x
      let rest ← forEach body xs
      return first ++ rest

/-- Fragments as one text. -/
def joined (m : EvalOn σ (List String)) : EvalOn σ String := do
  return String.join (← m)

/-! ## What running yields -/

@[simp] theorem run_pure (a : α) (s : σ) : (pure a : EvalOn σ α).run s = (.ok a, s) := rfl

@[simp] theorem run_throw (f : Failure) (s : σ) :
    (throw f : EvalOn σ α).run s = (.error f, s) := rfl

@[simp] theorem run_context (c : Context) : context.run c = (.ok c, c) := rfl

theorem run_bind {β : Type} (m : EvalOn σ α) (k : α → EvalOn σ β) (s : σ) :
    (m >>= k).run s =
      match m.run s with
      | (.ok a, after) => (k a).run after
      | (.error f, after) => (.error f, after) := by
  change (ExceptT.bindCont k (m s).1) (m s).2 = _
  unfold EvalOn.run
  rcases h : m s with ⟨r, after⟩
  cases r <;> rfl

/-- The fragments of two lists of items are those of the first one and those of the second one. -/
theorem forEach_append {β : Type} (body : β → EvalOn σ (List String)) (xs ys : List β) :
    forEach body (xs ++ ys) = (do
      let first ← forEach body xs
      let rest ← forEach body ys
      return first ++ rest) := by
  induction xs with
  | nil => simp [forEach]
  | cons x xs ih =>
    simp only [List.cons_append, forEach, ih, bind_assoc, pure_bind, List.append_assoc]

/-- A single fragment is the text. -/
theorem joined_single (whole : EvalOn σ String) : joined (do return [← whole]) = whole := by
  simp [joined]

/-- A frame is opened before and closed after, also on failure. -/
theorem run_inChild (f : Frame) (m : Eval α) (c : Context) :
    (inChild f m).run c =
      ((m.run (c.pushFrame f)).1,
        { (m.run (c.pushFrame f)).2 with opened := (m.run (c.pushFrame f)).2.opened.tail }) := rfl

/-- Work on another context leaves this one alone. -/
theorem run_within (other : Context) (m : Eval α) (c : Context) :
    (within other m).run c = ((m.run other).1, c) := rfl

theorem run_bindValue (name : String) (v : Value) (c : Context) :
    (bindValue name v).run c =
      match c.bind name v with
      | .ok after => (.ok (), after)
      | .error e => (.error (.fault (.scope e)), c) := rfl

/-- Closing no frame changes nothing. -/
theorem run_popping_zero (m : Eval α) (c : Context) : (popping 0 m).run c = m.run c := rfl

/-- On a context alone, nested calls are not counted. -/
@[simp] theorem oneDeeper_eq (limit : Nat) (tag : String) (m : Eval α) :
    oneDeeper limit tag m = m := rfl

@[simp] theorem delay_eq (m : Unit → EvalOn σ α) : delay m = m () := rfl

end Eval

end MarkupForms

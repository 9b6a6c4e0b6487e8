import MarkupForms.Proofs.Loops
import MarkupForms.Proofs.Spelling

/-!
# Loops over ranges

A loop over a range reads three integers from its attributes, the start, the stop and the step, and
then goes through the integers from the start on, one step at a time, that are before the stop.  How
many rounds there are is computed by a division; that these are the right ones is a fact about the
division, for a range of any size and on both sides of zero.

Nothing is evaluated in a round before all three integers are there and the step is positive.

* `Control.lt_stepCount_iff` : the rounds are those before the stop.
* `Control.overIntegers_eq_forEach` : each round is for the start and a number of steps.
* `Renderer.evaluate_range` : the loop with the limit on digits as a parameter.
* `Renderer.range_visits` : what a loop over a range goes through, and in which ways it fails.
-/

namespace MarkupForms

open Eval

namespace Node

/-- The loop `(for (@ (var x) (min ...) (max ...) (step ...)) body...)`. -/
def range (x : String) (min max step : Node) (body : List Node) : Node :=
  .tag "for" (some [("var", .text x), ("min", min), ("max", max), ("step", step)]) body

end Node

namespace Control

variable {limit : Option Nat} {key text : String} {m : Meaning} {c : Context}

/-! ## Rounds -/

/-- A number of steps leads to an integer before the stop exactly if there is a round for it. -/
theorem lt_stepCount_iff {start stop step : Int} (hstep : 0 < step) (k : Nat) :
    k < stepCount start stop step ↔ start + k * step < stop := by
  have hdiv : (k : Int) + 1 ≤ (stop - start + step - 1) / step ↔
      ((k : Int) + 1) * step ≤ stop - start + step - 1 := Int.le_ediv_iff_mul_le hstep
  rw [add_mul, one_mul] at hdiv
  rw [stepCount, Int.lt_toNat]
  omega

theorem integerRounds_eq (name : String) (step : Int) (n : Nat) (i : Int) :
    integerRounds name step n i =
      (List.range n).map fun k : Nat => [(name, .scalar (toString (i + k * step)))] := by
  induction n generalizing i with
  | zero => rfl
  | succ n ih =>
    rw [integerRounds, ih, List.range_succ_eq_map, List.map_cons, List.map_map]
    congr 1
    · simp
    · refine List.map_congr_left fun k _ => ?_
      have hnext : i + step + k * step = i + (k + 1 : Nat) * step := by push_cast; ring
      rw [Function.comp_apply, Nat.succ_eq_add_one, hnext]

/-- Each round is for the start and a number of steps. -/
theorem overIntegers_eq_forEach (name : String) (body : List Meaning) (step : Int) (n : Nat)
    (start : Int) :
    overIntegers name body step n start =
      forEach (fun k : Nat => round [(name, .scalar (toString (start + k * step)))] body)
        (List.range n) := by
  rw [overIntegers_eq, Plan.run, integerRounds_eq, forEach_map]

/-! ## Integers -/

/-- The error for the value of an attribute that is no integer. -/
def notInteger (key text : String) : RenderError :=
  .typeMismatch "integer" s!"'{text}' in '{key}'" ""

/-- The integer in the value of an attribute, if texts may not have more digits than a limit. -/
def integerWithin (limit : Option Nat) (key : String) (m : Meaning) : Eval Int := do
  let text ← m.attributeText false
  match Text.readIntegerWithin limit text with
  | some n => pure n
  | none => Eval.fail (notInteger key text)

theorem integerWithin_digitLimit (key : String) (m : Meaning) :
    integerWithin (some Text.digitLimit) key m = integer key m := by
  simp only [integerWithin, integer, Text.readIntegerWithin_digitLimit]
  rfl

theorem run_integerWithin {n : Int} (hm : (m.attributeText false).run c = (.ok text, c))
    (hn : Text.SpellsWithin limit text n) : (integerWithin limit key m).run c = (.ok n, c) := by
  rw [integerWithin, run_bind_ok hm, (Text.readIntegerWithin_iff limit text n).2 hn]
  rfl

theorem run_integerWithin_error (hm : (m.attributeText false).run c = (.ok text, c))
    (hnone : ∀ n, ¬ Text.SpellsWithin limit text n) :
    (integerWithin limit key m).run c =
      (.error (.render (notInteger key text)), c) := by
  have hread : Text.readIntegerWithin limit text = none :=
    Option.eq_none_iff_forall_ne_some.2 fun n hn =>
      hnone n ((Text.readIntegerWithin_iff limit text n).1 hn)
  rw [integerWithin, run_bind_ok hm, hread]
  rfl

/-- A loop over a range whose integers may not have more digits than a limit. -/
def rangeWithin (limit : Option Nat) (name : String) (min max step : Meaning)
    (body : List Meaning) : Eval (List String) := do
  let start ← integerWithin limit "min" min
  let stop ← integerWithin limit "max" max
  let step ← integerWithin limit "step" step
  if step ≤ 0 then Eval.malformed "for" (.badStep step)
  else overIntegers name body step (stepCount start stop step) start

end Control

theorem Segment.doubled_eq_self {s : List Char} (h : '$' ∉ s) : doubled s = s := by
  induction s with
  | nil => rfl
  | cons c s ih =>
    obtain ⟨hc, hs⟩ := not_or.1 (List.mem_cons.not.1 h)
    rw [doubled] at ih
    rw [doubled, List.flatMap_cons, ih hs, if_neg (Ne.symm hc)]
    rfl

namespace Renderer

variable {r : Renderer} {room : Nat} {limit : Option Nat} {x : String} {min max step : Node}
  {body : List Node} {c : Context}

/-- A loop over a range, with the limit on digits as a parameter. -/
def range (r : Renderer) (room : Nat) (limit : Option Nat) (x : String) (min max step : Node)
    (body : List Node) : Eval (List String) :=
  let h := r.handle room
  Control.rangeWithin limit x (h.meaning min) (h.meaning max) (h.meaning step)
    (body.map h.meaning)

theorem evaluate_range (hx : Text.isName x.toList = true) :
    ((r.handle room).meaning (.range x min max step body)).evaluate =
      r.range room (some Text.digitLimit) x min max step body := by
  have hname : Control.requiredName ((r.handle room).entries
      [("var", .text x), ("min", min), ("max", max), ("step", step)]) "var" = pure x :=
    requiredName_of_lookup rfl (node_meaning r room (.text x)) hx
  rw [Node.range, evaluate_loop]
  show Control.rangeLoop _ _ _ _ = _
  rw [Control.rangeLoop, hname, pure_bind]
  simp only [range, Control.rangeWithin, Control.integerWithin_digitLimit]
  rfl

/-! ## Operands -/

/-- Whether a node yields a text as an operand of a range, which is the value of an attribute that
is not escaped, and leaves the context as it is. -/
def Yields (r : Renderer) (room : Nat) (c : Context) (n : Node) (text : String) : Prop :=
  (((r.handle room).meaning n).attributeText false).run c = (.ok text, c)

/-- Whether an operand spells an integer within a limit. -/
def Denotes (r : Renderer) (room : Nat) (limit : Option Nat) (c : Context) (n : Node) (i : Int) :
    Prop :=
  ∃ text, r.Yields room c n text ∧ Text.SpellsWithin limit text i

/-- Whether an operand yields a text that spells no integer within a limit. -/
def Garbles (r : Renderer) (room : Nat) (limit : Option Nat) (c : Context) (n : Node)
    (text : String) : Prop :=
  r.Yields room c n text ∧ ∀ i, ¬ Text.SpellsWithin limit text i

/-- A text without signs of variables yields itself. -/
theorem yields_text (r : Renderer) (room : Nat) (c : Context) {s : String} (hs : '$' ∉ s.toList) :
    r.Yields room c (.text s) s := by
  have hliteral : Node.literal s = .text s := by
    rw [Node.literal, Segment.doubled_eq_self hs, String.ofList_toList]
  rw [Yields, ← operand_handle, handle_eq_layer, ← hliteral]
  show (r.denote (r.below room) _).operand.run c = _
  exact run_operand_literal s

/-- A variable for a scalar yields its text. -/
theorem yields_var (r : Renderer) (room : Nat) {path s : String}
    (h : c.resolve path = .ok (.scalar s)) : r.Yields room c (.var path) s := by
  rw [Yields, ← operand_handle, handle_eq_layer]
  show (r.denote (r.below room) _).operand.run c = _
  exact run_operand_var h

/-! ## What a loop over a range comes to -/

section

variable {a b s : Int} {text : String}

theorem run_integerWithin_of_denotes {n : Node} (h : r.Denotes room limit c n a) (key : String) :
    (Control.integerWithin limit key ((r.handle room).meaning n)).run c = (.ok a, c) := by
  obtain ⟨text, hyields, hspells⟩ := h
  exact Control.run_integerWithin hyields hspells

theorem run_integerWithin_of_garbles {n : Node} (h : r.Garbles room limit c n text) (key : String) :
    (Control.integerWithin limit key ((r.handle room).meaning n)).run c =
      (.error (.render (Control.notInteger key text)), c) :=
  Control.run_integerWithin_error h.1 h.2

theorem run_range_of_start (h : r.Garbles room limit c min text) :
    (r.range room limit x min max step body).run c =
      (.error (.render (Control.notInteger "min" text)), c) := by
  rw [range, Control.rangeWithin, run_bind, run_integerWithin_of_garbles h]

theorem run_range_of_stop (ha : r.Denotes room limit c min a)
    (h : r.Garbles room limit c max text) :
    (r.range room limit x min max step body).run c =
      (.error (.render (Control.notInteger "max" text)), c) := by
  rw [range, Control.rangeWithin, run_bind_ok (run_integerWithin_of_denotes ha "min"), run_bind,
    run_integerWithin_of_garbles h]

theorem run_range_of_step (ha : r.Denotes room limit c min a) (hb : r.Denotes room limit c max b)
    (h : r.Garbles room limit c step text) :
    (r.range room limit x min max step body).run c =
      (.error (.render (Control.notInteger "step" text)), c) := by
  rw [range, Control.rangeWithin, run_bind_ok (run_integerWithin_of_denotes ha "min"),
    run_bind_ok (run_integerWithin_of_denotes hb "max"), run_bind, run_integerWithin_of_garbles h]

theorem run_range_of_integers (ha : r.Denotes room limit c min a)
    (hb : r.Denotes room limit c max b) (hs : r.Denotes room limit c step s) :
    (r.range room limit x min max step body).run c =
      (if s ≤ 0 then Eval.malformed "for" (.badStep s)
        else Control.overIntegers x (body.map (r.handle room).meaning) s
          (Control.stepCount a b s) a).run c := by
  rw [range, Control.rangeWithin, run_bind_ok (run_integerWithin_of_denotes ha "min"),
    run_bind_ok (run_integerWithin_of_denotes hb "max"),
    run_bind_ok (run_integerWithin_of_denotes hs "step")]

end

/-- **A loop over a range visits exactly the integers of the range.**  If its three operands spell
integers, and the step is positive, there is a round for each number of steps that leads from the
start to an integer before the stop, in this order, and in its frame the name of the loop stands for
the text of the integer.  Without such integers nothing is evaluated; neither is it if the step is
not positive or an operand spells no integer, and the loop fails then.  The first such operand
decides.

This holds for every limit on the digits of a text, and without a limit for integers of all sizes;
the loop itself has the limit of the reader.  An operand may be a text or a variable. -/
theorem range_visits (r : Renderer) (room : Nat) (c : Context) {x : String}
    (hx : Text.isName x.toList = true) (min max step : Node) (body : List Node) :
    ((r.handle room).meaning (.range x min max step body)).evaluate =
        r.range room (some Text.digitLimit) x min max step body ∧
      (∀ s i, Text.Spells s i → r.Yields room c (.text s) s) ∧
      (∀ path s, c.resolve path = .ok (.scalar s) → r.Yields room c (.var path) s) ∧
      (∀ i : Int, Text.Spells (toString i) i) ∧
      ∀ limit,
        (∀ text, r.Garbles room limit c min text →
          (r.range room limit x min max step body).run c =
            (.error (.render (Control.notInteger "min" text)), c)) ∧
        (∀ a text, r.Denotes room limit c min a → r.Garbles room limit c max text →
          (r.range room limit x min max step body).run c =
            (.error (.render (Control.notInteger "max" text)), c)) ∧
        (∀ a b text, r.Denotes room limit c min a → r.Denotes room limit c max b →
          r.Garbles room limit c step text →
            (r.range room limit x min max step body).run c =
              (.error (.render (Control.notInteger "step" text)), c)) ∧
        ∀ a b s, r.Denotes room limit c min a → r.Denotes room limit c max b →
          r.Denotes room limit c step s →
            (s ≤ 0 → (r.range room limit x min max step body).run c =
              (.error (.render (.malformedForm "for" (.badStep s))), c)) ∧
            (1 ≤ s → ∃ n, (∀ k : Nat, k < n ↔ a + k * s < b) ∧
              (r.range room limit x min max step body).run c =
                (forEach (fun k : Nat => Control.round [(x, .scalar (toString (a + k * s)))]
                  (body.map (r.handle room).meaning)) (List.range n)).run c) ∧
            (1 ≤ s → b ≤ a → (r.range room limit x min max step body).run c = (.ok [], c)) := by
  refine ⟨evaluate_range hx, fun s i hs => yields_text r room c hs.not_mem_sign,
    fun path s hs => yields_var r room hs, Text.spells_toString, fun limit =>
    ⟨fun text => run_range_of_start, fun a text => run_range_of_stop,
      fun a b text => run_range_of_step, fun a b s ha hb hs => ?_⟩⟩
  rw [run_range_of_integers ha hb hs]
  refine ⟨fun hstep => ?_, fun hstep => ⟨Control.stepCount a b s, ?_, ?_⟩, fun hstep hempty => ?_⟩
  · rw [if_pos hstep]
    rfl
  · exact Control.lt_stepCount_iff (by omega)
  · rw [if_neg (by omega), Control.overIntegers_eq_forEach]
  · have hcount : Control.stepCount a b s = 0 := by
      by_contra hne
      have hfirst : a + (0 : Nat) * s < b :=
        (Control.lt_stepCount_iff (by omega) 0).1 (Nat.pos_of_ne_zero hne)
      rw [Nat.cast_zero, zero_mul, add_zero] at hfirst
      omega
    rw [if_neg (by omega), hcount]
    rfl

/-- A context in which a name stands for the digit four of another script, after a sign. -/
def arabicFour : Context :=
  .ofList [("n", .scalar "+\u0664")]

theorem denotes_of_read {n : Node} {text : String} (hn : r.Yields room c n text) {i : Int}
    (hread : Text.readInteger text = some i) :
    r.Denotes room (some Text.digitLimit) c n i := by
  rw [← Text.readIntegerWithin_digitLimit, Text.readIntegerWithin_iff] at hread
  exact ⟨text, hn, hread⟩

theorem garbles_of_read {n : Node} {text : String} (hn : r.Yields room c n text)
    (hread : Text.readInteger text = none) : r.Garbles room (some Text.digitLimit) c n text := by
  refine ⟨hn, fun i hi => ?_⟩
  rw [← Text.readIntegerWithin_iff, Text.readIntegerWithin_digitLimit, hread] at hi
  cases hi

/-- The odd numbers from `-1` on that are before four; no number, if the start has two underscores
between its digits; and a step that is not positive. -/
theorem range_visits_odd :
    Text.isName "i".toList = true ∧
      ((library.evaluate (.range "i" (.text "-1") (.var "n") (.text " 2") [.var "i"])).run
        arabicFour).1 = .ok ["-1", "1", "3"] ∧
      (∃ n, (∀ k : Nat, k < n ↔ (-1 : Int) + k * 2 < 4) ∧
        (library.evaluate (.range "i" (.text "-1") (.var "n") (.text " 2") [.var "i"])).run
          arabicFour = (forEach (fun k : Nat =>
            Control.round [("i", .scalar (toString ((-1 : Int) + k * 2)))]
              [library.top.meaning (.var "i")]) (List.range n)).run arabicFour) ∧
      (library.evaluate (.range "i" (.text "1__0") (.var "n") (.text " 2") [.var "i"])).run
          arabicFour =
        (.error (.render (Control.notInteger "min" "1__0")), arabicFour) ∧
      (library.evaluate (.range "i" (.text "-1") (.var "n") (.text "-0") [.var "i"])).run
          arabicFour =
        (.error (.render (.malformedForm "for" (.badStep 0))), arabicFour) := by
  have hname : Text.isName "i".toList = true := by decide
  let room := library.config.limit
  let digits := some Text.digitLimit
  have hstart : library.Denotes room digits arabicFour (.text "-1") (-1) :=
    denotes_of_read (yields_text library room arabicFour (by decide)) rfl
  have hstop : library.Denotes room digits arabicFour (.var "n") 4 :=
    denotes_of_read (yields_var library room rfl) rfl
  have hstep : library.Denotes room digits arabicFour (.text " 2") 2 :=
    denotes_of_read (yields_text library room arabicFour (by decide)) rfl
  have hzero : library.Denotes room digits arabicFour (.text "-0") 0 :=
    denotes_of_read (yields_text library room arabicFour (by decide)) rfl
  have hgarbled : library.Garbles room digits arabicFour (.text "1__0") "1__0" :=
    garbles_of_read (yields_text library room arabicFour (by decide)) rfl
  refine ⟨hname, rfl, ?_, ?_, ?_⟩
  · obtain ⟨heq, -, -, -, hall⟩ := range_visits library room arabicFour hname (.text "-1")
      (.var "n") (.text " 2") [.var "i"]
    obtain ⟨-, -, -, hrounds⟩ := hall digits
    obtain ⟨n, hn, hrun⟩ := (hrounds (-1) 4 2 hstart hstop hstep).2.1 (by decide)
    exact ⟨n, hn, (congrArg (fun m => m.run arabicFour) heq).trans hrun⟩
  · obtain ⟨heq, -, -, -, hall⟩ := range_visits library room arabicFour hname (.text "1__0")
      (.var "n") (.text " 2") [.var "i"]
    exact (congrArg (fun m => m.run arabicFour) heq).trans ((hall digits).1 "1__0" hgarbled)
  · obtain ⟨heq, -, -, -, hall⟩ := range_visits library room arabicFour hname (.text "-1")
      (.var "n") (.text "-0") [.var "i"]
    obtain ⟨-, -, -, hrounds⟩ := hall digits
    have hrun := (hrounds (-1) 4 0 hstart hstop hzero).1 (by decide)
    exact (congrArg (fun m => m.run arabicFour) heq).trans hrun

end Renderer

end MarkupForms

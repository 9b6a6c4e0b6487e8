import MarkupForms.Session
import MarkupForms.Proofs.Stacks

/-!
# Registries that are made one from the other

Handlers may be given several times under the same name: with the library, when a registry is made,
and each time when it is extended.  The last one counts, at the place of the first one.  Whether all
is well is asked of the candidates in that order, so that what is refused first need not have been
given first.  An extension that is refused leaves the registry as it was.

* `Registry.ofCandidates_eq_error_iff` : the first candidate that is refused decides the error.
* `Registry.MadeOf.after`, `Registry.MadeOf.run` : one extension, and any number of them, add what
  they give when all of it can be registered.
* `Registry.gather_eq` : a warning for each name that stands for a predicate of the library.
* `Registry.registries_compose` : all of this together.
-/

namespace MarkupForms

/-! ## Entries that are put after others -/

namespace Entries

variable {κ α β : Type} [DecidableEq κ]

/-- What is put after other entries is put together with them. -/
theorem putAll_ofList (new es : List (κ × α)) : putAll new (ofList es) = ofList (es ++ new) := by
  simp [ofList, putAll]

theorem mem_put {key : κ} {x : α} {es : List (κ × α)} {e : κ × α} (h : e ∈ put key x es) :
    e = (key, x) ∨ e ∈ es := by
  induction es with
  | nil => exact .inl (List.mem_singleton.1 h)
  | cons first es ih =>
    rw [put] at h
    split at h
    · rename_i hkey
      rcases List.mem_cons.1 h with rfl | h
      · exact .inl (Prod.ext (by simpa using hkey) rfl)
      · exact .inr (List.mem_cons_of_mem _ h)
    · rcases List.mem_cons.1 h with rfl | h
      · exact .inr List.mem_cons_self
      · exact (ih h).imp id (List.mem_cons_of_mem _)

/-- Entries are new ones or old ones. -/
theorem mem_putAll {new es : List (κ × α)} {e : κ × α} (h : e ∈ putAll new es) :
    e ∈ new ∨ e ∈ es := by
  induction new generalizing es with
  | nil => exact .inr h
  | cons first new ih =>
    rcases ih h with h | h
    · exact .inl (List.mem_cons_of_mem _ h)
    · exact (mem_put h).imp (fun he => List.mem_cons.2 (.inl he)) id

/-- Of entries with distinct keys, each one is found under its key. -/
theorem lookup_eq_some_of_mem {es : List (κ × α)} (h : (keys es).Nodup) {key : κ} {x : α}
    (hx : (key, x) ∈ es) : es.lookup key = some x := by
  induction es with
  | nil => cases hx
  | cons e es ih =>
    rw [keys, List.map_cons, List.nodup_cons] at h
    rw [lookup_cons_eq]
    rcases List.mem_cons.1 hx with rfl | hx
    · exact if_pos rfl
    · have hne : key ≠ e.1 := fun heq => h.1 (heq ▸ List.mem_map_of_mem hx)
      rw [if_neg hne]
      exact ih h.2 hx

/-- New entries with distinct keys are all there, whatever was there before. -/
theorem mem_ofList_append {es new : List (κ × α)} (h : (keys new).Nodup) {e : κ × α}
    (he : e ∈ new) : e ∈ ofList (es ++ new) := by
  have hreverse : (keys new.reverse).Nodup := by
    rw [keys, List.map_reverse]
    exact (List.reverse_perm _).nodup_iff.2 h
  apply mem_of_lookup
  rw [lookup_ofList, List.reverse_append, List.lookup_append,
    lookup_eq_some_of_mem hreverse (List.mem_reverse.2 he)]
  rfl

theorem lookup_map (f : α → β) (es : List (κ × α)) (key : κ) :
    (es.map fun e => (e.1, f e.2)).lookup key = (es.lookup key).map f := by
  induction es with
  | nil => rfl
  | cons e es ih =>
    rw [List.map_cons, lookup_cons_eq, lookup_cons_eq, ih]
    split <;> rfl

end Entries

/-- The names of the control forms. -/
theorem ControlForm.isSome_ofName?_iff (name : String) :
    (ofName? name).isSome ↔ name ∈ ["if", "for", "switch", "case"] :=
  Entries.isSome_lookup_iff _ name

namespace Registry

/-! ## What can be registered -/

/-- Whether a candidate can be registered under its name. -/
def fits : String × Candidate → Bool
  | (name, .handler _) => (ControlForm.ofName? name).isNone
  | (_, .other _) => false

/-- Whether a candidate is refused.  Its name is looked at first. -/
inductive Refuses : String × Candidate → RegistryError → Prop where
  /-- The name is that of a control form. -/
  | controlForm {name : String} (h : (ControlForm.ofName? name).isSome) (candidate : Candidate) :
      Refuses (name, candidate) (.controlForm name)
  /-- It is no handler. -/
  | notHandler {name : String} (h : ControlForm.ofName? name = none) (typeName : String) :
      Refuses (name, .other typeName) (.notHandler typeName)

/-- Whether one of several candidates is refused, while all before it can be registered. -/
def FirstRefused (cs : List (String × Candidate)) (e : RegistryError) : Prop :=
  ∃ before c after, cs = before ++ c :: after ∧ (∀ c ∈ before, fits c = true) ∧ Refuses c e

variable {cs given more functions : List (String × Candidate)} {r : Registry} {e : RegistryError}

theorem not_refuses_of_fits {c : String × Candidate} (h : fits c = true) (e : RegistryError) :
    ¬ Refuses c e := by
  rintro (⟨hname, candidate⟩ | ⟨hname, typeName⟩)
  · cases candidate <;> simp_all [fits]
  · simp [fits] at h

theorem exists_refuses_of_not_fits {c : String × Candidate} (h : fits c = false) :
    ∃ e, Refuses c e := by
  obtain ⟨name, candidate⟩ := c
  cases hname : ControlForm.ofName? name with
  | some form => exact ⟨_, .controlForm (by simp [hname]) candidate⟩
  | none =>
    cases candidate with
    | handler g => simp [fits, hname] at h
    | other typeName => exact ⟨_, .notHandler hname typeName⟩

theorem ofCandidates_of_refuses {c : String × Candidate} (h : Refuses c e)
    (cs : List (String × Candidate)) : ofCandidates (c :: cs) = .error e := by
  rcases h with ⟨hname, candidate⟩ | ⟨hname, typeName⟩
  · rw [ofCandidates, dif_neg fun hnone => by simp [hnone] at hname]
  · rw [ofCandidates, dif_pos hname]

/-- What can be registered leaves the error to what comes after it. -/
theorem ofCandidates_append_eq_error_iff {before : List (String × Candidate)}
    (h : ∀ c ∈ before, fits c = true) (cs : List (String × Candidate)) :
    ofCandidates (before ++ cs) = .error e ↔ ofCandidates cs = .error e := by
  induction before with
  | nil => rfl
  | cons c before ih =>
    obtain ⟨hc, hbefore⟩ := List.forall_mem_cons.1 h
    rw [← ih hbefore]
    obtain ⟨name, candidate⟩ := c
    cases candidate with
    | other typeName => cases hc
    | handler g =>
      have hname : ControlForm.ofName? name = none := by simpa [fits] using hc
      rw [List.cons_append, ofCandidates, dif_pos hname]
      cases ofCandidates (before ++ cs) <;> simp [Except.map]

/-- The first candidate that is refused decides the error. -/
theorem ofCandidates_eq_error_iff : ofCandidates cs = .error e ↔ FirstRefused cs e := by
  constructor
  · intro h
    induction cs with
    | nil => cases h
    | cons c cs ih =>
      cases hc : fits c with
      | false =>
        obtain ⟨e', he'⟩ := exists_refuses_of_not_fits hc
        obtain rfl : e' = e := Except.error.inj ((ofCandidates_of_refuses he' cs).symm.trans h)
        exact ⟨[], c, cs, rfl, by simp, he'⟩
      | true =>
        have hrest := (ofCandidates_append_eq_error_iff (List.forall_mem_singleton.2 hc) cs).1 h
        obtain ⟨before, d, after, rfl, hbefore, hd⟩ := ih hrest
        exact ⟨c :: before, d, after, rfl, List.forall_mem_cons.2 ⟨hc, hbefore⟩, hd⟩
  · rintro ⟨before, c, after, rfl, hbefore, hc⟩
    exact (ofCandidates_append_eq_error_iff hbefore _).2 (ofCandidates_of_refuses hc after)

theorem fits_of_mem_candidates {c : String × Candidate} (h : c ∈ r.candidates) : fits c = true := by
  obtain ⟨entry, hentry, rfl⟩ := List.mem_map.1 h
  simp [fits, r.noControlForm entry hentry]

/-- Candidates are refused when one of them cannot be registered. -/
theorem exists_error_iff : (∃ e, ofCandidates cs = .error e) ↔ ∃ c ∈ cs, fits c = false := by
  constructor
  · rintro ⟨e, he⟩
    obtain ⟨before, c, after, rfl, -, hc⟩ := ofCandidates_eq_error_iff.1 he
    exact ⟨c, by simp, Bool.eq_false_iff.2 fun hfits => not_refuses_of_fits hfits e hc⟩
  · rintro ⟨c, hmem, hc⟩
    cases hmade : ofCandidates cs with
    | error e => exact ⟨e, rfl⟩
    | ok r =>
      rw [fits_of_mem_candidates ((ofCandidates_entries hmade).symm ▸ hmem)] at hc
      cases hc

/-! ## What was given so far -/

/-- Whether a registry is made of what was given, one after the other. -/
def MadeOf (r : Registry) (given : List (String × Candidate)) : Prop :=
  r.candidates = Entries.ofList given

/-- The registry after an extension: the same one when the extension is refused. -/
def after (r : Registry) (more : List (String × Candidate)) : Registry :=
  match r.extend more with
  | .ok r' => r'
  | .error _ => r

/-- The registry after any number of extensions. -/
def run (r : Registry) (steps : List (List (String × Candidate))) : Registry :=
  steps.foldl after r

/-- What extensions give that are not refused. -/
def accepted (steps : List (List (String × Candidate))) : List (String × Candidate) :=
  (steps.filter fun more => more.all fits).flatten

theorem accepted_cons (more : List (String × Candidate))
    (steps : List (List (String × Candidate))) :
    accepted (more :: steps) = (if more.all fits then more else []) ++ accepted steps := by
  rw [accepted, List.filter_cons]
  split <;> rfl

/-- The candidates that a registry has before any are given. -/
def start (withStandard : Bool) : List (String × Candidate) :=
  if withStandard then standardCandidates else []

theorem ofList_start (withStandard : Bool) :
    Entries.ofList (start withStandard) = start withStandard := by
  have hdistinct : (Entries.keys (start withStandard)).Nodup := by
    cases withStandard <;> decide
  exact Entries.ofList_eq_self hdistinct

theorem fits_of_mem_start {c : String × Candidate} {withStandard : Bool}
    (h : c ∈ start withStandard) : fits c = true := by
  have hall : (start withStandard).all fits = true := by
    cases withStandard <;> rfl
  exact List.all_eq_true.1 hall c h

/-- More candidates are refused for one of them, when what was given before can be registered. -/
theorem exists_error_append_iff (hgiven : ∀ c ∈ Entries.ofList given, fits c = true)
    (hmore : (Entries.keys more).Nodup) :
    (∃ e, ofCandidates (Entries.ofList (given ++ more)) = .error e) ↔
      ∃ c ∈ more, fits c = false := by
  rw [exists_error_iff]
  constructor
  · rintro ⟨c, hmem, hc⟩
    -- What is refused stands among all candidates, but those given before can be registered.
    rcases Entries.mem_putAll (Entries.putAll_ofList more given ▸ hmem) with hnew | hold
    · exact ⟨c, hnew, hc⟩
    · rw [hgiven c hold] at hc
      cases hc
  · rintro ⟨c, hmem, hc⟩
    exact ⟨c, Entries.mem_ofList_append hmore hmem, hc⟩

theorem create_eq (functions : List (String × Candidate)) (withStandard : Bool) :
    create functions withStandard =
      ofCandidates (Entries.ofList (start withStandard ++ functions)) := by
  rw [← Entries.putAll_ofList, ofList_start]
  rfl

namespace MadeOf

theorem extend_eq (h : r.MadeOf given) (more : List (String × Candidate)) :
    r.extend more = ofCandidates (Entries.ofList (given ++ more)) := by
  rw [extend, h, Entries.putAll_ofList]

theorem fits (h : r.MadeOf given) : ∀ c ∈ Entries.ofList given, Registry.fits c = true :=
  fun _ hc => fits_of_mem_candidates (h.symm ▸ hc)

theorem exists_error_iff (h : r.MadeOf given) (hmore : (Entries.keys more).Nodup) :
    (∃ e, r.extend more = .error e) ↔ ∃ c ∈ more, Registry.fits c = false := by
  rw [h.extend_eq, exists_error_append_iff h.fits hmore]

/-- An extension adds what it gives, or nothing. -/
theorem after (h : r.MadeOf given) (hmore : (Entries.keys more).Nodup) :
    (r.after more).MadeOf (given ++ if more.all Registry.fits then more else []) := by
  have hrefused := h.exists_error_iff hmore
  rw [Registry.after]
  cases hmade : r.extend more with
  | error e =>
    obtain ⟨c, hmem, hc⟩ := hrefused.1 ⟨e, hmade⟩
    have hall : more.all Registry.fits = false := List.all_eq_false.2 ⟨c, hmem, by simp [hc]⟩
    simpa [hall] using h
  | ok r' =>
    have hall : more.all Registry.fits = true := by
      refine List.all_eq_true.2 fun c hmem => Bool.eq_true_of_not_eq_false fun hc => ?_
      obtain ⟨e, he⟩ := hrefused.2 ⟨c, hmem, hc⟩
      rw [hmade] at he
      cases he
    rw [if_pos hall]
    exact ofCandidates_entries (h.extend_eq more ▸ hmade)

/-- Extensions add what they give when they are not refused. -/
theorem run (h : r.MadeOf given) {steps : List (List (String × Candidate))}
    (hsteps : ∀ more ∈ steps, (Entries.keys more).Nodup) :
    (r.run steps).MadeOf (given ++ accepted steps) := by
  induction steps generalizing r given with
  | nil => simpa [Registry.run, accepted] using h
  | cons more steps ih =>
    obtain ⟨hmore, hsteps⟩ := List.forall_mem_cons.1 hsteps
    rw [accepted_cons, ← List.append_assoc]
    exact ih (h.after hmore) hsteps

/-- A name has the handler that was given for it last. -/
theorem get?_eq (h : r.MadeOf given) (name : String) :
    (r.get? name).map .handler = given.reverse.lookup name := by
  rw [← Entries.lookup_ofList, ← h, candidates, Entries.lookup_map]
  rfl

/-- The names stand in the order in which they were first given. -/
theorem names_eq (h : r.MadeOf given) : r.names = (Entries.keys given).eraseDups := by
  have hkeys : r.names = Entries.keys r.candidates := by
    simp [names, candidates, Entries.keys]
  rw [hkeys, h, Entries.keys_ofList]
  rfl

end MadeOf

/-- No name of a control form is ever registered. -/
theorem controlForm_notMem_names (r : Registry) :
    ∀ name ∈ ["if", "for", "switch", "case"], name ∉ r.names := by
  intro name hname
  obtain ⟨form, hform⟩ := Option.isSome_iff_exists.1 ((ControlForm.isSome_ofName?_iff name).2 hname)
  exact r.notMem_names hform

/-! ## Warnings -/

/-- The warning for a name under which there is a handler already. -/
def warning (name : String) : String :=
  s!"Handler for '{name}' overrides built-in predicate"

/-- Put handlers under their names, one after the other, with a warning for each name under which
there is one already. -/
def gather (handlers : List (String × Candidate)) :
    List (String × Candidate) → List String × List (String × Candidate)
  | [] => ([], handlers)
  | (name, candidate) :: functions =>
      let (warnings, all) := gather (Entries.put name candidate handlers) functions
      (if name ∈ Entries.keys handlers then warning name :: warnings else warnings, all)

/-- Of handlers with distinct names, those lead to a warning whose names were there before. -/
theorem gather_eq (handlers : List (String × Candidate)) (h : (Entries.keys functions).Nodup) :
    gather handlers functions =
      (((Entries.keys functions).filter (· ∈ Entries.keys handlers)).map warning,
        Entries.putAll functions handlers) := by
  induction functions generalizing handlers with
  | nil => rfl
  | cons c functions ih =>
    obtain ⟨name, candidate⟩ := c
    obtain ⟨hname, hfunctions⟩ := List.nodup_cons.1 h
    have hsame : (Entries.keys functions).filter
          (· ∈ Entries.keys (Entries.put name candidate handlers)) =
        (Entries.keys functions).filter (· ∈ Entries.keys handlers) := by
      -- The names are distinct, so none that comes later is the one that was just put.
      refine List.filter_congr fun key hkey => ?_
      have hne : key ≠ name := fun heq => hname (heq ▸ hkey)
      rw [Entries.keys_put]
      split <;> simp [hne]
    have hkeys : Entries.keys ((name, candidate) :: functions) =
        name :: Entries.keys functions := rfl
    rw [gather, ih _ hfunctions, hsame, hkeys, List.filter_cons]
    by_cases hmem : name ∈ Entries.keys handlers
    · simp [hmem, Entries.putAll]
    · simp [hmem, Entries.putAll]

theorem gather_start (h : (Entries.keys functions).Nodup) (withStandard : Bool) :
    gather (start withStandard) functions =
      (warnings functions withStandard, Entries.putAll functions (start withStandard)) := by
  rw [gather_eq _ h, warnings]
  cases withStandard with
  | false => simp [start, Entries.keys]
  | true =>
    have hkeys : Entries.keys (start true) = Entries.keys Predicate.standard := rfl
    simp only [hkeys, if_true]
    rfl

/-- There is one warning for each name that stands for a predicate of the library. -/
theorem exists_warnings_eq (h : (Entries.keys functions).Nodup) (withStandard : Bool) :
    ∃ names : List String, warnings functions withStandard = names.map warning ∧
      names.Sublist (Entries.keys functions) ∧
      ∀ name, names.count name =
        if withStandard ∧ name ∈ Entries.keys functions ∧ name ∈ Entries.keys Predicate.standard
        then 1 else 0 := by
  have hgather := congrArg Prod.fst (gather_start h withStandard)
  rw [gather_eq _ h] at hgather
  refine ⟨_, hgather.symm, List.filter_sublist, fun name => ?_⟩
  rw [List.Nodup.count (h.filter _)]
  cases withStandard with
  | false => simp [start, Entries.keys]
  | true =>
    have hkeys : Entries.keys (start true) = Entries.keys Predicate.standard := rfl
    simp [hkeys]

end Registry

/-! ## A session that goes on with more handlers -/

/-- Ask a session for one extension after the other. -/
def Session.extendAll (s : Session) (slot : Option String)
    (steps : List (List (String × Candidate))) : Session :=
  steps.foldl (fun s more => (s.perform slot (.extend more)).1) s

/-- A session goes on with the registry that its extensions leave; an extension that is refused
leaves the session as it was. -/
theorem Session.extendAll_eq (s : Session) (slot : Option String)
    (steps : List (List (String × Candidate))) :
    s.extendAll slot steps =
      { s with renderer := { s.renderer with registry := s.renderer.registry.run steps } } := by
  induction steps generalizing s with
  | nil => rfl
  | cons more steps ih =>
    have hstep : (s.perform slot (.extend more)).1 =
        { s with renderer := { s.renderer with registry := s.renderer.registry.after more } } := by
      rw [perform, Renderer.extend, Registry.after]
      cases s.renderer.registry.extend more <;> rfl
    show ((s.perform slot (.extend more)).1).extendAll slot steps = _
    rw [ih, hstep]
    rfl

namespace Registry

/-- **Registries compose by replacement.**  For functions under distinct names, with or without the
library, and for any extensions under distinct names:

* A registry is made unless one of the functions cannot be registered, and the first candidate that
  is refused decides the error, in the order in which the registry would have them.
* After the extensions, a name has the handler that was given for it last, with the functions or by
  an extension that was not refused.  The names stand in the order in which they were first given,
  those of the library first, and no control form is among them.
* One more extension is refused when one of its functions cannot be registered, with the error of
  the first candidate that is refused in the order of the registry.
* A session goes on with these registries; an extension that is refused leaves it as it was.
* The handlers are put under their names one after the other, with one warning for each name of a
  predicate of the library, in the order of the functions, and with no other warning. -/
theorem registries_compose (functions : List (String × Candidate)) (withStandard : Bool)
    (steps : List (List (String × Candidate))) (hfunctions : (Entries.keys functions).Nodup)
    (hsteps : ∀ more ∈ steps, (Entries.keys more).Nodup) :
    ((∃ e, create functions withStandard = .error e) ↔ ∃ c ∈ functions, fits c = false) ∧
    (∀ e, create functions withStandard = .error e ↔
      FirstRefused (Entries.ofList (start withStandard ++ functions)) e) ∧
    (∀ r, create functions withStandard = .ok r →
      let given := start withStandard ++ functions ++ accepted steps
      (∀ name, ((r.run steps).get? name).map .handler = given.reverse.lookup name) ∧
      (r.run steps).names = (Entries.keys given).eraseDups ∧
      (∀ name ∈ ["if", "for", "switch", "case"], name ∉ (r.run steps).names) ∧
      (∀ more, (Entries.keys more).Nodup →
        ((∃ e, (r.run steps).extend more = .error e) ↔ ∃ c ∈ more, fits c = false) ∧
        ∀ e, (r.run steps).extend more = .error e ↔
          FirstRefused (Entries.ofList (given ++ more)) e) ∧
      ∀ (s : Session) slot, s.renderer.registry = r →
        s.extendAll slot steps =
          { s with renderer := { s.renderer with registry := r.run steps } }) ∧
    gather (start withStandard) functions =
      (warnings functions withStandard, Entries.putAll functions (start withStandard)) ∧
    ∃ names : List String, warnings functions withStandard = names.map warning ∧
      names.Sublist (Entries.keys functions) ∧
      ∀ name, names.count name =
        if withStandard ∧ name ∈ Entries.keys functions ∧ name ∈ Entries.keys Predicate.standard
        then 1 else 0 := by
  refine ⟨?_, fun e => ?_, fun r hr => ?_, gather_start hfunctions withStandard,
    exists_warnings_eq hfunctions withStandard⟩
  · rw [create_eq, exists_error_append_iff _ hfunctions]
    exact fun c hc => fits_of_mem_start (ofList_start withStandard ▸ hc)
  · rw [create_eq, ofCandidates_eq_error_iff]
  · have hmade : r.MadeOf (start withStandard ++ functions) :=
      ofCandidates_entries (create_eq functions withStandard ▸ hr)
    have hrun := hmade.run hsteps
    refine ⟨hrun.get?_eq, hrun.names_eq, controlForm_notMem_names _, fun more hmore =>
      ⟨hrun.exists_error_iff hmore, fun e => ?_⟩, fun s slot hs => hs ▸ s.extendAll_eq slot steps⟩
    rw [hrun.extend_eq, ofCandidates_eq_error_iff]

/-- A function replaces a predicate of the library, one extension is refused for a control form, and
another one replaces a function and adds one. -/
theorem registries_compose_replacing :
    let functions : List (String × Candidate) :=
      [("eq", .handler (.text "same")), ("x", .handler .nothing)]
    let steps : List (List (String × Candidate)) :=
      [[("x", .handler (.text "a")), ("if", .handler .nothing)],
        [("y", .handler .nothing), ("x", .handler .number)]]
    (Entries.keys functions).Nodup ∧ (∀ more ∈ steps, (Entries.keys more).Nodup) ∧
      ∃ r, create functions true = .ok r ∧
        (r.run steps).names = ["is-set", "eq", "ne", "not", "and", "or", "x", "y"] ∧
        ((r.run steps).get? "x").map Candidate.handler = some (.handler .number) := by
  intro functions steps
  have hfunctions : (Entries.keys functions).Nodup := by decide
  have hsteps : ∀ more ∈ steps, (Entries.keys more).Nodup := by decide
  obtain ⟨hfails, -, hmade, -⟩ := registries_compose functions true steps hfunctions hsteps
  refine ⟨hfunctions, hsteps, ?_⟩
  cases hr : create functions true with
  | error e => exact absurd (hfails.1 ⟨e, hr⟩) (by decide)
  | ok r =>
    obtain ⟨hget, hnames, -⟩ := hmade r hr
    exact ⟨r, rfl, hnames.trans (by decide), (hget "x").trans rfl⟩

end Registry

end MarkupForms

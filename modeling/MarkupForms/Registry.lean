import MarkupForms.Entries
import MarkupForms.Handler

/-!
# Registries of handlers

A registry maps the names of tags to handlers and keeps the order in which the names came.  A
registry that extends another one replaces handlers and keeps their places.  The control forms
belong to evaluation and cannot be registered.

* `Registry.ofCandidates_entries` : what is accepted is stored as it came.
* `Registry.notMem_names` : no registry has a control form.
-/

namespace MarkupForms

/-- The tags that evaluation itself gives a meaning to. -/
inductive ControlForm where
  /-- A choice between two branches. -/
  | choice
  /-- A loop over a collection or a range. -/
  | loop
  /-- A choice by a value. -/
  | switch
  /-- A branch of a choice by a value. -/
  | case
deriving DecidableEq, Repr

/-- The control form with a given name. -/
def ControlForm.ofName? (name : String) : Option ControlForm :=
  [("if", ControlForm.choice), ("for", .loop), ("switch", .switch), ("case", .case)].lookup name

/-- Something that is offered as a handler. -/
inductive Candidate where
  /-- A handler. -/
  | handler (h : Handler)
  /-- Something else. -/
  | other (typeName : String)

/-- Why handlers cannot be registered. -/
inductive RegistryError where
  /-- The name is that of a control form. -/
  | controlForm (name : String)
  /-- It is no handler. -/
  | notHandler (typeName : String)
deriving DecidableEq, Repr

/-- The message for handlers that cannot be registered. -/
def RegistryError.message : RegistryError → String
  | .controlForm name => s!"'{name}' is a built-in control form and cannot be registered"
  | .notHandler typeName => s!"Tag handler must be a TagHandler or a callable, got {typeName}"

/-- Handlers under the names of tags. -/
structure Registry where
  /-- The handlers, in the order in which their names came. -/
  entries : List (String × Handler)
  /-- No control form is among them. -/
  noControlForm : ∀ e ∈ entries, ControlForm.ofName? e.1 = none

namespace Registry

/-! ## Making registries -/

/-- The registry without handlers. -/
def empty : Registry := ⟨[], by simp⟩

instance : Inhabited Registry := ⟨empty⟩

/-- Put a handler in front of a registry. -/
def cons (name : String) (h : Handler) (r : Registry) (hn : ControlForm.ofName? name = none) :
    Registry :=
  ⟨(name, h) :: r.entries, by
    intro e he
    rcases List.mem_cons.1 he with rfl | he
    · exact hn
    · exact r.noControlForm e he⟩

/-- The registry of candidates under distinct names, or the first of them that is refused. -/
def ofCandidates : List (String × Candidate) → Except RegistryError Registry
  | [] => .ok empty
  | (name, candidate) :: rest =>
      if hn : ControlForm.ofName? name = none then
        match candidate with
        | .other typeName => .error (.notHandler typeName)
        | .handler h => (ofCandidates rest).map fun r => r.cons name h hn
      else .error (.controlForm name)

/-- The registered handlers as candidates. -/
def candidates (r : Registry) : List (String × Candidate) :=
  r.entries.map fun e => (e.1, .handler e.2)

/-- The registry with more handlers; one under a known name replaces the handler there. -/
def extend (r : Registry) (more : List (String × Candidate)) : Except RegistryError Registry :=
  ofCandidates (Entries.putAll more r.candidates)

/-- The predicates that come with the library, as candidates. -/
def standardCandidates : List (String × Candidate) :=
  Predicate.standard.map fun e => (e.1, .handler (.predicate e.2))

/-- A registry with or without the predicates that come with the library. -/
def create (functions : List (String × Candidate)) (withStandard : Bool) :
    Except RegistryError Registry :=
  ofCandidates (Entries.putAll functions (if withStandard then standardCandidates else []))

/-- The warnings for handlers that replace a predicate of the library. -/
def warnings (functions : List (String × Candidate)) (withStandard : Bool) : List String :=
  if withStandard then
    ((Entries.keys functions).filter (· ∈ Entries.keys Predicate.standard)).map fun name =>
      s!"Handler for '{name}' overrides built-in predicate"
  else []

/-! ## Asking registries -/

/-- The handler of a tag. -/
def get? (r : Registry) (name : String) : Option Handler :=
  r.entries.lookup name

/-- The predicate of a tag. -/
def predicate? (r : Registry) (name : String) : Option Predicate :=
  match r.get? name with
  | some (.predicate p) => some p
  | _ => none

/-- The names of the tags, in order. -/
def names (r : Registry) : List String :=
  Entries.keys r.entries

/-- The names of the tags whose handlers are predicates, in order. -/
def predicateNames (r : Registry) : List String :=
  (r.entries.filter fun e => e.2.isPredicate).map Prod.fst

/-- The handlers that are functions, as diagnostics show them.  Which handlers are functions, and
under which names they were written, is up to whoever wrote them. -/
def shownHandlers (r : Registry) (nameOf? : Handler → Option String) : List String :=
  r.entries.filterMap fun e => (nameOf? e.2).map e.2.display

/-- The number of handlers. -/
def size (r : Registry) : Nat :=
  r.entries.length

/-- The names of the tags, sorted. -/
def sortedNames (r : Registry) : List String :=
  r.names.mergeSort fun a b => a ≤ b

/-- A registry as diagnostics show it. -/
def display (r : Registry) : String :=
  s!"FunctionRegistry({Text.displayList (r.sortedNames.map Text.display)})"

/-! ## Laws -/

/-- What is accepted is stored as it came. -/
theorem ofCandidates_entries {cs : List (String × Candidate)} {r : Registry}
    (h : ofCandidates cs = .ok r) : r.candidates = cs := by
  induction cs generalizing r with
  | nil =>
    cases h
    rfl
  | cons c cs ih =>
    obtain ⟨name, candidate⟩ := c
    unfold ofCandidates at h
    split at h
    · cases candidate with
      | other t => simp at h
      | handler g =>
        cases hc : ofCandidates cs with
        | error e => simp [hc, Except.map] at h
        | ok s =>
          simp only [hc, Except.map, Except.ok.injEq] at h
          subst h
          have := ih hc
          simp only [candidates] at this
          simp [candidates, cons, this]
    · cases h

/-- No registry has a control form. -/
theorem notMem_names (r : Registry) {name : String} {form : ControlForm}
    (h : ControlForm.ofName? name = some form) : name ∉ r.names := by
  simp only [names, Entries.keys, List.mem_map, not_exists, not_and]
  rintro e he rfl
  simp [r.noControlForm e he] at h

end Registry

end MarkupForms

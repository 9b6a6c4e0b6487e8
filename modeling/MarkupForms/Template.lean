import MarkupForms.Node.Parser
import MarkupForms.Node.Printer

/-!
# Templates

A template is a form that was read once and may be evaluated any number of times.  It may carry a
name for diagnostics.
-/

namespace MarkupForms

/-- A template. -/
structure Template where
  /-- Its form. -/
  root : Form
  /-- Its name, possibly empty. -/
  name : String
deriving DecidableEq, Inhabited, Repr

namespace Template

/-- Read a template. -/
def ofText? (text : String) (name : String) : Except SourceError Template :=
  (Form.ofText? text).map fun root => ⟨root, name⟩

/-- The template as it is written. -/
def toText? (t : Template) : Option String :=
  t.root.toNode.toText?

/-- The variables that the template refers to, in the order of first mention. -/
def variableNames (t : Template) : List String :=
  t.root.toNode.variableNames

/-- Whether the written template reads back as the same template. -/
def readsBack (t : Template) : Bool :=
  match t.toText? with
  | none => false
  | some text =>
      match ofText? text t.name with
      | .error _ => false
      | .ok u => u == t

end Template

end MarkupForms

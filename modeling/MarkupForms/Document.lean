import MarkupForms.Config
import MarkupForms.Context.Builder
import MarkupForms.Yaml.Document

/-!
# Documents for settings and names

Configurations and contexts can be written as documents.  An empty document stands for the standard
configuration and for the context without names.  Any other configuration goes to the log when it
has been read, so it has to be one that can be shown.
-/

namespace MarkupForms

/-- Why a document is refused. -/
inductive DocumentError (ε : Type) where
  /-- It cannot be read. -/
  | unreadable (e : Yaml.Fault)
  /-- What it says is refused. -/
  | refused (e : ε)
deriving Repr

/-- The line for the log with the settings of a configuration. -/
def Config.logLine (c : Config) : Except ConfigError String := do
  match (← c.toData).display? with
  | some settings => return s!"Loaded renderer config: {settings}"
  | none => throw .longInteger

/-- The configuration in data, which has been written to the log. -/
def Config.load (d : Data) : Except ConfigError Config := do
  let c ← Config.ofData d
  let _ ← c.logLine
  return c

/-- The configuration that a document stands for. -/
def Config.ofDocument (s : String) : Except (DocumentError ConfigError) Config :=
  match Yaml.read s with
  | .error e => .error (.unreadable e)
  | .ok .null => .ok .standard
  | .ok d => (Config.load d).mapError .refused

/-- The context that a document stands for. -/
def Context.ofDocument (s : String) : Except (DocumentError DataError) Context :=
  match Yaml.read s with
  | .error e => .error (.unreadable e)
  | .ok .null => .ok .empty
  | .ok d => (Context.ofData? d).mapError .refused

end MarkupForms

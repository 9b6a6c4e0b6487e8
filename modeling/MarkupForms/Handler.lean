import MarkupForms.Program

/-!
# Handlers

A handler gives a tag a meaning of its own.  It gets the attributes and the children of the tag as
they were written and decides whether, how often and with which names they are evaluated.  A
predicate is a handler with a truth value; only predicates may be conditions.

Handlers are data here: each constructor says what the handler does, and evaluation says how.  Some
are common, or do what no program can: they close frames that they have not opened, or reply
something that has no fragments.  All others are programs.

The data that a handler binds is made when the handler is called, so it is only then that it may
turn out that there is none.
-/

namespace MarkupForms

/-- A handler with a truth value. -/
inductive Predicate where
  /-- Whether a variable leads to a value. -/
  | isSet
  /-- Whether two operands have the same text. -/
  | equal
  /-- Whether two operands have different texts. -/
  | unequal
  /-- Whether a condition fails. -/
  | negation
  /-- Whether all conditions hold. -/
  | conjunction
  /-- Whether some condition holds. -/
  | disjunction
  /-- A fixed truth value. -/
  | constant (value : Bool)
  /-- Whether a fixed text is not empty. -/
  | filled (text : String)
  /-- Whether the children have a given text. -/
  | textEquals (expected : String)
  /-- Fails. -/
  | raising (failure : Failure)
  /-- Whether the first child is a variable for a list or a map with something in it. -/
  | nonempty
deriving DecidableEq, Repr

/-- The names that a template is rendered with when a handler renders it. -/
inductive Handler.Sharing where
  /-- No names. -/
  | isolated
  /-- The names that the handler sees. -/
  | shared
  /-- The attributes of the handler's tag, and its content as the body. -/
  | attributes
deriving DecidableEq, Repr

/-- What a handler does. -/
inductive Handler where
  /-- Yields a truth value as a text. -/
  | predicate (p : Predicate)
  /-- Yields the children; it is an object of its own or just a function. -/
  | content (isObject : Bool)
  /-- Yields fixed fragments. -/
  | fragments (parts : List String)
  /-- Yields one fixed text. -/
  | text (s : String)
  /-- Yields nothing at all. -/
  | nothing
  /-- Yields something that is not a text between two texts. -/
  | foreign (typeName : String)
  /-- Yields a number. -/
  | number
  /-- Fails. -/
  | raising (failure : Failure)
  /-- Lists the attributes as they were written. -/
  | listAttributes
  /-- Yields the attributes and the children as they were written. -/
  | source
  /-- Counts the attributes and the children. -/
  | counts
  /-- Yields the value of an attribute. -/
  | attributeValue (key : String)
  /-- Binds a name, then yields the children. -/
  | binding (name : String) (data : Offered Data)
  /-- Opens a frame and binds a name in it, then yields the children. -/
  | pushing (name : String) (data : Offered Data)
  /-- Closes frames and may bind a name, then yields the children. -/
  | popping (times : Nat) (bound : Option (String × Offered Data))
  /-- Binds the attributes to their values, then yields the children. -/
  | attributeScope
  /-- Yields the children in a context of their own. -/
  | fresh (pairs : Offered Pairs)
  /-- Yields the children several times; they are evaluated once. -/
  | repeating (times : Nat)
  /-- Yields the texts of the children between bars. -/
  | texts
  /-- Yields the texts of the children as operands between bars. -/
  | operands
  /-- Yields a letter for the truth value of each child. -/
  | tests
  /-- Renders a named template. -/
  | template (name : String) (sharing : Handler.Sharing)
  /-- Reads and renders a text. -/
  | parsing (source : String)
  /-- Lists the visible names and counts the frames. -/
  | visibleNames
  /-- Yields the children, or the type of the render error that they end with. -/
  | catching
  /-- Runs a program. -/
  | program (p : Routine)

namespace Predicate

/-- The predicates that come with the library, under their names. -/
def standard : List (String × Predicate) :=
  [("is-set", .isSet), ("eq", .equal), ("ne", .unequal), ("not", .negation),
    ("and", .conjunction), ("or", .disjunction)]

end Predicate

namespace Handler

/-- Whether a handler has a truth value. -/
def isPredicate : Handler → Bool
  | .predicate _ => true
  | _ => false

/-- Whether a handler may catch render errors. -/
def Catches : Handler → Prop
  | .catching => True
  | .program p => p.Catches
  | _ => False

/-- A handler that is a function, as diagnostics show it under its name. -/
def display (h : Handler) (name : String) : String :=
  let title := if h.isPredicate then "FunctionPredicate" else "FunctionHandler"
  title ++ "(" ++ Text.display name ++ ")"

end Handler

end MarkupForms

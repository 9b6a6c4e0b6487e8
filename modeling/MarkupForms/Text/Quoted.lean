/-!
# Quoted text

Text of any kind is written between double quotes.  Inside, a backslash protects a double quote or
another backslash; before any other character a backslash stands for itself.

* `decodeBody_encodeBody` : what is written between the quotes reads back.
-/

namespace MarkupForms.Text

/-- One character between the quotes. -/
def encodeChar (c : Char) : List Char :=
  if c = '"' ∨ c = '\\' then ['\\', c] else [c]

/-- The text between the quotes. -/
def encodeBody (s : List Char) : List Char :=
  s.flatMap encodeChar

/-- The text that is meant by the characters between the quotes. -/
def decodeBody : List Char → List Char
  | [] => []
  | '\\' :: c :: r =>
      if c = '"' ∨ c = '\\' then c :: decodeBody r else '\\' :: decodeBody (c :: r)
  | c :: r => c :: decodeBody r

/-- A text between quotes. -/
def quoteChars (s : List Char) : List Char :=
  '"' :: encodeBody s ++ ['"']

/-- A text between quotes. -/
def quote (s : String) : String :=
  String.ofList (quoteChars s.toList)

/-- The text that is meant by the characters between the quotes. -/
def unescape (s : String) : String :=
  String.ofList (decodeBody s.toList)

@[simp] theorem encodeBody_nil : encodeBody [] = [] := rfl

@[simp] theorem encodeBody_cons (c : Char) (s : List Char) :
    encodeBody (c :: s) = encodeChar c ++ encodeBody s := rfl

theorem decodeBody_cons_of_ne {c : Char} (h : c ≠ '\\') (r : List Char) :
    decodeBody (c :: r) = c :: decodeBody r := by
  cases r <;> simp [decodeBody, h]

/-- What is written between the quotes reads back, whatever follows it. -/
theorem decodeBody_encodeChar_append (c : Char) (r : List Char) :
    decodeBody (encodeChar c ++ r) = c :: decodeBody r := by
  by_cases h : c = '"' ∨ c = '\\'
  · simp [encodeChar, h, decodeBody]
  · have hb : c ≠ '\\' := fun e => h (Or.inr e)
    simp only [encodeChar, if_neg h]
    exact decodeBody_cons_of_ne hb r

theorem decodeBody_encodeBody (s : List Char) : decodeBody (encodeBody s) = s := by
  induction s with
  | nil => rfl
  | cons c s ih => rw [encodeBody_cons, decodeBody_encodeChar_append, ih]

end MarkupForms.Text

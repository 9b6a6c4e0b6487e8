/-!
# Escaping text for markup

The five characters with a meaning in markup are replaced by entities, every other character stands
for itself.  The result may be placed between tags or between quotes of either kind.

* `escapeChars_append` : a text is escaped character by character.
* `not_mem_escapeChars` : none of the four delimiters survives.
-/

namespace MarkupForms.Text

/-- The entity of a character with a meaning in markup, any other character as it is. -/
def escapeChar (c : Char) : List Char :=
  match c with
  | '&' => "&amp;".toList
  | '<' => "&lt;".toList
  | '>' => "&gt;".toList
  | '"' => "&quot;".toList
  | '\'' => "&#x27;".toList
  | c => [c]

/-- Replace the characters with a meaning in markup by entities. -/
def escapeChars (s : List Char) : List Char :=
  s.flatMap escapeChar

/-- Replace the characters with a meaning in markup by entities. -/
def escape (s : String) : String :=
  String.ofList (escapeChars s.toList)

theorem escapeChars_append (s t : List Char) :
    escapeChars (s ++ t) = escapeChars s ++ escapeChars t :=
  List.flatMap_append

theorem not_mem_escapeChar {d : Char} (hd : d ∈ ['<', '>', '"', '\'']) (c : Char) :
    d ∉ escapeChar c := by
  simp only [List.mem_cons, List.not_mem_nil, or_false] at hd
  unfold escapeChar
  split <;> rcases hd with rfl | rfl | rfl | rfl <;> simp_all [eq_comm]

/-- No angle bracket and no quote survives. -/
theorem not_mem_escapeChars {d : Char} (hd : d ∈ ['<', '>', '"', '\'']) (s : List Char) :
    d ∉ escapeChars s := by
  simp only [escapeChars, List.mem_flatMap, not_exists, not_and]
  exact fun c _ => not_mem_escapeChar hd c

end MarkupForms.Text

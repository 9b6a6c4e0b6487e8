import MarkupForms.Text.Pattern
import MarkupForms.Token.Scanner

/-!
# Rules for tokens

Tokens can also be told by a list of rules.  At each place of a text the first rule counts whose
pattern is found there: it says how much is taken and which token is made of it, if any.  A quote
without its partner has a rule of its own, after the one for quoted texts.  When no rule counts, the
text is refused.

* `Token.rules` : the rules, in order.
* `Token.Lexer.length_next` : a rule always takes something.
* `Token.ofRules` : the tokens of a text.
-/

namespace MarkupForms

/-- The place after some text, from its length, its number of newlines and what comes after the last
one of them. -/
def Location.past (here : Location) (raw : List Char) : Location :=
  if raw.count '\n' = 0 then ⟨here.position + raw.length, here.line, here.column + raw.length⟩
  else ⟨here.position + raw.length, here.line + raw.count '\n', raw.reverse.idxOf '\n' + 1⟩

namespace Token

open Text (Pattern)

/-! ## Patterns -/

/-- A blank, a parenthesis, a quote or the end of the text follows. -/
def atDelimiter : Pattern :=
  .ahead (.alt (.char Scanner.isDelimiter) .stop)

/-- A name. -/
def namePattern : Pattern :=
  .seq (.char Text.isNameStart) (.many (.char Text.isNameChar))

/-- Names with dots between them. -/
def pathPattern : Pattern :=
  .seq namePattern (.many (.seq (.lit '.') namePattern))

/-- What stands between two quotes is made of: a protected character, or one that needs no
protection. -/
def bodyUnit : Pattern :=
  .alt (.seq (.lit '\\') (.char fun _ => true)) (.char fun c => c != '"' && c != '\\')

/-- What stands between two quotes. -/
def bodyPattern : Pattern :=
  .many bodyUnit

/-! ## Rules -/

/-- What is made of the text that a rule takes. -/
inductive Rule.Make where
  /-- Nothing. -/
  | nothing
  /-- A token with this text. -/
  | plain (kind : Kind)
  /-- A text without its quotes. -/
  | string
  /-- The fault of a quote without its partner. -/
  | unclosed
  /-- A variable without its sign. -/
  | var
  /-- The mark of an attribute block after an opening parenthesis, and an atom elsewhere. -/
  | mark

/-- A rule for tokens, which takes at least a character. -/
structure Rule where
  /-- What is looked for. -/
  pattern : Pattern
  /-- What is made of it. -/
  make : Rule.Make
  /-- The pattern takes a character. -/
  takes : pattern.takes = true

/-- The rules for tokens.  The order counts: a quote without its partner is no quoted text, and what
is neither a variable nor a lone mark is an atom. -/
def rules : List Rule :=
  [⟨.some (.char Text.isBlank), .nothing, rfl⟩,
    ⟨.lit '(', .plain .lparen, rfl⟩,
    ⟨.lit ')', .plain .rparen, rfl⟩,
    ⟨.seq (.lit '"') (.seq bodyPattern (.lit '"')), .string, rfl⟩,
    ⟨.lit '"', .unclosed, rfl⟩,
    ⟨.seq (.lit '$') (.seq pathPattern atDelimiter), .var, rfl⟩,
    ⟨.seq (.lit '@') atDelimiter, .mark, rfl⟩,
    ⟨.some (.char fun c => !Scanner.isDelimiter c), .plain .atom, rfl⟩]

/-- Why a text has no tokens by the rules. -/
inductive LexFault where
  /-- A quote has no partner. -/
  | unclosed (e : UnclosedQuote)
  /-- No rule counts. -/
  | unmatched (here : Location)
deriving DecidableEq, Repr

/-- The message for a text without tokens. -/
def LexFault.message : LexFault → String
  | .unclosed e => e.message
  | .unmatched here => "Failed to tokenize" ++ here.note

/-- The tokens, last first, with what is made of some text at a place. -/
def Rule.Make.push (raw : List Char) (here : Location) (tokens : List Token) :
    Rule.Make → Except LexFault (List Token)
  | .nothing => .ok tokens
  | .plain kind => .ok (⟨kind, String.ofList raw, here⟩ :: tokens)
  | .string => .ok (⟨.string, String.ofList (Text.decodeBody raw.tail.dropLast), here⟩ :: tokens)
  | .unclosed => .error (.unclosed ⟨here⟩)
  | .var => .ok (⟨.var, String.ofList raw.tail, here⟩ :: tokens)
  | .mark =>
      let kind := if Scanner.endsOpen tokens then .mark else .atom
      .ok (⟨kind, String.ofList raw, here⟩ :: tokens)

/-- The first rule that counts at the start of a text, with what it takes and what is left. -/
def firstRule? (s : List Char) : Option (Rule × List Char × List Char) :=
  rules.findSome? fun rule => (rule.pattern.match? s).map fun found => (rule, found)

/-- What has been made of a text by the rules, and what is left of it. -/
structure Lexer where
  /-- The tokens, last first. -/
  tokens : List Token
  /-- The place that has been reached. -/
  here : Location
  /-- What is left. -/
  rest : List Char

namespace Lexer

/-- One rule more. -/
def next (l : Lexer) : Except LexFault Lexer :=
  match firstRule? l.rest with
  | none => .error (.unmatched l.here)
  | some (rule, raw, rest) => do
      return ⟨← rule.make.push raw l.here l.tokens, l.here.past raw, rest⟩

/-- A rule always takes something. -/
theorem length_next {l l' : Lexer} (h : l.next = .ok l') : l'.rest.length < l.rest.length := by
  rw [next] at h
  split at h
  · cases h
  · rename_i rule raw rest hfirst
    obtain ⟨rule', -, hfound⟩ := List.exists_of_findSome?_eq_some hfirst
    obtain ⟨found, hmatch, heq⟩ := Option.map_eq_some_iff.1 hfound
    obtain ⟨rest', hhead, rfl⟩ := Option.map_eq_some_iff.1 hmatch
    have hlt := Pattern.length_lt_of_mem_rests rule'.takes (List.mem_of_head? hhead)
    cases hpush : rule.make.push raw l.here l.tokens with
    | error e =>
      rw [hpush] at h
      cases h
    | ok tokens =>
      rw [hpush] at h
      cases h
      cases heq
      exact hlt

/-- All tokens, the last of them the end of the text. -/
def finish (l : Lexer) : Except LexFault (List Token) :=
  if l.rest = [] then .ok (l.tokens.reverse ++ [⟨.eof, "", l.here⟩])
  else
    match _hnext : l.next with
    | .error e => .error e
    | .ok l' => l'.finish
termination_by l.rest.length
decreasing_by exact length_next _hnext

end Lexer

/-- The tokens of a text by the rules. -/
def ofRules (text : List Char) : Except LexFault (List Token) :=
  Lexer.finish ⟨[], .origin, text⟩

end Token

end MarkupForms

import MarkupForms.Yaml.Gap

/-!
# Quoted scalars

Between single quotes every character stands for itself, and a single quote is written twice.
Between double quotes a backslash protects or names a character, or hides the end of a line.  In
both, a scalar may go on over several lines, none of which may start with a marker.

* `cutSingle_encode` : what is written between single quotes is cut at the closing one.
* `unfold_map_plain` : a text on one line stands for itself.
* `single_encode` : a text on one line that is written between single quotes reads back.
-/

namespace MarkupForms.Yaml

/-! ## The closing quote -/

/-- The text up to the closing single quote, and what follows.  A single quote is written twice. -/
def cutSingle : List Char → Option (List Char × List Char)
  | [] => none
  | '\'' :: '\'' :: r => (cutSingle r).map fun p => ('\'' :: p.1, p.2)
  | c :: r => if c = '\'' then some ([], r) else (cutSingle r).map fun p => (c :: p.1, p.2)

/-- The text up to the closing double quote as it is written, and what follows. -/
def cutDouble : List Char → Option (List Char × List Char)
  | [] => none
  | '\\' :: c :: r => (cutDouble r).map fun p => ('\\' :: c :: p.1, p.2)
  | c :: r => if c = '"' then some ([], r) else (cutDouble r).map fun p => (c :: p.1, p.2)

/-! ## Escapes -/

/-- A piece of a quoted scalar. -/
inductive Piece where
  /-- A character as it is written. -/
  | plain (c : Char)
  /-- A character that a backslash protects or names. -/
  | fixed (c : Char)
  /-- The end of a line that a backslash hides. -/
  | hiddenBreak
deriving DecidableEq, Repr

/-- The value of a hexadecimal digit. -/
def hexDigit? (c : Char) : Option Nat :=
  if c.isDigit then some (c.toNat - 0x30)
  else if 'a' ≤ c ∧ c ≤ 'f' then some (c.toNat - 0x57)
  else if 'A' ≤ c ∧ c ≤ 'F' then some (c.toNat - 0x37)
  else none

/-- The value of hexadecimal digits. -/
def hexValue? (digits : List Char) : Option Nat := do
  let ds ← digits.mapM hexDigit?
  return ds.foldl (fun n d => 16 * n + d) 0

/-- The character with a number in hexadecimal digits. -/
def hexChar? (digits : List Char) : Option Char := do
  let n ← hexValue? digits
  if n.isValidChar then some (Char.ofNat n) else none

/-- The character beyond the first 65536 ones that two units of 16 bits make, a high and a low
surrogate, in hexadecimal digits. -/
def pairChar? (high low : List Char) : Option Char := do
  let h ← hexValue? high
  let l ← hexValue? low
  if 0xD800 ≤ h ∧ h < 0xDC00 ∧ 0xDC00 ≤ l ∧ l < 0xE000 then
    some (Char.ofNat (0x10000 + (h - 0xD800) * 0x400 + (l - 0xDC00)))
  else none

/-- The character that a backslash and another character stand for. -/
def escaped? (c : Char) : Option Char :=
  match c with
  | 'n' => some '\n'
  | 't' | '\t' => some '\t'
  | 'r' => some '\r'
  | '0' => some (Char.ofNat 0)
  | 'a' => some (Char.ofNat 7)
  | 'b' => some (Char.ofNat 8)
  | 'v' => some (Char.ofNat 11)
  | 'f' => some (Char.ofNat 12)
  | 'e' => some (Char.ofNat 27)
  | 'N' => some (Char.ofNat 0x85)
  | '_' => some (Char.ofNat 0xA0)
  | 'L' => some (Char.ofNat 0x2028)
  | 'P' => some (Char.ofNat 0x2029)
  | ' ' | '"' | '/' | '\\' => some c
  | _ => none

/-- Put a character that a backslash stands for in front of pieces, if there is one. -/
def consFixed (c : Option Char) (rest : Option (List Piece)) : Option (List Piece) := do
  return .fixed (← c) :: (← rest)

/-- The pieces of a text between double quotes, unless a backslash stands before a character that it
can neither protect nor name. -/
def pieces? : List Char → Option (List Piece)
  | [] => some []
  | '\\' :: 'x' :: a :: b :: r => consFixed (hexChar? [a, b]) (pieces? r)
  | '\\' :: 'u' :: a :: b :: c :: d :: r =>
      match hexChar? [a, b, c, d], r with
      | none, '\\' :: 'u' :: e :: f :: g :: h :: r =>
          consFixed (pairChar? [a, b, c, d] [e, f, g, h]) (pieces? r)
      | c, r => consFixed c (pieces? r)
  | '\\' :: 'U' :: a :: b :: c :: d :: e :: f :: g :: h :: r =>
      consFixed (hexChar? [a, b, c, d, e, f, g, h]) (pieces? r)
  | '\\' :: c :: r =>
      if isBreak c then (pieces? r).map (.hiddenBreak :: ·)
      else consFixed (escaped? c) (pieces? r)
  | c :: r => (pieces? r).map (.plain c :: ·)

/-! ## Lines -/

/-- What pieces stand for after a gap. -/
def unfold (g : Gap) : List Piece → List Char
  | [] => g.text
  | .plain c :: ps =>
      if isBreak c then unfold (g.addBreak c) ps
      else if isBlank c then unfold (g.addBlank c) ps
      else g.text ++ c :: unfold .empty ps
  | .fixed c :: ps => g.text ++ c :: unfold .empty ps
  | .hiddenBreak :: ps => g.text ++ unfold (.joined []) ps

/-- Whether some line after the first one starts with a marker; the closing quote is no end of a
marker. -/
def hasMarker : List Char → Bool
  | [] => false
  | c :: r => (isBreak c && atMarker r && 3 < r.length) || hasMarker r

/-! ## Scalars -/

/-- The text of a scalar after its single quote, and what follows. -/
def single (s : List Char) : Except Fault (List Char × List Char) :=
  match cutSingle s with
  | none => .error .unclosed
  | some (inside, rest) =>
      if hasMarker inside then .error .misplaced
      else .ok (unfold .empty (inside.map .plain), rest)

/-- The text of a scalar after its double quote, and what follows. -/
def double (s : List Char) : Except Fault (List Char × List Char) :=
  match cutDouble s with
  | none => .error .unclosed
  | some (inside, rest) =>
      if hasMarker inside then .error .misplaced
      else
        match pieces? inside with
        | none => .error .badEscape
        | some ps => .ok (unfold .empty ps, rest)

/-! ## Writing -/

/-- A text as it is written between single quotes: a single quote is written twice. -/
def protectSingle (s : List Char) : List Char :=
  s.flatMap fun c => if c = '\'' then ['\'', '\''] else [c]

/-- A text between single quotes is cut at the closing one, whatever follows that is no quote. -/
theorem cutSingle_encode (s r : List Char) (hr : r.head? ≠ some '\'') :
    cutSingle (protectSingle s ++ '\'' :: r) = some (s, r) := by
  rw [protectSingle]
  induction s with
  | nil =>
    cases r with
    | nil => simp [cutSingle]
    | cons c r =>
      have hc : c ≠ '\'' := fun e => hr (by simp [e])
      simp [cutSingle, hc]
  | cons c s ih =>
    by_cases hc : c = '\''
    · simp [hc, cutSingle, ih]
    · have step : ∀ t, cutSingle (c :: t) = (cutSingle t).map fun p => (c :: p.1, p.2) := by
        intro t
        cases t <;> simp [cutSingle, hc]
      simp [hc, step, ih]

theorem unfold_blanks_map_plain (b s : List Char) (h : ∀ c ∈ s, isBreak c = false) :
    unfold (.blanks b) (s.map .plain) = b ++ s := by
  induction s generalizing b with
  | nil => simp [unfold, Gap.text]
  | cons c s ih =>
    have hc := h c (List.mem_cons_self ..)
    have hs := fun d hd => h d (List.mem_cons_of_mem c hd)
    by_cases hb : isBlank c = true
    · simp [unfold, hc, hb, Gap.addBlank, ih _ hs]
    · simp [unfold, hc, hb, Gap.text, Gap.empty, ih _ hs]

/-- A text on one line stands for itself. -/
theorem unfold_map_plain (s : List Char) (h : ∀ c ∈ s, isBreak c = false) :
    unfold .empty (s.map .plain) = s :=
  unfold_blanks_map_plain [] s h

theorem hasMarker_eq_false (s : List Char) (h : ∀ c ∈ s, isBreak c = false) :
    hasMarker s = false := by
  induction s with
  | nil => rfl
  | cons c s ih =>
    simp [hasMarker, h c (List.mem_cons_self ..), ih fun d hd => h d (List.mem_cons_of_mem c hd)]

/-- A text on one line that is written between single quotes reads back. -/
theorem single_encode (s r : List Char) (hs : ∀ c ∈ s, isBreak c = false)
    (hr : r.head? ≠ some '\'') :
    single (protectSingle s ++ '\'' :: r) = .ok (s, r) := by
  simp [single, cutSingle_encode s r hr, hasMarker_eq_false s hs, unfold_map_plain s hs]

end MarkupForms.Yaml

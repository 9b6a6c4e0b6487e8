import MarkupForms.Decimal.Binary64
import MarkupForms.Timestamp

/-!
# Days and moments in documents

A day is written with dashes between year, month and day.  A moment has the time after it, with
colons, maybe a fraction of a second, and maybe its distance from universal time; the moment is the
one of universal time.
-/

namespace MarkupForms.Yaml

/-! ## Pieces -/

/-- The value of the digits at the start of a text, of which there are from one to a number, and
what follows. -/
def digitsUpTo? (most : Nat) (s : List Char) : Option (Nat × List Char) :=
  let digits := (s.take most).takeWhile Char.isDigit
  if digits.isEmpty then none
  else some (Binary64.digitsValue digits, s.drop digits.length)

/-- The value of as many digits at the start of a text, and what follows. -/
def digits? (count : Nat) (s : List Char) : Option (Nat × List Char) :=
  if ((s.take count).takeWhile Char.isDigit).length = count then digitsUpTo? count s else none

/-- What follows a character at the start of a text. -/
def after? (c : Char) : List Char → Option (List Char)
  | d :: r => if c = d then some r else none
  | [] => none

/-- What follows blanks. -/
def dropBlanks (s : List Char) : List Char :=
  s.dropWhile fun c => c == ' ' || c == '\t'

/-! ## Times -/

/-- What comes between the day and the time: a letter or blanks. -/
def afterDay? : List Char → Option (List Char)
  | 'T' :: r => some r
  | 't' :: r => some r
  | c :: r => if c == ' ' || c == '\t' then some (dropBlanks r) else none
  | [] => none

/-- The microseconds of a fraction, rounded to the nearest one, halves up. -/
def microseconds (fraction : List Char) : Nat :=
  let next := Binary64.digitsValue ((fraction.drop 6).take 1)
  let kept := fraction.take 6 ++ List.replicate (6 - fraction.length) '0'
  Binary64.digitsValue kept + if 4 < next then 1 else 0

/-- The fraction of a second in microseconds, and what follows. -/
def fraction (s : List Char) : Nat × List Char :=
  match s with
  | '.' :: r => (microseconds (r.takeWhile Char.isDigit), r.dropWhile Char.isDigit)
  | s => (0, s)

/-- How many seconds a distance from universal time has: hours and maybe minutes. -/
def distance? (s : List Char) : Option Int := do
  let (hours, s) ← digitsUpTo? 2 s
  match s with
  | [] => return hours * 3600
  | ':' :: s =>
      let (minutes, s) ← digits? 2 s
      if s.isEmpty then return hours * 3600 + minutes * 60 else none
  | _ => none

/-- How many seconds later universal time is, at the end of a text. -/
def zone? (s : List Char) : Option Int :=
  match dropBlanks s with
  | [] => if s.isEmpty then some 0 else none
  | ['Z'] => some 0
  | '+' :: r => (distance? r).map (- ·)
  | '-' :: r => distance? r
  | _ => none

/-! ## Timestamps -/

/-- What is written as a timestamp, or what is wrong with its parts; nothing for any other text. -/
def timestamp? (s : List Char) : Option (Except TimestampFault Timestamp) := do
  let (year, r) ← digits? 4 s
  let (month, r) ← digitsUpTo? 2 (← after? '-' r)
  let (day, r) ← digitsUpTo? 2 (← after? '-' r)
  if r.isEmpty then
    if s.length = 10 then return (Day.ofParts year month day).map fun d => ⟨d, none⟩ else none
  else
    let (hour, r) ← digitsUpTo? 2 (← afterDay? r)
    let (minute, r) ← digits? 2 (← after? ':' r)
    let (second, r) ← digits? 2 (← after? ':' r)
    let (micro, r) := fraction r
    let shift ← zone? r
    return do
      let d ← Day.ofParts year month day
      let t ← DayTime.ofParts hour minute second (micro % 1000000)
      Timestamp.moment d t (shift + (micro / 1000000 : Nat))

end MarkupForms.Yaml

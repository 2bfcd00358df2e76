import GraphQuery.Value

/-!
# Timestamps

Which values are a point in time.  A text is one if it is a date, a date
with a time of day, or a number; a number counts the seconds since the
beginning of 1970, or the milliseconds if it is large.  A reader takes what
it reads off the front of a text and answers with what is left.
-/

namespace GraphQuery

namespace Timestamp

/-- The number some digits stand for. -/
def ofDigits (digits : List Char) : Nat :=
  digits.foldl (fun n c => 10 * n + (c.toNat - '0'.toNat)) 0

/-- Read a number of exactly `n` digits. -/
def number? (n : Nat) (s : List Char) : Option (Nat × List Char) :=
  let digits := s.take n
  if digits.length = n ∧ digits.all Char.isDigit then some (ofDigits digits,
      s.drop n) else none

/-- Read one of the given characters. -/
def oneOf? (choices : List Char) : List Char → Option (List Char)
  | [] => none
  | c :: rest => if choices.contains c then some rest else none

/-- Whether a year is a leap year. -/
def isLeap (year : Nat) :
    Bool := year % 4 == 0 && (year % 100 != 0 || year % 400 == 0)

/-- The number of days in a month; none if there is no such month. -/
def daysIn (year month : Nat) : Nat :=
  if month = 2 then (if isLeap year then 29 else 28)
  else if [4, 6, 9, 11].contains month then 30
  else if 1 ≤ month ∧ month ≤ 12 then 31
  else 0

/-- Read a date: year, month and day, joined by hyphens. -/
def date? (s : List Char) : Option (List Char) := do
  let (year, s) ← number? 4 s
  let (month, s) ← number? 2 (← oneOf? ['-'] s)
  let (day, s) ← number? 2 (← oneOf? ['-'] s)
  if 1 ≤ year ∧ 1 ≤ day ∧ day ≤ daysIn year month then some s else none

/-- Read the fraction of a second, if there is one; a point or a comma is
followed by a digit. -/
def fraction? : List Char → Option (List Char)
  | '.' :: s | ',' :: s => (number? 1 s).map fun (_, s) =>
    s.dropWhile Char.isDigit
  | s => some s

/-- Read a time of day: hour and minute, then the second unless it is left
out. -/
def clock? (s : List Char) : Option (List Char) := do
  let (hour, s) ← number? 2 s
  let (minute, s) ← number? 2 (← oneOf? [':'] s)
  if 24 ≤ hour ∨ 60 ≤ minute then none
  else match s with
    | ':' :: s => do
      let (second, s) ← number? 2 s
      if 60 ≤ second then none else fraction? s
    | s => some s

/-- The signs of a difference to universal time. -/
def signs : List Char := ['+', '-', '−']

/-- Whether a text is a time zone: nothing, universal time, or a difference
to it of less than a day. -/
def isZone (s : List Char) : Bool :=
  match s with
  | [] | ['Z'] | ['z'] => true
  | s =>
    let difference? : Option (Nat × Nat × List Char) := do
      let (hours, s) ← number? 2 (← oneOf? signs s)
      let (minutes, s) ← number? 2 ((oneOf? [':'] s).getD s)
      return (hours, minutes, s)
    match difference? with
    | some (hours, minutes, []) => hours < 24 && minutes < 60
    | _ => false

/-- Whether a text is a date, alone or with a time of day. -/
def isMoment (s : List Char) : Bool :=
  match date? s with
  | none => false
  | some [] => true
  | some s =>
    (((oneOf? ['T', 't', ' ', '_'] s).bind clock?).map isZone).getD false

/-- A written number: its sign, the digits before and after the point, and a
power of ten. -/
structure Decimal where
  negative : Bool
  whole : List Char
  part : List Char
  power : Int
  deriving DecidableEq, Repr

/-- Read a power of ten, if there is one: the letter `e`, a sign that may be
left out, and digits. -/
def power? : List Char → Option Int
  | [] => some 0
  | letter :: s =>
    let digits := (oneOf? ['+', '-'] s).getD s
    let size : Int := ofDigits digits
    if ['e', 'E'].contains letter && !digits.isEmpty &&
        digits.all Char.isDigit then
      some (if s.head? == some '-' then -size else size)
    else none

/-- Read a number.  Its sign, its point and the digits on one side of the
point may be left out. -/
def decimal? (s : List Char) : Option Decimal := do
  let unsigned := (oneOf? ['+', '-'] s).getD s
  let whole := unsigned.takeWhile Char.isDigit
  let rest := unsigned.dropWhile Char.isDigit
  let rest := (oneOf? ['.'] rest).getD rest
  let part := rest.takeWhile Char.isDigit
  let power ← power? (rest.dropWhile Char.isDigit)
  if whole.isEmpty && part.isEmpty then none
  else some { negative := s.head? == some '-', whole, part, power }

/-- A number as it is kept: `steps` of the size `1 / 2 ^ places`. -/
structure Count where
  steps : Int
  places : Nat
  deriving DecidableEq, Repr

/-- The whole number nearest to `n / d`; the even one of two that are
equally near. -/
def nearest (n d : Nat) : Nat :=
  let below := n / d
  let twice := 2 * (n % d)
  if twice < d ∨ (twice = d ∧ below % 2 = 0) then below else below + 1

/-- The number nearest to `n / d` that has 53 binary digits.  A number below
one keeps as many places as one does, and a whole number keeps all its
digits: neither changes which numbers are points in time. -/
def Count.ofRatio (negative : Bool) (n d : Nat) : Count :=
  let places := 52 - Nat.log2 (n / d)
  let steps : Int := nearest (n * Nat.pow 2 places) d
  { steps := if negative then -steps else steps, places }

/-- Keep a written number.  Powers of ten beyond some thousands are cut off:
such a number is out of every calendar, or next to zero. -/
def Count.ofDecimal (d : Decimal) : Count :=
  let up := min d.power.toNat 10000
  let down := min (-d.power).toNat 10000
  .ofRatio d.negative (ofDigits (d.whole ++ d.part) * Nat.pow 10 up)
    (Nat.pow 10 (down + d.part.length))

/-- The number of steps in one. -/
def Count.one (c : Count) : Nat := Nat.pow 2 c.places

/-- The last number that counts seconds and not milliseconds. -/
def lastSeconds : Nat := 20000000000

/-- The whole seconds of a number that counts seconds, or milliseconds if it
is large. -/
def Count.seconds (c : Count) : Int :=
  if c.steps.natAbs ≤ lastSeconds * c.one then Int.fdiv c.steps c.one
  else Int.fdiv c.steps (1000 * c.one)

/-- Whether a number leads to a year from 1 to 9999. -/
def Count.isInCalendar (c : Count) : Bool :=
  decide (-62135596800 ≤ c.seconds ∧ c.seconds ≤ 253402300799)

/-- An integer, which is kept as it is. -/
def Count.ofInt (n : Int) : Count := { steps := n, places := 0 }

/-- Whether a text is a number that is a point in time. -/
def isCount (s : List Char) : Bool :=
  ((decimal? s).map fun d => (Count.ofDecimal d).isInCalendar).getD false

/-- Whether a text has no power of ten, or has one after a point. -/
def isPlain (s : List Char) :
    Bool := s.contains '.' || !s.any ['e', 'E'].contains

end Timestamp

/-- Whether a value is a point in time.  In a text, a power of ten comes
after a point. -/
def Value.isTimestamp : Value → Bool
  | .int n => (Timestamp.Count.ofInt n).isInCalendar
  | .float spelling => Timestamp.isCount spelling.toList
  | .text s =>
    Timestamp.isMoment s.toList ||
      (Timestamp.isPlain s.toList && Timestamp.isCount s.toList)
  | _ => false

end GraphQuery

import KafkaScript.Text.Decimal

/-!
# Dates and times in TOML

A date, a time, or a date and a time with or without an offset, all with digits
at fixed places. The day must exist in its month and year; the last second of a
minute may be the sixtieth. A time may go without its seconds.
-/

namespace KafkaScript.Toml

/-- The number in a field of `width` decimal digits, and what follows it. -/
def field? (width : Nat) (t : Text) : Option (Nat × Text) :=
  let digits := t.take width
  if digits.length < width then none
  else (digits.mapM Decimal.digitValue?).map fun ds => (ds.foldl (10 * · + ·) 0, t.drop width)

/-- The number in a field of two digits that is at most `limit`. -/
def fieldUpTo? (limit : Nat) (t : Text) : Option (Nat × Text) :=
  (field? 2 t).filter fun (n, _) => n ≤ limit

/-- What follows a character. -/
def after? (c : Char) : Text → Option Text
  | d :: t => if d = c then some t else none
  | [] => none

/-- Whether a year has a twenty-ninth of February. -/
def isLeap (year : Nat) : Bool :=
  year % 4 == 0 && (year % 100 != 0 || year % 400 == 0)

/-- Number of days of a month. -/
def daysIn (year month : Nat) : Nat :=
  if month = 2 then (if isLeap year then 29 else 28)
  else if [4, 6, 9, 11].contains month then 30
  else 31

/-- What follows a date. -/
def afterDate? (t : Text) : Option Text := do
  let (year, t) ← field? 4 t
  let t ← after? '-' t
  let (month, t) ← fieldUpTo? 12 t
  let t ← after? '-' t
  let (day, t) ← fieldUpTo? (daysIn year month) t
  if month = 0 ∨ day = 0 then none else some t

/-- What follows the fraction of a second, which may be missing. -/
def afterFraction? : Text → Option Text
  | '.' :: t =>
    let rest := t.dropWhile Char.isDigit
    if rest.length = t.length then none else some rest
  | t => some t

/-- What follows a time of day. -/
def afterTime? (t : Text) : Option Text := do
  let (_, t) ← fieldUpTo? 23 t
  let t ← after? ':' t
  let (_, t) ← fieldUpTo? 59 t
  match t with
  | ':' :: t =>
    let (_, t) ← fieldUpTo? 60 t
    afterFraction? t
  | t => some t

/-- What follows an offset from universal time. -/
def afterOffset? : Text → Option Text
  | 'Z' :: t => some t
  | 'z' :: t => some t
  | c :: t => do
    if c ≠ '+' ∧ c ≠ '-' then none
    let (_, t) ← fieldUpTo? 23 t
    let t ← after? ':' t
    let (_, t) ← fieldUpTo? 59 t
    return t
  | [] => none

/-- Whether a character may stand between a date and a time. -/
def isDateSeparator (c : Char) : Bool :=
  c == 'T' || c == 't' || c == ' '

/-- Whether a text is a date and nothing more. -/
def isDay (t : Text) : Bool :=
  afterDate? t == some []

/-- Whether a text is a date, a time or both. -/
def isDate (t : Text) : Bool :=
  match afterDate? t with
  | some [] => true
  | some (c :: rest) =>
    isDateSeparator c && match afterTime? rest with
      | some [] => true
      | some offset => afterOffset? offset == some []
      | none => false
  | none => afterTime? t == some []

end KafkaScript.Toml

import Checkup.Json.Token
import Checkup.Toml.Basic

/-!
# Numbers and dates of TOML

* `readInteger`: a decimal integer with a sign or not, or digits of base 16, 8 or 2 behind their mark. A low line may
  stand between two digits. The integers are those of 64 bits.
* `readReal`: a number with a fraction or an exponent, an infinity, or no number at all.
* `readDatetime`: a date, a time, or both.
-/

namespace Checkup.Toml

open Json.Numeral (digitValue ofDigits)

/-- Further digits behind a digit, and the rest. A low line counts if a digit follows it. -/
def readMoreDigits (isDigit : Char → Bool) : Text → Text × Text
  | '_' :: d :: t =>
    if isDigit d then
      let (ds, rest) := readMoreDigits isDigit t
      (d :: ds, rest)
    else ([], '_' :: d :: t)
  | c :: t =>
    if isDigit c then
      let (ds, rest) := readMoreDigits isDigit t
      (c :: ds, rest)
    else ([], c :: t)
  | [] => ([], [])

/-- Digits, at least one, and the rest. -/
def readDigits (isDigit : Char → Bool) : Text → Option (Text × Text)
  | c :: t =>
    if isDigit c then
      let (ds, rest) := readMoreDigits isDigit t
      some (c :: ds, rest)
    else none
  | [] => none

/-- A sign, if there is one: whether it is a minus, and the rest. -/
def readSign : Text → Bool × Text
  | '-' :: t => (true, t)
  | '+' :: t => (false, t)
  | t => (false, t)

/-- Digits of which a zero is only the first if it is the only one. -/
def readWhole : Text → Option (Text × Text)
  | '0' :: t => some (['0'], t)
  | t => readDigits Char.isDigit t

/-- The number of digits in a base. -/
def ofDigitsIn (base : Nat) (ds : Text) : Nat := ds.foldl (fun n c => base * n + ((Json.hexValue c).getD 0)) 0

/-- The integer, if 64 bits hold it. -/
def word? (negative : Bool) (n : Nat) : Option Toml :=
  if negative then if n ≤ pow2 63 then some (integer (-(n : Int))) else none
  else if n < pow2 63 then some (integer n) else none

/-- A digit of base 16. -/
def isHexDigit (c : Char) : Bool := (Json.hexValue c).isSome

/-- A digit of base 8. -/
def isOctalDigit (c : Char) : Bool := '0' ≤ c && c ≤ '7'

/-- A digit of base 2. -/
def isBinaryDigit (c : Char) : Bool := c == '0' || c == '1'

/-- An integer behind the mark of its base. -/
def readInBase (base : Nat) (isDigit : Char → Bool) (t : Text) : Option (Toml × Text) := do
  let (ds, rest) ← readDigits isDigit t
  return (← word? false (ofDigitsIn base ds), rest)

/-- An integer. -/
def readInteger : Text → Option (Toml × Text)
  | '0' :: 'x' :: t => readInBase 16 isHexDigit t
  | '0' :: 'o' :: t => readInBase 8 isOctalDigit t
  | '0' :: 'b' :: t => readInBase 2 isBinaryDigit t
  | t => do
    let (negative, t) := readSign t
    let (ds, rest) ← readWhole t
    return (← word? negative (ofDigits ds), rest)

/-- Whether `n · 10 ^ power` is too large for a double: it is at least halfway from the largest one to the next power
of two. -/
def isTooLarge (n : Nat) (power : Int) : Bool :=
  let size := (Nat.toDigits 10 n).length + power
  if n = 0 || size ≤ 308 then false
  else if 309 < size then true
  else (pow2 54 - 1) * pow2 970 * pow10 (-power).toNat ≤ n * pow10 power.toNat

/-- The digits behind the point, none if there is no point. -/
def readFraction : Text → Option (Text × Text)
  | '.' :: t => readDigits Char.isDigit t
  | t => some ([], t)

/-- The exponent, zero if there is none. -/
def readExponent (t : Text) : Option (Int × Text) :=
  match t with
  | c :: rest =>
    if c = 'e' || c = 'E' then do
      let (negative, rest) := readSign rest
      let (ds, rest) ← readDigits Char.isDigit rest
      return (if negative then -(ofDigits ds : Int) else ofDigits ds, rest)
    else some (0, t)
  | [] => some (0, t)

/-- A number with a fraction or an exponent. One that is too large is none unless it is negative. -/
def readDecimal (t : Text) : Option (Toml × Text) := do
  let (negative, t) := readSign t
  let (whole, behind) ← readWhole t
  let (fraction, rest) ← readFraction behind
  let (exponent, rest) ← readExponent rest
  if rest.length = behind.length then none
  else if !negative && isTooLarge (ofDigits (whole ++ fraction)) (exponent - fraction.length) then none
  else some (real, rest)

/-- An infinity, or no number at all. -/
def readSpecial (t : Text) : Option (Toml × Text) :=
  match (readSign t).2 with
  | 'i' :: 'n' :: 'f' :: rest => some (real, rest)
  | 'n' :: 'a' :: 'n' :: rest => some (real, rest)
  | _ => none

/-- A number that is no integer. -/
def readReal (t : Text) : Option (Toml × Text) := (readDecimal t).or (readSpecial t)

/-! ## Dates and times -/

/-- The number of two digits. -/
def twoDigits (a b : Char) : Option Nat := if a.isDigit && b.isDigit then some (ofDigits [a, b]) else none

/-- The number of two digits within bounds, and the rest. -/
def readPair (low high : Nat) : Text → Option (Nat × Text)
  | a :: b :: t =>
    match twoDigits a b with
    | some n => if low ≤ n && n ≤ high then some (n, t) else none
    | none => none
  | _ => none

/-- The rest behind a character. -/
def expect (c : Char) : Text → Option Text
  | d :: t => if d = c then some t else none
  | [] => none

/-- How many days the month has. -/
def daysIn (year month : Nat) : Nat :=
  if month = 2 then if year % 4 = 0 && (year % 100 != 0 || year % 400 = 0) then 29 else 28
  else if [4, 6, 9, 11].contains month then 30
  else 31

/-- The rest behind a date. -/
def afterDate? : Text → Option Text
  | a :: b :: c :: d :: t => do
    let year := 100 * (← twoDigits a b) + (← twoDigits c d)
    let (month, t) ← readPair 1 12 (← expect '-' t)
    let (_, rest) ← readPair 1 (daysIn year month) (← expect '-' t)
    return rest
  | _ => none

/-- The rest behind a fraction of a second, if there is one. -/
def afterFraction : Text → Text
  | '.' :: d :: t => if d.isDigit then t.dropWhile Char.isDigit else '.' :: d :: t
  | t => t

/-- The rest behind a time. -/
def afterTime? (t : Text) : Option Text := do
  let (_, t) ← readPair 0 23 t
  let (_, t) ← readPair 0 59 (← expect ':' t)
  let (_, rest) ← readPair 0 60 (← expect ':' t)
  return afterFraction rest

/-- The rest behind the distance from universal time, if there is one. -/
def afterOffset : Text → Option Text
  | c :: t =>
    if c = 'Z' || c = 'z' then some t
    else if c = '+' || c = '-' then do
      let (_, t) ← readPair 0 23 t
      let (_, rest) ← readPair 0 59 (← expect ':' t)
      return rest
    else some (c :: t)
  | [] => some []

/-- The rest behind a time that follows a date, if there is one. -/
def afterTimeOfDay (t : Text) : Option Text :=
  match t with
  | c :: more =>
    if c = 'T' || c = 't' || c = ' ' then
      match afterTime? more with
      | some rest => afterOffset rest
      | none => some t
    else some t
  | [] => some t

/-- A date, a time, or both. -/
def readDatetime (t : Text) : Option (Toml × Text) :=
  match afterDate? t with
  | some rest => (afterTimeOfDay rest).map (datetime, ·)
  | none => (afterTime? t).map (datetime, ·)

/-- A number or date. -/
def readNumber (t : Text) : Option (Toml × Text) := (readDatetime t).or ((readReal t).or (readInteger t))

end Checkup.Toml

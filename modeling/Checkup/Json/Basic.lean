import Checkup.Decimal.Text
import Checkup.Text.Basic

/-!
# JSON values and their text

* `Json`: a JSON value. Integers that a 64-bit word holds stay integers, other numbers are doubles, and an object
  keeps the order of its members.
* `Json.compact`: the text without blanks.
* `Json.pretty`: the text with one item per line, indented by two blanks per level.
-/

namespace Checkup

/-- A number: a natural number, a negative integer `-n`, or a double. -/
inductive Json.Number where
  | nat (n : Nat)
  | neg (n : Nat)
  | real (x : Float)

/-- A JSON value. -/
inductive Json where
  | null
  | bool (b : Bool)
  | number (n : Json.Number)
  | string (s : String)
  | array (items : List Json)
  | object (members : List (String × Json))

namespace Json

/-- A natural number as a value. -/
abbrev nat (n : Nat) : Json := .number (.nat n)

/-- A string, or null. -/
def optString : Option String → Json
  | none => null
  | some s => string s

/-- The strings as an array. -/
def strings (ss : List String) : Json := array (ss.map string)

/-- The number as a double. -/
def Number.toFloat : Number → Float
  | nat n => Float.ofNat n
  | neg n => -(Float.ofNat n)
  | real x => x

/-- The text of a number. -/
def Number.text : Number → String
  | nat n => toString n
  | neg n => s!"-{n}"
  | real x => Decimal.shortestText x

/-! ## Strings -/

/-- The hexadecimal digits of a control character. -/
def hexPair (n : Nat) : Text := [Nat.digitChar (n / 16), Nat.digitChar (n % 16)]

/-- A character inside a string literal. -/
def escapeChar (c : Char) : Text :=
  if c = '\"' then ['\\', '\"']
  else if c = '\\' then ['\\', '\\']
  else if c = '\n' then ['\\', 'n']
  else if c = '\r' then ['\\', 'r']
  else if c = '\t' then ['\\', 't']
  else if c = '\x08' then ['\\', 'b']
  else if c = '\x0c' then ['\\', 'f']
  else if c.toNat < 32 then ['\\', 'u', '0', '0'] ++ hexPair c.toNat
  else [c]

/-- The literal of a string. -/
def literal (s : String) : Text := '\"' :: s.toList.flatMap escapeChar ++ ['\"']

/-! ## Text of a value -/

mutual

/-- The pieces of the text of a value, in order, before those of `rest`. -/
def compactOnto (rest : List Text) : Json → List Text
  | null => "null".toList :: rest
  | bool true => "true".toList :: rest
  | bool false => "false".toList :: rest
  | number n => n.text.toList :: rest
  | string s => literal s :: rest
  | array items => ['['] :: itemsOnto (([']'] : Text) :: rest) false items
  | object members => ['\x7b'] :: membersOnto (['\x7d'] :: rest) false members

/-- The items of an array, each but the very first after a comma. -/
def itemsOnto (rest : List Text) (comma : Bool) : List Json → List Text
  | [] => rest
  | v :: vs =>
    let tail := compactOnto (itemsOnto rest true vs) v
    if comma then [','] :: tail else tail

/-- The members of an object, each but the very first after a comma. -/
def membersOnto (rest : List Text) (comma : Bool) : List (String × Json) → List Text
  | [] => rest
  | (k, v) :: more =>
    let tail := literal k :: [':'] :: compactOnto (membersOnto rest true more) v
    if comma then [','] :: tail else tail

end

/-- The text of a value without blanks. -/
def compact (v : Json) : Text := (compactOnto [] v).flatten

/-- A line break and the blanks that start a line at this depth. -/
def newline (depth : Nat) : Text := '\n' :: List.replicate (2 * depth) ' '

mutual

/-- The pieces of the indented text of a value at a depth, before those of `rest`. -/
def prettyOnto (rest : List Text) (depth : Nat) : Json → List Text
  | null => "null".toList :: rest
  | bool true => "true".toList :: rest
  | bool false => "false".toList :: rest
  | number n => n.text.toList :: rest
  | string s => literal s :: rest
  | array [] => "[]".toList :: rest
  | object [] => "\x7b\x7d".toList :: rest
  | array (v :: vs) =>
    ['['] :: newline (depth + 1) ::
      prettyOnto (prettyItemsOnto (newline depth :: [']'] :: rest) (depth + 1) vs) (depth + 1) v
  | object ((k, v) :: more) =>
    ['\x7b'] :: newline (depth + 1) :: literal k :: [':', ' '] ::
      prettyOnto (prettyMembersOnto (newline depth :: ['\x7d'] :: rest) (depth + 1) more) (depth + 1) v

/-- The further items of an array. -/
def prettyItemsOnto (rest : List Text) (depth : Nat) : List Json → List Text
  | [] => rest
  | v :: vs => [','] :: newline depth :: prettyOnto (prettyItemsOnto rest depth vs) depth v

/-- The further members of an object. -/
def prettyMembersOnto (rest : List Text) (depth : Nat) : List (String × Json) → List Text
  | [] => rest
  | (k, v) :: more =>
    [','] :: newline depth :: literal k :: [':', ' '] ::
      prettyOnto (prettyMembersOnto rest depth more) depth v

end

/-- The indented text of a value. -/
def pretty (v : Json) : Text := (prettyOnto [] 0 v).flatten

/-! ## Members -/

/-- The value of an object's member. -/
def get? (key : String) : Json → Option Json
  | object members => members.lookup key
  | _ => none

/-- The string, if the value is one. -/
def string? : Json → Option String
  | string s => some s
  | _ => none

/-- The items, if the value is an array. -/
def array? : Json → Option (List Json)
  | array items => some items
  | _ => none

/-- The members, if the value is an object. -/
def object? : Json → Option (List (String × Json))
  | object members => some members
  | _ => none

/-- The natural number, if the value is one. -/
def nat? : Json → Option Nat
  | number (.nat n) => some n
  | _ => none

/-- The number as a double, if the value is one. -/
def float? : Json → Option Float
  | number n => some n.toFloat
  | _ => none

end Json

end Checkup

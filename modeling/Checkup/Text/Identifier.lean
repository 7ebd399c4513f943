import Checkup.Text.Basic

/-!
# Identifiers

An identifier holds ASCII letters, digits, low lines and dollar signs, and starts with no digit.

* `Text.mentions`: whether a text names an identifier, that is, holds it with no identifier character at either side.
-/

/-- A character of an identifier. -/
def Char.isIdent (c : Char) : Bool := c.isAlphanum || c == '_' || c == '$'

/-- A character that an identifier may start with. -/
def Char.isIdentStart (c : Char) : Bool := c.isAlpha || c == '_' || c == '$'

namespace Checkup.Text

/-- Whether the text is an identifier. -/
def isIdentifier : Text → Bool
  | [] => false
  | c :: t => c.isIdentStart && t.all Char.isIdent

/-- Whether `word` occurs with neither a character of the class before nor one behind it. An occurrence is searched
for behind the one before it: at the next characters, `skip` of them are still part of that one. -/
def mentionsFrom (inWord : Char → Bool) (word : Text) (prev : Option Char) (skip : Nat) : Text → Bool
  | [] => word.isEmpty && !prev.any inWord
  | c :: t =>
    if skip = 0 then
      match after? word (c :: t) with
      | some rest =>
        (!prev.any inWord && !rest.head?.any inWord) || mentionsFrom inWord word (some c) (word.length - 1) t
      | none => mentionsFrom inWord word (some c) 0 t
    else mentionsFrom inWord word (some c) (skip - 1) t

/-- Whether the text mentions `word` as a whole word of characters of the class. The empty word is mentioned where no
character of the class stands before or behind. -/
def mentionsWord (inWord : Char → Bool) (t word : Text) : Bool := mentionsFrom inWord word none 0 t

/-- Whether the text mentions the identifier. Nothing mentions the empty one. -/
def mentions (t name : Text) : Bool := !name.isEmpty && mentionsWord Char.isIdent t name

end Checkup.Text

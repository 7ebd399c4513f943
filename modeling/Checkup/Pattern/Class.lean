import Checkup.Pattern.Basic
import Checkup.Text.Identifier

/-!
# Pieces of patterns

Character classes and short patterns that many rules share.
-/

/-- A word character or a dollar sign. -/
def Char.isName (c : Char) : Bool := c.isWord || c == '$'

/-- A word character, a dollar sign or a dot. -/
def Char.isDotted (c : Char) : Bool := c.isWord || c == '$' || c == '.'

namespace Checkup

namespace Pattern

/-- Any character but the given ones. -/
def butNot (cs : List Char) (c : Char) : Bool := !cs.contains c

/-- Either quotation mark. -/
def quote : Pattern := one fun c => c == '\"' || c == '\''

/-- A name: an ASCII letter, low line or dollar sign, then word characters and dollar signs. -/
def name : Pattern := one Char.isIdentStart ++ many Char.isName

/-- A name that starts with an ASCII capital. -/
def capitalName : Pattern := one Char.isUpper ++ many Char.isName

/-- Names joined by dots. -/
def dottedName : Pattern := one Char.isIdentStart ++ many Char.isDotted

/-- Spaces and tabs. -/
def spaces : Pattern := many fun c => c == ' ' || c == '\t'

/-- One of several patterns, the first that fits. -/
def anyOf : List Pattern → Pattern
  | [] => one fun _ => false
  | [p] => p
  | p :: ps => alt p (anyOf ps)

/-- A text between two characters, with no closing one inside. -/
def enclosed (opener closer : Char) : Pattern :=
  one (· == opener) ++ many (· != closer) ++ one (· == closer)

/-- The patterns one after the other. -/
def seqAll : List Pattern → Pattern
  | [] => nothing
  | [p] => p
  | p :: ps => seq p (seqAll ps)

end Pattern

end Checkup

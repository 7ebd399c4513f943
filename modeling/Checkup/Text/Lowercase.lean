import Checkup.Text.Basic

/-!
# Lower case

`Text.toLower` puts the characters in lower case whose lower case is an ASCII letter. That is all that a comparison
with an ASCII word needs, and a search for one that does not end in an i: it occurs in the result exactly where it
occurs in the full lower case of the text. (A capital I with a dot becomes an i and a mark, two characters.)
-/

namespace Checkup.Text

/-- The character in lower case, if that is an ASCII letter. The Kelvin sign is the only character beyond ASCII with
such a lower case. -/
def lowerChar (c : Char) : Char := if c = '\u212a' then 'k' else c.toLower

/-- The text with all letters in lower case whose lower case is an ASCII letter. -/
def toLower (t : Text) : Text := t.map lowerChar

end Checkup.Text

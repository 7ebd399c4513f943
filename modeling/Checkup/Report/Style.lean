import Checkup.Text.Basic

/-!
# Styles of a terminal

A `Style` is a color, and whether the text is bold and dim. `Style.paint` puts the codes of a terminal around a text:
the color first, then bold, then dim, and behind the text the code that takes all back.
-/

namespace Checkup

/-- A color of a terminal. -/
inductive Color where
  | red
  | green
  | yellow
  | blue
  | cyan
  deriving DecidableEq, Repr

/-- The number in the code of a color. -/
def Color.code : Color → Nat
  | red => 31
  | green => 32
  | yellow => 33
  | blue => 34
  | cyan => 36

/-- How a text looks. -/
structure Style where
  color : Option Color
  isBold : Bool
  isDim : Bool

namespace Style

/-- A color and nothing else. -/
def colored (c : Color) : Style := ⟨some c, false, false⟩

/-- Bold and nothing else. -/
def bold : Style := ⟨none, true, false⟩

/-- Dim and nothing else. -/
def dim : Style := ⟨none, false, true⟩

/-- The style, and bold. -/
def strong (s : Style) : Style := { s with isBold := true }

/-- The numbers in the codes of the style. -/
def codes (s : Style) : List Nat :=
  (s.color.map Color.code).toList ++ (if s.isBold then [1] else []) ++ (if s.isDim then [2] else [])

/-- The code of a number. -/
def code (n : Nat) : String := s!"\x1b[{n}m"

/-- The text in the style, on a terminal that knows colors. -/
def paint (useColor : Bool) (s : Style) (t : String) : String :=
  if useColor then String.join (s.codes.map code) ++ t ++ code 0 else t

end Style

end Checkup

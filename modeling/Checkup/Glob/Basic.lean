import Checkup.Pattern.Class

/-!
# Globs

A `Glob` describes paths. Besides literal characters it has `?`, `*`, classes such as `[a-z]`, choices such as
`{a,b}`, and `**` for any number of directories. Paths are matched byte by byte: `?` and a class stand for a byte.

* `Glob.toPattern`: the pattern that a glob stands for.
* `Glob.isMatch`: whether a path as a whole is as the glob says.
-/

namespace Checkup

namespace Glob

/-- A part of a glob. -/
inductive Piece where
  | literal (c : Char)
  /-- `?` -/
  | any
  /-- `*` -/
  | star
  /-- `**` and a slash at the start: directories, or none -/
  | leadingDirs
  /-- a slash and `**` at the end: everything below -/
  | everythingBelow
  /-- `**` between slashes: directories, or none -/
  | innerDirs
  /-- a class: ranges of characters, or the characters outside of them -/
  | oneOf (negated : Bool) (ranges : List (Char × Char))
  /-- a choice -/
  | choice (branches : List (List Piece))

end Glob

/-- A glob: its parts in order, and whether a slash has to be matched by a slash. -/
structure Glob where
  slashIsLiteral : Bool
  pieces : List Glob.Piece

/-- The bytes of a character in UTF-8, each as the character with its number. -/
def Char.byteChars (c : Char) : Text := (String.utf8EncodeChar c).map fun b => Char.ofNat b.toNat

/-- The bytes of a text in UTF-8, each as the character with its number. -/
def Text.byteChars (t : Text) : Text := t.flatMap Char.byteChars

namespace Glob

open Pattern

/-- Any byte that a wildcard may stand for. -/
def wild (slashIsLiteral : Bool) (b : Char) : Bool := !(slashIsLiteral && b == '/')

/-- Any byte. -/
def anyByte (_ : Char) : Bool := true

/-- The ranges of bytes of a range of characters. Of a character with several bytes each counts on its own; the last
byte of the first character and the first byte of the last one bound a range. -/
def byteRanges (first last : Char) : List (Char × Char) :=
  let single (t : Text) := t.map fun b => (b, b)
  if first = last then single (Char.byteChars first)
  else
    match (Char.byteChars first).reverse, Char.byteChars last with
    | a :: before, b :: behind => single before.reverse ++ [(a, b)] ++ single behind
    | _, _ => []

/-- Whether a byte belongs to a class. -/
def inClass (negated : Bool) (ranges : List (Char × Char)) (b : Char) : Bool :=
  negated != ((ranges.flatMap fun r => byteRanges r.1 r.2).any fun r => r.1 ≤ b && b ≤ r.2)

mutual

/-- Whether a part leaves nothing in a pattern: a choice all of whose branches do. -/
def Piece.isVoid : Piece → Bool
  | .choice branches => branchesAreVoid branches
  | _ => false

/-- Whether no branch of a choice leaves anything in a pattern. -/
def branchesAreVoid : List (List Piece) → Bool
  | [] => true
  | b :: bs => areVoid b && branchesAreVoid bs

/-- Whether parts one after the other leave nothing in a pattern. -/
def areVoid : List Piece → Bool
  | [] => true
  | p :: ps => p.isVoid && areVoid ps

end

mutual

/-- The pattern of a part of a glob. -/
def Piece.toPattern (slashIsLiteral : Bool) : Piece → Pattern
  | .literal c => Pattern.literal (Char.byteChars c)
  | .any => one (wild slashIsLiteral)
  | .star => many (wild slashIsLiteral)
  | .leadingDirs => alt (opt (lit "/")) (many anyByte ++ lit "/")
  | .everythingBelow => lit "/" ++ many anyByte
  | .innerDirs => alt (lit "/") (seqAll [lit "/", many anyByte, lit "/"])
  | .oneOf negated ranges => one (inClass negated ranges)
  | .choice branches =>
    match branchPatterns slashIsLiteral branches with
    | [] => nothing
    | ps => anyOf ps

/-- The patterns of the branches of a choice. Those that leave nothing in a pattern are dropped. -/
def branchPatterns (slashIsLiteral : Bool) : List (List Piece) → List Pattern
  | [] => []
  | b :: bs =>
    if areVoid b then branchPatterns slashIsLiteral bs
    else seqPattern slashIsLiteral b :: branchPatterns slashIsLiteral bs

/-- The pattern of parts one after the other. -/
def seqPattern (slashIsLiteral : Bool) : List Piece → Pattern
  | [] => nothing
  | p :: ps => seq (p.toPattern slashIsLiteral) (seqPattern slashIsLiteral ps)

end

/-- Whether the glob is just `**`. -/
def isEverything (g : Glob) : Bool :=
  match g.pieces with
  | [.leadingDirs] => true
  | _ => false

/-- The pattern of a glob. Just `**` stands for everything. -/
def toPattern (g : Glob) : Pattern :=
  (if g.isEverything then many anyByte else seqPattern g.slashIsLiteral g.pieces) ++ textEnd

/-- Whether the path is as the glob says. -/
def isMatch (g : Glob) (path : String) : Bool :=
  (g.toPattern.matchAt (Cursor.ofText (Text.byteChars path.toList))).isSome

end Glob

end Checkup

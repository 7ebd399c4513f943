import Checkup.Glob.Basic

/-!
# Reading globs

`Glob.parse` reads the text of a glob. A backslash takes the meaning from the next character; a comma means something
between braces only; and two stars stand for directories only where slashes or the ends are next to them, else for
two single stars.
-/

namespace Checkup.Glob

/-- Why a text is no glob. -/
inductive Fault where
  | unclosedClass
  | invalidRange (first last : Char)
  | unopenedChoice
  | unclosedChoice
  | danglingEscape
  deriving DecidableEq, Repr

/-- The message about a fault. -/
def Fault.message : Fault → String
  | unclosedClass => "unclosed character class; missing ']'"
  | invalidRange first last => s!"invalid range; '{first}' > '{last}'"
  | unopenedChoice => "unopened alternate group; missing '\x7b' (maybe escape '\x7d' with '[\x7d]'?)"
  | unclosedChoice => "unclosed alternate group; missing '\x7d' (maybe escape '\x7b' with '[\x7b]'?)"
  | danglingEscape =>
    let backslash := '\\'
    s!"dangling '{backslash}'"

/-- How globs are read. -/
structure Options where
  /-- whether a slash has to be matched by a slash -/
  slashIsLiteral : Bool
  /-- whether an opening bracket without a closing one is a literal -/
  allowUnclosedClass : Bool

/-! ## Classes -/

/-- A class so far: its ranges, the last first, and whether a hyphen follows the last of them. -/
structure ClassDraft where
  ranges : List (Char × Char)
  hyphen : Bool

namespace ClassDraft

/-- One more character, which ends a range if a hyphen came before it. -/
def push (d : ClassDraft) (c : Char) : Except Fault ClassDraft :=
  match d.hyphen, d.ranges with
  | true, (first, _) :: before =>
    if c < first then .error (.invalidRange first c) else .ok ⟨(first, c) :: before, false⟩
  | _, ranges => .ok ⟨(c, c) :: ranges, false⟩

/-- The ranges of the class. A hyphen at the end is a character of its own. -/
def finish (d : ClassDraft) : List (Char × Char) :=
  (if d.hyphen then ('-', '-') :: d.ranges else d.ranges).reverse

end ClassDraft

/-- The ranges up to the closing bracket, and the rest: nothing if there is no closing bracket. A closing bracket or a
hyphen that comes first is a character. -/
def readRanges (d : ClassDraft) : Text → Except Fault (Option (List (Char × Char) × Text))
  | [] => .ok none
  | c :: t =>
    if c = ']' && !d.ranges.isEmpty then .ok (some (d.finish, t))
    else if c = '-' && !d.ranges.isEmpty && !d.hyphen then readRanges { d with hyphen := true } t
    else
      match d.push c with
      | .error e => .error e
      | .ok d => readRanges d t

theorem readRanges_length {d : ClassDraft} {t r : Text} {rs : List (Char × Char)}
    (h : readRanges d t = .ok (some (rs, r))) : r.length < t.length := by
  induction t generalizing d with
  | nil => simp [readRanges] at h
  | cons c t ih =>
    unfold readRanges at h
    simp only [List.length_cons]
    split at h
    · simp only [Except.ok.injEq, Option.some.injEq, Prod.mk.injEq] at h
      rw [h.2]
      omega
    · split at h
      · have := ih h
        omega
      · split at h
        · cases h
        · have := ih h
          omega

/-- A class behind its opening bracket, and the rest: nothing if there is no closing bracket. -/
def readClass (t : Text) : Except Fault (Option (Piece × Text)) :=
  let negated := t.head? == some '!' || t.head? == some '^'
  (readRanges ⟨[], false⟩ (if negated then t.drop 1 else t)).map fun r =>
    r.map fun (ranges, rest) => (.oneOf negated ranges, rest)

theorem readClass_length {t r : Text} {p : Piece} (h : readClass t = .ok (some (p, r))) : r.length < t.length := by
  unfold readClass at h
  simp only [Except.map] at h
  split at h
  · cases h
  · rename_i o heq
    simp only [Except.ok.injEq, Option.map_eq_some_iff, Prod.mk.injEq] at h
    obtain ⟨⟨rs, r'⟩, rfl, _, rfl⟩ := h
    have := readRanges_length heq
    show r'.length < t.length
    split at this
    · simp only [List.length_drop] at this
      omega
    · exact this

/-! ## Drafts -/

/-- A choice that is still open: the parts before it, the last first, and its branches so far, the last first. -/
structure OpenChoice where
  before : List Piece
  branches : List (List Piece)

/-- A glob so far: the open choices, the innermost first, the parts of the branch at hand, the last first, the
character before the next one, and whether opening brackets are literals from here on. -/
structure Draft where
  choices : List OpenChoice
  pieces : List Piece
  prev : Option Char
  bracketIsLiteral : Bool

namespace Draft

/-- Before the first character. -/
def start : Draft := ⟨[], [], none, false⟩

/-- One more part, which ends with the given character. -/
def push (d : Draft) (p : Piece) (c : Char) : Draft := { d with pieces := p :: d.pieces, prev := some c }

/-- Two stars in place of the last part and the slash behind them or the end. A run of directories takes in another
one. -/
def pushDirs (d : Draft) (p : Piece) (c : Char) : Draft :=
  match d.pieces with
  | .leadingDirs :: _ => { d with prev := some c }
  | .everythingBelow :: _ => { d with prev := some c }
  | _ :: before => { d with pieces := p :: before, prev := some c }
  | [] => d

/-- Two stars that do not stand for directories. -/
def twoStars (d : Draft) : Draft := (d.push .star '*').push .star '*'

/-- Two stars, which may take in a slash behind them; and the rest. -/
def readTwoStars (d : Draft) (t : Text) : Draft × Text :=
  if d.pieces.isEmpty then
    match t with
    | [] => (d.push .leadingDirs '*', [])
    | '/' :: rest => (d.push .leadingDirs '/', rest)
    | t => (d.twoStars, t)
  else
    let inChoice := !d.choices.isEmpty
    if d.prev == some '/' || (inChoice && (d.prev == some ',' || d.prev == some '\x7b')) then
      match t with
      | [] => (d.pushDirs .everythingBelow '*', [])
      | '/' :: rest => (d.pushDirs .innerDirs '/', rest)
      | c :: rest =>
        if inChoice && (c == ',' || c == '\x7d') then (d.pushDirs .everythingBelow '*', c :: rest)
        else (d.twoStars, c :: rest)
    else (d.twoStars, t)

theorem readTwoStars_length (d : Draft) (t : Text) : (d.readTwoStars t).2.length ≤ t.length := by
  unfold readTwoStars
  split
  · split <;> simp
  · dsimp only
    split
    · split
      · simp
      · simp
      · split <;> simp
    · simp

/-- A star or two, and the rest. -/
def readStars (d : Draft) : Text → Draft × Text
  | '*' :: t => d.readTwoStars t
  | t => (d.push .star '*', t)

theorem readStars_length (d : Draft) (t : Text) : (d.readStars t).2.length ≤ t.length := by
  unfold readStars
  split
  · rename_i t
    have := readTwoStars_length d t
    simp only [List.length_cons]
    omega
  · simp

/-- An opening brace. -/
def openChoice (d : Draft) : Draft := ⟨⟨d.pieces, []⟩ :: d.choices, [], some '\x7b', d.bracketIsLiteral⟩

/-- A closing brace. -/
def closeChoice (d : Draft) : Except Fault Draft :=
  match d.choices with
  | [] => .error .unopenedChoice
  | o :: os =>
    .ok ⟨os, .choice (d.pieces.reverse :: o.branches).reverse :: o.before, some '\x7d', d.bracketIsLiteral⟩

/-- A comma, which between braces starts a new branch. -/
def comma (d : Draft) : Draft :=
  match d.choices with
  | [] => d.push (.literal ',') ','
  | o :: os => ⟨⟨o.before, d.pieces.reverse :: o.branches⟩ :: os, [], some ',', d.bracketIsLiteral⟩

/-- An opening bracket that starts no class. -/
def literalBracket (d : Draft) : Draft := { d.push (.literal '[') '[' with bracketIsLiteral := true }

/-- The glob with all characters of a text. -/
def read (o : Options) (d : Draft) (t : Text) : Except Fault Draft :=
  match t with
  | [] => .ok d
  | c :: t =>
    if c = '?' then read o (d.push .any c) t
    else if c = '*' then read o (d.readStars t).1 (d.readStars t).2
    else if c = '[' && !d.bracketIsLiteral then
      match _h : readClass t with
      | .error e => .error e
      | .ok (some (p, rest)) => read o (d.push p ']') rest
      | .ok none => if o.allowUnclosedClass then read o d.literalBracket t else .error .unclosedClass
    else if c = '\x7b' then read o d.openChoice t
    else if c = '\x7d' then
      match d.closeChoice with
      | .error e => .error e
      | .ok d => read o d t
    else if c = ',' then read o d.comma t
    else if c = '\\' then
      match t with
      | [] => .error .danglingEscape
      | e :: t => read o (d.push (.literal e) e) t
    else read o (d.push (.literal c) c) t
termination_by t.length
decreasing_by
  all_goals simp only [List.length_cons]
  · omega
  · have := readStars_length d t
    omega
  · have := readClass_length _h
    omega
  all_goals omega

end Draft

/-- The glob of a text. -/
def parse (o : Options) (t : Text) : Except Fault Glob :=
  match Draft.start.read o t with
  | .error e => .error e
  | .ok d => if d.choices.isEmpty then .ok ⟨o.slashIsLiteral, d.pieces.reverse⟩ else .error .unclosedChoice

end Checkup.Glob

import Checkup.Finding
import Checkup.Source.Line
import Checkup.Text.Position

/-!
# Suppressed findings

A comment silences findings: the marker on the line of a finding, or on a comment line above it, silences all of
that line, or with a list in brackets behind the marker the findings of those rules. The marker for files in the
first lines silences a whole file.

* `isFileSuppressed`, `isSuppressed`: what is silenced.
* `keepUnsuppressed`: the findings of a file that are not.
-/

namespace Checkup

/-- The marker that silences a line. -/
def ignoreMarker : Text := "react-health-ignore".toList

/-- What makes a marker one for the whole file. -/
def fileMarkerTail : Text := "-file".toList

/-- How many lines at the top of a file may hold the marker for the file. -/
def fileMarkerWindow : Nat := 5

/-- Whether the marker for files stands at the top of the file. -/
def isFileSuppressed (content : Text) : Bool :=
  ((Text.lines content).take fileMarkerWindow).any (Text.occurs (ignoreMarker ++ fileMarkerTail))

/-- What a marker does according to the text behind it: a marker for files silences no rule, a list the rules it
names, and any other text all rules. -/
def markerSilences (behind : Text) (rule : Text) : Bool :=
  if Text.startsWith fileMarkerTail behind then false
  else
    match behind with
    | '[' :: list => (Text.split (· == ',') (Text.firstPiece (· == ']') list)).any fun id => Text.trim id == rule
    | _ => true

/-- Whether a marker in the line silences the rule. The next marker is searched for behind the one before. -/
def lineSilences (rule : Text) (skip : Nat) : Text → Bool
  | [] => false
  | c :: t =>
    if skip = 0 then
      match Text.after? ignoreMarker (c :: t) with
      | some behind => markerSilences behind rule || lineSilences rule (ignoreMarker.length - 1) t
      | none => lineSilences rule 0 t
    else lineSilences rule (skip - 1) t

/-- Whether a marker on the line of the finding, or on a comment line right above, silences it. -/
def isSuppressed (ls : List Text) (f : Finding) : Bool :=
  let rule := f.ruleId.toList
  match f.location.line with
  | 0 => false
  | n + 1 =>
    match ls[n]? with
    | none => false
    | some line =>
      lineSilences rule 0 line ||
        match n with
        | 0 => false
        | m + 1 => (ls[m]?).any fun above => isCommentLine above && lineSilences rule 0 above

/-- The findings of a file that no marker silences. -/
def keepUnsuppressed (content : Text) (findings : List Finding) : List Finding :=
  if findings.isEmpty || !Text.occurs ignoreMarker content then findings
  else
    let ls := Text.lines content
    findings.filter fun f => !isSuppressed ls f

end Checkup

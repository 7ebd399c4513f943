import Checkup.Json.Tree
import Checkup.Tool.Basic

/-!
# Installed copies of React

The package manager prints the tree of installed packages, where each package holds the packages below it. More than
one version of `react` in the tree means trouble.

* `reactVersions`: the versions in a tree.
* `Toolbox.installedVersions`: runs the package manager and reads its tree.
-/

namespace Checkup

/-- The listing of installed packages, as a tool. -/
def listingName : String := "npm ls"

/-- The version of a node. -/
def nodeVersion (v : Json) : List String := (((v.get? "version").bind Json.string?)).toList

mutual

/-- The versions of `react` below a node. -/
def reactVersions : Json → List String
  | .object members => versionsInMembers members
  | _ => []

/-- The versions of `react` below the packages among the members of a node. -/
def versionsInMembers : List (String × Json) → List String
  | [] => []
  | (key, .object packages) :: more =>
    if key = "dependencies" then versionsInPackages packages else versionsInMembers more
  | (key, _) :: more => if key = "dependencies" then [] else versionsInMembers more

/-- The versions of `react` among packages and below them. -/
def versionsInPackages : List (String × Json) → List String
  | [] => []
  | (name, node) :: more =>
    (if name = "react" then nodeVersion node else []) ++ reactVersions node ++ versionsInPackages more

end

/-- The list with one more text, in order and without repetition. -/
def insertSorted (s : String) : List String → List String
  | [] => [s]
  | s' :: rest => if s < s' then s :: s' :: rest else if s = s' then s :: rest else s' :: insertSorted s rest

/-- The texts in order, without repetition. -/
def sortedDistinct (ss : List String) : List String := ss.foldl (fun done s => insertSorted s done) []

/-- The versions of `react` in a listing of the installed packages. -/
def installedReactVersions (output : String) : Except ToolFault (List String) :=
  match jsonObject? output.toList with
  | none => .error (.emptyOutput listingName)
  | some object =>
    match Json.parse object with
    | some v => .ok (sortedDistinct (reactVersions v))
    | none => .error (.malformed listingName)

/-- The command that lists the installed packages. -/
def listCommand : Command := ["npm", "ls", "react", "--all", "--json"]

/-- Runs the package manager and reads the versions of `react` that are installed. -/
def Toolbox.installedVersions (box : Toolbox) : Except ToolFault (List String) :=
  (box.run listingName listCommand).bind installedReactVersions

end Checkup

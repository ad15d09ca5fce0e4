import ViewTree.Text.Basic

/-!
# Paths

A path is a text whose parts are divided by `/`. A blank part and a part `.` lead
nowhere, so neither is the name of what a path leads to: `out/.` names `out`, and
lies in the directory that `out` lies in.
-/

namespace ViewTree.FilePath

/-- A path inside a directory. A path that starts at the root stands for itself. -/
def join (dir path : String) : String :=
  if path.toList.head? = some '/' then path
  else if dir.isEmpty then path
  else if dir.toList.getLast? = some '/' then dir ++ path
  else dir ++ "/" ++ path

/-- Whether a part of a path leads somewhere. -/
def isStep (part : List Char) : Bool := part != [] && part != ['.']

/-- The last name of a path, if it has one and does not end by going up. -/
def fileName (path : String) : String :=
  match ((Text.splitAt '/' path.toList).filter isStep).getLast? with
  | some last => if last = ['.', '.'] then "" else String.ofList last
  | none => ""

/-- The directories that lie above some parts, the nearest first. The parts are given
from the last one back, and `lead` is what stands in front of them all. -/
def above (lead : String) : List (List Char) → List String
  | [] => []
  | part :: rest =>
    if isStep part then
      let parts := (rest.dropWhile (!isStep ·)).reverse
      (lead ++ Text.join "/" (parts.map String.ofList)) :: above lead rest
    else above lead rest

/-- The directories that a path lies in, the nearest first: up to the root, or up to the
empty path for a path that does not start at the root. -/
def parents (path : String) : List String :=
  match Text.splitAt '/' path.toList with
  | [] :: part :: rest => above "/" (part :: rest).reverse
  | ['.'] :: rest => above "./" rest.reverse ++ [""]
  | parts => above "" parts.reverse

end ViewTree.FilePath

import ViewTree.Text.Basic

/-!
# Registries of names

A registry holds the names that are taken. A claim gives the name asked for if it
is free, and otherwise that name with the least number from two on that makes it
free.
-/

namespace ViewTree

/-- The names that are taken, and what stands between a name and its number. -/
structure Registry where
  taken : List String := []
  separator : String := ""
deriving DecidableEq, Repr, Inhabited

namespace Registry

/-- Whether a name is taken. -/
def isTaken (r : Registry) (name : String) : Bool := r.taken.contains name

/-- Takes a name, if it is not taken. -/
def add (r : Registry) (name : String) : Registry :=
  if r.isTaken name then r else { r with taken := r.taken ++ [name] }

/-- Takes a name; says whether it was free. -/
def reserve (r : Registry) (name : String) : Bool × Registry := (!r.isTaken name, r.add name)

/-- The name with a number. -/
def numbered (r : Registry) (base : String) (n : Nat) : String :=
  base ++ r.separator ++ Text.decimal n

/-- The name a claim gives. One more number than there are names taken is enough
to find a free one. -/
def pick (r : Registry) (base : String) : String :=
  if r.isTaken base then
    match (List.range' 2 (r.taken.length + 1)).find? fun n => !r.isTaken (r.numbered base n) with
    | some n => r.numbered base n
    | none => base
  else base

/-- Takes a name like the one asked for, and gives it. -/
def claim (r : Registry) (base : String) : String × Registry :=
  let name := r.pick base
  (name, { r with taken := r.taken ++ [name] })

end Registry

end ViewTree

/-!
# Ordered maps

A map whose order is part of its meaning is a list of pairs. Looking a key up is
`List.lookup`; `put` keeps the place of a key that is there and appends a new one.
-/

namespace ViewTree

/-- A map that remembers the order in which its keys came. -/
abbrev Keyed (α : Type) := List (String × α)

namespace Keyed

variable {α : Type}

/-- Sets the value of a key: in place if the key is there, at the end if not. -/
def put (key : String) (value : α) : Keyed α → Keyed α
  | [] => [(key, value)]
  | (k, v) :: rest => if k = key then (k, value) :: rest else (k, v) :: put key value rest

/-- Puts the pairs of the second map into the first, one after the other. -/
def putAll (base more : Keyed α) : Keyed α :=
  more.foldl (fun m (k, v) => put k v m) base

/-- Whether the key has a value. -/
def has (m : Keyed α) (key : String) : Bool := (m.lookup key).isSome

/-- Whether two maps hold the same keys with the same values, in any order. Both
are expected to hold no key twice. -/
def sameBy (same : α → α → Bool) (a b : Keyed α) : Bool :=
  a.length == b.length && a.all fun (k, v) =>
    match b.lookup k with
    | some w => same v w
    | none => false

end Keyed

end ViewTree

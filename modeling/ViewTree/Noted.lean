/-!
# Values with notes

A computation that goes on after a problem gives a value and the notes it took on
the way. Notes are only appended, so those of a sequence of steps are the notes of
the steps in order (`notes_bind`).
-/

namespace ViewTree

/-- A value of type `α` together with notes of type `ω`. -/
structure Noted (ω α : Type) where
  value : α
  notes : ω

namespace Noted

variable {ω α β : Type}

/-- Only a note. -/
def note (notes : ω) : Noted ω Unit := ⟨(), notes⟩

@[simp]
theorem value_note (n : ω) : (note n).value = () := rfl

@[simp]
theorem notes_note (n : ω) : (note n).notes = n := rfl

variable [Append ω] [EmptyCollection ω]

instance : Monad (Noted ω) where
  pure a := ⟨a, ∅⟩
  bind x f :=
    let y := f x.value
    ⟨y.value, x.notes ++ y.notes⟩

@[simp]
theorem value_pure (a : α) : (pure a : Noted ω α).value = a := rfl

@[simp]
theorem notes_pure (a : α) : (pure a : Noted ω α).notes = ∅ := rfl

@[simp]
theorem value_bind (x : Noted ω α) (f : α → Noted ω β) : (x >>= f).value = (f x.value).value := rfl

@[simp]
theorem notes_bind (x : Noted ω α) (f : α → Noted ω β) :
    (x >>= f).notes = x.notes ++ (f x.value).notes := rfl

/-- Works through a list from left to right. -/
def each (f : α → Noted ω β) : List α → Noted ω (List β)
  | [] => pure []
  | a :: as => do
    let b ← f a
    let bs ← each f as
    pure (b :: bs)

@[simp]
theorem value_each (f : α → Noted ω β) (as : List α) : (each f as).value = as.map fun a => (f a).value := by
  induction as with
  | nil => rfl
  | cons a as ih => rw [each, value_bind, value_bind, value_pure, ih, List.map_cons]

/-- Works through a list from left to right and keeps the results there are. -/
def eachSome (f : α → Noted ω (Option β)) (as : List α) : Noted ω (List β) := do
  let bs ← each f as
  pure (bs.filterMap id)

/-- Works through a list from left to right with the place of each item. -/
def eachIndexed (f : Nat → α → Noted ω β) (as : List α) : Noted ω (List β) :=
  each (fun (a, i) => f i a) as.zipIdx

end Noted

end ViewTree

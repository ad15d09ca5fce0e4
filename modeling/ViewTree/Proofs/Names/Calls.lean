import ViewTree.Proofs.Names.Registry

/-!
# Calls on a registry

A claim on a name that is taken tries one number after the other (`Registry.Finds`). Only
finitely many names are taken, so this ends, with the least number that makes the name free
(`Registry.claim_least`). After a row of calls exactly these names are taken: those that were,
those reserved, and those given by claims. So no claim gives a name a second time.
-/

namespace ViewTree.Registry

/-! ## The search of a claim -/

/-- The search for a free name from the number `n` on: the first number that makes the name
free ends it. -/
inductive Finds (r : Registry) (base : String) : Nat → String → Prop
  | free {n : Nat} : r.numbered base n ∉ r.taken → Finds r base n (r.numbered base n)
  | next {n : Nat} {name : String} : r.numbered base n ∈ r.taken → Finds r base (n + 1) name → Finds r base n name

/-- Numbers whose names are taken are passed. -/
theorem Finds.of_taken {r : Registry} {base name : String} {n : Nat} (k : Nat)
    (htaken : ∀ m, n ≤ m → m < n + k → r.numbered base m ∈ r.taken) (h : r.Finds base (n + k) name) :
    r.Finds base n name := by
  induction k generalizing n with
  | zero => exact h
  | succ k ih =>
    have hrest : r.Finds base (n + 1) name := by
      refine ih (fun m hm hmk => htaken m (by omega) (by omega)) ?_
      rwa [Nat.add_right_comm]
    exact .next (htaken n (Nat.le_refl n) (by omega)) hrest

/-- The search has one outcome. -/
theorem Finds.unique {r : Registry} {base a b : String} {n : Nat} (ha : r.Finds base n a) (hb : r.Finds base n b) :
    a = b := by
  induction ha with
  | free hfree =>
    cases hb with
    | free => rfl
    | next htaken => exact absurd htaken hfree
  | next htaken _ ih =>
    cases hb with
    | free hfree => exact absurd htaken hfree
    | next _ hrest => exact ih hrest

/-- The search ends, at the name that a claim gives. -/
theorem finds_iff {r : Registry} {base : String} (h : base ∈ r.taken) {name : String} :
    r.Finds base 2 name ↔ name = (r.claim base).1 := by
  obtain ⟨n, hn, hpick, hfree, hleast⟩ := pick_of_taken h
  have hfinds : r.Finds base 2 (r.claim base).1 := by
    have hend : r.Finds base n (r.claim base).1 := by
      show r.Finds base n (r.pick base)
      rw [hpick]
      exact .free hfree
    obtain ⟨k, rfl⟩ := Nat.exists_eq_add_of_le hn
    exact .of_taken k (fun m hm hmk => hleast m hm hmk) hend
  exact ⟨fun hname => hname.unique hfinds, fun hname => hname ▸ hfinds⟩

/-- The least number whose name is free is at most one more than there are names taken,
counted from two on. -/
theorem least_le {r : Registry} {base : String} {n : Nat}
    (hleast : ∀ m, 2 ≤ m → m < n → r.numbered base m ∈ r.taken) : n ≤ r.taken.length + 2 := by
  obtain ⟨m, hm, hfree⟩ := r.exists_free base
  obtain ⟨hlow, hhigh⟩ := List.mem_range'_1.1 hm
  by_contra hlarge
  exact hfree (hleast m hlow (by omega))

/-! ## Rows of calls -/

/-- A call on a registry. -/
inductive Call where
  | reserve (name : String)
  | claim (base : String)

/-- The registry after a call. -/
def perform (r : Registry) : Call → Registry
  | .reserve name => (r.reserve name).2
  | .claim base => (r.claim base).2

/-- The registry after a row of calls. -/
def after (r : Registry) (calls : List Call) : Registry := calls.foldl perform r

/-- The name that a call gives: a claim gives one, a reservation none. -/
def gives (r : Registry) : Call → Option String
  | .reserve _ => none
  | .claim base => some (r.claim base).1

/-- The names that the claims of a row of calls give, in order. -/
def given (r : Registry) : List Call → List String
  | [] => []
  | call :: calls => (r.gives call).toList ++ given (r.perform call) calls

theorem mem_add {r : Registry} {name other : String} : name ∈ (r.add other).taken ↔ name ∈ r.taken ∨ name = other := by
  unfold add
  split
  · rename_i htaken
    have hother := isTaken_iff.1 htaken
    exact ⟨.inl, fun h => h.elim id fun he => he ▸ hother⟩
  · simp

/-- A call takes the name it reserves or gives, and no other. -/
theorem mem_perform {r : Registry} {call : Call} {name : String} :
    name ∈ (r.perform call).taken ↔ name ∈ r.taken ∨ call = .reserve name ∨ r.gives call = some name := by
  cases call with
  | reserve other =>
    show name ∈ (r.add other).taken ↔ _
    rw [mem_add]
    simp [gives, eq_comm]
  | claim base => simp [perform, claim, gives, eq_comm]

/-- What a row of calls leaves taken: the names that were, those reserved and those given. -/
theorem mem_after {r : Registry} {calls : List Call} {name : String} :
    name ∈ (r.after calls).taken ↔ name ∈ r.taken ∨ .reserve name ∈ calls ∨ name ∈ r.given calls := by
  induction calls generalizing r with
  | nil => simp [after, given]
  | cons call calls ih =>
    show name ∈ ((r.perform call).after calls).taken ↔ _
    rw [ih, mem_perform, given, List.mem_append, Option.mem_toList, List.mem_cons, eq_comm (a := call)]
    tauto

theorem given_append (r : Registry) (before calls : List Call) :
    r.given (before ++ calls) = r.given before ++ (r.after before).given calls := by
  induction before generalizing r with
  | nil => rfl
  | cons call before ih => rw [List.cons_append, given, given, ih, List.append_assoc]; rfl

/-- What a call gives was free, and it is taken from then on. -/
theorem gives_not_taken {r : Registry} {call : Call} {name : String} (h : r.gives call = some name) :
    name ∉ r.taken := by
  cases call with
  | reserve other => cases h
  | claim base =>
    obtain rfl := Option.some.inj h
    exact r.pick_not_taken base

/-- The claims of a row of calls give names that were free, each once. -/
theorem given_fresh (r : Registry) (calls : List Call) :
    (r.given calls).Nodup ∧ ∀ name ∈ r.given calls, name ∉ r.taken := by
  induction calls generalizing r with
  | nil => exact ⟨List.nodup_nil, fun _ h => absurd h List.not_mem_nil⟩
  | cons call calls ih =>
    obtain ⟨hnodup, hfree⟩ := ih (r.perform call)
    constructor
    · rw [given, List.nodup_append]
      refine ⟨by cases r.gives call <;> simp, hnodup, ?_⟩
      rintro name hname _ hlater rfl
      exact hfree name hlater (mem_perform.2 (.inr (.inr (Option.mem_toList.1 hname))))
    · intro name hname htaken
      rw [given, List.mem_append, Option.mem_toList] at hname
      rcases hname with hname | hname
      · exact gives_not_taken hname htaken
      · exact hfree name hname (mem_perform.2 (.inl htaken))

/-! ## Claims -/

/-- What a claim on `base` does, with the name it gives and the registry it leaves. -/
structure Claimed (r : Registry) (base name : String) (r' : Registry) : Prop where
  /-- A name that is free is given as it is. -/
  free : base ∉ r.taken → name = base
  /-- Else the search ends, with this name and no other. -/
  ends : base ∈ r.taken → ∀ other, r.Finds base 2 other ↔ other = name
  /-- The number is the least from two on that makes the name free, and it is bounded by
  the names taken. -/
  least : base ∈ r.taken → ∃ n, 2 ≤ n ∧ n ≤ r.taken.length + 2 ∧ name = base ++ r.separator ++ Text.decimal n ∧
    ∀ m, 2 ≤ m → m < n → base ++ r.separator ++ Text.decimal m ∈ r.taken
  fresh : name ∉ r.taken
  /-- The name given is taken, and nothing else changes. -/
  takes : r' = { r with taken := r.taken ++ [name] }

/-- A claim gives the name asked for if it is free, and else that name with the least number
that makes it free. So over a row of calls, no claim gives a name that was taken at the start,
was reserved before, or was given before. -/
theorem claim_least (r : Registry) :
    (∀ base, r.Claimed base (r.claim base).1 (r.claim base).2) ∧
      ∀ calls : List Call,
        (r.given calls).Nodup ∧ (∀ name ∈ r.given calls, name ∉ r.taken) ∧
          ∀ before base later, calls = before ++ .claim base :: later →
            r.given calls = r.given before ++ ((r.after before).claim base).1 ::
                ((r.after before).claim base).2.given later ∧
              .reserve ((r.after before).claim base).1 ∉ before := by
  constructor
  · intro base
    refine ⟨pick_of_free, fun h _ => finds_iff h, fun h => ?_, r.pick_not_taken base, rfl⟩
    obtain ⟨n, hn, hpick, -, hleast⟩ := pick_of_taken h
    exact ⟨n, hn, least_le hleast, hpick, hleast⟩
  · intro calls
    obtain ⟨hnodup, hfree⟩ := r.given_fresh calls
    refine ⟨hnodup, hfree, ?_⟩
    rintro before base later rfl
    refine ⟨r.given_append before _, fun hreserved => ?_⟩
    have htaken := mem_after.2 (.inr (.inl hreserved) : _ ∨ _ ∨ _ ∈ r.given before)
    exact (r.after before).pick_not_taken base htaken

/-- Names that look like numbered ones are passed like any other. -/
theorem claim_least_card :
    let r : Registry := { taken := ["Card", "Card2", "Card4"] }
    let calls : List Call := [.claim "Card", .claim "Row2", .reserve "Row", .claim "Row"]
    "Card" ∈ r.taken ∧ r.Finds "Card" 2 "Card3" ∧ r.given calls = ["Card3", "Row2", "Row3"] ∧
      (r.given calls).Nodup := by
  intro r calls
  have htaken : "Card" ∈ r.taken := by decide
  have hclaim : "Card3" = (r.claim "Card").1 := by decide
  exact ⟨htaken, (((claim_least r).1 "Card").ends htaken "Card3").2 hclaim, by decide, ((claim_least r).2 calls).1⟩

end ViewTree.Registry

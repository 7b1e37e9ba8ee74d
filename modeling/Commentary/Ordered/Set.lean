/-!
# Sets in insertion order

The elements of an ordered set stand in the order in which they came in. An element that is
erased and inserted again goes to the end.
-/

namespace Commentary

/-- Distinct elements in the order in which they were first inserted. -/
structure OrderedSet (α : Type) where
  toList : List α
  nodup : toList.Nodup

namespace OrderedSet

variable {α : Type}

@[ext]
theorem ext {s t : OrderedSet α} (h : s.toList = t.toList) : s = t := by
  cases s; cases t; cases h; rfl

instance [DecidableEq α] : DecidableEq (OrderedSet α) := fun s t =>
  decidable_of_iff (s.toList = t.toList) ⟨ext, fun h => h ▸ rfl⟩

/-- The set without elements. -/
def empty : OrderedSet α := ⟨[], List.nodup_nil⟩

instance : EmptyCollection (OrderedSet α) := ⟨empty⟩
instance : Inhabited (OrderedSet α) := ⟨empty⟩

/-- The number of elements. -/
def size (s : OrderedSet α) : Nat := s.toList.length

/-- Whether the set has no element. -/
def isEmpty (s : OrderedSet α) : Bool := s.toList.isEmpty

instance : Membership α (OrderedSet α) := ⟨fun s a => a ∈ s.toList⟩

instance [DecidableEq α] (a : α) (s : OrderedSet α) : Decidable (a ∈ s) :=
  inferInstanceAs (Decidable (a ∈ s.toList))

theorem mem_def {a : α} {s : OrderedSet α} : a ∈ s ↔ a ∈ s.toList := Iff.rfl

variable [DecidableEq α]

/-- Appends an element unless it is in the set. -/
def insert (s : OrderedSet α) (a : α) : OrderedSet α :=
  if h : a ∈ s then s
  else
    { toList := s.toList ++ [a]
      nodup := by
        rw [List.nodup_append]
        refine ⟨s.nodup, by simp, ?_⟩
        intro x hx y hy
        rw [List.mem_singleton] at hy
        exact fun hxy => h (hy ▸ hxy ▸ hx) }

/-- Removes an element; the others keep their order. -/
def erase (s : OrderedSet α) (a : α) : OrderedSet α where
  toList := s.toList.filter (· ≠ a)
  nodup := s.nodup.sublist List.filter_sublist

/-- Inserts the elements of a list one after the other. -/
def insertAll (s : OrderedSet α) (xs : List α) : OrderedSet α := xs.foldl insert s

/-- The elements of a list without repetitions, each where it first occurs. -/
def ofList (xs : List α) : OrderedSet α := empty.insertAll xs

@[simp]
theorem mem_insert {s : OrderedSet α} {a b : α} : b ∈ s.insert a ↔ b ∈ s ∨ b = a := by
  unfold insert
  by_cases h : a ∈ s
  · rw [dif_pos h]
    exact ⟨Or.inl, fun hb => hb.elim id fun e => e ▸ h⟩
  · rw [dif_neg h]
    simp [mem_def]

@[simp]
theorem mem_erase {s : OrderedSet α} {a b : α} : b ∈ s.erase a ↔ b ∈ s ∧ b ≠ a := by
  simp [mem_def, erase]

end OrderedSet

end Commentary

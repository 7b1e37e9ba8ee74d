/-!
# Tables in insertion order

A table maps keys to values and keeps its entries in the order in which their keys came in.
Changing a value leaves its key where it stands; a key that is erased and inserted again goes
to the end. No key occurs twice, and the table carries the proof.
-/

namespace Commentary

/-- Values by key, in the order in which the keys were first inserted. -/
structure Table (κ ν : Type) where
  entries : List (κ × ν)
  nodup_keys : (entries.map Prod.fst).Nodup

namespace Table

variable {κ ν : Type}

@[ext]
theorem ext {s t : Table κ ν} (h : s.entries = t.entries) : s = t := by
  cases s; cases t; cases h; rfl

instance [DecidableEq κ] [DecidableEq ν] : DecidableEq (Table κ ν) := fun s t =>
  decidable_of_iff (s.entries = t.entries) ⟨ext, fun h => h ▸ rfl⟩

/-- The table without entries. -/
def empty : Table κ ν := ⟨[], List.nodup_nil⟩

instance : EmptyCollection (Table κ ν) := ⟨empty⟩
instance : Inhabited (Table κ ν) := ⟨empty⟩

/-- The keys, in order. -/
def keys (t : Table κ ν) : List κ := t.entries.map Prod.fst

/-- The number of entries. -/
def size (t : Table κ ν) : Nat := t.entries.length

/-- Whether the table has no entry. -/
def isEmpty (t : Table κ ν) : Bool := t.entries.isEmpty

/-- The oldest entry. -/
def first? (t : Table κ ν) : Option (κ × ν) := t.entries.head?

variable [DecidableEq κ]

/-- The entry of a key. -/
def find? (t : Table κ ν) (k : κ) : Option (κ × ν) := t.entries.find? (·.1 = k)

/-- The value of a key. -/
def get? (t : Table κ ν) (k : κ) : Option ν := (t.find? k).map Prod.snd

/-- Whether a key has a value. -/
def contains (t : Table κ ν) (k : κ) : Bool := (t.find? k).isSome

/-- Replaces the value of a key, if it has one, by a function of it. -/
def update (t : Table κ ν) (k : κ) (f : ν → ν) : Table κ ν where
  entries := t.entries.map fun e => if e.1 = k then (e.1, f e.2) else e
  nodup_keys := by
    have h : (Prod.fst ∘ fun e : κ × ν => if e.1 = k then (e.1, f e.2) else e) = Prod.fst := by
      funext e
      by_cases he : e.1 = k <;> simp [he]
    rw [List.map_map, h]
    exact t.nodup_keys

/-- Removes the entry of a key; the others keep their order. -/
def erase (t : Table κ ν) (k : κ) : Table κ ν where
  entries := t.entries.filter (·.1 ≠ k)
  nodup_keys := t.nodup_keys.sublist (List.filter_sublist.map _)

theorem contains_iff {t : Table κ ν} {k : κ} : t.contains k ↔ k ∈ t.keys := by
  simp [contains, find?, keys, List.find?_isSome]

/-- Appends an entry for a key that has none, and changes nothing for one that has. -/
def insertNew (t : Table κ ν) (k : κ) (v : ν) : Table κ ν :=
  if h : t.contains k then t
  else
    { entries := t.entries ++ [(k, v)]
      nodup_keys := by
        rw [contains_iff, keys] at h
        rw [List.map_append, List.nodup_append]
        refine ⟨t.nodup_keys, by simp, ?_⟩
        intro a ha b hb
        simp only [List.map_cons, List.map_nil, List.mem_singleton] at hb
        exact fun hab => h (hb ▸ hab ▸ ha) }

/-- Applies `f` to the value of a key, where a key without a value starts from `v`. -/
def upsert (t : Table κ ν) (k : κ) (v : ν) (f : ν → ν) : Table κ ν :=
  (t.insertNew k v).update k f

/-- Gives a key a value, in place of the one it has or at the end. -/
def insert (t : Table κ ν) (k : κ) (v : ν) : Table κ ν := t.upsert k v fun _ => v

/-- The table of a list of entries, where the first entry of a key counts. -/
def ofList (entries : List (κ × ν)) : Table κ ν :=
  entries.foldl (fun t e => t.insertNew e.1 e.2) empty

/-! ## Lookups after each operation -/

@[simp]
theorem get?_empty (k : κ) : (empty : Table κ ν).get? k = none := rfl

theorem contains_eq_isSome_get? (t : Table κ ν) (k : κ) : t.contains k = (t.get? k).isSome := by
  simp [contains, get?]

theorem get?_insertNew (t : Table κ ν) (k j : κ) (v : ν) :
    (t.insertNew k v).get? j = if j = k ∧ t.get? k = none then some v else t.get? j := by
  by_cases h : t.contains k
  · have hk : t.get? k ≠ none := by
      rw [contains_eq_isSome_get?] at h
      exact fun e => by simp [e] at h
    simp [insertNew, h, hk]
  · have hk : t.get? k = none := by
      rw [contains_eq_isSome_get?] at h
      simpa using h
    have hi : (t.insertNew k v).get? j =
        ((t.find? j).or (if k = j then some (k, v) else none)).map Prod.snd := by
      rw [insertNew, dif_neg h, get?, find?, List.find?_append, List.find?_singleton]
      simp [find?]
    rw [hi]
    by_cases hj : j = k
    · subst hj
      have he : t.find? j = none := by simpa [get?] using hk
      simp [he, hk]
    · have hkj : ¬ k = j := fun e => hj e.symm
      simp [hj, hkj, get?]

theorem get?_update (t : Table κ ν) (k j : κ) (f : ν → ν) :
    (t.update k f).get? j = if j = k then (t.get? k).map f else t.get? j := by
  obtain ⟨entries, nodup⟩ := t
  simp only [get?, find?, update]
  clear nodup
  induction entries with
  | nil => simp
  | cons e entries ih =>
    by_cases he : e.1 = k <;> by_cases hj : e.1 = j
    · have hjk : j = k := hj ▸ he
      simp [he, hjk]
    · have hjk : ¬ j = k := fun h => hj (h ▸ he)
      have hkj : ¬ k = j := fun h => hjk h.symm
      simpa [he, hkj, hjk] using ih
    · have hjk : ¬ j = k := fun h => he (hj.trans h)
      simp [hj, hjk]
    · by_cases hjk : j = k
      · subst hjk
        simpa [he] using ih
      · simpa [he, hj, hjk] using ih

theorem get?_erase (t : Table κ ν) (k j : κ) :
    (t.erase k).get? j = if j = k then none else t.get? j := by
  simp only [get?, find?, erase, List.find?_filter]
  by_cases hj : j = k
  · subst hj
    simp
  · simp only [hj, if_false]
    congr 2
    funext e
    by_cases he : e.1 = j <;> simp [he, hj]

end Table

end Commentary

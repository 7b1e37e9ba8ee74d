import Commentary.Proofs.Ordered
import Mathlib.Data.List.Basic

/-!
# Restrictions

A table can be restricted to some of its entries and to a part of their values, and a set to some
of its elements. What is left stays in order. An operation on something that is left out does not
show in the restriction, so two tables can be compared through what they have in common.
-/

namespace Commentary

namespace OrderedSet

variable {α : Type}

/-- The elements for which `p` holds. -/
def restrict (s : OrderedSet α) (p : α → Bool) : OrderedSet α where
  toList := s.toList.filter p
  nodup := s.nodup.sublist List.filter_sublist

theorem restrict_eq_self {s : OrderedSet α} {p : α → Bool} (h : ∀ a ∈ s.toList, p a) :
    s.restrict p = s :=
  ext (List.filter_eq_self.mpr h)

variable [DecidableEq α] {p : α → Bool} {a : α}

theorem restrict_insert (h : ¬ p a) (s : OrderedSet α) :
    (s.insert a).restrict p = s.restrict p := by
  apply ext
  simp only [restrict, toList_insert]
  split
  · rfl
  · simp [List.filter_append, h]

theorem restrict_erase (h : ¬ p a) (s : OrderedSet α) :
    (s.erase a).restrict p = s.restrict p := by
  apply ext
  simp only [restrict, erase, List.filter_filter]
  apply List.filter_congr
  intro b _
  by_cases hb : b = a
  · simp [hb, h]
  · simp [hb]

end OrderedSet

namespace Table

variable {κ ν : Type}

theorem map_fst_filterMap (f : κ → ν → Option ν) (l : List (κ × ν)) :
    (l.filterMap fun e => (f e.1 e.2).map (e.1, ·)).map Prod.fst =
      (l.filter fun e => (f e.1 e.2).isSome).map Prod.fst := by
  induction l with
  | nil => rfl
  | cons e l ih => cases h : f e.1 e.2 <;> simp [h, ih]

/-- What `f` keeps of the entries of a table. -/
def restrict (t : Table κ ν) (f : κ → ν → Option ν) : Table κ ν where
  entries := t.entries.filterMap fun e => (f e.1 e.2).map (e.1, ·)
  nodup_keys := by
    rw [map_fst_filterMap]
    exact t.nodup_keys.sublist (List.filter_sublist.map _)

variable [DecidableEq κ] {f : κ → ν → Option ν} {k : κ}

theorem get?_restrict (t : Table κ ν) (f : κ → ν → Option ν) (k : κ) :
    (t.restrict f).get? k = (t.get? k).bind (f k) := by
  obtain ⟨entries, nodup⟩ := t
  simp only [get?, find?, restrict]
  induction entries with
  | nil => rfl
  | cons e l ih =>
      obtain ⟨he, hl⟩ := List.nodup_cons.mp nodup
      by_cases hk : e.1 = k
      · subst hk
        -- The key stands at the head only, so nothing behind it counts.
        have hnone : (l.filterMap fun e => (f e.1 e.2).map (e.1, ·)).find? (·.1 = e.1) = none := by
          rw [List.find?_eq_none]
          intro x hx hxe
          have hmem : e.1 ∈ (l.filter fun e => (f e.1 e.2).isSome).map Prod.fst := by
            rw [← map_fst_filterMap, ← of_decide_eq_true hxe]
            exact List.mem_map_of_mem hx
          exact he ((List.filter_sublist.map _).subset hmem)
        cases hf : f e.1 e.2 with
        | none => simp [hf, hnone]
        | some v => simp [hf]
      · rw [List.find?_cons_of_neg (by simpa using hk), ← ih hl]
        cases hf : f e.1 e.2 with
        | none => rw [List.filterMap_cons_none (by simp [hf])]
        | some v =>
            rw [List.filterMap_cons_some (b := (e.1, v)) (by simp [hf]),
              List.find?_cons_of_neg (by simpa using hk)]

theorem restrict_insertNew {v : ν} (h : f k v = none) (t : Table κ ν) :
    (t.insertNew k v).restrict f = t.restrict f := by
  apply ext
  simp only [restrict, entries_insertNew]
  split
  · rfl
  · simp [List.filterMap_append, h]

theorem restrict_update {g : ν → ν} (h : ∀ v, f k (g v) = f k v) (t : Table κ ν) :
    (t.update k g).restrict f = t.restrict f := by
  apply ext
  simp only [restrict, update, List.filterMap_map]
  apply List.filterMap_congr
  intro e _
  by_cases he : e.1 = k
  · subst he
    simp [h]
  · simp [he]

theorem restrict_upsert {v : ν} {g : ν → ν} (hv : f k v = none) (hg : ∀ v, f k (g v) = f k v)
    (t : Table κ ν) : (t.upsert k v g).restrict f = t.restrict f := by
  rw [upsert, restrict_update hg, restrict_insertNew hv]

theorem restrict_erase {t : Table κ ν} (h : ∀ v, t.get? k = some v → f k v = none) :
    (t.erase k).restrict f = t.restrict f := by
  apply ext
  simp only [restrict, erase, List.filterMap_filter]
  apply List.filterMap_congr
  intro e he
  by_cases hk : e.1 = k
  · have hnone : f k e.2 = none := h e.2 (hk ▸ get?_eq_some_of_mem he)
    simp [hk, hnone]
  · simp [hk]

theorem restrict_eq_self {t : Table κ ν} (h : ∀ k v, t.get? k = some v → f k v = some v) :
    t.restrict f = t := by
  apply ext
  simp only [restrict]
  have hid : t.entries.filterMap (fun e => (f e.1 e.2).map (e.1, ·)) =
      t.entries.filterMap some := by
    apply List.filterMap_congr
    intro e he
    simp [h e.1 e.2 (get?_eq_some_of_mem he)]
  rw [hid, List.filterMap_some]

/-! ## Leaving out one key -/

theorem erase_eq_restrict (t : Table κ ν) (k : κ) :
    t.erase k = t.restrict fun j v => if j = k then none else some v := by
  apply ext
  simp only [erase, restrict]
  induction t.entries with
  | nil => rfl
  | cons e l ih => by_cases he : e.1 = k <;> simpa [he] using ih

theorem erase_insertNew (t : Table κ ν) (k : κ) (v : ν) :
    (t.insertNew k v).erase k = t.erase k := by
  rw [erase_eq_restrict, erase_eq_restrict, restrict_insertNew (by simp)]

theorem erase_update (t : Table κ ν) (k : κ) (g : ν → ν) : (t.update k g).erase k = t.erase k := by
  rw [erase_eq_restrict, erase_eq_restrict, restrict_update fun _ => by simp]

theorem erase_upsert (t : Table κ ν) (k : κ) (v : ν) (g : ν → ν) :
    (t.upsert k v g).erase k = t.erase k := by
  rw [upsert, erase_update, erase_insertNew]

theorem erase_erase (t : Table κ ν) (k : κ) : (t.erase k).erase k = t.erase k := by
  rw [erase_eq_restrict (t.erase k), restrict_erase (by simp), ← erase_eq_restrict]

theorem erase_eq_self {t : Table κ ν} (h : t.get? k = none) : t.erase k = t := by
  rw [erase_eq_restrict]
  refine restrict_eq_self fun j v hj => if_neg ?_
  rintro rfl
  rw [h] at hj
  cases hj

end Table

end Commentary

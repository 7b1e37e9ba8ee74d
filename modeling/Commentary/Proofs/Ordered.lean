import Commentary.Ordered.Set
import Commentary.Ordered.Table
import Mathlib.Data.List.Induction

/-!
# Entries and elements

What the operations of ordered tables and sets do to the lists behind them. Everything that is
said later about orders goes back to these lists.
-/

namespace Commentary

namespace OrderedSet

variable {α : Type}

@[simp] theorem toList_empty : (∅ : OrderedSet α).toList = [] := rfl

variable [DecidableEq α]

theorem toList_insert (s : OrderedSet α) (a : α) :
    (s.insert a).toList = if a ∈ s.toList then s.toList else s.toList ++ [a] := by
  simp only [insert]
  by_cases h : a ∈ s
  · rw [dif_pos h, if_pos (mem_def.mp h)]
  · rw [dif_neg h, if_neg (fun e => h (mem_def.mpr e))]

theorem insert_of_mem {s : OrderedSet α} {a : α} (h : a ∈ s) : s.insert a = s := by
  rw [insert, dif_pos h]

theorem mem_insertAll {s : OrderedSet α} {xs : List α} {b : α} :
    b ∈ s.insertAll xs ↔ b ∈ s ∨ b ∈ xs := by
  induction xs generalizing s with
  | nil => simp [insertAll]
  | cons x xs ih =>
      have h : b ∈ s.insertAll (x :: xs) ↔ b ∈ s.insert x ∨ b ∈ xs := ih
      rw [h, mem_insert, List.mem_cons, or_assoc]

theorem mem_ofList {xs : List α} {b : α} : b ∈ (ofList xs).toList ↔ b ∈ xs := by
  have h : b ∈ ofList xs ↔ b ∈ empty ∨ b ∈ xs := mem_insertAll
  rw [← mem_def, h]
  simp [mem_def, empty]

theorem ofList_concat (xs : List α) (a : α) : ofList (xs ++ [a]) = (ofList xs).insert a := by
  simp [ofList, insertAll]

/-- The first of equal elements of a list is the one that its set keeps. -/
theorem toList_ofList [BEq α] [LawfulBEq α] (xs : List α) :
    (ofList xs).toList = xs.eraseDups := by
  induction xs using List.reverseRecOn with
  | nil => rfl
  | append_singleton xs a ih =>
      rw [ofList_concat, toList_insert, List.eraseDups_append, ← ih]
      by_cases h : a ∈ xs <;> simp [h, List.removeAll, mem_ofList, List.eraseDups_cons]

end OrderedSet

namespace Table

variable {κ ν : Type}

variable [DecidableEq κ]

theorem entries_insertNew (t : Table κ ν) (k : κ) (v : ν) :
    (t.insertNew k v).entries = if k ∈ t.keys then t.entries else t.entries ++ [(k, v)] := by
  simp only [insertNew]
  by_cases h : t.contains k
  · rw [dif_pos h, if_pos (contains_iff.mp h)]
  · rw [dif_neg h, if_neg (fun e => h (contains_iff.mpr e))]

theorem get?_upsert (t : Table κ ν) (k j : κ) (v : ν) (f : ν → ν) :
    (t.upsert k v f).get? j = if j = k then some (f ((t.get? k).getD v)) else t.get? j := by
  rw [upsert, get?_update, get?_insertNew, get?_insertNew]
  by_cases hj : j = k
  · cases t.get? k <;> simp [hj]
  · simp [hj]

theorem isSome_get?_iff {t : Table κ ν} {k : κ} : (t.get? k).isSome ↔ k ∈ t.keys := by
  rw [← contains_eq_isSome_get?, contains_iff]

theorem get?_eq_some_of_mem {t : Table κ ν} {e : κ × ν} (h : e ∈ t.entries) :
    t.get? e.1 = some e.2 := by
  obtain ⟨entries, nodup⟩ := t
  have hfind : entries.find? (·.1 = e.1) = some e := by
    induction entries with
    | nil => exact absurd h List.not_mem_nil
    | cons x l ih =>
        obtain ⟨hx, hl⟩ := List.nodup_cons.mp nodup
        rcases List.mem_cons.mp h with rfl | he
        · simp
        · have hne : x.1 ≠ e.1 := fun heq => hx (heq ▸ List.mem_map_of_mem he)
          rw [List.find?_cons_of_neg (by simpa using hne)]
          exact ih hl he
  simp [get?, find?, hfind]

theorem insertNew_of_isSome {t : Table κ ν} {k : κ} (h : (t.get? k).isSome) (v : ν) :
    t.insertNew k v = t := by
  rw [← contains_eq_isSome_get?] at h
  rw [insertNew, dif_pos h]

theorem update_eq_self {t : Table κ ν} {k : κ} {f : ν → ν}
    (h : ∀ v, t.get? k = some v → f v = v) : t.update k f = t := by
  have hsame : ∀ e ∈ t.entries, (if e.1 = k then (e.1, f e.2) else e) = id e := by
    intro e he
    split
    · next hk => rw [h e.2 (hk ▸ get?_eq_some_of_mem he), id_eq]
    · rfl
  apply ext
  exact (List.map_congr_left hsame).trans (List.map_id t.entries)

end Table

end Commentary

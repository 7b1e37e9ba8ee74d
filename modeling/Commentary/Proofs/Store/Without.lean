import Commentary.Proofs.Ordered.Restriction
import Commentary.Proofs.Store.Consistency

/-!
# A store without a file

What is left of a store when everything that a file says is taken out of it: the items that other
files define, with their definitions, and the other files. Whatever a file adds, changes or drops,
the store without this file stays the same, its orders included.
-/

namespace Commentary.Store

/-- What other files than one say about an item, if any of them does. -/
def othersItem? (file : FileName) (_ : ItemId) (item : Item) : Option Item :=
  let others := item.erase file
  if others.isEmpty then none else some others

/-- The store without a file. No file is watched in it. -/
def without (s : Store) (file : FileName) : Store :=
  { s with
    items := s.items.restrict (othersItem? file)
    files := s.files.erase file
    watched := none }

variable {s t : Store} {file : FileName} {id : ItemId}

theorem without_congr (hextensions : t.extensions = s.extensions)
    (hitems : t.items.restrict (othersItem? file) =
      s.items.restrict (othersItem? file))
    (hfiles : t.files.erase file = s.files.erase file) : t.without file = s.without file := by
  rw [without, without, hextensions, hitems, hfiles]

theorem othersItem?_congr {item other : Item} (h : item.erase file = other.erase file) :
    othersItem? file id item = othersItem? file id other := by
  rw [othersItem?, othersItem?, h]

theorem othersItem?_empty (file : FileName) (id : ItemId) : othersItem? file id ∅ = none := rfl

/-! ## Updates for the file -/

theorem without_ensureItem (s : Store) (id : ItemId) (file : FileName) :
    (s.ensureItem id).2.without file = s.without file :=
  without_congr rfl (Table.restrict_insertNew (othersItem?_empty file id) s.items) rfl

theorem without_record (s : Store) (id : ItemId) (file : FileName) (d : Definition) :
    (s.record id file d).without file = s.without file :=
  without_congr rfl
    (Table.restrict_update (fun item => othersItem?_congr (Table.erase_insertNew item file _))
      s.items)
    (Table.erase_upsert s.files file _ _)

theorem without_claim (s : Store) (id : ItemId) (file : FileName) (d : Definition) :
    (s.claim id file d).2.without file = s.without file := by
  rw [claim, without_record, without_ensureItem]

theorem without_revise (s : Store) (id : ItemId) (file : FileName) (d : Definition) :
    (s.revise id file d).without file = s.without file :=
  without_congr rfl
    (Table.restrict_update (fun item => othersItem?_congr (Table.erase_update item file _)) s.items)
    rfl

theorem without_drop (s : Store) (id : ItemId) (file : FileName) :
    (s.drop id file).without file = s.without file :=
  without_congr rfl
    (Table.restrict_update (fun item => othersItem?_congr (Table.erase_erase item file)) s.items)
    (Table.erase_update s.files file _)

theorem without_eraseItem (h : ¬ s.isDefined id) (file : FileName) :
    (s.eraseItem id).without file = s.without file := by
  refine without_congr rfl (Table.restrict_erase fun item hitem => ?_) rfl
  -- An item without definitions has none by other files either.
  have hnil : item.entries = [] := by
    simpa [isDefined_iff, definitions, item?, hitem] using h
  have hempty : item = ∅ := Table.ext hnil
  rw [hempty]
  exact othersItem?_empty file id

theorem without_forgetIfEmpty (s : Store) (file : FileName) :
    (s.forgetIfEmpty file).without file = s.without file := by
  simp only [forgetIfEmpty]
  split
  · exact without_congr rfl rfl (Table.erase_erase s.files file)
  · rfl

/-! ## What is left -/

theorem definitions_without (s : Store) (file : FileName) (id : ItemId) :
    (s.without file).definitions id = (s.definitions id).filter (·.1 ≠ file) := by
  simp only [definitions, item?, without, Table.get?_restrict]
  cases s.items.get? id with
  | none => rfl
  | some item =>
      simp only [Option.bind_some, Option.map_some, Option.getD_some, othersItem?]
      split
      · next h => simpa [Table.isEmpty, Table.erase] using h.symm
      · rfl

theorem isDefined_of_isDefined_without (h : (s.without file).isDefined id) : s.isDefined id := by
  rw [isDefined_iff, definitions_without] at h
  rw [isDefined_iff]
  exact fun hnil => h (by rw [hnil]; rfl)

/-- A file that is not known can be left out, as long as no item is without definitions. -/
theorem without_eq_self (hs : s.Consistent) (hitems : ∀ id, (s.item? id).isSome → s.isDefined id)
    (hfile : ¬ s.hasFile file) (hw : s.watched = none) : s.without file = s := by
  have hnone : s.files.get? file = none := by
    simpa [hasFile, Table.contains_eq_isSome_get?] using hfile
  have hindex : s.index file = [] := index_eq_nil_of_not_hasFile hfile
  have hdefiners : ∀ id, file ∉ s.definers id := fun id hid => by
    rw [hs.listed, hindex] at hid
    exact List.not_mem_nil hid
  have hkept : s.items.restrict (othersItem? file) = s.items := by
    refine Table.restrict_eq_self fun id item hitem => ?_
    have hget : item.get? file = none := by
      have h := hdefiners id
      rw [← definition?_eq_none_iff, definition?, item?, hitem] at h
      exact h
    have hne : item.isEmpty = false := by
      have h := hitems id (by simp [item?, hitem])
      simpa [isDefined_iff, definitions, item?, hitem, Table.isEmpty] using h
    rw [othersItem?, Table.erase_eq_self hget]
    exact if_neg (by simp [hne])
  rw [without, hkept, Table.erase_eq_self hnone, ← hw]

end Commentary.Store

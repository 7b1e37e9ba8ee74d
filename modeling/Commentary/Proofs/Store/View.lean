import Commentary.Proofs.Ordered
import Commentary.Store.Update

/-!
# What a store shows

A store shows, for every item, the definitions that files give for it, and for every file the
items that it is listed with. Every query of the store reads one of the two, and every update is
described here by what it does to them.
-/

namespace Commentary.Store

/-- The definitions of an item with the files that give them, the longest-standing one first. -/
def definitions (s : Store) (id : ItemId) : List (FileName × Definition) :=
  ((s.item? id).map (·.entries)).getD []

/-- The items that a file is listed with. -/
def index (s : Store) (file : FileName) : List ItemId :=
  ((s.files.get? file).map (·.toList)).getD []

@[simp] theorem definitions_empty (id : ItemId) : ({} : Store).definitions id = [] := rfl

@[simp] theorem index_empty (file : FileName) : ({} : Store).index file = [] := rfl

/-! ## Queries -/

theorem definers_eq (s : Store) (id : ItemId) :
    s.definers id = (s.definitions id).map Prod.fst := by
  simp only [definers, definitions]
  cases s.item? id <;> rfl

theorem isDefined_iff (s : Store) (id : ItemId) : s.isDefined id ↔ s.definitions id ≠ [] := by
  simp [isDefined, definers_eq]

theorem isDefined_iff_exists (s : Store) (id : ItemId) :
    s.isDefined id ↔ ∃ file, file ∈ s.definers id := by
  rw [isDefined_iff, definers_eq]
  cases s.definitions id with
  | nil => simp
  | cons e l => exact iff_of_true (List.cons_ne_nil e l) ⟨e.1, by simp⟩

theorem isDefined_of_mem {s : Store} {id : ItemId} {file : FileName}
    (h : file ∈ s.definers id) : s.isDefined id :=
  (isDefined_iff_exists s id).mpr ⟨file, h⟩

theorem definition?_eq (s : Store) (id : ItemId) (file : FileName) :
    s.definition? id file = ((s.definitions id).find? (·.1 = file)).map Prod.snd := by
  simp only [definition?, definitions]
  cases s.item? id <;> rfl

theorem isSome_definition?_iff (s : Store) (id : ItemId) (file : FileName) :
    (s.definition? id file).isSome ↔ file ∈ s.definers id := by
  rw [definition?_eq, definers_eq]
  simp

theorem definition?_eq_none_iff (s : Store) (id : ItemId) (file : FileName) :
    s.definition? id file = none ↔ file ∉ s.definers id := by
  rw [← isSome_definition?_iff, Option.not_isSome_iff_eq_none]

theorem authoritative?_eq (s : Store) (id : ItemId) :
    s.authoritative? id = (s.definitions id).head? := by
  simp only [authoritative?, definitions]
  cases s.item? id <;> rfl

/-- The authoritative definition is given by the first of the files. -/
theorem map_fst_authoritative? (s : Store) (id : ItemId) :
    (s.authoritative? id).map Prod.fst = (s.definers id).head? := by
  rw [authoritative?_eq, definers_eq, List.head?_map]

theorem definition?_of_authoritative? {s : Store} {id : ItemId} {e : FileName × Definition}
    (h : s.authoritative? id = some e) : s.definition? id e.1 = some e.2 := by
  rw [authoritative?_eq] at h
  obtain ⟨l, hl⟩ := List.head?_eq_some_iff.mp h
  simp [definition?_eq, hl]

theorem isSome_authoritative?_iff (s : Store) (id : ItemId) :
    (s.authoritative? id).isSome ↔ s.isDefined id := by
  rw [authoritative?_eq, isDefined_iff]
  cases s.definitions id <;> simp

theorem mem_definers_of_any_authoritative? {s : Store} {id : ItemId} {file : FileName}
    (h : (s.authoritative? id).any (·.1 = file)) : file ∈ s.definers id := by
  have hhead := map_fst_authoritative? s id
  cases he : s.authoritative? id with
  | none => simp [he] at h
  | some e =>
      have hfile : e.1 = file := by simpa [he] using h
      rw [he, Option.map_some, hfile] at hhead
      exact List.mem_of_head? hhead.symm

theorem fileItems_eq (s : Store) (file : FileName) (extension : Nat) :
    s.fileItems file extension = (s.index file).filter (·.extension = extension) := by
  simp only [fileItems, index]
  cases s.files.get? file <;> rfl

theorem nodup_index (s : Store) (file : FileName) : (s.index file).Nodup := by
  simp only [index]
  cases s.files.get? file with
  | none => exact List.nodup_nil
  | some ids => exact ids.nodup

theorem nodup_fileItems (s : Store) (file : FileName) (extension : Nat) :
    (s.fileItems file extension).Nodup := by
  rw [fileItems_eq]
  exact (s.nodup_index file).sublist List.filter_sublist

theorem index_eq_nil_of_not_hasFile {s : Store} {file : FileName} (h : ¬ s.hasFile file) :
    s.index file = [] := by
  rw [hasFile, Table.contains_eq_isSome_get?] at h
  cases hf : s.files.get? file with
  | none => simp [index, hf]
  | some ids => simp [hf] at h

/-! ## Updates

The two updates that need a definition to be there are stated as functions of their own. -/

/-- The store after a file has replaced its definition of an item. -/
def revise (s : Store) (id : ItemId) (file : FileName) (d : Definition) : Store :=
  { s with items := s.items.update id (·.update file fun _ => d) }

/-- The store after a file has given up its definition of an item. -/
def drop (s : Store) (id : ItemId) (file : FileName) : Store :=
  { s with
    items := s.items.update id (·.erase file)
    files := s.files.update file (·.erase id) }

/-- The store without an item. -/
def eraseItem (s : Store) (id : ItemId) : Store := { s with items := s.items.erase id }

theorem changeDefinition_eq {s : Store} {id : ItemId} {file : FileName} (d : Definition)
    (hr : s.isRich id.extension) (hf : file ∈ s.definers id) :
    s.changeDefinition id file d = .ok ((), s.revise id file d) := by
  have hd : (s.definition? id file).isNone = false := by
    simpa using (isSome_definition?_iff s id file).mpr hf
  simp [changeDefinition, hr, hd, revise]

theorem of_changeDefinition_eq_ok {s s' : Store} {id : ItemId} {file : FileName}
    {d : Definition} {u : Unit} (h : s.changeDefinition id file d = .ok (u, s')) :
    s.isRich id.extension ∧ file ∈ s.definers id ∧ s' = s.revise id file d := by
  by_cases hr : s.isRich id.extension
  · by_cases hf : file ∈ s.definers id
    · rw [changeDefinition_eq d hr hf] at h
      cases h
      exact ⟨hr, hf, rfl⟩
    · rw [← definition?_eq_none_iff] at hf
      simp [changeDefinition, hr, hf] at h
  · simp [changeDefinition, hr] at h

theorem deleteDefinition_eq {s : Store} {id : ItemId} {file : FileName}
    (hf : file ∈ s.definers id) :
    s.deleteDefinition id file =
      .ok (!(s.drop id file).isDefined id, s.drop id file) := by
  have hd : (s.definition? id file).isNone = false := by
    simpa using (isSome_definition?_iff s id file).mpr hf
  simp [deleteDefinition, hd, drop]

theorem of_deleteDefinition_eq_ok {s s' : Store} {id : ItemId} {file : FileName} {b : Bool}
    (h : s.deleteDefinition id file = .ok (b, s')) :
    file ∈ s.definers id ∧ b = !(s.drop id file).isDefined id ∧ s' = s.drop id file := by
  by_cases hf : file ∈ s.definers id
  · rw [deleteDefinition_eq hf] at h
    cases h
    exact ⟨hf, rfl, rfl⟩
  · rw [← definition?_eq_none_iff] at hf
    simp [deleteDefinition, hf] at h

theorem deleteItem_eq {s : Store} {id : ItemId} (h : ¬ s.isDefined id) :
    s.deleteItem id = .ok (s.items.contains id, s.eraseItem id) := by
  simp [deleteItem, h, eraseItem]

theorem watch_eq {s : Store} (h : s.watched = none) (file : FileName) :
    s.watch file = .ok ((), { s with watched := some { file } }) := by
  simp [watch, h]

/-! ### Definitions after an update -/

@[simp] theorem definitions_ensureItem (s : Store) (id j : ItemId) :
    (s.ensureItem id).2.definitions j = s.definitions j := by
  simp only [definitions, item?, ensureItem, Table.get?_insertNew]
  by_cases h : j = id ∧ s.items.get? id = none
  · rw [if_pos h, h.1, h.2]
    rfl
  · rw [if_neg h]

theorem definitions_eraseItem {s : Store} {id : ItemId} (h : ¬ s.isDefined id) (j : ItemId) :
    (s.eraseItem id).definitions j = s.definitions j := by
  have hid : s.definitions id = [] := by simpa [isDefined_iff] using h
  by_cases hj : j = id
  · subst hj
    rw [hid]
    simp [definitions, item?, eraseItem, Table.get?_erase]
  · simp [definitions, item?, eraseItem, Table.get?_erase, hj]

theorem definitions_record {s : Store} {id : ItemId} (h : (s.item? id).isSome) (file : FileName)
    (d : Definition) (j : ItemId) :
    (s.record id file d).definitions j =
      if j = id ∧ file ∉ s.definers id then s.definitions j ++ [(file, s.kept id d)]
      else s.definitions j := by
  obtain ⟨item, hitem⟩ := Option.isSome_iff_exists.mp h
  have hget : s.items.get? id = some item := hitem
  have hdef : s.definers id = item.keys := by simp [definers, hitem]
  simp only [definitions, item?, record, Table.get?_update, hdef]
  by_cases hj : j = id
  · subst hj
    by_cases hf : file ∈ item.keys <;> simp [hget, hf, Table.entries_insertNew]
  · simp [hj]

theorem definition?_record {s : Store} {id : ItemId} (h : (s.item? id).isSome)
    (file : FileName) (d : Definition) (j : ItemId) (g : FileName) :
    (s.record id file d).definition? j g =
      if j = id ∧ g = file then (s.definition? j g).or (some (s.kept id d))
      else s.definition? j g := by
  rw [definition?_eq, definitions_record h, definition?_eq]
  by_cases hj : j = id ∧ file ∉ s.definers id
  · rw [if_pos hj, List.find?_append, Option.map_or]
    by_cases hg : g = file
    · simp [hj.1, hg]
    · have hg' : ¬ file = g := fun e => hg e.symm
      simp [hg, hg']
  · rw [if_neg hj]
    by_cases hg : j = id ∧ g = file
    · rw [if_pos hg]
      have hf : g ∈ s.definers j := Classical.byContradiction fun hn =>
        hj ⟨hg.1, by rwa [← hg.1, ← hg.2]⟩
      rw [← isSome_definition?_iff, definition?_eq] at hf
      obtain ⟨d', hd'⟩ := Option.isSome_iff_exists.mp hf
      rw [hd']
      rfl
    · rw [if_neg hg]

theorem definitions_revise (s : Store) (id : ItemId) (file : FileName) (d : Definition)
    (j : ItemId) :
    (s.revise id file d).definitions j =
      if j = id then (s.definitions j).map fun e => if e.1 = file then (e.1, d) else e
      else s.definitions j := by
  simp only [definitions, item?, revise, Table.get?_update]
  by_cases hj : j = id
  · subst hj
    cases s.items.get? j <;> simp [Table.update]
  · simp [hj]

theorem definitions_drop (s : Store) (id : ItemId) (file : FileName) (j : ItemId) :
    (s.drop id file).definitions j =
      if j = id then (s.definitions j).filter (·.1 ≠ file) else s.definitions j := by
  simp only [definitions, item?, drop, Table.get?_update]
  by_cases hj : j = id
  · subst hj
    cases s.items.get? j <;> simp [Table.erase]
  · simp [hj]

/-! ### Definers after an update -/

theorem mem_definers_record {s : Store} {id : ItemId} (h : (s.item? id).isSome)
    (file : FileName) (d : Definition) (j : ItemId) (g : FileName) :
    g ∈ (s.record id file d).definers j ↔ g ∈ s.definers j ∨ j = id ∧ g = file := by
  rw [definers_eq, definitions_record h]
  by_cases hj : j = id ∧ file ∉ s.definers id
  · rw [if_pos hj]
    simp [definers_eq, hj.1]
  · rw [if_neg hj, definers_eq]
    constructor
    · exact Or.inl
    · rintro (hg | ⟨rfl, rfl⟩)
      · exact hg
      · rw [← definers_eq]
        exact Classical.byContradiction fun hg => hj ⟨rfl, hg⟩

theorem definers_revise (s : Store) (id : ItemId) (file : FileName) (d : Definition)
    (j : ItemId) : (s.revise id file d).definers j = s.definers j := by
  rw [definers_eq, definers_eq, definitions_revise]
  by_cases hj : j = id
  · rw [if_pos hj, List.map_map]
    apply List.map_congr_left
    intro e _
    by_cases he : e.1 = file <;> simp [he]
  · rw [if_neg hj]

theorem mem_definers_drop (s : Store) (id : ItemId) (file : FileName) (j : ItemId)
    (g : FileName) :
    g ∈ (s.drop id file).definers j ↔ g ∈ s.definers j ∧ ¬ (j = id ∧ g = file) := by
  rw [definers_eq, definers_eq, definitions_drop]
  by_cases hj : j = id
  · rw [if_pos hj]
    simp [hj]
  · simp [hj]

/-! ### Claims -/

theorem isSome_item?_ensureItem (s : Store) (id j : ItemId) :
    ((s.ensureItem id).2.item? j).isSome ↔ j = id ∨ (s.item? j).isSome := by
  simp only [item?, ensureItem, Table.get?_insertNew]
  by_cases h : j = id ∧ s.items.get? id = none
  · simp [h.1, h.2]
  · rw [if_neg h]
    constructor
    · exact Or.inr
    · rintro (rfl | hj)
      · exact Option.isSome_iff_ne_none.mpr fun hn => h ⟨rfl, hn⟩
      · exact hj

theorem isSome_item?_record (s : Store) (id : ItemId) (file : FileName) (d : Definition)
    (j : ItemId) : ((s.record id file d).item? j).isSome ↔ (s.item? j).isSome := by
  simp only [item?, record, Table.get?_update]
  by_cases h : j = id <;> simp [h]

theorem isSome_item?_claim (s : Store) (id : ItemId) (file : FileName) (d : Definition)
    (j : ItemId) : ((s.claim id file d).2.item? j).isSome ↔ j = id ∨ (s.item? j).isSome := by
  rw [claim, isSome_item?_record, isSome_item?_ensureItem]

theorem definitions_claim (s : Store) (id : ItemId) (file : FileName) (d : Definition)
    (j : ItemId) :
    (s.claim id file d).2.definitions j =
      if j = id ∧ file ∉ s.definers id then s.definitions j ++ [(file, s.kept id d)]
      else s.definitions j := by
  have h : ((s.ensureItem id).2.item? id).isSome := (isSome_item?_ensureItem s id id).mpr (.inl rfl)
  have hk : (s.ensureItem id).2.kept id d = s.kept id d := rfl
  rw [claim, definitions_record h, definers_eq, definitions_ensureItem, ← definers_eq,
    definitions_ensureItem, hk]

theorem mem_definers_claim (s : Store) (id : ItemId) (file : FileName) (d : Definition)
    (j : ItemId) (g : FileName) :
    g ∈ (s.claim id file d).2.definers j ↔ g ∈ s.definers j ∨ j = id ∧ g = file := by
  have h : ((s.ensureItem id).2.item? id).isSome := (isSome_item?_ensureItem s id id).mpr (.inl rfl)
  rw [claim, mem_definers_record h, definers_eq, definitions_ensureItem, ← definers_eq]

theorem definition?_claim_of_ne (s : Store) (id : ItemId) {file g : FileName} (hg : g ≠ file)
    (d : Definition) (j : ItemId) :
    (s.claim id file d).2.definition? j g = s.definition? j g := by
  have h : ((s.ensureItem id).2.item? id).isSome := (isSome_item?_ensureItem s id id).mpr (.inl rfl)
  rw [claim, definition?_record h, if_neg fun e => hg e.2, definition?_eq, definitions_ensureItem,
    ← definition?_eq]

/-- A further definition does not take the place of the authoritative one. -/
theorem authoritative?_claim_of_isDefined {s : Store} {id : ItemId} (h : s.isDefined id)
    (file : FileName) (d : Definition) (j : ItemId) :
    (s.claim id file d).2.authoritative? j = s.authoritative? j := by
  rw [authoritative?_eq, authoritative?_eq, definitions_claim]
  split
  · next hj =>
      rw [isDefined_iff, ← hj.1] at h
      rw [List.head?_append, Option.or_of_isSome (by simpa using h)]
  · rfl

/-- A revision shows in the authoritative definition only if the file gives that one. -/
theorem authoritative?_revise {s : Store} {id : ItemId} {file : FileName} {d : Definition}
    (h : ¬ ((s.revise id file d).authoritative? id).any (·.1 = file)) (j : ItemId) :
    (s.revise id file d).authoritative? j = s.authoritative? j := by
  rw [authoritative?_eq, definitions_revise, if_pos rfl] at h
  rw [authoritative?_eq, authoritative?_eq, definitions_revise]
  split
  · next hj =>
      rw [hj]
      cases hl : s.definitions id with
      | nil => rfl
      | cons e l =>
          have he : e.1 ≠ file := by
            intro he
            simp [hl, he] at h
          simp [he]
  · rfl

/-- The authoritative definition is given by the same file after a revision. -/
theorem any_authoritative?_revise (s : Store) (id : ItemId) (file : FileName) (d : Definition)
    (j : ItemId) (g : FileName) :
    ((s.revise id file d).authoritative? j).any (·.1 = g) = (s.authoritative? j).any (·.1 = g) := by
  have hfirst : ∀ t : Store, (t.authoritative? j).any (·.1 = g) =
      (t.definers j).head?.any (· = g) := by
    intro t
    rw [← map_fst_authoritative?, Option.any_map]
  rw [hfirst, hfirst, definers_revise]

/-! ### Defined items after an update -/

theorem isDefined_congr {s t : Store} {id : ItemId} (h : t.definitions id = s.definitions id) :
    t.isDefined id = s.isDefined id := by
  rw [isDefined, isDefined, definers_eq, definers_eq, h]

theorem isDefined_claim (s : Store) (id : ItemId) (file : FileName) (d : Definition) :
    (s.claim id file d).2.isDefined id :=
  isDefined_of_mem ((mem_definers_claim s id file d id file).mpr (.inr ⟨rfl, rfl⟩))

theorem isDefined_claim_of_ne (s : Store) {id j : ItemId} (h : j ≠ id) (file : FileName)
    (d : Definition) : (s.claim id file d).2.isDefined j = s.isDefined j := by
  apply isDefined_congr
  rw [definitions_claim, if_neg fun e => h e.1]

theorem isDefined_claim_of_isDefined {s : Store} {id : ItemId} (h : s.isDefined id)
    (file : FileName) (d : Definition) (j : ItemId) :
    (s.claim id file d).2.isDefined j = s.isDefined j := by
  by_cases hj : j = id
  · rw [hj, isDefined_claim, h]
  · exact isDefined_claim_of_ne s hj file d

/-- A new definition is the only one of its item if there was none before. -/
theorem claim_first_iff (s : Store) (id : ItemId) (file : FileName) (d : Definition) :
    ((s.claim id file d).1 && decide (((s.claim id file d).2.definers id).length = 1)) =
      !s.isDefined id := by
  have hnew : (s.claim id file d).1 = decide (file ∉ s.definers id) := by
    rw [Bool.eq_iff_iff, decide_eq_true_eq, ← definition?_eq_none_iff, ← Option.isNone_iff_eq_none]
    rfl
  by_cases hf : file ∈ s.definers id
  · have hd : s.isDefined id := isDefined_of_mem hf
    simp [hnew, hf, hd]
  · rw [hnew, definers_eq (s.claim id file d).2, definitions_claim, if_pos ⟨rfl, hf⟩, isDefined,
      decide_eq_true hf, definers_eq]
    cases s.definitions id <;> simp

theorem isDefined_revise (s : Store) (id : ItemId) (file : FileName) (d : Definition)
    (j : ItemId) : (s.revise id file d).isDefined j = s.isDefined j := by
  rw [isDefined, isDefined, definers_revise]

theorem isDefined_drop_of_ne (s : Store) {id j : ItemId} (h : j ≠ id) (file : FileName) :
    (s.drop id file).isDefined j = s.isDefined j := by
  apply isDefined_congr
  rw [definitions_drop, if_neg h]

theorem isSome_item?_revise (s : Store) (id : ItemId) (file : FileName) (d : Definition)
    (j : ItemId) : ((s.revise id file d).item? j).isSome ↔ (s.item? j).isSome := by
  simp only [item?, revise, Table.get?_update]
  by_cases h : j = id <;> simp [h]

theorem isSome_item?_drop (s : Store) (id : ItemId) (file : FileName) (j : ItemId) :
    ((s.drop id file).item? j).isSome ↔ (s.item? j).isSome := by
  simp only [item?, drop, Table.get?_update]
  by_cases h : j = id <;> simp [h]

theorem isSome_item?_eraseItem (s : Store) (id j : ItemId) :
    ((s.eraseItem id).item? j).isSome ↔ j ≠ id ∧ (s.item? j).isSome := by
  simp only [item?, eraseItem, Table.get?_erase]
  by_cases h : j = id <;> simp [h]

/-! ### Listed items after an update -/

theorem mem_index_record (s : Store) (id : ItemId) (file : FileName) (d : Definition)
    (g : FileName) (j : ItemId) :
    j ∈ (s.record id file d).index g ↔ j ∈ s.index g ∨ j = id ∧ g = file := by
  simp only [index, record, Table.get?_upsert]
  by_cases hg : g = file
  · subst hg
    cases s.files.get? g with
    | none => simp [OrderedSet.toList_insert]
    | some ids =>
        have hm := OrderedSet.mem_insert (s := ids) (a := id) (b := j)
        simpa [OrderedSet.mem_def] using hm
  · simp [hg]

theorem index_drop (s : Store) (id : ItemId) (file g : FileName) :
    (s.drop id file).index g =
      if g = file then (s.index g).filter (· ≠ id) else s.index g := by
  simp only [index, drop, Table.get?_update]
  by_cases hg : g = file
  · subst hg
    cases s.files.get? g <;> simp [OrderedSet.erase]
  · simp [hg]

@[simp] theorem index_forgetIfEmpty (s : Store) (file g : FileName) :
    (s.forgetIfEmpty file).index g = s.index g := by
  simp only [forgetIfEmpty]
  by_cases h : (s.files.get? file).any (·.isEmpty)
  · rw [if_pos h]
    simp only [index, Table.get?_erase]
    by_cases hg : g = file
    · subst hg
      cases hf : s.files.get? g with
      | none => simp
      | some ids => simpa [hf, OrderedSet.isEmpty] using h
    · simp [hg]
  · rw [if_neg h]

/-! ## Stores that show the same -/

/-- Two stores show the same. They may still differ in items without definitions and in files
without items. -/
structure Alike (s t : Store) : Prop where
  extensions : t.extensions = s.extensions
  definitions : ∀ id, t.definitions id = s.definitions id
  index : ∀ file, t.index file = s.index file
  watched : t.watched = s.watched

namespace Alike

theorem refl (s : Store) : Alike s s := ⟨rfl, fun _ => rfl, fun _ => rfl, rfl⟩

variable {s t : Store}

theorem definers (h : Alike s t) (id : ItemId) : t.definers id = s.definers id := by
  rw [definers_eq, definers_eq, h.definitions]

theorem isDefined (h : Alike s t) (id : ItemId) : t.isDefined id = s.isDefined id := by
  rw [Store.isDefined, Store.isDefined, h.definers]

theorem definition? (h : Alike s t) (id : ItemId) (file : FileName) :
    t.definition? id file = s.definition? id file := by
  rw [definition?_eq, definition?_eq, h.definitions]

theorem isRich (h : Alike s t) (extension : Nat) : t.isRich extension = s.isRich extension := by
  rw [Store.isRich, Store.isRich, h.extensions]

end Alike

theorem alike_ensureItem (s : Store) (id : ItemId) : Alike s (s.ensureItem id).2 :=
  ⟨rfl, definitions_ensureItem s id, fun _ => rfl, rfl⟩

theorem alike_eraseItem {s : Store} {id : ItemId} (h : ¬ s.isDefined id) :
    Alike s (s.eraseItem id) :=
  ⟨rfl, definitions_eraseItem h, fun _ => rfl, rfl⟩

theorem items_forgetIfEmpty (s : Store) (file : FileName) :
    (s.forgetIfEmpty file).items = s.items := by
  simp only [forgetIfEmpty]
  split <;> rfl

theorem alike_forgetIfEmpty (s : Store) (file : FileName) : Alike s (s.forgetIfEmpty file) := by
  refine ⟨?_, ?_, index_forgetIfEmpty s file, ?_⟩
  all_goals unfold forgetIfEmpty; split <;> first | rfl | exact fun _ => rfl

end Commentary.Store

import Commentary.Proofs.Store.View
import Mathlib.Logic.Relation

/-!
# Consistency

Whatever is done to a store is a sequence of elementary steps. Each of them keeps the two sides
of the store in line: a file is listed with exactly the items that it defines, and an extension
that records only existence holds nothing else.
-/

namespace Commentary.Store

/-- One elementary step of a store, with the condition under which it is taken. -/
inductive Step : Store → Store → Prop where
  | register (s : Store) (e : Extension) : Step s (s.register e)
  | ensureItem (s : Store) (id : ItemId) : Step s (s.ensureItem id).2
  | eraseItem {s : Store} {id : ItemId} (h : ¬ s.isDefined id) : Step s (s.eraseItem id)
  | record {s : Store} {id : ItemId} (file : FileName) (d : Definition)
      (h : (s.item? id).isSome) : Step s (s.record id file d)
  | revise {s : Store} {id : ItemId} {file : FileName} (d : Definition)
      (hr : s.isRich id.extension) (hf : file ∈ s.definers id) : Step s (s.revise id file d)
  | drop {s : Store} {id : ItemId} {file : FileName} (hf : file ∈ s.definers id) :
      Step s (s.drop id file)
  | watch {s : Store} (file : FileName) (h : s.watched = none) :
      Step s { s with watched := some { file } }
  | unwatch (s : Store) : Step s { s with watched := none }
  | forgetIfEmpty (s : Store) (file : FileName) : Step s (s.forgetIfEmpty file)

/-- Any number of elementary steps. -/
abbrev Steps : Store → Store → Prop := Relation.ReflTransGen Step

/-- What files define and what they are listed with agree. -/
structure Consistent (s : Store) : Prop where
  listed : ∀ id file, file ∈ s.definers id ↔ id ∈ s.index file
  bare : ∀ id, ¬ s.isRich id.extension → ∀ e ∈ s.definitions id, e.2 = .bare

theorem consistent_empty : Consistent {} :=
  ⟨fun _ _ => by simp [definers_eq], fun _ _ _ he => by simp at he⟩

theorem Alike.consistent {s t : Store} (h : Alike s t) (hs : s.Consistent) : t.Consistent := by
  refine ⟨fun id file => ?_, fun id hr e he => ?_⟩
  · rw [h.definers, h.index]
    exact hs.listed id file
  · rw [h.isRich] at hr
    rw [h.definitions] at he
    exact hs.bare id hr e he

/-! ## Each step keeps a store consistent -/

theorem isRich_register_of_isRich {s : Store} (e : Extension) {extension : Nat}
    (h : s.isRich extension) : (s.register e).isRich extension := by
  simp only [isRich, register] at *
  cases hx : s.extensions[extension]? with
  | none => simp [hx] at h
  | some x =>
      have hlt : extension < s.extensions.length := by
        rw [List.getElem?_eq_some_iff] at hx
        exact hx.1
      rw [List.getElem?_append_left hlt]
      exact h

theorem consistent_register {s : Store} (h : s.Consistent) (e : Extension) :
    (s.register e).Consistent := by
  refine ⟨h.listed, fun id hr => ?_⟩
  exact h.bare id fun hr' => hr (isRich_register_of_isRich e hr')

theorem consistent_ensureItem {s : Store} (h : s.Consistent) (id : ItemId) :
    (s.ensureItem id).2.Consistent :=
  (alike_ensureItem s id).consistent h

theorem kept_eq_bare {s : Store} {id : ItemId} (h : ¬ s.isRich id.extension) (d : Definition) :
    s.kept id d = .bare := by
  simp [kept, h]

theorem consistent_record {s : Store} (h : s.Consistent) {id : ItemId}
    (hid : (s.item? id).isSome) (file : FileName) (d : Definition) :
    (s.record id file d).Consistent := by
  refine ⟨fun j g => ?_, fun j hr e he => ?_⟩
  · rw [mem_definers_record hid, mem_index_record, h.listed]
  · rw [definitions_record hid] at he
    have hr' : ¬ s.isRich j.extension := hr
    by_cases hj : j = id ∧ file ∉ s.definers id
    · rw [if_pos hj, List.mem_append, List.mem_singleton] at he
      rcases he with he | rfl
      · exact h.bare j hr' e he
      · exact kept_eq_bare (hj.1 ▸ hr') d
    · rw [if_neg hj] at he
      exact h.bare j hr' e he

theorem consistent_revise {s : Store} (h : s.Consistent) {id : ItemId}
    (hr : s.isRich id.extension) (file : FileName) (d : Definition) :
    (s.revise id file d).Consistent := by
  refine ⟨fun j g => ?_, fun j hj e he => ?_⟩
  · rw [definers_revise]
    exact h.listed j g
  · have hne : j ≠ id := fun heq => hj (heq ▸ hr)
    rw [definitions_revise, if_neg hne] at he
    exact h.bare j hj e he

theorem consistent_drop {s : Store} (h : s.Consistent) (id : ItemId) (file : FileName) :
    (s.drop id file).Consistent := by
  refine ⟨fun j g => ?_, fun j hr e he => ?_⟩
  · rw [mem_definers_drop, index_drop, h.listed]
    by_cases hg : g = file <;> simp [hg]
  · rw [definitions_drop] at he
    by_cases hj : j = id
    · rw [if_pos hj] at he
      exact h.bare j hr e (List.mem_filter.mp he).1
    · rw [if_neg hj] at he
      exact h.bare j hr e he

theorem Step.consistent {s t : Store} (h : Step s t) (hs : s.Consistent) : t.Consistent := by
  cases h with
  | register e => exact consistent_register hs e
  | ensureItem id => exact consistent_ensureItem hs id
  | eraseItem h => exact (alike_eraseItem h).consistent hs
  | record file d h => exact consistent_record hs h file d
  | revise d hr hf => exact consistent_revise hs hr _ d
  | drop hf => exact consistent_drop hs _ _
  | watch file h => exact ⟨hs.listed, hs.bare⟩
  | unwatch => exact ⟨hs.listed, hs.bare⟩
  | forgetIfEmpty file => exact (alike_forgetIfEmpty s file).consistent hs

theorem Steps.consistent {s t : Store} (h : Steps s t) (hs : s.Consistent) : t.Consistent := by
  induction h with
  | refl => exact hs
  | tail _ hstep ih => exact hstep.consistent ih

theorem ensureItem_of_isSome {s : Store} {id : ItemId} (h : (s.item? id).isSome) :
    (s.ensureItem id).2 = s := by
  rw [ensureItem, Table.insertNew_of_isSome h]

theorem isSome_item?_of_mem_definers {s : Store} {id : ItemId} {file : FileName}
    (h : file ∈ s.definers id) : (s.item? id).isSome := by
  cases hi : s.item? id with
  | none => simp [definers, hi] at h
  | some item => rfl

/-- A file that defines an item already defines it as before. Its claim is noted, and that is
all. -/
theorem record_of_mem_definers {s : Store} (hs : s.Consistent) {id : ItemId} {file : FileName}
    (h : file ∈ s.definers id) (d : Definition) :
    s.record id file d = { s with watched := s.noteClaim id file (s.kept id d) } := by
  have hdefinition := (isSome_definition?_iff s id file).mpr h
  have hitems : s.items.update id (·.insertNew file (s.kept id d)) = s.items := by
    refine Table.update_eq_self fun item hget => Table.insertNew_of_isSome ?_ _
    rwa [definition?, item?, hget] at hdefinition
  have hindex : id ∈ s.index file := (hs.listed id file).mp h
  have hfiles : s.files.upsert file ∅ (·.insert id) = s.files := by
    cases hf : s.files.get? file with
    | none => simp [index, hf] at hindex
    | some ids =>
        rw [Table.upsert, Table.insertNew_of_isSome (by simp [hf])]
        refine Table.update_eq_self fun ids' hget => OrderedSet.insert_of_mem ?_
        simpa [index, hget, OrderedSet.mem_def] using hindex
  rw [record, hitems, hfiles]

theorem claim_of_mem_definers {s : Store} (hs : s.Consistent) {id : ItemId} {file : FileName}
    (h : file ∈ s.definers id) (d : Definition) :
    (s.claim id file d).2 = { s with watched := s.noteClaim id file (s.kept id d) } := by
  rw [claim, ensureItem_of_isSome (isSome_item?_of_mem_definers h), record_of_mem_definers hs h]

/-! ## Files without definitions -/

/-- The file is known, but it is listed with nothing. -/
def Vacant (s : Store) (file : FileName) : Prop := s.hasFile file ∧ s.index file = []

variable {s s' : Store} {id : ItemId} {file g : FileName}

theorem vacant_record (d : Definition) (h : (s.record id file d).Vacant g) : s.Vacant g := by
  have hg : g ≠ file := by
    rintro rfl
    have hid := (mem_index_record s id g d g id).mpr (.inr ⟨rfl, rfl⟩)
    rw [h.2] at hid
    cases hid
  simpa [Vacant, hasFile, index, record, Table.contains_eq_isSome_get?, Table.get?_upsert, hg]
    using h

theorem vacant_drop (h : (s.drop id file).Vacant g) : g = file ∨ s.Vacant g := by
  by_cases hg : g = file
  · exact .inl hg
  · refine .inr ?_
    simpa [Vacant, hasFile, index, drop, Table.contains_eq_isSome_get?, Table.get?_update, hg]
      using h

theorem vacant_forgetIfEmpty (h : (s.forgetIfEmpty file).Vacant g) : g ≠ file ∧ s.Vacant g := by
  obtain ⟨hknown, hnil⟩ := h
  rw [index_forgetIfEmpty] at hnil
  simp only [hasFile, forgetIfEmpty, Table.contains_eq_isSome_get?] at hknown
  split at hknown
  · rw [Table.get?_erase] at hknown
    by_cases hg : g = file
    · simp [hg] at hknown
    · rw [if_neg hg] at hknown
      exact ⟨hg, by rwa [hasFile, Table.contains_eq_isSome_get?], hnil⟩
  · next hempty =>
      refine ⟨?_, by rwa [hasFile, Table.contains_eq_isSome_get?], hnil⟩
      rintro rfl
      obtain ⟨ids, hids⟩ := Option.isSome_iff_exists.mp hknown
      simp only [index, hids, Option.map_some, Option.getD_some] at hnil
      simp [hids, OrderedSet.isEmpty, hnil] at hempty

theorem forgetIfEmpty_of_not_vacant (h : ¬ s.Vacant file) : s.forgetIfEmpty file = s := by
  rw [forgetIfEmpty, if_neg]
  intro hempty
  cases hids : s.files.get? file with
  | none => simp [hids] at hempty
  | some ids =>
      refine h ⟨by simp [hasFile, Table.contains_eq_isSome_get?, hids], ?_⟩
      simpa [index, hids, OrderedSet.isEmpty] using hempty

theorem hasFile_iff_of_not_vacant {s : Store} (h : s.Consistent) {file : FileName}
    (hv : ¬ s.Vacant file) : s.hasFile file ↔ ∃ id, (s.definition? id file).isSome := by
  constructor
  · intro hf
    obtain ⟨id, hid⟩ := List.exists_mem_of_ne_nil _ fun hnil => hv ⟨hf, hnil⟩
    exact ⟨id, (isSome_definition?_iff s id file).mpr ((h.listed id file).mpr hid)⟩
  · rintro ⟨id, hid⟩
    refine Classical.byContradiction fun hf => ?_
    rw [isSome_definition?_iff, h.listed, index_eq_nil_of_not_hasFile hf] at hid
    cases hid

end Commentary.Store

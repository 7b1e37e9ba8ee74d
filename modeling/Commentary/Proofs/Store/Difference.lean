import Commentary.Proofs.Store.Run
import Mathlib.Data.List.Nodup

/-!
# Differences

An analysis walks an index that it changes on the way, and it calls back into code that changes
the store. As long as its listener leaves alone what files say, this comes to the same as taking
all differences between the definitions and the claims of the watched file beforehand, and then
settling them one after the other.
-/

namespace Commentary

/-- What an analysis does about one definition of the watched file. -/
inductive Difference where
  /-- The file claims something else than it defines. -/
  | changed (id : ItemId) (new : Definition)
  /-- The file does not claim what it defines. -/
  | deleted (id : ItemId)

namespace Difference

variable {σ : Type}

/-- The item whose definition differs. -/
def item : Difference → ItemId
  | changed id _ => id
  | deleted id => id

/-- The definitions of the item afterwards. -/
def apply (file : FileName) :
    Difference → List (FileName × Definition) → List (FileName × Definition)
  | changed _ new, l => l.map fun e => if e.1 = file then (e.1, new) else e
  | deleted _, l => l.filter (·.1 ≠ file)

/-- The store afterwards. -/
def commit (file : FileName) : Difference → Store → Store
  | changed id new, s => s.revise id file new
  | deleted id, s => s.drop id file

/-- The file has the definition that differs, and it may be changed where it is to be. -/
def Valid (file : FileName) (s : Store) : Difference → Prop
  | changed id _ => s.isRich id.extension ∧ file ∈ s.definers id
  | deleted id => file ∈ s.definers id

/-- Settles a difference and tells the listener. -/
def settle (listener : Listener σ) (file : FileName) : Difference → Run σ Unit
  | changed id new => do
    Run.step (·.changeDefinition id file new)
    listener.changed id file
  | deleted id => do
    let wasLast ← Run.step (·.deleteDefinition id file)
    listener.deleted id file wasLast

theorem definitions_commit (file : FileName) (d : Difference) (s : Store) (j : ItemId) :
    (d.commit file s).definitions j =
      if j = d.item then d.apply file (s.definitions j) else s.definitions j := by
  cases d with
  | changed id new => exact Store.definitions_revise s id file new j
  | deleted id => exact Store.definitions_drop s id file j

theorem Valid.mem_definers {file : FileName} {s : Store} {d : Difference}
    (h : d.Valid file s) : file ∈ s.definers d.item := by
  cases d with
  | changed id new => exact h.2
  | deleted id => exact h

theorem Valid.congr {file : FileName} {s t : Store} {d : Difference} (h : d.Valid file s)
    (he : t.extensions = s.extensions) (hd : t.definitions d.item = s.definitions d.item) :
    d.Valid file t := by
  have hm : file ∈ t.definers d.item := by
    rw [Store.definers_eq, hd, ← Store.definers_eq]
    exact h.mem_definers
  cases d with
  | changed id new =>
      have hr : t.isRich id.extension = s.isRich id.extension := by
        rw [Store.isRich, Store.isRich, he]
      exact ⟨hr ▸ h.1, hm⟩
  | deleted id => exact hm

end Difference

namespace Store

variable {σ : Type}

/-- The difference between what the watched file says about an item and what it claims, if there
is one to be settled. -/
def difference? (s : Store) (w : Watch) (id : ItemId) : Option Difference :=
  match w.claims.get? id with
  | some new =>
    if s.isRich id.extension ∧ s.definition? id w.file ≠ some new then some (.changed id new)
    else none
  | none => some (.deleted id)

/-- The differences for the items that the watched file is listed with, the extension that was
registered last first. -/
def differences (s : Store) (w : Watch) : List Difference :=
  s.order.reverse.flatMap fun extension =>
    (s.fileItems w.file extension).filterMap (s.difference? w)

/-- Settles some differences, one after the other. -/
def settleDifferences (listener : Listener σ) (file : FileName) : List Difference → Run σ Unit
  | [] => pure ()
  | d :: ds => do
    d.settle listener file
    settleDifferences listener file ds

/-! ## The list of differences -/

theorem item_of_difference?_eq_some {s : Store} {w : Watch} {id : ItemId} {d : Difference}
    (h : s.difference? w id = some d) : d.item = id := by
  simp only [difference?] at h
  split at h
  · split at h
    · cases h
      rfl
    · cases h
  · cases h
    rfl

theorem extension_of_mem_fileItems {s : Store} {file : FileName} {extension : Nat} {id : ItemId}
    (h : id ∈ s.fileItems file extension) : id.extension = extension := by
  rw [fileItems_eq] at h
  simpa using (List.mem_filter.mp h).2

theorem extension_of_mem_filterMap {s : Store} {w : Watch} {extension : Nat} {d : Difference}
    (h : d ∈ (s.fileItems w.file extension).filterMap (s.difference? w)) :
    d.item.extension = extension := by
  obtain ⟨id, hid, hd⟩ := List.mem_filterMap.mp h
  rw [item_of_difference?_eq_some hd]
  exact extension_of_mem_fileItems hid

theorem difference?_eq_deleted_iff {s : Store} {w : Watch} {id : ItemId} :
    s.difference? w id = some (.deleted id) ↔ w.claims.get? id = none := by
  simp only [difference?]
  cases w.claims.get? id with
  | none => simp
  | some new =>
      simp only [reduceCtorEq, iff_false]
      intro h
      split at h <;> cases h

theorem difference?_eq_changed_iff {s : Store} {w : Watch} {id : ItemId} {new : Definition} :
    s.difference? w id = some (.changed id new) ↔
      w.claims.get? id = some new ∧ s.isRich id.extension ∧
        s.definition? id w.file ≠ some new := by
  simp only [difference?]
  cases w.claims.get? id with
  | none => simp
  | some claimed =>
      simp only [Option.some.injEq]
      constructor
      · intro h
        split at h
        · next hr =>
            cases h
            exact ⟨rfl, hr⟩
        · cases h
      · rintro ⟨rfl, hr⟩
        rw [if_pos hr]

/-- A file that claims what it says gives no difference. -/
theorem difference?_eq_none {s : Store} {w : Watch} {id : ItemId} {d : Definition}
    (hclaim : w.claims.get? id = some d) (hd : s.definition? id w.file = some d) :
    s.difference? w id = none := by
  simp only [difference?, hclaim]
  exact if_neg fun h => h.2 hd

theorem mem_differences {s : Store} (hs : s.Consistent) {w : Watch} {d : Difference} :
    d ∈ s.differences w ↔
      d.item.extension < s.extensions.length ∧ w.file ∈ s.definers d.item ∧
        s.difference? w d.item = some d := by
  simp only [differences, List.mem_flatMap, List.mem_filterMap, fileItems_eq, List.mem_filter,
    List.mem_reverse, order, List.mem_range, decide_eq_true_eq]
  constructor
  · rintro ⟨extension, hlt, id, ⟨hid, rfl⟩, hd⟩
    obtain rfl := item_of_difference?_eq_some hd
    exact ⟨hlt, (hs.listed _ _).mpr hid, hd⟩
  · rintro ⟨hlt, hid, hd⟩
    exact ⟨_, hlt, d.item, ⟨(hs.listed _ _).mp hid, rfl⟩, hd⟩

theorem deleted_mem_differences {s : Store} (hs : s.Consistent) {w : Watch} {id : ItemId} :
    .deleted id ∈ s.differences w ↔
      id.extension < s.extensions.length ∧ w.file ∈ s.definers id ∧
        w.claims.get? id = none := by
  rw [mem_differences hs, Difference.item, difference?_eq_deleted_iff]

theorem changed_mem_differences {s : Store} (hs : s.Consistent) {w : Watch} {id : ItemId}
    {new : Definition} :
    .changed id new ∈ s.differences w ↔
      id.extension < s.extensions.length ∧ w.file ∈ s.definers id ∧
        w.claims.get? id = some new ∧ s.isRich id.extension ∧
          s.definition? id w.file ≠ some new := by
  rw [mem_differences hs, Difference.item, difference?_eq_changed_iff]

theorem valid_of_mem_differences {s : Store} (hs : s.Consistent) {w : Watch} {d : Difference}
    (h : d ∈ s.differences w) : d.Valid w.file s := by
  cases d with
  | changed id new =>
      obtain ⟨-, hf, -, hr, -⟩ := (changed_mem_differences hs).mp h
      exact ⟨hr, hf⟩
  | deleted id => exact ((deleted_mem_differences hs).mp h).2.1

/-- Each item differs at most once, and the extension that was registered last comes first. -/
theorem pairwise_differences (s : Store) (w : Watch) :
    (s.differences w).Pairwise fun a b =>
      a.item ≠ b.item ∧ b.item.extension ≤ a.item.extension := by
  simp only [differences]
  rw [List.pairwise_flatMap]
  constructor
  · intro extension _
    rw [List.pairwise_filterMap]
    refine List.Pairwise.imp_of_mem ?_ (s.nodup_fileItems w.file extension)
    intro i j hi hj hne a ha b hb
    obtain rfl := item_of_difference?_eq_some ha
    obtain rfl := item_of_difference?_eq_some hb
    have hi := extension_of_mem_fileItems hi
    have hj := extension_of_mem_fileItems hj
    exact ⟨hne, by omega⟩
  · have hr : s.order.reverse.Pairwise (· > ·) := by
      rw [List.pairwise_reverse]
      exact List.pairwise_lt_range
    refine hr.imp ?_
    intro e f hef a ha b hb
    have hea := extension_of_mem_filterMap ha
    have hfb := extension_of_mem_filterMap hb
    refine ⟨fun heq => ?_, by omega⟩
    rw [heq, hfb] at hea
    omega

/-! ## Listeners that leave alone what files say -/

/-- The second store differs from the first at most in the items for which `P` holds. -/
structure SameBut (P : ItemId → Prop) (s t : Store) : Prop where
  extensions : t.extensions = s.extensions
  definitions : ∀ id, ¬ P id → t.definitions id = s.definitions id
  fileItems : ∀ file extension, (∀ id, P id → id.extension ≠ extension) →
    t.fileItems file extension = s.fileItems file extension

namespace SameBut

variable {P Q : ItemId → Prop} {s t u : Store}

theorem refl (P : ItemId → Prop) (s : Store) : SameBut P s s :=
  ⟨rfl, fun _ _ => rfl, fun _ _ _ => rfl⟩

theorem of_alike (P : ItemId → Prop) (h : Alike s t) : SameBut P s t := by
  refine ⟨h.extensions, fun id _ => h.definitions id, fun file extension _ => ?_⟩
  rw [fileItems_eq, fileItems_eq, h.index]

theorem trans (h : SameBut P s t) (k : SameBut P t u) : SameBut P s u :=
  ⟨k.extensions.trans h.extensions,
    fun id hid => (k.definitions id hid).trans (h.definitions id hid),
    fun file e he => (k.fileItems file e he).trans (h.fileItems file e he)⟩

theorem mono (h : SameBut P s t) (hPQ : ∀ id, P id → Q id) : SameBut Q s t :=
  ⟨h.extensions, fun id hid => h.definitions id fun hp => hid (hPQ id hp),
    fun file e he => h.fileItems file e fun id hp => he id (hPQ id hp)⟩

theorem difference?_eq (h : SameBut P s t) (w : Watch) {id : ItemId} (hid : ¬ P id) :
    t.difference? w id = s.difference? w id := by
  simp only [difference?]
  rw [definition?_eq, definition?_eq, h.definitions id hid, isRich, isRich, h.extensions]

end SameBut

theorem sameBut_commit (file : FileName) (d : Difference) (s : Store) :
    SameBut (· = d.item) s (d.commit file s) := by
  refine ⟨?_, fun id hid => ?_, fun g extension he => ?_⟩
  · cases d <;> rfl
  · rw [Difference.definitions_commit, if_neg hid]
  · cases d with
    | changed id new => rfl
    | deleted id =>
        have hid : id.extension ≠ extension := he id rfl
        rw [fileItems_eq, fileItems_eq, Difference.commit, index_drop]
        split
        · rw [List.filter_filter]
          apply List.filter_congr
          intro j _
          by_cases hj : j.extension = extension
          · have hne : j ≠ id := fun heq => hid (heq ▸ hj)
            simp [hj, hne]
          · simp [hj]
        · rfl

end Store

/-! ## Listeners -/

/-- What a listener hears of. -/
inductive Event where
  | changed (id : ItemId) (file : FileName)
  | deleted (id : ItemId) (file : FileName) (wasLast : Bool)

namespace Event

/-- The item that an event is about. -/
def item : Event → ItemId
  | changed id _ => id
  | deleted id _ _ => id

/-- The event for a difference of a file. -/
def ofDifference (file : FileName) (s : Store) : Difference → Event
  | .changed id _ => changed id file
  | .deleted id => deleted id file !(s.drop id file).isDefined id

theorem item_ofDifference (file : FileName) (s : Store) (d : Difference) :
    (ofDifference file s d).item = d.item := by
  cases d <;> rfl

theorem ofDifference_congr {file : FileName} {s t : Store} {d : Difference}
    (h : t.definitions d.item = s.definitions d.item) :
    ofDifference file t d = ofDifference file s d := by
  cases d with
  | changed id new => rfl
  | deleted id =>
      have hd : (t.drop id file).definitions id = (s.drop id file).definitions id := by
        have h : t.definitions id = s.definitions id := h
        rw [Store.definitions_drop, Store.definitions_drop, h]
      simp only [ofDifference, Store.isDefined, Store.definers_eq, hd]

end Event

namespace Listener

variable {σ : Type}

/-- Tells a listener of an event. -/
def hear (l : Listener σ) : Event → Run σ Unit
  | .changed id file => l.changed id file
  | .deleted id file wasLast => l.deleted id file wasLast

/-- The listener changes nothing that a store shows, whatever else it does and whether it fails
or not. It may delete an item that has just lost its last definition. -/
structure Harmless (l : Listener σ) : Prop where
  changed : ∀ id file t, Store.Alike t.store ((l.changed id file).exec t).2.store
  deleted : ∀ id file t,
    Store.Alike t.store ((l.deleted id file !(t.store.isDefined id)).exec t).2.store

end Listener

/-- A valid difference is settled and its event is told. -/
theorem Difference.exec_settle_of_valid {σ : Type} (l : Listener σ) {file : FileName}
    {d : Difference} {t : Tracked σ} (h : d.Valid file t.store) :
    (d.settle l file).exec t =
      (l.hear (.ofDifference file t.store d)).exec { t with store := d.commit file t.store } := by
  cases d with
  | changed id new =>
      exact Run.exec_bind_ok (Run.exec_step_ok (Store.changeDefinition_eq new h.1 h.2)) _
  | deleted id => exact Run.exec_bind_ok (Run.exec_step_ok (Store.deleteDefinition_eq h)) _

namespace Store

variable {σ : Type} {l : Listener σ}

theorem sameBut_settle (hl : l.Harmless) (file : FileName) (d : Difference) (t : Tracked σ) :
    SameBut (· = d.item) t.store ((d.settle l file).exec t).2.store := by
  cases d with
  | changed id new =>
      simp only [Difference.settle]
      cases hc : t.store.changeDefinition id file new with
      | error v =>
          rw [Run.exec_bind_error (Run.exec_step_error hc)]
          exact .refl _ _
      | ok r =>
          obtain ⟨-, -, hr⟩ := of_changeDefinition_eq_ok hc
          rw [Run.exec_bind_ok (Run.exec_step_ok hc), hr]
          exact (sameBut_commit file (.changed id new) t.store).trans
            (.of_alike _ (hl.changed id file ⟨t.store.revise id file new, t.derived⟩))
  | deleted id =>
      simp only [Difference.settle]
      cases hc : t.store.deleteDefinition id file with
      | error v =>
          rw [Run.exec_bind_error (Run.exec_step_error hc)]
          exact .refl _ _
      | ok r =>
          obtain ⟨b, s⟩ := r
          obtain ⟨-, rfl, rfl⟩ := of_deleteDefinition_eq_ok hc
          rw [Run.exec_bind_ok (Run.exec_step_ok hc)]
          exact (sameBut_commit file (.deleted id) t.store).trans
            (.of_alike _ (hl.deleted id file ⟨t.store.drop id file, t.derived⟩))

theorem sameBut_settleDifferences (hl : l.Harmless) (file : FileName) (ds : List Difference)
    (t : Tracked σ) :
    SameBut (fun id => ∃ d ∈ ds, id = d.item) t.store
      ((settleDifferences l file ds).exec t).2.store := by
  induction ds generalizing t with
  | nil => exact .refl _ _
  | cons d ds ih =>
      have hd : SameBut (fun id => ∃ e ∈ d :: ds, id = e.item) t.store _ :=
        (sameBut_settle hl file d t).mono fun id hid => ⟨d, by simp, hid⟩
      simp only [settleDifferences]
      rw [Run.exec_bind]
      rcases hr : (d.settle l file).exec t with ⟨v | _, t'⟩
      · rw [hr] at hd
        exact hd
      · rw [hr] at hd
        refine hd.trans ((ih t').mono ?_)
        rintro id ⟨e, he, rfl⟩
        exact ⟨e, by simp [he], rfl⟩

theorem exec_settleDifferences_append (file : FileName) (ds es : List Difference)
    (t : Tracked σ) :
    (settleDifferences l file (ds ++ es)).exec t =
      (settleDifferences l file ds >>= fun _ => settleDifferences l file es).exec t := by
  induction ds generalizing t with
  | nil => rfl
  | cons d ds ih =>
      rw [List.cons_append, settleDifferences, Run.exec_bind, Run.exec_bind, settleDifferences,
        Run.exec_bind]
      rcases (d.settle l file).exec t with ⟨v | _, t'⟩
      · rfl
      · simp only
        rw [ih, Run.exec_bind]

/-! ## The analysis settles the differences -/

theorem exec_settle (w : Watch) (id : ItemId) (t : Tracked σ) :
    (settle l w id).exec t =
      (settleDifferences l w.file (t.store.difference? w id).toList).exec t := by
  have hsettle : ∀ d : Difference, (settleDifferences l w.file [d]).exec t =
      (d.settle l w.file).exec t := by
    intro d
    rw [settleDifferences, Run.exec_bind]
    rcases (d.settle l w.file).exec t with ⟨v | _, t'⟩ <;> rfl
  simp only [settle, difference?]
  rw [Run.exec_bind, Run.exec_store]
  cases hc : w.claims.get? id with
  | none => exact (hsettle (.deleted id)).symm
  | some new =>
      by_cases h : t.store.isRich id.extension ∧ t.store.definition? id w.file ≠ some new
      · simp only [if_pos h]
        exact (hsettle (.changed id new)).symm
      · simp only [if_neg h]
        rfl

theorem exec_settleAll (hl : l.Harmless) (w : Watch) {ids : List ItemId} (hn : ids.Nodup)
    (t : Tracked σ) :
    (settleAll l w ids).exec t =
      (settleDifferences l w.file (ids.filterMap (t.store.difference? w))).exec t := by
  induction ids generalizing t with
  | nil => rfl
  | cons id ids ih =>
      obtain ⟨hid, hn⟩ := List.nodup_cons.mp hn
      have hsplit : (id :: ids).filterMap (t.store.difference? w) =
          (t.store.difference? w id).toList ++ ids.filterMap (t.store.difference? w) := by
        rw [List.filterMap_cons]
        cases t.store.difference? w id <;> rfl
      have hsame := sameBut_settleDifferences hl w.file (t.store.difference? w id).toList t
      rw [hsplit, exec_settleDifferences_append, settleAll, Run.exec_bind, Run.exec_bind,
        exec_settle]
      rcases hr : (settleDifferences l w.file (t.store.difference? w id).toList).exec t
        with ⟨v | _, t'⟩
      · rfl
      · rw [hr] at hsame
        simp only
        rw [ih hn t']
        -- What was settled before concerns another item than those that follow.
        have hcongr : ids.filterMap (t'.store.difference? w) =
            ids.filterMap (t.store.difference? w) := by
          apply List.filterMap_congr
          intro j hj
          apply hsame.difference?_eq
          rintro ⟨d, hd, rfl⟩
          have hitem := item_of_difference?_eq_some (Option.mem_toList.mp hd)
          exact hid (hitem ▸ hj)
        rw [hcongr]

theorem exec_settleExtensions (hl : l.Harmless) (w : Watch) {extensions : List Nat}
    (hn : extensions.Nodup) (t : Tracked σ) :
    (settleExtensions l w extensions).exec t =
      (settleDifferences l w.file (extensions.flatMap fun extension =>
        (t.store.fileItems w.file extension).filterMap (t.store.difference? w))).exec t := by
  induction extensions generalizing t with
  | nil => rfl
  | cons extension extensions ih =>
      obtain ⟨hext, hn⟩ := List.nodup_cons.mp hn
      rw [settleExtensions, Run.exec_bind, Run.exec_store]
      by_cases hf : t.store.hasFile w.file
      · simp only [if_pos hf]
        have hids := t.store.nodup_fileItems w.file extension
        have hsame := sameBut_settleDifferences hl w.file
          ((t.store.fileItems w.file extension).filterMap (t.store.difference? w)) t
        rw [List.flatMap_cons, exec_settleDifferences_append, Run.exec_bind, Run.exec_bind,
          exec_settleAll hl w hids]
        rcases hr : (settleDifferences l w.file
          ((t.store.fileItems w.file extension).filterMap (t.store.difference? w))).exec t
          with ⟨v | _, t'⟩
        · rfl
        · rw [hr] at hsame
          simp only
          rw [ih hn t']
          -- What was settled before concerns another extension than those that follow.
          have htouched : ∀ id, (∃ d ∈ (t.store.fileItems w.file extension).filterMap
              (t.store.difference? w), id = d.item) → id.extension = extension := by
            rintro id ⟨d, hd, rfl⟩
            exact extension_of_mem_filterMap hd
          have hcongr : ∀ e ∈ extensions,
              (t'.store.fileItems w.file e).filterMap (t'.store.difference? w) =
                (t.store.fileItems w.file e).filterMap (t.store.difference? w) := by
            intro e he
            have hne : extension ≠ e := fun heq => hext (heq ▸ he)
            rw [hsame.fileItems w.file e fun id hid => htouched id hid ▸ hne]
            apply List.filterMap_congr
            intro j hj
            apply hsame.difference?_eq
            exact fun hid => hne ((htouched j hid).symm.trans (extension_of_mem_fileItems hj))
          rw [List.flatMap_congr hcongr]
      · -- A file that is not known is listed with nothing, so nothing is left to be settled.
        simp only [if_neg hf]
        have hnil : ∀ e, t.store.fileItems w.file e = [] := by
          intro e
          rw [fileItems_eq, index_eq_nil_of_not_hasFile hf]
          rfl
        have hds : (extension :: extensions).flatMap (fun e =>
            (t.store.fileItems w.file e).filterMap (t.store.difference? w)) = [] := by
          rw [List.flatMap_eq_nil_iff]
          intro e _
          rw [hnil]
          rfl
        rw [hds]
        rfl

theorem exec_analyze (hl : l.Harmless) {t : Tracked σ} {w : Watch}
    (hw : t.store.watched = some w) :
    (analyze l).exec t =
      (settleDifferences l w.file (t.store.differences w) >>= fun _ =>
        Run.change (·.forgetIfEmpty w.file)).exec
        { t with store := { t.store with watched := none } } := by
  have hn : t.store.order.reverse.Nodup := by
    rw [List.nodup_reverse]
    exact List.nodup_range
  rw [exec_analyze_of_watched l hw, Run.exec_bind, exec_settleExtensions hl w hn, Run.exec_bind]
  rfl

section Unchanged

variable (l : Listener σ) {t : Tracked σ} {w : Watch}

theorem exec_settleAll_of_unchanged {ids : List ItemId}
    (h : ∀ id ∈ ids, t.store.difference? w id = none) :
    (settleAll l w ids).exec t = (.ok (), t) := by
  induction ids with
  | nil => rfl
  | cons id ids ih =>
      obtain ⟨hid, hids⟩ := List.forall_mem_cons.mp h
      have hsettle : (settle l w id).exec t = (.ok (), t) := by
        rw [exec_settle, hid]
        rfl
      rw [settleAll, Run.exec_bind_ok hsettle]
      exact ih hids

theorem exec_settleExtensions_of_unchanged (extensions : List Nat)
    (h : ∀ id ∈ t.store.index w.file, t.store.difference? w id = none) :
    (settleExtensions l w extensions).exec t = (.ok (), t) := by
  have hids : ∀ extension, ∀ id ∈ t.store.fileItems w.file extension,
      t.store.difference? w id = none := by
    intro extension id hid
    rw [fileItems_eq] at hid
    exact h id (List.mem_filter.mp hid).1
  induction extensions with
  | nil => rfl
  | cons extension extensions ih =>
      rw [settleExtensions, Run.exec_bind, Run.exec_store]
      by_cases hf : t.store.hasFile w.file
      · simp only [if_pos hf]
        rw [Run.exec_bind_ok (exec_settleAll_of_unchanged l (hids extension)), ih]
      · simp only [if_neg hf]
        rfl

/-- An analysis without differences tells its listener nothing, whatever the listener would do,
and only ends the watch. -/
theorem exec_analyze_of_unchanged (hw : t.store.watched = some w)
    (h : ∀ id ∈ t.store.index w.file, t.store.difference? w id = none)
    (hvacant : ¬ t.store.Vacant w.file) :
    (analyze l).exec t = (.ok (), { t with store := { t.store with watched := none } }) := by
  let s : Store := { t.store with watched := none }
  have hsettle : (settleExtensions l w t.store.order.reverse).exec ⟨s, t.derived⟩ =
      (.ok (), ⟨s, t.derived⟩) := exec_settleExtensions_of_unchanged l _ h
  have hkept : s.forgetIfEmpty w.file = s := forgetIfEmpty_of_not_vacant hvacant
  rw [exec_analyze_of_watched l hw, Run.exec_bind_ok hsettle, Run.exec_change, hkept]

end Unchanged

/-! ## Analyses that succeed -/

/-- What has become of a store whose differences are settled. -/
structure Settled (file : FileName) (ds : List Difference) (s t : Store) : Prop where
  extensions : t.extensions = s.extensions
  definitions : ∀ d ∈ ds, t.definitions d.item = d.apply file (s.definitions d.item)
  others : ∀ id, (∀ d ∈ ds, d.item ≠ id) → t.definitions id = s.definitions id

theorem settled_nil (file : FileName) (s : Store) : Settled file [] s s :=
  ⟨rfl, fun _ hd => absurd hd List.not_mem_nil, fun _ _ => rfl⟩

theorem Settled.cons {file : FileName} {d : Difference} {ds : List Difference} {s t u : Store}
    (ha : Alike (d.commit file s) t) (hd : ∀ e ∈ ds, e.item ≠ d.item)
    (h : Settled file ds t u) : Settled file (d :: ds) s u := by
  have hsame := sameBut_commit file d s
  have hstep : ∀ id, id ≠ d.item → t.definitions id = s.definitions id := fun id hid =>
    (ha.definitions id).trans (hsame.definitions id hid)
  refine ⟨?_, ?_, ?_⟩
  · rw [h.extensions, ha.extensions, hsame.extensions]
  · intro e he
    rcases List.mem_cons.mp he with rfl | he
    · rw [h.others e.item hd, ha.definitions, Difference.definitions_commit, if_pos rfl]
    · rw [h.definitions e he, hstep e.item (hd e he)]
  · intro id hid
    have hne : id ≠ d.item := fun heq => hid d (by simp) heq.symm
    rw [h.others id fun e he => hid e (by simp [he]), hstep id hne]

theorem Settled.of_alike {file : FileName} {ds : List Difference} {s t u : Store}
    (h : Settled file ds s t) (ha : Alike t u) : Settled file ds s u :=
  ⟨ha.extensions.trans h.extensions, fun d hd => (ha.definitions d.item).trans (h.definitions d hd),
    fun id hid => (ha.definitions id).trans (h.others id hid)⟩

/-- Differences that are valid at the start are settled without a failure if the listener takes
each of them, and what the listener keeps from one to the next holds in the end. The predicate
reads the differences that are settled so far. -/
theorem settleDifferences_ok {file : FileName} {P : List Difference → Tracked σ → Prop}
    {ds : List Difference} {t : Tracked σ} (hn : ds.Pairwise fun a b => a.item ≠ b.item)
    (hv : ∀ d ∈ ds, d.Valid file t.store) {done : List Difference} (h0 : P done t)
    (hstep : ∀ done d u, d ∈ ds → d.Valid file u.store →
      u.store.definitions d.item = t.store.definitions d.item → P done u →
      ∃ u', (d.settle l file).exec u = (.ok (), u') ∧ Alike (d.commit file u.store) u'.store ∧
        P (done ++ [d]) u') :
    ∃ t', (settleDifferences l file ds).exec t = (.ok (), t') ∧ P (done ++ ds) t' ∧
      t'.store.watched = t.store.watched ∧ Settled file ds t.store t'.store := by
  induction ds generalizing t done with
  | nil => exact ⟨t, rfl, by simpa using h0, rfl, settled_nil file t.store⟩
  | cons d ds ih =>
      obtain ⟨hne, hn⟩ := List.pairwise_cons.mp hn
      obtain ⟨u, hexec, halike, hP⟩ := hstep done d t (by simp) (hv d (by simp)) rfl h0
      have hsame := sameBut_commit file d t.store
      have hrest : ∀ e ∈ ds, u.store.definitions e.item = t.store.definitions e.item := by
        intro e he
        rw [halike.definitions, hsame.definitions e.item (hne e he).symm]
      have hext : u.store.extensions = t.store.extensions :=
        halike.extensions.trans hsame.extensions
      have hwatched : u.store.watched = t.store.watched := by
        rw [halike.watched]
        cases d <;> rfl
      obtain ⟨t', hexec', hP', hwatched', hsettled⟩ := ih hn
        (fun e he => (hv e (by simp [he])).congr hext (hrest e he)) hP
        (fun done e u' he hve hde hPu => hstep done e u' (by simp [he]) hve
          (hde.trans (hrest e he)) hPu)
      refine ⟨t', ?_, by simpa using hP', hwatched'.trans hwatched,
        hsettled.cons halike fun e he => (hne e he).symm⟩
      rw [settleDifferences, Run.exec_bind_ok hexec, hexec']

/-- An analysis of a consistent store succeeds if its listener takes each difference. -/
theorem analyze_ok (hl : l.Harmless) {P : List Difference → Tracked σ → Prop} {t : Tracked σ}
    (hs : t.store.Consistent) {w : Watch} (hw : t.store.watched = some w)
    (h0 : P [] { t with store := { t.store with watched := none } })
    (hstep : ∀ done d u, d ∈ t.store.differences w → d.Valid w.file u.store →
      u.store.definitions d.item = t.store.definitions d.item → P done u →
      ∃ u', (d.settle l w.file).exec u = (.ok (), u') ∧
        Alike (d.commit w.file u.store) u'.store ∧ P (done ++ [d]) u') :
    ∃ t', (analyze l).exec t =
        (.ok (), { t' with store := t'.store.forgetIfEmpty w.file }) ∧
      P (t.store.differences w) t' ∧ t'.store.watched = none ∧
      Settled w.file (t.store.differences w) t.store t'.store := by
  obtain ⟨t', hexec, hP, hwatched, hsettled⟩ := settleDifferences_ok
    (t := ⟨{ t.store with watched := none }, t.derived⟩)
    ((pairwise_differences t.store w).imp And.left)
    (fun d hd => (valid_of_mem_differences hs hd).congr rfl rfl) h0 hstep
  refine ⟨t', ?_, hP, hwatched, hsettled.extensions, hsettled.definitions, hsettled.others⟩
  rw [exec_analyze hl hw, Run.exec_bind_ok hexec, Run.exec_change]

end Store

end Commentary

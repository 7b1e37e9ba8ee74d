import Commentary.Proofs.Store.Difference

/-!
# Watches

While a file is watched, items are ensured and definitions are added, for this file and for
others. The analysis at the end of the watch computes exactly the difference between what the
file defined before and what it claimed: it brings the store in line with the claims, and it
reports every definition that was deleted or changed once and nothing else.
-/

namespace Commentary

/-! ## Calls during a watch -/

/-- A call between the start and the end of a watch. -/
inductive Call where
  | ensure (id : ItemId)
  | add (id : ItemId) (file : FileName) (d : Definition)

namespace Call

variable {σ : Type}

/-- The call on a tracked store. -/
def program : Call → Run σ Unit
  | ensure id => do
    let _ ← Run.step fun s => .ok (s.ensureItem id)
  | add id file d => do
    let _ ← Run.step (·.addDefinition id file d)

/-- Calls one after the other. -/
def programs : List Call → Run σ Unit
  | [] => pure ()
  | c :: cs => do
    c.program
    programs cs

theorem public_programs (cs : List Call) : (programs cs : Run σ Unit).Public := by
  induction cs with
  | nil => exact .pure ()
  | cons c cs ih =>
      refine .bind ?_ fun _ => ih
      cases c with
      | ensure id => exact .bind (.ensureItem id) fun _ => .pure ()
      | add id file d => exact .bind (.addDefinition id file d) fun _ => .pure ()

/-- Definitions are added only for items that are known or were ensured before. -/
def EnsuredFirst : List ItemId → List Call → Prop
  | _, [] => True
  | known, ensure id :: cs => EnsuredFirst (id :: known) cs
  | known, add id _ _ :: cs => id ∈ known ∧ EnsuredFirst known cs

instance decidableEnsuredFirst :
    (known : List ItemId) → (cs : List Call) → Decidable (EnsuredFirst known cs)
  | _, [] => inferInstanceAs (Decidable True)
  | known, ensure id :: cs => decidableEnsuredFirst (id :: known) cs
  | known, add id _ _ :: cs =>
    have := decidableEnsuredFirst known cs
    inferInstanceAs (Decidable (id ∈ known ∧ EnsuredFirst known cs))

/-- What a file says first about an item. -/
def firstClaim? (file : FileName) (id : ItemId) : List Call → Option Definition
  | [] => none
  | ensure _ :: cs => firstClaim? file id cs
  | add j g d :: cs => if j = id ∧ g = file then some d else firstClaim? file id cs

/-- The store after a call. -/
def perform (s : Store) : Call → Store
  | ensure id => (s.ensureItem id).2
  | add id file d => s.record id file d

/-- The store after some calls. -/
def performAll (s : Store) (cs : List Call) : Store := cs.foldl perform s

theorem addDefinition_eq {s : Store} {id : ItemId} (h : (s.item? id).isSome) (file : FileName)
    (d : Definition) :
    ∃ b, s.addDefinition id file d = .ok (b, s.record id file d) := by
  obtain ⟨item, hitem⟩ := Option.isSome_iff_exists.mp h
  exact ⟨!item.contains file, by simp [Store.addDefinition, hitem]⟩

/-- What the watch holds when a claim of a file has been noted. -/
theorem claims_noteClaim {s : Store} {w : Watch} (hw : s.watched = some w) (id : ItemId)
    (file : FileName) (d : Definition) :
    ∃ w', s.noteClaim id file d = some w' ∧ w'.file = w.file ∧
      ∀ j, w'.claims.get? j =
        (w.claims.get? j).or (if id = j ∧ file = w.file then some d else none) := by
  by_cases hf : w.file = file
  · refine ⟨{ w with claims := w.claims.insertNew id d }, ?_, rfl, fun j => ?_⟩
    · simp [Store.noteClaim, hw, hf]
    · simp only [Table.get?_insertNew, hf, and_true]
      by_cases hj : j = id
      · subst hj
        cases w.claims.get? j <;> simp
      · have hj' : ¬ id = j := fun e => hj e.symm
        simp [hj, hj']
  · have hf' : ¬ file = w.file := fun e => hf e.symm
    exact ⟨w, by simp [Store.noteClaim, hw, hf], rfl, fun j => by simp [hf']⟩

/-- Calls that ensure first do not fail. They add the first claims of every file to what it
defines already, and the watch notes those of the watched file. -/
structure Performed (cs : List Call) (s t : Store) : Prop where
  steps : Store.Steps s t
  extensions : t.extensions = s.extensions
  definition? : ∀ id file, t.definition? id file =
    (s.definition? id file).or ((firstClaim? file id cs).map (s.kept id))
  watched : ∀ w, s.watched = some w → ∃ w', t.watched = some w' ∧ w'.file = w.file ∧
    ∀ id, w'.claims.get? id =
      (w.claims.get? id).or ((firstClaim? w.file id cs).map (s.kept id))

theorem performed_nil (s : Store) : Performed [] s s :=
  ⟨.refl, rfl, fun _ _ => by simp [firstClaim?],
    fun w hw => ⟨w, hw, rfl, fun _ => by simp [firstClaim?]⟩⟩

theorem kept_congr {s t : Store} (h : t.extensions = s.extensions) : t.kept = s.kept := by
  funext id d
  rw [Store.kept, Store.kept, Store.isRich, Store.isRich, h]

theorem Performed.ensure {cs : List Call} {s t : Store} (id : ItemId)
    (h : Performed cs (s.ensureItem id).2 t) : Performed (.ensure id :: cs) s t := by
  have ha := Store.alike_ensureItem s id
  have hk : (s.ensureItem id).2.kept = s.kept := kept_congr ha.extensions
  refine ⟨.head (.ensureItem s id) h.steps, h.extensions.trans ha.extensions, ?_, ?_⟩
  · intro j file
    rw [h.definition?, ha.definition?, hk, firstClaim?]
  · intro w hw
    obtain ⟨w', hw', hf, hc⟩ := h.watched w (ha.watched.trans hw)
    refine ⟨w', hw', hf, fun j => ?_⟩
    rw [hc, hk, firstClaim?]

theorem Performed.add {cs : List Call} {s t : Store} {id : ItemId} (hid : (s.item? id).isSome)
    (file : FileName) (d : Definition) (h : Performed cs (s.record id file d) t) :
    Performed (.add id file d :: cs) s t := by
  have hk : (s.record id file d).kept = s.kept := kept_congr rfl
  refine ⟨.head (.record file d hid) h.steps, h.extensions, ?_, ?_⟩
  · intro j g
    rw [h.definition?, Store.definition?_record hid, hk, firstClaim?]
    by_cases hj : j = id ∧ g = file
    · obtain ⟨rfl, rfl⟩ := hj
      simp only [and_self, if_true, Option.map_some]
      cases s.definition? j g <;> simp
    · have hj' : ¬ (id = j ∧ file = g) := fun e => hj ⟨e.1.symm, e.2.symm⟩
      rw [if_neg hj, if_neg hj']
  · intro w hw
    obtain ⟨w₁, hw₁, hf₁, hc₁⟩ := claims_noteClaim hw id file (s.kept id d)
    obtain ⟨w', hw', hf, hc⟩ := h.watched w₁ hw₁
    refine ⟨w', hw', hf.trans hf₁, fun j => ?_⟩
    rw [hc, hc₁, hk, hf₁, firstClaim?]
    by_cases hj : id = j ∧ file = w.file
    · obtain ⟨rfl, rfl⟩ := hj
      simp only [and_self, if_true, Option.map_some]
      cases w.claims.get? id <;> simp
    · rw [if_neg hj, if_neg hj, Option.or_none]

theorem performed_performAll {known : List ItemId} {cs : List Call}
    (hcs : EnsuredFirst known cs) {s : Store} (hs : ∀ id ∈ known, (s.item? id).isSome) :
    Performed cs s (performAll s cs) := by
  induction cs generalizing known s with
  | nil => exact performed_nil s
  | cons c cs ih =>
      cases c with
      | ensure id =>
          refine .ensure id (ih hcs fun j hj => ?_)
          rw [Store.isSome_item?_ensureItem]
          exact (List.mem_cons.mp hj).imp_right (hs j)
      | add id file d =>
          refine .add (hs id hcs.1) file d (ih hcs.2 fun j hj => ?_)
          rw [Store.isSome_item?_record]
          exact hs j hj

theorem exec_programs {known : List ItemId} {cs : List Call} (hcs : EnsuredFirst known cs)
    {t : Tracked σ} (ht : ∀ id ∈ known, (t.store.item? id).isSome) :
    (programs cs).exec t = (.ok (), ⟨performAll t.store cs, t.derived⟩) := by
  induction cs generalizing known t with
  | nil => rfl
  | cons c cs ih =>
      cases c with
      | ensure id =>
          have hc : (program (.ensure id) : Run σ Unit).exec t =
              (.ok (), ⟨(t.store.ensureItem id).2, t.derived⟩) := rfl
          rw [programs, Run.exec_bind_ok hc, ih hcs]
          · rfl
          · intro j hj
            rw [Store.isSome_item?_ensureItem]
            exact (List.mem_cons.mp hj).imp_right (ht j)
      | add id file d =>
          obtain ⟨b, hb⟩ := addDefinition_eq (ht id hcs.1) file d
          have hc : (program (.add id file d) : Run σ Unit).exec t =
              (.ok (), ⟨t.store.record id file d, t.derived⟩) := by
            simp only [program]
            rw [Run.exec_bind_ok (Run.exec_step_ok hb)]
            rfl
          rw [programs, Run.exec_bind_ok hc, ih hcs.2]
          · rfl
          · intro j hj
            rw [Store.isSome_item?_record]
            exact ht j hj

end Call

/-! ## What an analysis leaves behind -/

namespace Difference

/-- What the file says about the item afterwards. -/
def result : Difference → Option Definition
  | changed _ new => some new
  | deleted _ => none

theorem filter_apply (file : FileName) (d : Difference) (l : List (FileName × Definition)) :
    (d.apply file l).filter (·.1 ≠ file) = l.filter (·.1 ≠ file) := by
  cases d with
  | changed id new =>
      simp only [apply]
      induction l with
      | nil => rfl
      | cons e l ih =>
          rw [List.map_cons, List.filter_cons, List.filter_cons, ih]
          by_cases he : e.1 = file <;> simp [he]
  | deleted id =>
      simp only [apply, List.filter_filter, Bool.and_self]

theorem find?_apply_self {file : FileName} {l : List (FileName × Definition)}
    (hf : file ∈ l.map Prod.fst) (d : Difference) :
    ((d.apply file l).find? (·.1 = file)).map Prod.snd = d.result := by
  cases d with
  | changed id new =>
      simp only [apply]
      induction l with
      | nil => simp at hf
      | cons e l ih =>
          rw [List.map_cons, List.find?_cons]
          by_cases he : e.1 = file
          · simp [he, result]
          · have hl : file ∈ l.map Prod.fst := by
              rw [List.map_cons, List.mem_cons] at hf
              exact hf.resolve_left fun h => he h.symm
            simpa [he] using ih hl
  | deleted id =>
      have hn : (l.filter (·.1 ≠ file)).find? (·.1 = file) = none := by
        rw [List.find?_eq_none]
        intro e he
        simpa using (List.mem_filter.mp he).2
      simp only [apply, hn, result, Option.map_none]

/-- The file then says what the difference comes to. -/
theorem definition?_commit_self {file : FileName} {s : Store} (d : Difference)
    (hf : file ∈ s.definers d.item) : (d.commit file s).definition? d.item file = d.result := by
  rw [Store.definers_eq] at hf
  rw [Store.definition?_eq, definitions_commit, if_pos rfl]
  exact find?_apply_self hf d

end Difference

namespace Store

/-- The definitions that other files than one give for an item. -/
def othersOf (s : Store) (file : FileName) (id : ItemId) : List (FileName × Definition) :=
  (s.definitions id).filter (·.1 ≠ file)

theorem definition?_eq_of_othersOf_eq {s t : Store} {file g : FileName} {id : ItemId}
    (h : t.othersOf file id = s.othersOf file id) (hg : g ≠ file) :
    t.definition? id g = s.definition? id g := by
  have hfind : ∀ l : List (FileName × Definition),
      l.find? (·.1 = g) = (l.filter (·.1 ≠ file)).find? (·.1 = g) := by
    intro l
    rw [List.find?_filter]
    congr 1
    funext e
    by_cases he : e.1 = g <;> simp [he, hg]
  simp only [othersOf] at h
  rw [definition?_eq, definition?_eq, hfind, h, ← hfind]

theorem othersOf_commit (file : FileName) (d : Difference) (s : Store) (id : ItemId) :
    (d.commit file s).othersOf file id = s.othersOf file id := by
  rw [othersOf, othersOf, Difference.definitions_commit]
  split
  · exact Difference.filter_apply file d _
  · rfl

/-- The claims of the watched file are definitions that it has by now, and none is richer than
its extension keeps. -/
structure Shadowed (s : Store) (w : Watch) : Prop where
  defined : ∀ id, (w.claims.get? id).isSome → w.file ∈ s.definers id
  bare : ∀ id d, w.claims.get? id = some d → ¬ s.isRich id.extension → d = .bare

variable {s t u : Store} {w : Watch}

/-- A difference brings the watched file to what it has claimed, and it did not say so before. -/
theorem result_of_mem_differences (hs : s.Consistent) {d : Difference} (h : d ∈ s.differences w) :
    w.claims.get? d.item = d.result ∧ s.definition? d.item w.file ≠ d.result := by
  cases d with
  | changed id new =>
      obtain ⟨-, -, hclaim, -, hne⟩ := (changed_mem_differences hs).mp h
      exact ⟨hclaim, hne⟩
  | deleted id =>
      obtain ⟨-, hf, hclaim⟩ := (deleted_mem_differences hs).mp h
      exact ⟨hclaim, fun hnone => (definition?_eq_none_iff _ _ _).mp hnone hf⟩

/-- Once the differences are settled, the watched file defines what it has claimed. -/
theorem Settled.definition?_own (hs : s.Consistent) (hw : s.Shadowed w)
    (h : Settled w.file (s.differences w) s t) {id : ItemId}
    (hid : id.extension < s.extensions.length) :
    t.definition? id w.file = w.claims.get? id := by
  by_cases hd : w.file ∈ s.definers id ∧ ∃ d, s.difference? w id = some d
  · obtain ⟨hf, d, hd⟩ := hd
    obtain rfl := item_of_difference?_eq_some hd
    have hmem : d ∈ s.differences w := (mem_differences hs).mpr ⟨hid, hf, hd⟩
    rw [definers_eq] at hf
    rw [definition?_eq, h.definitions d hmem, Difference.find?_apply_self hf]
    cases d with
    | changed id new => exact (difference?_eq_changed_iff.mp hd).1.symm
    | deleted id => exact (difference?_eq_deleted_iff.mp hd).symm
  · have hsame : t.definition? id w.file = s.definition? id w.file := by
      rw [definition?_eq, definition?_eq, h.others id]
      rintro d hmem rfl
      obtain ⟨-, hf, hd'⟩ := (mem_differences hs).mp hmem
      exact hd ⟨hf, d, hd'⟩
    rw [hsame]
    cases hc : w.claims.get? id with
    | none =>
        rw [definition?_eq_none_iff]
        exact fun hf => hd ⟨hf, .deleted id, difference?_eq_deleted_iff.mpr hc⟩
    | some new =>
        have hf : w.file ∈ s.definers id := hw.defined id (by simp [hc])
        by_cases hr : s.isRich id.extension
        · by_contra hne
          exact hd ⟨hf, .changed id new, difference?_eq_changed_iff.mpr ⟨hc, hr, hne⟩⟩
        · obtain rfl := hw.bare id new hc hr
          obtain ⟨d, hd⟩ := Option.isSome_iff_exists.mp ((isSome_definition?_iff s id _).mpr hf)
          rw [hd]
          rw [definition?_eq] at hd
          obtain ⟨e, he, rfl⟩ := Option.map_eq_some_iff.mp hd
          rw [hs.bare id hr e (List.mem_of_find?_eq_some he)]

theorem Settled.othersOf_eq (h : Settled w.file (s.differences w) s t) (id : ItemId) :
    t.othersOf w.file id = s.othersOf w.file id := by
  simp only [othersOf]
  by_cases hd : ∃ d ∈ s.differences w, d.item = id
  · obtain ⟨d, hd, rfl⟩ := hd
    rw [h.definitions d hd, Difference.filter_apply]
  · rw [h.others id fun d hmem heq => hd ⟨d, hmem, heq⟩]

theorem othersOf_eq_nil_iff {file : FileName} {id : ItemId} :
    s.othersOf file id = [] ↔ ∀ g ∈ s.definers id, g = file := by
  rw [othersOf, List.filter_eq_nil_iff, definers_eq]
  simp

theorem isDefined_drop (s : Store) (id : ItemId) (file : FileName) :
    (s.drop id file).isDefined id ↔ s.othersOf file id ≠ [] := by
  rw [isDefined_iff, definitions_drop, if_pos rfl, othersOf]

end Store

/-! ## What is reported -/

namespace Listener

/-- The listener that notes what it hears. It also deletes some of the items that have lost their
last definition: none, all, or those that it likes. -/
def recorder (prunes : ItemId → Bool) : Listener (List Event) where
  changed id file := modify fun t => { t with derived := t.derived ++ [.changed id file] }
  deleted id file wasLast := do
    modify fun t => { t with derived := t.derived ++ [.deleted id file wasLast] }
    if prunes id && wasLast then
      let _ ← Run.step (·.deleteItem id)

theorem exec_recorder_deleted (prunes : ItemId → Bool) (id : ItemId) (file : FileName)
    (t : Tracked (List Event)) :
    ∃ s, ((recorder prunes).deleted id file !(t.store.isDefined id)).exec t =
        (.ok (), ⟨s, t.derived ++ [.deleted id file !(t.store.isDefined id)]⟩) ∧
      Store.Alike t.store s := by
  by_cases h : prunes id && !(t.store.isDefined id)
  · have hd : ¬ t.store.isDefined id := by
      rw [Bool.and_eq_true] at h
      simpa using h.2
    refine ⟨t.store.eraseItem id, ?_, Store.alike_eraseItem hd⟩
    simp only [recorder]
    rw [Run.exec_bind_ok (Run.exec_modify _ t), if_pos h,
      Run.exec_bind_ok (Run.exec_step_ok (Store.deleteItem_eq hd))]
    rfl
  · refine ⟨t.store, ?_, .refl t.store⟩
    simp only [recorder]
    rw [Run.exec_bind_ok (Run.exec_modify _ t), if_neg h]
    rfl

theorem harmless_recorder (prunes : ItemId → Bool) : (recorder prunes).Harmless := by
  refine ⟨fun id file t => .refl t.store, fun id file t => ?_⟩
  obtain ⟨s, hexec, halike⟩ := exec_recorder_deleted prunes id file t
  rw [hexec]
  exact halike

/-- The recorder takes every valid difference and notes its event. -/
theorem exec_settle_recorder (prunes : ItemId → Bool) {file : FileName} {d : Difference}
    {t : Tracked (List Event)} (h : d.Valid file t.store) :
    ∃ s, (d.settle (recorder prunes) file).exec t =
        (.ok (), ⟨s, t.derived ++ [.ofDifference file t.store d]⟩) ∧
      Store.Alike (d.commit file t.store) s := by
  rw [Difference.exec_settle_of_valid _ h]
  cases d with
  | changed id new => exact ⟨t.store.revise id file new, rfl, .refl _⟩
  | deleted id => exact exec_recorder_deleted prunes id file ⟨t.store.drop id file, t.derived⟩

end Listener

/-! ## The watch computes the difference -/

namespace Store

/-- What the analysis of a watched file leaves behind and reports, for a store `s` before the
watch, `mid` after the calls, and `t` after the analysis. -/
structure ExactDifference (file : FileName) (cs : List Call) (s mid t : Store)
    (events : List Event) : Prop where
  watched : t.watched = none
  /-- The file defines what it claimed, in the way that it claimed first. -/
  own : ∀ id, id.extension < s.extensions.length →
    t.definition? id file = (Call.firstClaim? file id cs).map (s.kept id)
  /-- Nothing happens to what other files say, nor to its order. -/
  others : ∀ id, t.othersOf file id = mid.othersOf file id
  once : events.Nodup
  deleted : ∀ id g (wasLast : Bool), .deleted id g wasLast ∈ events ↔
    g = file ∧ id.extension < s.extensions.length ∧ (s.definition? id file).isSome ∧
      Call.firstClaim? file id cs = none ∧ (wasLast ↔ ∀ h ∈ mid.definers id, h = file)
  changed : ∀ id g, .changed id g ∈ events ↔
    g = file ∧ s.isRich id.extension ∧ ∃ old new, s.definition? id file = some old ∧
      Call.firstClaim? file id cs = some new ∧ new ≠ old
  ordered : events.Pairwise fun a b => b.item.extension ≤ a.item.extension

theorem kept_of_isRich {s : Store} {id : ItemId} (h : s.isRich id.extension) (d : Definition) :
    s.kept id d = d := by
  simp [kept, h]

theorem lt_of_isRich {s : Store} {extension : Nat} (h : s.isRich extension) :
    extension < s.extensions.length := by
  simp only [isRich] at h
  cases hx : s.extensions[extension]? with
  | none => simp [hx] at h
  | some x => exact (List.getElem?_eq_some_iff.mp hx).1

/-- A watch of a file that began in a store `s` has come to a store `mid` by some calls. -/
structure Watched (file : FileName) (cs : List Call) (s mid : Store)
    (claims : Table ItemId Definition) : Prop where
  performed : Call.Performed cs { s with watched := some { file } } mid
  consistent : mid.Consistent
  watched : mid.watched = some ⟨file, claims⟩
  claims : ∀ id, claims.get? id = (Call.firstClaim? file id cs).map (s.kept id)

theorem exists_watched {s : Store} (hs : s.Consistent) (file : FileName) {cs : List Call}
    (hcs : Call.EnsuredFirst s.items.keys cs) :
    ∃ claims,
      Watched file cs s (Call.performAll { s with watched := some { file } } cs) claims := by
  have hp : Call.Performed cs { s with watched := some { file } } _ :=
    Call.performed_performAll hcs fun id hid => Table.isSome_get?_iff.mpr hid
  obtain ⟨⟨_, claims⟩, hwatched, rfl, hclaims⟩ := hp.watched { file } rfl
  refine ⟨claims, hp, Steps.consistent hp.steps ⟨hs.listed, hs.bare⟩, hwatched, fun id => ?_⟩
  rw [hclaims]
  rfl

section

variable {file : FileName} {cs : List Call} {s mid : Store} {claims : Table ItemId Definition}

theorem Watched.definition? (h : Watched file cs s mid claims) (id : ItemId) (g : FileName) :
    mid.definition? id g =
      (s.definition? id g).or ((Call.firstClaim? g id cs).map (s.kept id)) :=
  h.performed.definition? id g

theorem Watched.extensions (h : Watched file cs s mid claims) : mid.extensions = s.extensions :=
  h.performed.extensions

theorem Watched.shadowed (h : Watched file cs s mid claims) : mid.Shadowed ⟨file, claims⟩ := by
  refine ⟨fun id hid => ?_, fun id d hd hr => ?_⟩
  · rw [h.claims] at hid
    obtain ⟨d, hd⟩ := Option.isSome_iff_exists.mp hid
    rw [← isSome_definition?_iff, h.definition?, hd]
    simp
  · rw [h.claims] at hd
    obtain ⟨new, -, rfl⟩ := Option.map_eq_some_iff.mp hd
    rw [isRich, h.extensions] at hr
    exact kept_eq_bare hr new

theorem Watched.mem_events_deleted (h : Watched file cs s mid claims) (id : ItemId)
    (g : FileName) (wasLast : Bool) :
    .deleted id g wasLast ∈
        (mid.differences ⟨file, claims⟩).map (Event.ofDifference file mid) ↔
      g = file ∧ id.extension < s.extensions.length ∧ (s.definition? id file).isSome ∧
        Call.firstClaim? file id cs = none ∧ (wasLast ↔ ∀ h ∈ mid.definers id, h = file) := by
  have hlast : ∀ b : Bool, ((!(mid.drop id file).isDefined id) = b) ↔
      (b ↔ ∀ h ∈ mid.definers id, h = file) := by
    intro b
    have hd := isDefined_drop mid id file
    rw [← othersOf_eq_nil_iff]
    by_cases hn : mid.othersOf file id = []
    · have hx : (mid.drop id file).isDefined id = false := by simpa [hn] using hd
      cases b <;> simp [hn, hx]
    · have hx : (mid.drop id file).isDefined id = true := hd.mpr hn
      cases b <;> simp [hn, hx]
  have hmem : .deleted id ∈ mid.differences ⟨file, claims⟩ ↔ id.extension < s.extensions.length ∧
      (s.definition? id file).isSome ∧ Call.firstClaim? file id cs = none := by
    rw [deleted_mem_differences h.consistent, h.extensions, ← isSome_definition?_iff,
      h.definition?, h.claims, Option.map_eq_none_iff]
    cases Call.firstClaim? file id cs <;> simp
  rw [List.mem_map]
  constructor
  · rintro ⟨d, hd, he⟩
    cases d with
    | changed j new => cases he
    | deleted j =>
        simp only [Event.ofDifference, Event.deleted.injEq] at he
        obtain ⟨rfl, rfl, hb⟩ := he
        obtain ⟨hext, hdef, hfirst⟩ := hmem.mp hd
        exact ⟨rfl, hext, hdef, hfirst, (hlast wasLast).mp hb⟩
  · rintro ⟨rfl, hext, hdef, hfirst, hb⟩
    refine ⟨.deleted id, hmem.mpr ⟨hext, hdef, hfirst⟩, ?_⟩
    rw [Event.ofDifference, (hlast wasLast).mpr hb]

theorem Watched.mem_events_changed (h : Watched file cs s mid claims) (id : ItemId)
    (g : FileName) :
    .changed id g ∈ (mid.differences ⟨file, claims⟩).map (Event.ofDifference file mid) ↔
      g = file ∧ s.isRich id.extension ∧ ∃ old new, s.definition? id file = some old ∧
        Call.firstClaim? file id cs = some new ∧ new ≠ old := by
  have hrich : mid.isRich id.extension = s.isRich id.extension := by
    rw [isRich, isRich, h.extensions]
  rw [List.mem_map]
  constructor
  · rintro ⟨d, hd, he⟩
    cases d with
    | deleted j => cases he
    | changed j new =>
        simp only [Event.ofDifference, Event.changed.injEq] at he
        obtain ⟨rfl, rfl⟩ := he
        obtain ⟨-, -, hclaim, hr, hne⟩ := (changed_mem_differences h.consistent).mp hd
        rw [hrich] at hr
        rw [h.claims] at hclaim
        obtain ⟨first, hfirst, hkept⟩ := Option.map_eq_some_iff.mp hclaim
        rw [kept_of_isRich hr] at hkept
        subst hkept
        rw [h.definition?, hfirst, Option.map_some, kept_of_isRich hr] at hne
        refine ⟨rfl, hr, ?_⟩
        cases hold : s.definition? j file with
        | none => simp [hold] at hne
        | some old =>
            rw [hold, Option.some_or] at hne
            exact ⟨old, first, rfl, hfirst, fun e => hne (congrArg some e.symm)⟩
  · rintro ⟨rfl, hr, old, new, hold, hfirst, hne⟩
    have hmid : mid.definition? id g = some old := by
      rw [h.definition?, hold, Option.some_or]
    have hdef : g ∈ mid.definers id := by
      rw [← isSome_definition?_iff, hmid]
      rfl
    refine ⟨.changed id new, (changed_mem_differences h.consistent).mpr
      ⟨?_, hdef, ?_, hrich ▸ hr, ?_⟩, rfl⟩
    · rw [h.extensions]
      exact lt_of_isRich hr
    · rw [h.claims, hfirst, Option.map_some, kept_of_isRich hr]
    · rw [hmid]
      exact fun e => hne (Option.some.inj e).symm

/-- Once the differences are settled and their events are noted, the watch has done its work. -/
theorem Watched.exactDifference (h : Watched file cs s mid claims) {t : Store}
    (hsettled : Settled file (mid.differences ⟨file, claims⟩) mid t) (ht : t.watched = none) :
    ExactDifference file cs s mid t
      ((mid.differences ⟨file, claims⟩).map (Event.ofDifference file mid)) := by
  have hpair := pairwise_differences mid ⟨file, claims⟩
  refine ⟨ht, fun id hid => ?_, hsettled.othersOf_eq (w := ⟨file, claims⟩), ?_,
    h.mem_events_deleted, h.mem_events_changed, ?_⟩
  · rw [← h.claims]
    exact hsettled.definition?_own h.consistent h.shadowed (h.extensions ▸ hid)
  · refine List.Pairwise.map _ ?_ hpair
    intro a b hab heq
    apply hab.1
    rw [← Event.item_ofDifference file mid a, heq, Event.item_ofDifference]
  · refine List.Pairwise.map _ ?_ hpair
    intro a b hab
    rw [Event.item_ofDifference, Event.item_ofDifference]
    exact hab.2

end

/-- From any store that can be reached, with no watch active: a watch of a file, any calls that
ensure first, and an analysis whose listener records and may delete items that have lost their
last definition. -/
theorem exactDifference_of_reachable {s : Store} (hs : s.Reachable) (hw : s.watched = none)
    (file : FileName) {cs : List Call} (hcs : Call.EnsuredFirst s.items.keys cs)
    (prunes : ItemId → Bool) :
    ∃ mid t : Tracked (List Event),
      (Run.step (·.watch file) >>= fun _ => Call.programs cs).exec ⟨s, []⟩ = (.ok (), mid) ∧
      (analyze (.recorder prunes)).exec mid = (.ok (), t) ∧
      ExactDifference file cs s mid.store t.store t.derived := by
  obtain ⟨claims, h⟩ := exists_watched hs.consistent file hcs
  generalize hm : Call.performAll { s with watched := some { file } } cs = mid at h
  obtain ⟨t, hexec, hevents, hunwatched, hsettled⟩ := analyze_ok (Listener.harmless_recorder prunes)
    (P := fun done u => u.derived = done.map (Event.ofDifference file mid))
    (t := ⟨mid, []⟩) h.consistent h.watched rfl (by
      intro done d u _ hv hd hu
      obtain ⟨s', hexec, halike⟩ := Listener.exec_settle_recorder prunes hv
      refine ⟨_, hexec, halike, ?_⟩
      rw [hu, Event.ofDifference_congr hd, List.map_append]
      rfl)
  have htidy := alike_forgetIfEmpty t.store file
  refine ⟨⟨mid, []⟩, _, ?_, hexec, ?_⟩
  · rw [Run.exec_bind_ok (Run.exec_step_ok (watch_eq hw file)), ← hm]
    exact Call.exec_programs hcs fun id hid => Table.isSome_get?_iff.mpr hid
  · rw [hevents]
    exact h.exactDifference (hsettled.of_alike htidy) (htidy.watched.trans hunwatched)

/-! ### An example -/

/-- What the files of the example say about symbols. -/
def aFunction : Definition := .rich ⟨.single .functionType, none, none⟩

/-- What they say about other symbols. -/
def aVariable : Definition := .rich ⟨.single .variableType, none, none⟩

/-- A symbol and a class that two files define, and a symbol that only the first defines. -/
def sampleItems : List Call :=
  [.ensure ⟨0, ['x']⟩, .add ⟨0, ['x']⟩ ['a'] aFunction, .add ⟨0, ['x']⟩ ['b'] aFunction,
    .ensure ⟨0, ['y']⟩, .add ⟨0, ['y']⟩ ['a'] aVariable, .ensure ⟨1, ['c']⟩,
    .add ⟨1, ['c']⟩ ['a'] .bare, .add ⟨1, ['c']⟩ ['b'] .bare]

/-- The first file says something else about the first symbol and drops the rest, and the other
file defines a new symbol meanwhile. -/
def sampleChange : List Call :=
  [.ensure ⟨0, ['x']⟩, .add ⟨0, ['x']⟩ ['a'] aVariable, .add ⟨0, ['x']⟩ ['a'] aFunction,
    .ensure ⟨0, ['z']⟩, .add ⟨0, ['z']⟩ ['b'] aFunction]

/-- The store with the sample items. -/
def sample : Store :=
  Call.performAll { extensions := [⟨.symbols, true⟩, ⟨.classes, false⟩] } sampleItems

theorem reachable_sample : sample.Reachable := by
  refine ⟨Unit, Unit, do
    Run.change (·.register ⟨.symbols, true⟩)
    Run.change (·.register ⟨.classes, false⟩)
    Call.programs sampleItems, (), ?_, rfl⟩
  exact .bind (.register _) fun _ => .bind (.register _) fun _ => Call.public_programs _

theorem exactDifference_sample :
    sample.Reachable ∧ sample.watched = none ∧
      Call.EnsuredFirst sample.items.keys sampleChange ∧
      ∃ mid t : Tracked (List Event),
        (Run.step (·.watch ['a']) >>= fun _ => Call.programs sampleChange).exec ⟨sample, []⟩ =
          (.ok (), mid) ∧
        (analyze (.recorder fun _ => true)).exec mid = (.ok (), t) ∧
        ExactDifference ['a'] sampleChange sample mid.store t.store t.derived :=
  have hcs : Call.EnsuredFirst sample.items.keys sampleChange := by decide
  ⟨reachable_sample, rfl, hcs,
    exactDifference_of_reachable reachable_sample rfl ['a'] hcs fun _ => true⟩

end Store

end Commentary

import Commentary.Proofs.Index.Move

/-!
# What every move keeps

A sound project has a consistent store, no items without definitions, and links that follow the
store. Every move keeps this, whatever texts the claims consist of. If the claims are clean as
well, then links can be told apart by their keys, and the class graph mirrors the store.
-/

namespace Commentary

namespace Claim

open Index

/-- A link has a clean scope. -/
def CleanLink : Claim → Prop
  | .link scope _ => CleanScope scope
  | _ => True

/-- A step starts at a class with a clean name. -/
def CleanStep : Claim → Prop
  | .edge name _ => Clean name
  | _ => True

instance : DecidablePred CleanLink
  | .link scope _ => inferInstanceAs (Decidable (CleanScope scope))
  | .symbol .. => inferInstanceAs (Decidable True)
  | .className .. => inferInstanceAs (Decidable True)
  | .edge .. => inferInstanceAs (Decidable True)

instance : DecidablePred CleanStep
  | .edge name _ => inferInstanceAs (Decidable (Clean name))
  | .symbol .. => inferInstanceAs (Decidable True)
  | .link .. => inferInstanceAs (Decidable True)
  | .className .. => inferInstanceAs (Decidable True)

theorem extension_item_lt (c : Claim) : c.item.extension < 4 := by
  cases c <;> simp [item, symbolItem, linkItem, classItem, edgeItem]

end Claim

namespace Project

open Index

variable {p q : Project} {ok : Claim → Prop} {file : FileName} {s : Store}

/-! ## Defined items after a move -/

theorem isDefined_accept (p : Project) (file : FileName) (c : Claim) :
    (p.accept file c).store.isDefined c.item := by
  rw [store_accept]
  exact Store.isDefined_claim _ _ _ _

theorem isDefined_accept_of_ne (p : Project) (file : FileName) {c : Claim} {j : ItemId}
    (h : j ≠ c.item) : (p.accept file c).store.isDefined j = p.store.isDefined j := by
  rw [store_accept]
  exact Store.isDefined_claim_of_ne _ h _ _

theorem isDefined_accept_of_isDefined (p : Project) (file : FileName) {c : Claim}
    (h : p.store.isDefined c.item) (j : ItemId) :
    (p.accept file c).store.isDefined j = p.store.isDefined j := by
  rw [store_accept]
  exact Store.isDefined_claim_of_isDefined h _ _ j

theorem isDefined_dropped_of_ne (p : Project) (file : FileName) {id j : ItemId} (h : j ≠ id) :
    (p.dropped id file).store.isDefined j = p.store.isDefined j :=
  Store.isDefined_drop_of_ne p.store h file

theorem isDefined_vacate_dropped_of_ne {id j : ItemId}
    (hlast : ¬ (p.dropped id file).store.isDefined id) (h : j ≠ id) :
    ((p.dropped id file).vacate id).store.isDefined j = p.store.isDefined j :=
  ((alike_vacate hlast).isDefined j).trans (isDefined_dropped_of_ne p file h)

theorem isSome_item?_dropped (p : Project) (id : ItemId) (file : FileName) (j : ItemId) :
    ((p.dropped id file).store.item? j).isSome ↔ (p.store.item? j).isSome :=
  Store.isSome_item?_drop p.store id file j

/-- The second project has the same items, the same of them are defined, and its index is the same
but for marks. -/
structure Unmoved (p q : Project) : Prop where
  items : ∀ j, (q.store.item? j).isSome ↔ (p.store.item? j).isSome
  isDefined : ∀ j, q.store.isDefined j = p.store.isDefined j
  links : q.derived.links = p.derived.links
  classes : q.derived.classes = p.derived.classes

theorem Unmoved.of_marked {p q r : Project} (h : Unmoved p q) (hm : Marked q r) :
    Unmoved p r := by
  refine ⟨fun j => ?_, fun j => ?_, hm.links.trans h.links, hm.classes.trans h.classes⟩
  · rw [hm.store, h.items]
  · rw [hm.store, h.isDefined]

theorem unmoved_follow_changed (p : Project) (file : FileName) (id : ItemId)
    (new : Definition) : Unmoved p (p.follow file (.changed id new)) := by
  have h : Unmoved p { p with store := p.store.revise id file new } :=
    ⟨Store.isSome_item?_revise p.store id file new, Store.isDefined_revise p.store id file new,
      rfl, rfl⟩
  simp only [follow]
  split
  · exact h.of_marked (marked_symbolChanged _ id.key file)
  · exact h

/-- As long as another file defines the item, nothing but marks changes. -/
theorem unmoved_follow_deleted {id : ItemId} (hd : (p.dropped id file).store.isDefined id)
    (hp : p.store.isDefined id) : Unmoved p (p.follow file (.deleted id)) := by
  have h : Unmoved p (p.dropped id file) := by
    refine ⟨isSome_item?_dropped p id file, fun j => ?_, rfl, rfl⟩
    by_cases hj : j = id
    · exact hj ▸ hd.trans hp.symm
    · exact isDefined_dropped_of_ne p file hj
  simp only [follow]
  rw [if_pos hd]
  split
  · exact h.of_marked (marked_markReferencing _ id.key)
  · exact h

theorem follow_deleted_of_last {id : ItemId} (hd : ¬ (p.dropped id file).store.isDefined id) :
    p.follow file (.deleted id) = (p.dropped id file).vacate id := by
  simp only [follow]
  exact if_neg hd

/-- Apart from marks, a move records a claim or removes an item that a file was the last to
define. -/
theorem Move.cases (h : Move ok file p q) :
    Unmoved p q ∨ (∃ c, ok c ∧ q = p.accept file c) ∨
      ∃ id, ¬ (p.dropped id file).store.isDefined id ∧ q = (p.dropped id file).vacate id := by
  cases h with
  | @accept c hc => exact .inr (.inl ⟨c, hc, rfl⟩)
  | @follow d hd =>
      cases d with
      | changed id new => exact .inl (unmoved_follow_changed p file id new)
      | deleted id =>
          have hp : p.store.isDefined id := Store.isDefined_of_mem hd
          by_cases hlast : (p.dropped id file).store.isDefined id
          · exact .inl (unmoved_follow_deleted hlast hp)
          · exact .inr (.inr ⟨id, hlast, follow_deleted_of_last hlast⟩)
  | watched w => exact .inl ⟨fun _ => .rfl, fun _ => rfl, rfl, rfl⟩
  | forgetIfEmpty =>
      have halike := Store.alike_forgetIfEmpty p.store file
      refine .inl ⟨fun j => ?_, halike.isDefined, rfl, rfl⟩
      rw [Store.item?, Store.item?, Store.items_forgetIfEmpty]

/-! ## Links -/

theorem follows_accept (h : p.derived.links.Follows p.store) (file : FileName) (c : Claim) :
    (p.accept file c).derived.links.Follows (p.accept file c).store := by
  have hnew := isDefined_accept p file c
  have hrest : ∀ j, j ≠ c.item → (p.accept file c).store.isDefined j = p.store.isDefined j :=
    fun j hj => isDefined_accept_of_ne p file hj
  cases c with
  | symbol symbol d =>
      by_cases hd : p.store.isDefined (symbolItem symbol)
      · have hsame := isDefined_accept_of_isDefined p file (c := .symbol symbol d) hd
        have hlinks : (p.accept file (.symbol symbol d)).derived.links = p.derived.links := by
          rw [accept, addSymbol_eq, if_pos hd]
        rw [hlinks]
        exact h.congr (fun _ => hsame _) fun _ => hsame _
      · have hlinks : (p.accept file (.symbol symbol d)).derived.links =
            (LinkTable.retargetAll (p.accept file (.symbol symbol d)).store p.derived.links
              (p.derived.links.mentions symbol)).1 := by
          rw [accept, addSymbol_eq, if_neg hd]
          rfl
        rw [hlinks]
        exact h.retargetAll symbol hrest
  | link scope text =>
      have hlinks : (p.accept file (.link scope text)).derived.links =
          p.derived.links.add p.store scope text := by
        rw [accept, addLink_eq]
      rw [hlinks]
      exact h.add scope text hnew hrest
  | className name =>
      have hlinks : (p.accept file (.className name)).derived.links = p.derived.links :=
        (marked_addClass p file name).links
      rw [hlinks]
      exact h.congr (fun _ => hrest _ (by simp [Claim.item, symbolItem, classItem]))
        fun _ => hrest _ (by simp [Claim.item, linkItem, classItem])
  | edge name parent =>
      have hlinks : (p.accept file (.edge name parent)).derived.links = p.derived.links :=
        (marked_addParent p file name parent).links
      rw [hlinks]
      exact h.congr (fun _ => hrest _ (by simp [Claim.item, symbolItem, edgeItem]))
        fun _ => hrest _ (by simp [Claim.item, linkItem, edgeItem])

theorem follows_vacate {id : ItemId} (h : p.derived.links.Follows s)
    (hgone : ¬ p.store.isDefined id)
    (hrest : ∀ j, j ≠ id → p.store.isDefined j = s.isDefined j) :
    (p.vacate id).derived.links.Follows (p.vacate id).store := by
  have halike := alike_vacate hgone
  have hgone' : ¬ (p.vacate id).store.isDefined id := by rwa [halike.isDefined]
  have hrest' : ∀ j, j ≠ id → (p.vacate id).store.isDefined j = s.isDefined j :=
    fun j hj => (halike.isDefined j).trans (hrest j hj)
  have hother : 2 ≤ id.extension → p.derived.links.Follows (p.vacate id).store := by
    intro hle
    refine h.congr (fun _ => hrest' _ ?_) fun _ => hrest' _ ?_
    all_goals
      rintro rfl
      simp [symbolItem, linkItem] at hle
  obtain ⟨extension, key⟩ := id
  rcases extension with _ | _ | _ | _ | n
  · exact h.retargetAll key hrest'
  · exact h.remove key hgone' hrest'
  · rw [links_vacate_class]
    exact hother (by simp)
  · rw [links_vacate_edge]
    exact hother (by simp)
  · exact hother (by simp)

theorem Move.follows (h : Move ok file p q) (hp : p.derived.links.Follows p.store) :
    q.derived.links.Follows q.store := by
  obtain h | ⟨c, -, rfl⟩ | ⟨id, hlast, rfl⟩ := h.cases
  · rw [h.links]
    exact hp.congr (fun _ => h.isDefined _) fun _ => h.isDefined _
  · exact follows_accept hp file c
  · exact follows_vacate (p := p.dropped id file) hp hlast
      fun j hj => isDefined_dropped_of_ne p file hj

/-! ## Scopes -/

theorem cleanScopes_accept (h : p.derived.links.CleanScopes) (file : FileName) {c : Claim}
    (hc : c.CleanLink) : (p.accept file c).derived.links.CleanScopes := by
  cases c with
  | symbol symbol d =>
      rw [accept, addSymbol_eq]
      split
      · exact h
      · exact h.retargetAll _ _
  | link scope text =>
      rw [accept, addLink_eq]
      exact h.add p.store hc text
  | className name =>
      rw [accept, (marked_addClass p file name).links]
      exact h
  | edge name parent =>
      rw [accept, (marked_addParent p file name parent).links]
      exact h

theorem cleanScopes_vacate (h : p.derived.links.CleanScopes) (id : ItemId) :
    (p.vacate id).derived.links.CleanScopes := by
  obtain ⟨extension, key⟩ := id
  rcases extension with _ | _ | _ | _ | n
  · exact h.retargetAll _ _
  · exact h.remove key
  · rw [links_vacate_class]
    exact h
  · rw [links_vacate_edge]
    exact h
  · exact h

theorem Move.cleanScopes (h : Move ok file p q) (hok : ∀ c, ok c → c.CleanLink)
    (hp : p.derived.links.CleanScopes) : q.derived.links.CleanScopes := by
  obtain h | ⟨c, hc, rfl⟩ | ⟨id, -, rfl⟩ := h.cases
  · rw [h.links]
    exact hp
  · exact cleanScopes_accept hp file (hok c hc)
  · exact cleanScopes_vacate (p := p.dropped id file) hp id

/-! ## Classes -/

theorem mirrors_accept (h : p.derived.classes.Mirrors p.store) (file : FileName) {c : Claim}
    (hc : c.CleanStep) : (p.accept file c).derived.classes.Mirrors (p.accept file c).store := by
  have hnew := isDefined_accept p file c
  have hrest : ∀ j, j ≠ c.item → (p.accept file c).store.isDefined j = p.store.isDefined j :=
    fun j hj => isDefined_accept_of_ne p file hj
  have hother : c.item.extension < 2 →
      (p.accept file c).derived.classes.Mirrors (p.accept file c).store := by
    intro hext
    rw [classes_accept p file hext]
    refine h.congr (fun _ => hrest _ ?_) fun _ => hrest _ ?_
    all_goals
      intro he
      simp [← he, classItem, edgeItem] at hext
  cases c with
  | symbol symbol d => exact hother (by simp [Claim.item, symbolItem])
  | link scope text => exact hother (by simp [Claim.item, linkItem])
  | className name =>
      have hclasses : (p.accept file (.className name)).derived.classes =
          p.derived.classes.ensure name := (marked_addClass p file name).classes
      rw [hclasses]
      exact h.ensure hnew hrest
  | edge name parent =>
      have hclasses := (marked_addParent p file name parent).classes
      rw [accept] at hnew hrest ⊢
      rw [hclasses]
      by_cases hd : p.store.isDefined (edgeItem (edgeKey name parent))
      · have hsame := isDefined_accept_of_isDefined p file (c := .edge name parent) hd
        simp only [if_pos hd]
        rw [h.ensure_of_isDefined hc hd]
        exact h.congr (fun _ => hsame _) fun _ => hsame _
      · simp only [if_neg hd]
        exact h.connect hc hnew hrest

theorem mirrors_vacate {id : ItemId} (h : p.derived.classes.Mirrors s)
    (hgone : ¬ p.store.isDefined id)
    (hrest : ∀ j, j ≠ id → p.store.isDefined j = s.isDefined j) :
    (p.vacate id).derived.classes.Mirrors (p.vacate id).store := by
  have halike := alike_vacate hgone
  have hgone' : ¬ (p.vacate id).store.isDefined id := by rwa [halike.isDefined]
  have hrest' : ∀ j, j ≠ id → (p.vacate id).store.isDefined j = s.isDefined j :=
    fun j hj => (halike.isDefined j).trans (hrest j hj)
  have hother : id.extension ≠ 2 → id.extension ≠ 3 →
      p.derived.classes.Mirrors (p.vacate id).store := by
    intro h2 h3
    refine h.congr (fun _ => hrest' _ ?_) fun _ => hrest' _ ?_
    · rintro rfl
      exact h2 rfl
    · rintro rfl
      exact h3 rfl
  obtain ⟨extension, key⟩ := id
  rcases extension with _ | _ | _ | _ | n
  · exact hother (by simp) (by simp)
  · exact hother (by simp) (by simp)
  · rw [classes_vacate_class]
    exact h.prune hgone' hrest'
  · cases hsplit : splitEdgeKey? key with
    | none =>
        have hclasses : (p.vacate ⟨3, key⟩).derived.classes = p.derived.classes := by
          simp only [vacate, hsplit]
        rw [hclasses]
        exact h.of_splitEdgeKey?_eq_none hsplit hrest'
    | some step =>
        obtain ⟨name, parent⟩ := step
        rw [vacate_edge hsplit] at hgone' hrest' ⊢
        obtain ⟨hclean, rfl⟩ := eq_pair_of_unpair?_eq_some hsplit
        exact h.disconnect hclean hgone' hrest'
  · exact hother (by simp) (by simp)

theorem Move.mirrors (h : Move ok file p q) (hok : ∀ c, ok c → c.CleanStep)
    (hp : p.derived.classes.Mirrors p.store) : q.derived.classes.Mirrors q.store := by
  obtain h | ⟨c, hc, rfl⟩ | ⟨id, hlast, rfl⟩ := h.cases
  · rw [h.classes]
    exact hp.congr (fun _ => h.isDefined _) fun _ => h.isDefined _
  · exact mirrors_accept hp file (hok c hc)
  · exact mirrors_vacate (p := p.dropped id file) hp hlast
      fun j hj => isDefined_dropped_of_ne p file hj

/-! ## Items -/

/-- There is no item without definitions, and none outside of the extensions of a project. -/
def Occupied (s : Store) : Prop :=
  ∀ id, (s.item? id).isSome → id.extension < 4 ∧ s.isDefined id

theorem Move.occupied (h : Move ok file p q) (hp : Occupied p.store) : Occupied q.store := by
  intro j hj
  obtain h | ⟨c, -, rfl⟩ | ⟨id, hlast, rfl⟩ := h.cases
  · rw [h.isDefined]
    exact hp j ((h.items j).mp hj)
  · by_cases hc : j = c.item
    · exact hc ▸ ⟨c.extension_item_lt, isDefined_accept p file c⟩
    · rw [store_accept, Store.isSome_item?_claim] at hj
      rw [isDefined_accept_of_ne p file hc]
      exact hp j (hj.resolve_left hc)
  · have hkept : (p.store.item? j).isSome ∧ j ≠ id := by
      rw [store_vacate] at hj
      split at hj
      · rw [Store.isSome_item?_eraseItem, isSome_item?_dropped] at hj
        exact hj.symm
      · next hext =>
          rw [isSome_item?_dropped] at hj
          exact ⟨hj, fun he => hext (he ▸ (hp j hj).1)⟩
    obtain ⟨hext, hd⟩ := hp j hkept.1
    rw [isDefined_vacate_dropped_of_ne hlast hkept.2]
    exact ⟨hext, hd⟩

/-- A project whose parts agree with each other. -/
structure Sound (p : Project) : Prop where
  consistent : p.store.Consistent
  extensions : p.store.extensions = Index.extensions
  occupied : Occupied p.store
  links : p.derived.links.Follows p.store

theorem Move.sound (h : Move ok file p q) (hp : p.Sound) : q.Sound :=
  ⟨h.consistent hp.consistent, h.extensions_eq.trans hp.extensions, h.occupied hp.occupied,
    h.follows hp.links⟩

theorem sound_empty : Sound .empty where
  consistent :=
    ⟨fun _ _ => iff_of_false List.not_mem_nil List.not_mem_nil,
      fun _ _ _ he => absurd he List.not_mem_nil⟩
  extensions := rfl
  occupied := fun _ h => absurd h Bool.false_ne_true
  links := LinkTable.follows_empty

theorem cleanScopes_empty : Project.empty.derived.links.CleanScopes := by
  intro key link h
  cases h

theorem mirrors_empty : Project.empty.derived.classes.Mirrors Project.empty.store := by
  refine ⟨fun name parent => ?_, fun name parent => ?_, fun name => ?_⟩
  · exact iff_of_false List.not_mem_nil fun h => Bool.false_ne_true h.2
  · exact iff_of_false List.not_mem_nil fun h => Bool.false_ne_true h.2
  · refine iff_of_false Bool.false_ne_true ?_
    rintro (h | ⟨k, h | h⟩)
    · exact Bool.false_ne_true h
    · exact List.not_mem_nil h
    · exact List.not_mem_nil h

end Project

end Commentary
